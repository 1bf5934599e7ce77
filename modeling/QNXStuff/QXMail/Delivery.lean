import QNXStuff.Library.Lifetimes
import QNXStuff.QXMail.Text

/-! One round of external delivery: the spooler asks for the mail exchangers of a domain, connects
to one of them or to the relay, and hands the message over. -/

namespace QNXStuff.QXMail

open Execution Lifetimes

/-! ### Sockets -/

/-- What the spooler does with a descriptor. -/
inductive SocketEvent where
  | opened (sock : Nat)
  | sent (sock : Nat) (bytes : List UInt8)
  | received (sock : Nat)
  | closed (sock : Nat)
  deriving DecidableEq

def SocketEvent.life : SocketEvent → Event Nat
  | .opened sock => .opened sock
  | .sent sock _ => .used sock
  | .received sock => .used sock
  | .closed sock => .closed sock

/-! ### Connecting -/

/-- `errno` behind `connect`. -/
inductive ConnectError where
  | refused
  | timedOut
  | other (errno : Nat)
  deriving DecidableEq

/-- What one turn of the loop meets: whether `gethostbyname_r` finds the target, the descriptor that
`socket` gives (it is called until it gives one), and what `connect` says. -/
structure Attempt where
  resolved : Bool
  sock : Nat
  error : Option ConnectError
  deriving DecidableEq

/-- The variables of the loop, how many turns it has made and what they did. -/
structure Connecting where
  made : Nat
  targets : List (List UInt8)
  sock : Option Nat
  events : List SocketEvent

inductive ConnectEnd where
  | connected (sock : Nat)
  | gaveUp
  deriving DecidableEq

/-- The targets after an error of `connect` to the first one. -/
def afterError (target : List UInt8) (rest : List (List UInt8)) : ConnectError → List (List UInt8)
  | .refused => rest
  | .timedOut => if rest ≠ [] then rest ++ [target] else target :: rest
  | .other _ => target :: rest

/-- "now the IP seems to be available" -/
def tryConnect (attempt : Attempt) (state : Connecting)
    (left : ConnectError → List (List UInt8)) : Pass Connecting (ConnectEnd × Connecting) :=
  let opened : Connecting :=
    { state with
      made := state.made + 1
      sock := some attempt.sock
      events := state.events ++ [.opened attempt.sock] }
  match attempt.error with
  | none => .stop (.connected attempt.sock, opened)
  | some error =>
    .again { opened with targets := left error, events := opened.events ++ [.closed attempt.sock] }

def connectTurn (useSMTPRelay : Bool) (attempts : Nat → Attempt) (state : Connecting) :
    Except Unit (Pass Connecting (ConnectEnd × Connecting)) :=
  let attempt := attempts state.made
  if useSMTPRelay then .ok (tryConnect attempt state fun _ => state.targets)
  else
    match state.targets with
    | [] => .ok (.stop (.gaveUp, state))
    | target :: rest =>
      if attempt.resolved then .ok (tryConnect attempt state (afterError target rest))
      else .ok (.again { state with made := state.made + 1, targets := rest })

/-! ### The dialogue -/

/-- What the peer answers to `ReadString`: the three bytes at the start of `netbuf`, or nothing. -/
abbrev PeerReply := Option (List UInt8)

structure Talk where
  events : List SocketEvent
  replies : List PeerReply

/-- A part of the dialogue, which may end with a negative `result`. -/
abbrev Dialogue := ExceptT Int (StateM Talk)

def say (sock : Nat) (bytes : List UInt8) : Dialogue Unit :=
  modify fun talk => { talk with events := talk.events ++ [.sent sock bytes] }

/-- `ReadString`; without a reply in sight it fails. -/
def readReply (sock : Nat) : Dialogue PeerReply :=
  modifyGet fun talk =>
    (talk.replies.head?.join, ⟨talk.events ++ [.received sock], talk.replies.tail⟩)

/-- `if(result <= 0) continue;` -/
def hear (sock : Nat) : Dialogue (List UInt8) := do
  match ← readReply sock with
  | none => throw (-1)
  | some code => pure code

/-- The message, and what `send` and `read` make of its file. -/
structure Outgoing where
  fqdn : List UInt8
  sender : List UInt8
  rcpts : List (List UInt8)
  chunks : List (List UInt8 × Bool)
  readError : Bool

/-- "send all RCPT TO:"; a lost connection only ends the loop. -/
def offerRcpts (sock : Nat) : List (List UInt8) → (numValidRcpt : Nat) → Dialogue Nat
  | [], numValidRcpt => pure numValidRcpt
  | rcpt :: rest, numValidRcpt => do
    say sock (ascii "RCPT TO:<" ++ rcpt ++ ascii ">\r\n")
    match ← readReply sock with
    | none => pure numValidRcpt
    | some code => offerRcpts sock rest (if code = ascii "250" then numValidRcpt + 1 else numValidRcpt)

/-- "send body of the message" -/
def sendBody (sock : Nat) (readError : Bool) : List (List UInt8 × Bool) → Dialogue Unit
  | [] => if readError then throw (-1) else pure ()
  | (chunk, sent) :: rest => do
    say sock chunk
    if sent then sendBody sock readError rest else throw (-1)

/-- A reply that has to begin with a code. -/
def expect (sock : Nat) (code : String) : Dialogue Unit := do
  let reply ← hear sock
  if reply = ascii code then pure () else throw (-3)

/-- The greeting and EHLO, or HELO for a server that refuses EHLO. -/
def sayHello (sock : Nat) (mail : Outgoing) : Dialogue Unit := do
  expect sock "220"
  say sock (ascii "EHLO " ++ mail.fqdn ++ ascii "\r\n")
  let reply ← hear sock
  if reply = ascii "250" then pure ()
  else
    say sock (ascii "HELO " ++ mail.fqdn ++ ascii "\r\n")
    expect sock "250"

/-- "send DATA" -/
def sendData (sock : Nat) (mail : Outgoing) : Dialogue Unit := do
  say sock (ascii "DATA\r\n")
  expect sock "354"
  sendBody sock mail.readError mail.chunks
  say sock (ascii "\r\n.\r\n")
  expect sock "250"

/-- "now we seem to be connected - try to send message" -/
def sendMessage (sock : Nat) (mail : Outgoing) : Dialogue Unit := do
  sayHello sock mail
  say sock (ascii "MAIL FROM:<" ++ mail.sender ++ ascii ">\r\n")
  expect sock "250"
  let numValidRcpt ← offerRcpts sock mail.rcpts 0
  if numValidRcpt = 0 then throw (-2) else sendData sock mail

/-! ### A round -/

/-- What a round meets: `socket` for DNS, the answer to the question as it is decoded, the attempts to
connect, and the dialogue. -/
structure Round where
  useSMTPRelay : Bool
  dns : Option Nat
  question : List UInt8
  answer : Option (List (List UInt8))
  attempts : Nat → Attempt
  mail : Outgoing
  replies : List PeerReply

namespace Round

/-- Up to the loop that connects, or what has been done when there is no answer. -/
def connectStart (round : Round) : Except (List SocketEvent) Connecting :=
  if round.useSMTPRelay then .ok ⟨0, [], none, []⟩
  else
    match round.dns with
    -- nothing can be sent or received on -1, and nothing is closed
    | none => .error []
    | some sock =>
      let asked := [.opened sock, .sent sock round.question, .received sock]
      match round.answer with
      | none => .error (asked ++ [.closed sock])
      | some targets => .ok ⟨0, targets, some sock, asked ++ [.closed sock]⟩

/-- `bad_result`, with the `result` of the dialogue. -/
def badResult (sock : Option Nat) (result : Int) : List SocketEvent :=
  match sock with
  | none => []
  | some sock =>
    (if result = -1 ∨ result = -2 then [] else [.sent sock (ascii "QUIT\r\n")]) ++ [.closed sock]

/-- From the end of the loop to the end of the round. -/
def finish (round : Round) : ConnectEnd × Connecting → List SocketEvent
  | (.gaveUp, state) => state.events ++ badResult state.sock (-2)
  | (.connected sock, state) =>
    match (sendMessage sock round.mail).run.run ⟨[], round.replies⟩ with
    | (.ok _, talk) => state.events ++ talk.events ++ badResult state.sock 0
    | (.error result, talk) => state.events ++ talk.events ++ badResult state.sock result

/-- Everything that a round does with sockets. -/
def events (round : Round) (fuel : Nat) : Except Unit (List SocketEvent) :=
  match round.connectStart with
  | .error done => .ok done
  | .ok start =>
    (loop (connectTurn round.useSMTPRelay round.attempts) () fuel start).map round.finish

end Round

/-! ### The attempts -/

def Attempt.Fails (attempt : Attempt) : Prop :=
  ¬ (attempt.resolved = true ∧ attempt.error = none)

/-- The attempt takes its target off the list. -/
def Attempt.removes (attempt : Attempt) : Bool :=
  !attempt.resolved || attempt.error = some .refused

/-- How many of the first attempts do. -/
def removals (attempts : Nat → Attempt) (n : Nat) : Nat :=
  (List.range n).countP fun place => (attempts place).removes

theorem removals_succ (attempts : Nat → Attempt) (n : Nat) :
    removals attempts (n + 1) = removals attempts n + if (attempts n).removes then 1 else 0 := by
  rw [removals, List.range_succ, List.countP_append, List.countP_singleton]
  rfl

theorem afterError_length (target : List UInt8) (rest : List (List UInt8)) (error : ConnectError) :
    (afterError target rest error).length + (if error = .refused then 1 else 0) =
      rest.length + 1 := by
  cases error with
  | refused => rfl
  | timedOut =>
    by_cases more : rest ≠ []
    · simp [afterError, more]
    · simp [afterError, more]
  | other errno => rfl

theorem afterError_subset (target : List UInt8) (rest : List (List UInt8)) (error : ConnectError) :
    afterError target rest error ⊆ target :: rest := by
  intro other member
  cases error with
  | refused => exact List.mem_cons_of_mem _ member
  | timedOut =>
    by_cases more : rest ≠ []
    · simp only [afterError, if_pos more, List.mem_append, List.mem_singleton] at member
      exact member.elim (List.mem_cons_of_mem _) fun same => same ▸ List.mem_cons_self
    · simpa only [afterError, if_neg more] using member
  | other errno => exact member

/-- What a turn that goes on has done: an attempt has failed, and its socket, if it had one, is closed
again. -/
structure GoesOn (useSMTPRelay : Bool) (attempt : Attempt) (state next : Connecting) : Prop where
  failed : useSMTPRelay = false → attempt.Fails
  made : next.made = state.made + 1
  counted : useSMTPRelay = false →
    next.targets.length + (if attempt.removes then 1 else 0) = state.targets.length
  known : next.targets ⊆ state.targets
  events : next.sock = state.sock ∧ next.events = state.events ∨
    next.sock = some attempt.sock ∧
      next.events = state.events ++ [.opened attempt.sock, .closed attempt.sock]

theorem connectTurn_cases (useSMTPRelay : Bool) (attempts : Nat → Attempt) (state : Connecting) :
    (useSMTPRelay = false ∧ state.targets = [] ∧
        connectTurn useSMTPRelay attempts state = .ok (.stop (.gaveUp, state))) ∨
      ((useSMTPRelay = false → state.targets ≠ [] ∧ ¬ (attempts state.made).Fails) ∧
        ∃ next, connectTurn useSMTPRelay attempts state =
            .ok (.stop (.connected (attempts state.made).sock, next)) ∧
          next.targets = state.targets ∧ next.sock = some (attempts state.made).sock ∧
          next.events = state.events ++ [.opened (attempts state.made).sock]) ∨
      ((useSMTPRelay = false → state.targets ≠ []) ∧
        ∃ next, connectTurn useSMTPRelay attempts state = .ok (.again next) ∧
          GoesOn useSMTPRelay (attempts state.made) state next) := by
  unfold connectTurn
  generalize attempts state.made = attempt
  obtain ⟨resolved, sock, error⟩ := attempt
  cases useSMTPRelay with
  | true =>
    rw [if_pos rfl]
    cases error with
    | none => exact .inr (.inl ⟨nofun, _, rfl, rfl, rfl, rfl⟩)
    | some error =>
      refine .inr (.inr ⟨nofun, _, rfl, nofun, rfl, nofun, List.Subset.refl _, .inr ⟨rfl, ?_⟩⟩)
      exact List.append_assoc _ _ _
  | false =>
    rw [if_neg Bool.false_ne_true]
    cases targets : state.targets with
    | nil => exact .inl ⟨rfl, rfl, rfl⟩
    | cons target rest =>
      cases resolved with
      | false =>
        refine .inr (.inr ⟨fun _ => List.cons_ne_nil _ _, _, rfl, ?_, rfl, ?_, ?_, .inl ⟨rfl, rfl⟩⟩)
        · exact fun _ both => Bool.false_ne_true both.1
        · exact fun _ => congrArg List.length targets.symm
        · rw [targets]
          exact List.subset_cons_self _ _
      | true =>
        cases error with
        | none =>
          exact .inr (.inl ⟨fun _ => ⟨List.cons_ne_nil _ _, fun fails => fails ⟨rfl, rfl⟩⟩,
            _, rfl, targets, rfl, rfl⟩)
        | some error =>
          refine .inr (.inr ⟨fun _ => List.cons_ne_nil _ _, _, rfl, ?_, rfl, ?_, ?_,
            .inr ⟨rfl, List.append_assoc _ _ _⟩⟩)
          · exact fun _ both => nomatch both.2
          · intro _
            have length := afterError_length target rest error
            simpa [Attempt.removes, targets] using length
          · rw [targets]
            exact afterError_subset target rest error

section Direct

variable {attempts : Nat → Attempt} {targets : List (List UInt8)} {state : Connecting}

/-- The loop in a direct delivery: only failures up to now, each of which has removed its target or
left it. -/
structure Trying (attempts : Nat → Attempt) (targets : List (List UInt8)) (state : Connecting) :
    Prop where
  failed : ∀ place < state.made, (attempts place).Fails
  counted : state.targets.length + removals attempts state.made = targets.length
  known : state.targets ⊆ targets

theorem Trying.next {next : Connecting} (trying : Trying attempts targets state)
    (goesOn : GoesOn false (attempts state.made) state next) : Trying attempts targets next := by
  refine ⟨?_, ?_, List.Subset.trans goesOn.known trying.known⟩
  · intro place before
    rw [goesOn.made] at before
    rcases Nat.lt_or_eq_of_le (Nat.le_of_lt_succ before) with earlier | rfl
    · exact trying.failed place earlier
    · exact goesOn.failed rfl
  · have counted := trying.counted
    have fewer := goesOn.counted rfl
    rw [goesOn.made, removals_succ]
    omega

/-- What the loop should come to: a connection while there are targets, or none of them is left. -/
def Settled : ConnectEnd × Connecting → (targets : List (List UInt8)) → Prop
  | (.connected _, state), targets => state.targets ≠ [] ∧ state.targets ⊆ targets
  | (.gaveUp, state), _ => state.targets = []

/-- If the loop ends, some attempt has connected or the targets are used up. -/
theorem Trying.reason {fuel : Nat} {ending : ConnectEnd × Connecting}
    (trying : Trying attempts targets state)
    (done : loop (connectTurn false attempts) () fuel state = .ok ending) :
    (∃ n, ¬ (attempts n).Fails) ∨ ∃ n, targets.length ≤ removals attempts n := by
  induction fuel generalizing state with
  | zero => cases done
  | succ fuel ih =>
    rcases connectTurn_cases false attempts state with ⟨_, none, _⟩ | ⟨some, _⟩ | ⟨_, next, turn, goesOn⟩
    · have counted := trying.counted
      rw [none, List.length_nil, Nat.zero_add] at counted
      exact .inr ⟨state.made, counted.ge⟩
    · exact .inl ⟨state.made, (some rfl).2⟩
    · rw [loop, turn] at done
      exact ih (trying.next goesOn) done

/-- It ends by the first attempt that connects or that uses up the targets. -/
theorem Trying.settles {n : Nat} (trying : Trying attempts targets state) (early : state.made ≤ n)
    (bound : ¬ (attempts n).Fails ∨ targets.length ≤ removals attempts n) {fuel : Nat}
    (enough : n + 1 - state.made < fuel) :
    ∃ ending, loop (connectTurn false attempts) () fuel state = .ok ending ∧
      Settled ending targets := by
  have pass : ∀ state : Connecting, Trying attempts targets state ∧ state.made ≤ n →
      PassSpec (fun state => Trying attempts targets state ∧ state.made ≤ n)
        (fun state => n + 1 - state.made)
        (fun outcome => ∃ ending, outcome = .ok ending ∧ Settled ending targets) state
        (connectTurn false attempts state) := by
    rintro state ⟨trying, early⟩
    rcases connectTurn_cases false attempts state with ⟨_, none, turn⟩ |
      ⟨some, next, turn, same, _, _⟩ | ⟨some, next, turn, goesOn⟩
    · rw [turn]
      exact ⟨_, rfl, none⟩
    · rw [turn]
      refine ⟨_, rfl, ?_, ?_⟩
      · rw [same]
        exact (some rfl).1
      · rw [same]
        exact trying.known
    · rw [turn]
      have before : state.made < n := by
        refine Nat.lt_of_le_of_ne early fun same => ?_
        rcases bound with connects | removed
        · exact connects (same ▸ goesOn.failed rfl)
        · have counted := trying.counted
          rw [same] at counted
          exact some rfl (List.length_eq_zero_iff.mp (by omega))
      have made := goesOn.made
      refine ⟨⟨trying.next goesOn, made.trans_le before⟩, ?_⟩
      simp only
      omega
  exact loop_rule_free pass ⟨trying, early⟩ enough

/-- In a direct delivery the loop that connects ends, with a connection or without targets, if and
only if some attempt connects or as many attempts as there are targets are failed resolutions or
refusals. -/
theorem connect_ends_iff (attempts : Nat → Attempt) (targets : List (List UInt8))
    (sock : Option Nat) (events : List SocketEvent) :
    (∃ fuel ending, loop (connectTurn false attempts) () fuel ⟨0, targets, sock, events⟩ =
        .ok ending ∧ Settled ending targets) ↔
      (∃ n, ¬ (attempts n).Fails) ∨ ∃ n, targets.length ≤ removals attempts n := by
  have start : Trying attempts targets ⟨0, targets, sock, events⟩ :=
    ⟨fun _ before => absurd before (Nat.not_lt_zero _), rfl, List.Subset.refl _⟩
  constructor
  · rintro ⟨fuel, ending, done, _⟩
    exact start.reason done
  · intro reason
    have bound : ∃ n, ¬ (attempts n).Fails ∨ targets.length ≤ removals attempts n := by
      rcases reason with ⟨n, connects⟩ | ⟨n, removed⟩
      · exact ⟨n, .inl connects⟩
      · exact ⟨n, .inr removed⟩
    obtain ⟨n, bound⟩ := bound
    exact ⟨n + 2, start.settles (Nat.zero_le n) bound (by simp)⟩

end Direct

/-- A host that is unreachable (113), in every attempt. -/
def unreachable (_ : Nat) : Attempt := ⟨true, 5, some (.other 113)⟩

/-- The only target of a list is tried for ever. -/
theorem unreachable_is_tried_forever :
    ¬ ∃ fuel ending, loop (connectTurn false unreachable) () fuel ⟨0, [ascii "a"], none, []⟩ =
      .ok ending ∧ Settled ending [ascii "a"] := by
  have stuck (fuel : Nat) : ∀ state : Connecting, state.targets = [ascii "a"] →
      loop (connectTurn false unreachable) () fuel state = .error () := by
    induction fuel with
    | zero => exact fun _ _ => rfl
    | succ fuel ih =>
      intro state targets
      rw [loop, connectTurn, targets]
      exact ih _ rfl
  rintro ⟨fuel, ending, done, _⟩
  rw [stuck fuel _ rfl] at done
  cases done

end QNXStuff.QXMail
