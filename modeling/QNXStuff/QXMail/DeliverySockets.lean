import QNXStuff.QXMail.Delivery

/-! The sockets of a delivery round: what it opens it closes once, unless it gives up on all targets. -/

namespace QNXStuff.QXMail

open Execution Lifetimes

/-! ### The dialogue -/

def Dialogue.Uses {α : Type} (sock : Nat) (program : Dialogue α) : Prop :=
  ∀ talk, ∃ more, (program.run.run talk).2.events = talk.events ++ more ∧
    ∀ event ∈ more, event.life = .used sock

namespace Dialogue.Uses

variable {α β : Type} {sock : Nat}

theorem pure (value : α) : Uses sock (pure value : Dialogue α) := fun _ =>
  ⟨[], (List.append_nil _).symm, nofun⟩

theorem throw (result : Int) : Uses sock (throw result : Dialogue α) := fun _ =>
  ⟨[], (List.append_nil _).symm, nofun⟩

theorem bind {program : Dialogue α} {next : α → Dialogue β} (first : Uses sock program)
    (rest : ∀ value, Uses sock (next value)) : Uses sock (program >>= next) := by
  intro talk
  obtain ⟨more, events, uses⟩ := first talk
  have step : (program >>= next).run.run talk =
      match program.run.run talk with
      | (.ok value, talk) => (next value).run.run talk
      | (.error result, talk) => (.error result, talk) := by
    rw [ExceptT.run_bind, StateT.run_bind]
    rcases program.run.run talk with ⟨outcome, talk'⟩
    cases outcome <;> rfl
  rw [step]
  rcases done : program.run.run talk with ⟨outcome, talk'⟩
  rw [done] at events
  cases outcome with
  | error result => exact ⟨more, events, uses⟩
  | ok value =>
    obtain ⟨later, events', uses'⟩ := rest value talk'
    refine ⟨more ++ later, ?_, ?_⟩
    · rw [← List.append_assoc, ← events]
      exact events'
    · intro event member
      exact (List.mem_append.mp member).elim (uses event) (uses' event)

theorem say (bytes : List UInt8) : Uses sock (say sock bytes) := fun _ =>
  ⟨[.sent sock bytes], rfl, fun event member => by rw [List.mem_singleton.mp member]; rfl⟩

theorem readReply : Uses sock (readReply sock) := fun _ =>
  ⟨[.received sock], rfl, fun event member => by rw [List.mem_singleton.mp member]; rfl⟩

theorem hear : Uses sock (hear sock) := by
  refine readReply.bind fun reply => ?_
  cases reply with
  | none => exact throw _
  | some code => exact pure code

theorem expect (code : String) : Uses sock (expect sock code) := by
  refine hear.bind fun reply => ?_
  split
  · exact pure ()
  · exact throw _

theorem offerRcpts (rcpts : List (List UInt8)) (numValidRcpt : Nat) :
    Uses sock (offerRcpts sock rcpts numValidRcpt) := by
  induction rcpts generalizing numValidRcpt with
  | nil => exact pure _
  | cons rcpt rest ih =>
    refine (say _).bind fun _ => readReply.bind fun reply => ?_
    cases reply with
    | none => exact pure _
    | some code => exact ih _

theorem sendBody (readError : Bool) (chunks : List (List UInt8 × Bool)) :
    Uses sock (sendBody sock readError chunks) := by
  induction chunks with
  | nil =>
    unfold QXMail.sendBody
    split
    · exact throw _
    · exact pure _
  | cons chunk rest ih =>
    refine (say _).bind fun _ => ?_
    split
    · exact ih
    · exact throw _

theorem sayHello (mail : Outgoing) : Uses sock (sayHello sock mail) := by
  refine (expect _).bind fun _ => (say _).bind fun _ => hear.bind fun reply => ?_
  split
  · exact pure ()
  · exact (say _).bind fun _ => expect _

theorem sendData (mail : Outgoing) : Uses sock (sendData sock mail) :=
  (say _).bind fun _ => (expect _).bind fun _ => (sendBody _ _).bind fun _ =>
    (say _).bind fun _ => expect _

theorem sendMessage (mail : Outgoing) : Uses sock (sendMessage sock mail) := by
  refine (sayHello _).bind fun _ => (say _).bind fun _ => (expect _).bind fun _ =>
    (offerRcpts _ _).bind fun numValidRcpt => ?_
  split
  · exact throw _
  · exact sendData _

end Dialogue.Uses

/-! ### The round -/

/-- The life of the sockets in a trace. -/
def lives (events : List SocketEvent) : List (Event Nat) := events.map SocketEvent.life

@[simp] theorem lives_append (events later : List SocketEvent) :
    lives (events ++ later) = lives events ++ lives later := List.map_append

/-- What is asked of the sockets of a round: while it connects nothing has been closed twice, and at
its end everything is closed. -/
structure SocketsKept (round : Round) : Prop where
  trying : ∀ start, round.connectStart = .ok start → ∀ fuel,
    ∀ state ∈ passes (connectTurn round.useSMTPRelay round.attempts) fuel start,
      track (lives state.events) [] ≠ none
  ended : ∀ fuel events, round.events fuel = .ok events → Clean (lives events)

/-- All targets of a direct delivery are removed before an attempt connects. -/
def UsedUp (targets : List (List UInt8)) (attempts : Nat → Attempt) : Prop :=
  ∃ n, (∀ place < n, (attempts place).Fails) ∧ targets.length ≤ removals attempts n

theorem GoesOn.clean {useSMTPRelay : Bool} {attempt : Attempt} {state next : Connecting}
    (goesOn : GoesOn useSMTPRelay attempt state next) (clean : Clean (lives state.events)) :
    Clean (lives next.events) := by
  rcases goesOn.events with ⟨_, same⟩ | ⟨_, more⟩
  · rw [same]
    exact clean
  · rw [more, lives_append]
    exact clean.append (@Clean.life Nat _ [] attempt.sock nofun)

/-- From its socket on, a connection is closed once. -/
theorem finish_connected (round : Round) {sock : Nat} {before : List SocketEvent}
    {state : Connecting} (clean : Clean (lives before)) (events : state.events = before ++ [.opened sock])
    (held : state.sock = some sock) : Clean (lives (round.finish (.connected sock, state))) := by
  have closes (uses : List SocketEvent) (all : ∀ event ∈ uses, event.life = .used sock)
      (result : Int) :
      Clean (lives (state.events ++ uses ++ Round.badResult state.sock result)) := by
    have whole : lives (state.events ++ uses ++ Round.badResult state.sock result) =
        lives before ++ (.opened sock :: lives (uses ++ if result = -1 ∨ result = -2 then []
          else [.sent sock (ascii "QUIT\r\n")]) ++ [.closed sock]) := by
      simp [events, held, Round.badResult, lives, SocketEvent.life]
    rw [whole]
    refine clean.append (Clean.life fun event member => ?_)
    obtain ⟨used, inside, rfl⟩ := List.mem_map.mp member
    rcases List.mem_append.mp inside with inside | quit
    · exact all used inside
    · split at quit
      · cases quit
      · rw [List.mem_singleton.mp quit]
        rfl
  obtain ⟨more, talked, uses⟩ := Dialogue.Uses.sendMessage round.mail ⟨[], round.replies⟩
  rw [List.nil_append] at talked
  rcases done : (sendMessage sock round.mail).run.run ⟨[], round.replies⟩ with ⟨outcome, talk⟩
  rw [done] at talked
  cases outcome with
  | ok value =>
    have finished : round.finish (.connected sock, state) =
        state.events ++ talk.events ++ Round.badResult state.sock 0 := by
      simp only [Round.finish, done]
    rw [finished, talked]
    exact closes more uses 0
  | error result =>
    have finished : round.finish (.connected sock, state) =
        state.events ++ talk.events ++ Round.badResult state.sock result := by
      simp only [Round.finish, done]
    rw [finished, talked]
    exact closes more uses result

/-- Whenever the loop is entered, all sockets are closed. -/
theorem passes_clean {useSMTPRelay : Bool} {attempts : Nat → Attempt} {start : Connecting}
    (clean : Clean (lives start.events)) (fuel : Nat) :
    ∀ state ∈ passes (connectTurn useSMTPRelay attempts) fuel start, Clean (lives state.events) := by
  induction fuel generalizing start with
  | zero => nofun
  | succ fuel ih =>
    intro state member
    rcases List.mem_cons.mp member with rfl | later
    · exact clean
    · rcases connectTurn_cases useSMTPRelay attempts start with ⟨_, _, turn⟩ |
        ⟨_, next, turn, _⟩ | ⟨_, next, turn, goesOn⟩
      · rw [turn] at later
        cases later
      · rw [turn] at later
        cases later
      · rw [turn] at later
        exact ih (goesOn.clean clean) state later

/-- The sockets are closed once when the loop ends, unless it gives up. -/
theorem loop_clean (round : Round) {start : Connecting} (clean : Clean (lives start.events))
    {fuel : Nat} {ending : ConnectEnd × Connecting}
    (done : loop (connectTurn round.useSMTPRelay round.attempts) () fuel start = .ok ending) :
    Clean (lives (round.finish ending)) ∨
      round.useSMTPRelay = false ∧ ending.1 = .gaveUp := by
  induction fuel generalizing start with
  | zero => cases done
  | succ fuel ih =>
    rcases connectTurn_cases round.useSMTPRelay round.attempts start with ⟨direct, _, turn⟩ |
      ⟨_, next, turn, _, held, events⟩ | ⟨_, next, turn, goesOn⟩
    · rw [loop, turn] at done
      cases done
      exact .inr ⟨direct, rfl⟩
    · rw [loop, turn] at done
      cases done
      exact .inl (finish_connected round clean events held)
    · rw [loop, turn] at done
      exact ih (goesOn.clean clean) done

section Direct

variable {attempts : Nat → Attempt} {targets : List (List UInt8)} {state : Connecting}

theorem Trying.usedUp {fuel : Nat} {final : Connecting} (trying : Trying attempts targets state)
    (done : loop (connectTurn false attempts) () fuel state = .ok (.gaveUp, final)) :
    UsedUp targets attempts := by
  induction fuel generalizing state with
  | zero => cases done
  | succ fuel ih =>
    rcases connectTurn_cases false attempts state with ⟨_, none, _⟩ | ⟨_, next, turn, _⟩ |
      ⟨_, next, turn, goesOn⟩
    · have counted := trying.counted
      rw [none, List.length_nil, Nat.zero_add] at counted
      exact ⟨state.made, trying.failed, counted.ge⟩
    · rw [loop, turn] at done
      cases done
    · rw [loop, turn] at done
      exact ih (trying.next goesOn) done

/-- And when they are used up it gives up, with all sockets closed and the number of the last one in
its variable. -/
theorem Trying.givesUp {n : Nat} (trying : Trying attempts targets state)
    (failed : ∀ place < n, (attempts place).Fails) (used : targets.length ≤ removals attempts n)
    (early : state.made ≤ n) (clean : Clean (lives state.events)) (held : state.sock ≠ none) :
    ∃ fuel final, loop (connectTurn false attempts) () fuel state = .ok (.gaveUp, final) ∧
      Clean (lives final.events) ∧ final.sock ≠ none := by
  induction left : n - state.made generalizing state with
  | zero =>
    have counted := trying.counted
    have made : state.made = n := by omega
    rw [made] at counted
    have none : state.targets = [] := List.length_eq_zero_iff.mp (by omega)
    refine ⟨1, state, ?_, clean, held⟩
    simp only [loop, connectTurn, none, Bool.false_eq_true, if_false]
  | succ left' ih =>
    rcases connectTurn_cases false attempts state with ⟨_, _, turn⟩ | ⟨connects, next, turn, _⟩ |
      ⟨_, next, turn, goesOn⟩
    · refine ⟨1, state, ?_, clean, held⟩
      rw [loop, turn]
    · exact absurd (failed state.made (by omega)) (connects rfl).2
    · have made := goesOn.made
      have held' : next.sock ≠ none := by
        rcases goesOn.events with ⟨same, _⟩ | ⟨same, _⟩
        · rw [same]
          exact held
        · rw [same]
          exact Option.some_ne_none _
      obtain ⟨fuel, final, done, rest⟩ := ih (trying.next goesOn) (by omega) (goesOn.clean clean)
        held' (by omega)
      refine ⟨fuel + 1, final, ?_, rest⟩
      rw [loop, turn]
      exact done

end Direct

/-- Up to the loop the DNS socket is opened and closed; in a direct delivery the answer gives the
targets. -/
theorem Round.connectStart_cases (round : Round) :
    (∃ events, round.connectStart = .error events ∧ Clean (lives events) ∧
        ¬ ∃ sock targets, round.dns = some sock ∧ round.answer = some targets) ∨
      ∃ start, round.connectStart = .ok start ∧ Clean (lives start.events) ∧
        (round.useSMTPRelay = false → ∃ sock targets, round.dns = some sock ∧
          round.answer = some targets ∧ Trying round.attempts targets start ∧ start.made = 0 ∧
            start.sock ≠ none) := by
  unfold Round.connectStart
  cases relay : round.useSMTPRelay with
  | true => exact .inr ⟨_, if_pos rfl, Clean.nil, nofun⟩
  | false =>
    rw [if_neg Bool.false_ne_true]
    cases dns : round.dns with
    | none =>
      refine .inl ⟨[], rfl, Clean.nil, ?_⟩
      rintro ⟨_, _, found, _⟩
      cases found
    | some sock =>
      have asked : Clean (lives [.opened sock, .sent sock round.question, .received sock,
          .closed sock]) := by
        refine @Clean.life Nat _ [.used sock, .used sock] sock fun event member => ?_
        rcases List.mem_cons.mp member with rfl | last
        · rfl
        · exact List.mem_singleton.mp last
      cases answer : round.answer with
      | none =>
        refine .inl ⟨_, rfl, asked, ?_⟩
        rintro ⟨_, _, _, found⟩
        cases found
      | some targets =>
        refine .inr ⟨_, rfl, asked, fun _ => ⟨sock, targets, rfl, rfl, ?_, rfl, nofun⟩⟩
        exact ⟨fun _ before => absurd before (Nat.not_lt_zero _), rfl, List.Subset.refl _⟩

/-- A round closes every socket once, and uses none that is closed, if and only if it goes to the
relay, or gets no answer from DNS, or does not use up the targets of the answer. -/
theorem sockets_kept_iff (round : Round) : SocketsKept round ↔
    ¬ (round.useSMTPRelay = false ∧ ∃ sock targets, round.dns = some sock ∧
      round.answer = some targets ∧ UsedUp targets round.attempts) := by
  rcases round.connectStart_cases with ⟨done, stopped, clean, unanswered⟩ | ⟨start, starts, clean, direct⟩
  · constructor
    · rintro - ⟨_, sock, targets, dns, answer, _⟩
      exact unanswered ⟨sock, targets, dns, answer⟩
    · intro _
      refine ⟨fun start starts => ?_, fun fuel events finished => ?_⟩
      · rw [stopped] at starts
        cases starts
      · simp only [Round.events, stopped] at finished
        cases finished
        exact clean
  · constructor
    · rintro kept ⟨relay, sock, targets, dns, answer, n, failed, used⟩
      obtain ⟨_, targets', _, same, trying, made, held⟩ := direct relay
      cases answer.symm.trans same
      obtain ⟨fuel, final, done, clean', held'⟩ :=
        trying.givesUp failed used (made ▸ Nat.zero_le n) clean held
      obtain ⟨last, held'⟩ := Option.ne_none_iff_exists'.mp held'
      have ended : round.events fuel = .ok (final.events ++ [.closed last]) := by
        simp [Round.events, starts, relay, done, Except.map, Round.finish, Round.badResult, held']
      have twice := kept.ended fuel _ ended
      rw [lives_append] at twice
      exact nomatch (clean'.closed_again last).symm.trans twice
    · intro within
      refine ⟨fun start' starts' fuel state member => ?_, fun fuel events finished => ?_⟩
      · cases starts.symm.trans starts'
        rw [passes_clean clean fuel state member]
        nofun
      · simp only [Round.events, starts] at finished
        obtain ⟨ending, done, rfl⟩ := map_eq_ok.mp finished
        rcases loop_clean round clean done with closed | ⟨relay, gaveUp⟩
        · exact closed
        · obtain ⟨sock, targets, dns, answer, trying, _⟩ := direct relay
          obtain ⟨ending, final⟩ := ending
          cases gaveUp
          rw [relay] at done
          exact absurd ⟨relay, sock, targets, dns, answer, trying.usedUp done⟩ within

/-- A domain whose only exchange has no address: the round asks DNS on the descriptor 4. -/
def unresolvedRound : Round where
  useSMTPRelay := false
  dns := some 4
  question := [0, 2, 1, 0]
  answer := some [ascii "mx.a"]
  attempts := fun _ => ⟨false, 5, none⟩
  mail := ⟨ascii "mail", ascii "me@mail", [ascii "you@a"], [], false⟩
  replies := []

/-- The descriptor 4 is closed behind the answer and again at the end. -/
theorem dns_socket_is_closed_twice : ¬ SocketsKept unresolvedRound := by
  intro kept
  have twice := kept.ended 2 [.opened 4, .sent 4 [0, 2, 1, 0], .received 4, .closed 4, .closed 4] rfl
  exact absurd twice (by decide)

end QNXStuff.QXMail
