import Mathlib.Data.Fintype.Defs
import QNXStuff.Library.Execution
import QNXStuff.Library.LinkedList

/-! The queue of accepted connections between the main loop and the pool threads. -/

namespace QNXStuff.QXMail

open Execution LinkedList

abbrev Ptr := Nat

/-- What the queue uses of `conn_info_t`. -/
structure ConnInfo where
  tcpSock : Nat
  next : Option Ptr
  deriving DecidableEq

/-- Where a thread of the pool is: behind neither `pool_block` nor `pool_handler`, in
`pthread_cond_wait`, behind it without the mutex, or in `pool_handler` with `ts->conn`. -/
inductive PoolThread where
  | idle
  | asleep
  | woken
  | handling (conn : Ptr)
  deriving DecidableEq

/-- `c_head`, `c_tail`, the connections in memory, and the threads of `the_pool`. -/
structure Acceptor (Thread : Type) where
  cHead : Option Ptr
  cTail : Option Ptr
  mem : Ptr → Option ConnInfo
  threads : Thread → PoolThread

/-- The main loop accepts a connection and signals, or a thread goes on. -/
inductive AcceptInput (Thread : Type) where
  | accept (conn : Ptr) (sock : Nat) (signalled : Option Thread)
  /-- The thread gets the mutex, at first or after a wait. -/
  | block (thread : Thread)
  /-- `pthread_cond_wait` returns without a signal. -/
  | wake (thread : Thread)
  | handled (thread : Thread)
  deriving DecidableEq

inductive AcceptEvent (Thread : Type) where
  | accepted (conn : Ptr) (sock : Nat)
  | waits (thread : Thread)
  | handed (thread : Thread) (conn : Ptr) (sock : Nat)
  | wakes (thread : Thread)
  | freed (thread : Thread) (conn : Ptr)
  deriving DecidableEq

/-- A pointer that is no connection's, or an input that does not come. -/
inductive AcceptFault where
  | wild
  | absent
  deriving DecidableEq

namespace Acceptor

variable {Thread : Type}

/-- "add connection at the end of the list" -/
def enqueue (state : Acceptor Thread) (conn : Ptr) : Except AcceptFault (Acceptor Thread) :=
  if state.cHead = state.cTail then
    .ok { state with cHead := some conn, cTail := some conn }
  else
    match state.cTail with
    | none => .error .wild
    | some last =>
      match state.mem last with
      | none => .error .wild
      | some info =>
        .ok { state with
          mem := Function.update state.mem last (some { info with next := some conn })
          cTail := some conn }

section

variable [DecidableEq Thread]

/-- `pthread_cond_signal` wakes a thread if one waits. -/
def condSignal [Fintype Thread] (state : Acceptor Thread) (signalled : Option Thread) :
    Except AcceptFault (Acceptor Thread) :=
  match signalled with
  | none => if ∀ thread, state.threads thread ≠ .asleep then .ok state else .error .absent
  | some thread =>
    if state.threads thread = .asleep then
      .ok { state with threads := Function.update state.threads thread .woken }
    else .error .absent

/-- `malloc` and `accept`, then the critical section of the main loop. -/
def accept [Fintype Thread] (state : Acceptor Thread) (conn : Ptr) (sock : Nat)
    (signalled : Option Thread) : Except AcceptFault (Acceptor Thread × AcceptEvent Thread) :=
  if state.mem conn ≠ none then .error .absent
  else do
    let state := { state with mem := Function.update state.mem conn (some ⟨sock, none⟩) }
    let state ← state.enqueue conn
    let state ← state.condSignal signalled
    return (state, .accepted conn sock)

def poolBlock (state : Acceptor Thread) (thread : Thread) :
    Except AcceptFault (Acceptor Thread × AcceptEvent Thread) :=
  match state.cHead with
  | none =>
    .ok ({ state with threads := Function.update state.threads thread .asleep }, .waits thread)
  | some conn =>
    match state.mem conn with
    | none => .error .wild
    | some info =>
      let state := { state with threads := Function.update state.threads thread (.handling conn) }
      let state :=
        if state.cHead = state.cTail then { state with cHead := none, cTail := none }
        else { state with cHead := info.next }
      .ok (state, .handed thread conn info.tcpSock)

def handle [Fintype Thread] (state : Acceptor Thread) :
    AcceptInput Thread → Except AcceptFault (Acceptor Thread × AcceptEvent Thread)
  | .accept conn sock signalled => state.accept conn sock signalled
  | .block thread =>
    match state.threads thread with
    | .idle | .woken => state.poolBlock thread
    | _ => .error .absent
  | .wake thread =>
    if state.threads thread = .asleep then
      .ok ({ state with threads := Function.update state.threads thread .woken }, .wakes thread)
    else .error .absent
  | .handled thread =>
    match state.threads thread with
    | .handling conn =>
      if state.mem conn = none then .error .wild
      else
        .ok ({ state with
          mem := Function.update state.mem conn none
          threads := Function.update state.threads thread .idle }, .freed thread conn)
    | _ => .error .absent

end

def started : Acceptor Thread where
  cHead := none
  cTail := none
  mem := fun _ => none
  threads := fun _ => .idle

end Acceptor

abbrev AcceptLabel (Thread : Type) := AcceptInput Thread × AcceptEvent Thread

abbrev AcceptStep {Thread : Type} [DecidableEq Thread] [Fintype Thread] :
    Acceptor Thread → AcceptLabel Thread → Acceptor Thread → Prop :=
  Answers Acceptor.handle

def AcceptEvent.accepted? {Thread : Type} : AcceptEvent Thread → Option (Ptr × Nat)
  | .accepted conn sock => some (conn, sock)
  | _ => none

def AcceptEvent.handed? {Thread : Type} : AcceptEvent Thread → Option (Ptr × Nat)
  | .handed _ conn sock => some (conn, sock)
  | _ => none

/-- The accepted connections, and those handed to a thread, in their order. -/
def acceptedOf {Thread : Type} (labels : List (AcceptLabel Thread)) : List (Ptr × Nat) :=
  labels.flatMap fun label => label.2.accepted?.toList

def handedOf {Thread : Type} (labels : List (AcceptLabel Thread)) : List (Ptr × Nat) :=
  labels.flatMap fun label => label.2.handed?.toList

namespace Acceptor

variable {Thread : Type}

def next (state : Acceptor Thread) (conn : Ptr) : Option Ptr :=
  (state.mem conn).bind ConnInfo.next

structure Queue (state : Acceptor Thread) (waiting : List (Ptr × Nat)) : Prop where
  linked : Chain state.next state.cHead (waiting.map Prod.fst)
  last : state.cTail = (waiting.map Prod.fst).getLast?
  socks : ∀ conn ∈ waiting, (state.mem conn.1).map ConnInfo.tcpSock = some conn.2

/-- No connection is accepted while exactly one waits. -/
def Calm (state : Acceptor Thread) : AcceptInput Thread → Prop
  | .accept _ _ _ => state.cHead = state.cTail → state.cHead = none
  | _ => True

instance {state : Acceptor Thread} {input : AcceptInput Thread} : Decidable (state.Calm input) :=
  match input with
  | .accept _ _ _ => inferInstanceAs (Decidable (_ → _))
  | .block _ => isTrue trivial
  | .wake _ => isTrue trivial
  | .handled _ => isTrue trivial

/-- At most one connection waits, and a connection that waits or is handled is nobody else's. -/
structure Sound (state : Acceptor Thread) (waiting : Option (Ptr × Nat)) : Prop where
  head : state.cHead = waiting.map Prod.fst
  tail : state.cTail = waiting.map Prod.fst
  node : ∀ conn, waiting = some conn → state.mem conn.1 = some ⟨conn.2, none⟩
  apart : ∀ conn, waiting = some conn → ∀ thread, state.threads thread ≠ .handling conn.1
  live : ∀ thread conn, state.threads thread = .handling conn → state.mem conn ≠ none
  alone : ∀ thread other conn, state.threads thread = .handling conn →
    state.threads other = .handling conn → thread = other

/-- Where a connection waits and a thread sleeps, a thread was woken. -/
def Served (state : Acceptor Thread) (waiting : Option (Ptr × Nat)) : Prop :=
  waiting ≠ none → (∃ thread, state.threads thread = .asleep) →
    ∃ thread, state.threads thread = .woken

variable {state after : Acceptor Thread} {waiting : Option (Ptr × Nat)} {conn : Ptr} {sock : Nat}

theorem Sound.queue (sound : state.Sound waiting) : state.Queue waiting.toList := by
  cases waiting with
  | none =>
    exact { linked := sound.head
            last := sound.tail
            socks := nofun }
  | some conn =>
    have node := sound.node conn rfl
    refine { linked := ⟨sound.head, ?_⟩, last := sound.tail, socks := ?_ }
    · show state.next conn.1 = none
      simp [next, node]
    · intro other member
      rw [List.mem_singleton.mp member, node]
      rfl

theorem started_sound : (started : Acceptor Thread).Sound none where
  head := rfl
  tail := rfl
  node := nofun
  apart := nofun
  live := nofun
  alone := nofun

theorem Sound.head_eq_tail (sound : state.Sound waiting) : state.cHead = state.cTail :=
  sound.head.trans sound.tail.symm

/-- `c_head == c_tail` always holds: a new connection is the only one then. -/
theorem Sound.enqueue_eq (sound : state.Sound waiting) :
    ({ state with mem := Function.update state.mem conn (some ⟨sock, none⟩) } :
      Acceptor Thread).enqueue conn = .ok { state with
        cHead := some conn
        cTail := some conn
        mem := Function.update state.mem conn (some ⟨sock, none⟩) } :=
  if_pos sound.head_eq_tail

/-- A new connection at the end of an empty queue. -/
theorem Sound.enqueue (sound : state.Sound none) (sock : Nat) (fresh : state.mem conn = none) :
    ({ state with
        cHead := some conn
        cTail := some conn
        mem := Function.update state.mem conn (some ⟨sock, none⟩) } : Acceptor Thread).Sound
      (some (conn, sock)) where
  head := rfl
  tail := rfl
  node := by
    rintro _ ⟨⟩
    exact Function.update_self ..
  apart := by
    rintro _ ⟨⟩ thread handles
    exact sound.live thread conn handles fresh
  live := by
    intro thread other handles
    have held := sound.live thread other handles
    have different : other ≠ conn := by
      rintro rfl
      exact held fresh
    simpa [Function.update_of_ne different] using held
  alone := sound.alone

/-- A connection that comes under the condition is the first in the queue. -/
theorem waiting_of_calm {input : AcceptInput Thread} (sound : state.Sound waiting)
    (calm : state.Calm input) {signalled : Option Thread}
    (here : input = .accept conn sock signalled) : waiting = none := by
  subst here
  have empty := calm sound.head_eq_tail
  rw [sound.head] at empty
  cases waiting with
  | none => rfl
  | some waiter => cases empty

section Threads

variable [DecidableEq Thread]

theorem handling_update {threads : Thread → PoolThread} {thread other : Thread} {now : PoolThread}
    (here : Function.update threads thread now other = .handling conn) :
    other = thread ∧ now = .handling conn ∨ other ≠ thread ∧ threads other = .handling conn := by
  by_cases same : other = thread
  · subst same
    rw [Function.update_self] at here
    exact .inl ⟨rfl, here⟩
  · rw [Function.update_of_ne same] at here
    exact .inr ⟨same, here⟩

/-- A thread that falls asleep or wakes up handles nothing. -/
theorem handling_of_moved {threads : Thread → PoolThread} {thread other : Thread}
    {now : PoolThread} (idle : ∀ conn, now ≠ .handling conn)
    (here : Function.update threads thread now other = .handling conn) :
    threads other = .handling conn := by
  rcases handling_update here with ⟨-, now⟩ | ⟨-, before⟩
  · exact absurd now (idle conn)
  · exact before

theorem Sound.move (sound : state.Sound waiting) {thread : Thread} {now : PoolThread}
    (idle : ∀ conn, now ≠ .handling conn) :
    ({ state with threads := Function.update state.threads thread now } : Acceptor Thread).Sound
      waiting where
  head := sound.head
  tail := sound.tail
  node := sound.node
  apart := fun conn here other handles =>
    sound.apart conn here other (handling_of_moved idle handles)
  live := fun other conn handles => sound.live other conn (handling_of_moved idle handles)
  alone := fun first second conn handles handles' =>
    sound.alone first second conn (handling_of_moved idle handles) (handling_of_moved idle handles')

/-- A thread takes the connection that waits. -/
theorem Sound.hand (sound : state.Sound (some (conn, sock))) {thread : Thread} :
    ({ state with
        cHead := none
        cTail := none
        threads := Function.update state.threads thread (.handling conn) } : Acceptor Thread).Sound
      none where
  head := rfl
  tail := rfl
  node := nofun
  apart := nofun
  live := by
    intro other held handles
    rcases handling_update handles with ⟨-, taken⟩ | ⟨-, before⟩
    · cases taken
      rw [sound.node (conn, sock) rfl]
      nofun
    · exact sound.live other held before
  alone := by
    intro first second held handles handles'
    have apart := sound.apart (conn, sock) rfl
    rcases handling_update handles with ⟨same, taken⟩ | ⟨-, before⟩
    · cases taken
      rcases handling_update handles' with ⟨same', -⟩ | ⟨-, before'⟩
      · exact same.trans same'.symm
      · exact absurd before' (apart second)
    · rcases handling_update handles' with ⟨-, taken⟩ | ⟨-, before'⟩
      · cases taken
        exact absurd before (apart first)
      · exact sound.alone first second held before before'

/-- A thread frees the connection that it handled. -/
theorem Sound.free (sound : state.Sound waiting) {thread : Thread}
    (handles : state.threads thread = .handling conn) :
    ({ state with
        mem := Function.update state.mem conn none
        threads := Function.update state.threads thread .idle } : Acceptor Thread).Sound
      waiting where
  head := sound.head
  tail := sound.tail
  node := by
    intro other here
    have different : other.1 ≠ conn := by
      rintro rfl
      exact sound.apart other here thread handles
    simpa [Function.update_of_ne different] using sound.node other here
  apart := fun other here thread' handles' =>
    sound.apart other here thread' (handling_of_moved (by nofun) handles')
  live := by
    intro other held handles'
    rcases handling_update handles' with ⟨-, taken⟩ | ⟨another, before⟩
    · cases taken
    · have different : held ≠ conn := by
        rintro rfl
        exact another (sound.alone other thread held before handles)
      simpa [Function.update_of_ne different] using sound.live other held before
  alone := fun first second held handles handles' =>
    sound.alone first second held (handling_of_moved (by nofun) handles)
      (handling_of_moved (by nofun) handles')

theorem Served.free (served : state.Served waiting) {thread : Thread}
    (handles : state.threads thread = .handling conn) :
    ({ state with
        mem := Function.update state.mem conn none
        threads := Function.update state.threads thread .idle } : Acceptor Thread).Served
      waiting := by
  rintro full ⟨sleeper, asleep⟩
  have slept : state.threads sleeper = .asleep := by
    by_cases same : sleeper = thread
    · subst same
      simp at asleep
    · simpa [Function.update_of_ne same] using asleep
  obtain ⟨other, woken⟩ := served full ⟨sleeper, slept⟩
  refine ⟨other, ?_⟩
  have different : other ≠ thread := by
    rintro rfl
    rw [handles] at woken
    cases woken
  simpa [Function.update_of_ne different] using woken

theorem condSignal_ok [Fintype Thread] {signalled : Option Thread}
    (done : state.condSignal signalled = .ok after) :
    (after = state ∧ ∀ thread, state.threads thread ≠ .asleep) ∨
      ∃ thread, after =
        { state with threads := Function.update state.threads thread .woken } := by
  unfold condSignal at done
  cases signalled with
  | none =>
    simp only at done
    split at done
    · next awake =>
      cases done
      exact .inl ⟨rfl, awake⟩
    · cases done
  | some thread =>
    simp only at done
    split at done
    · cases done
      exact .inr ⟨thread, rfl⟩
    · cases done

end Threads

section Steps

/-- What a step does to the queue and its threads. -/
def Keeps (waiting : Option (Ptr × Nat)) (event : AcceptEvent Thread) (after : Acceptor Thread) :
    Prop :=
  ∃ waiting', after.Sound waiting' ∧ after.Served waiting' ∧
    waiting.toList ++ event.accepted?.toList = event.handed?.toList ++ waiting'.toList

variable [DecidableEq Thread]

theorem poolBlock_keeps {thread : Thread} {event : AcceptEvent Thread}
    (sound : state.Sound waiting) (done : state.poolBlock thread = .ok (after, event)) :
    Keeps waiting event after := by
  unfold poolBlock at done
  have head := sound.head
  split at done
  · next empty =>
    cases done
    cases waiting with
    | none => exact ⟨none, sound.move (by nofun), fun full => absurd rfl full, rfl⟩
    | some waiter =>
      rw [empty] at head
      cases head
  · next conn full =>
    cases waiting with
    | none =>
      rw [full] at head
      cases head
    | some waiter =>
      rw [full] at head
      cases head
      have node := sound.node waiter rfl
      simp only [node, sound.head_eq_tail, if_true] at done
      cases done
      exact ⟨none, sound.hand, fun full => absurd rfl full, rfl⟩

theorem poolBlock_hands (sound : state.Sound (some (conn, sock))) (thread : Thread) :
    ∃ next, state.poolBlock thread = .ok (next, .handed thread conn sock) := by
  have head : state.cHead = some conn := sound.head
  have node : state.mem conn = some ⟨sock, none⟩ := sound.node (conn, sock) rfl
  unfold poolBlock
  simp only [head, node]
  exact ⟨_, rfl⟩

theorem poolBlock_not_wild {thread : Thread} (sound : state.Sound waiting) :
    state.poolBlock thread ≠ .error .wild := by
  intro failed
  cases waiting with
  | none =>
    have head : state.cHead = none := sound.head
    simp [poolBlock, head] at failed
  | some waiter =>
    obtain ⟨next, handed⟩ := poolBlock_hands sound thread
    rw [handed] at failed
    cases failed

variable [Fintype Thread]

theorem condSignal_not_wild {signalled : Option Thread} :
    state.condSignal signalled ≠ .error .wild := by
  intro failed
  unfold condSignal at failed
  cases signalled with
  | none =>
    simp only at failed
    split at failed
    · cases failed
    · cases failed
  | some thread =>
    simp only at failed
    split at failed
    · cases failed
    · cases failed

theorem accept_keeps {signalled : Option Thread} {event : AcceptEvent Thread}
    (sound : state.Sound none)
    (done : state.accept conn sock signalled = .ok (after, event)) : Keeps none event after := by
  unfold accept at done
  split at done
  · cases done
  · next fresh =>
    have queued := sound.enqueue sock (not_not.mp fresh)
    simp only [sound.enqueue_eq, bind, Except.bind] at done
    split at done
    · cases done
    · next woken signalled =>
      cases done
      rcases condSignal_ok signalled with ⟨rfl, awake⟩ | ⟨thread, rfl⟩
      · exact ⟨_, queued, fun _ ⟨thread, asleep⟩ => absurd asleep (awake thread), rfl⟩
      · exact ⟨_, queued.move (by nofun), fun _ _ => ⟨thread, Function.update_self ..⟩, rfl⟩

theorem step_keeps {label : AcceptLabel Thread} (sound : state.Sound waiting)
    (served : state.Served waiting) (step : AcceptStep state label after)
    (calm : state.Calm label.1) : Keeps waiting label.2 after := by
  obtain ⟨input, event⟩ := label
  have done : state.handle input = .ok (after, event) := step
  cases input with
  | accept conn sock signalled =>
    obtain rfl := waiting_of_calm sound calm rfl
    exact accept_keeps sound done
  | block thread =>
    simp only [handle] at done
    split at done
    · exact poolBlock_keeps sound done
    · exact poolBlock_keeps sound done
    · cases done
  | wake thread =>
    simp only [handle] at done
    split at done
    · cases done
      exact ⟨waiting, sound.move (by nofun), fun _ _ => ⟨thread, Function.update_self ..⟩,
        by simp [AcceptEvent.accepted?, AcceptEvent.handed?]⟩
    · cases done
  | handled thread =>
    simp only [handle] at done
    split at done
    · next conn handles =>
      split at done
      · cases done
      · cases done
        exact ⟨waiting, sound.free handles, served.free handles,
          by simp [AcceptEvent.accepted?, AcceptEvent.handed?]⟩
    · cases done

theorem run_keeps {labels : List (AcceptLabel Thread)}
    (run : Run (Under AcceptStep fun state label => state.Calm label.1) started labels after) :
    ∃ waiting, after.Sound waiting ∧ after.Served waiting ∧
      acceptedOf labels = handedOf labels ++ waiting.toList := by
  have kept := @Run.history _ _ _
    (fun past state => ∃ waiting, state.Sound waiting ∧ state.Served waiting ∧
      acceptedOf past = handedOf past ++ waiting.toList) _ _ [] _ run
    ⟨none, started_sound, fun full => absurd rfl full, rfl⟩
    (by
      rintro past state label next ⟨waiting, sound, served, order⟩ ⟨step, calm⟩
      obtain ⟨waiting', sound', served', moved⟩ := step_keeps sound served step calm
      refine ⟨waiting', sound', served', ?_⟩
      calc acceptedOf (past ++ [label])
          = acceptedOf past ++ label.2.accepted?.toList := by simp [acceptedOf]
        _ = handedOf past ++ (waiting.toList ++ label.2.accepted?.toList) := by
            rw [order, List.append_assoc]
        _ = handedOf past ++ label.2.handed?.toList ++ waiting'.toList := by
            rw [moved, List.append_assoc]
        _ = handedOf (past ++ [label]) ++ waiting'.toList := by simp [handedOf])
  simpa using kept

/-- A sound queue has no pointer that is not a connection's. -/
theorem Sound.not_wild (sound : state.Sound waiting) (input : AcceptInput Thread) :
    state.handle input ≠ .error .wild := by
  intro failed
  cases input with
  | accept conn sock signalled =>
    simp only [handle, accept] at failed
    split at failed
    · cases failed
    · simp only [sound.enqueue_eq, bind, Except.bind] at failed
      split at failed
      · next signal =>
        cases failed
        exact condSignal_not_wild signal
      · cases failed
  | block thread =>
    simp only [handle] at failed
    split at failed
    · exact poolBlock_not_wild sound failed
    · exact poolBlock_not_wild sound failed
    · cases failed
  | wake thread =>
    simp only [handle] at failed
    split at failed
    · cases failed
    · cases failed
  | handled thread =>
    simp only [handle] at failed
    split at failed
    · next conn handles =>
      split at failed
      · next freed => exact sound.live thread conn handles freed
      · cases failed
    · cases failed

end Steps

end Acceptor

section

variable {Thread : Type} [DecidableEq Thread] [Fintype Thread]

/-- While no connection is accepted when exactly one waits, the connections are handed out in the
order in which they were accepted, each to one thread, and none is lost: what was not handed out
is in the queue, its first is there for every thread that comes, and no thread that could have it
sleeps unless another was woken. -/
theorem accepted_are_handed_in_order (labels : List (AcceptLabel Thread)) (final : Acceptor Thread)
    (run : Run (Under AcceptStep fun state label => state.Calm label.1) Acceptor.started labels
      final) :
    ∃ waiting, acceptedOf labels = handedOf labels ++ waiting ∧ final.Queue waiting ∧
      (∀ input, final.handle input ≠ .error .wild) ∧
      ∀ first rest, waiting = first :: rest →
        (∀ thread, final.threads thread = .idle ∨ final.threads thread = .woken →
          ∃ next, AcceptStep final (.block thread, .handed thread first.1 first.2) next) ∧
        ((∃ thread, final.threads thread = .asleep) →
          ∃ thread, final.threads thread = .woken) := by
  obtain ⟨waiting, sound, served, order⟩ := Acceptor.run_keeps run
  refine ⟨waiting.toList, order, sound.queue, sound.not_wild, ?_⟩
  intro first rest here
  cases waiting with
  | none => cases here
  | some waiter =>
    cases here
    refine ⟨?_, served (Option.some_ne_none _)⟩
    intro thread comes
    obtain ⟨next, handed⟩ := Acceptor.poolBlock_hands sound thread
    refine ⟨next, ?_⟩
    show final.handle (.block thread) = _
    rcases comes with idle | woken
    · simpa only [Acceptor.handle, idle] using handed
    · simpa only [Acceptor.handle, woken] using handed

end

/-- Two threads wait, and each takes one of two connections. -/
theorem two_threads_take_two : ∃ labels, ∃ final : Acceptor Bool,
    Run (Under AcceptStep fun state label => state.Calm label.1) Acceptor.started labels final ∧
      handedOf labels = [(1, 7), (2, 8)] ∧
      ∃ waiting, acceptedOf labels = handedOf labels ++ waiting ∧ final.Queue waiting := by
  obtain ⟨labels, final, run, seen⟩ := replay_reaches
    (guarded Acceptor.handle Acceptor.Calm) (Acceptor.started : Acceptor Bool)
    [.block false, .block true, .accept 1 7 (some true), .block true, .accept 2 8 (some false),
      .handled true, .block false]
    (fun _ labels => handedOf labels) [(1, 7), (2, 8)] (by decide +kernel)
  have run := run_guarded run
  obtain ⟨waiting, order, queue, -⟩ := accepted_are_handed_in_order labels final run
  exact ⟨labels, final, run, seen, waiting, order, queue⟩

/-- The second of two connections that come before a thread takes the place of the first. -/
theorem waiting_connection_is_dropped : ∃ labels, ∃ final : Acceptor Bool,
    Run AcceptStep Acceptor.started labels final ∧ acceptedOf labels = [(1, 7), (2, 8)] ∧
      handedOf labels = [(2, 8)] ∧ final.cHead = none ∧
      ¬ ∃ waiting, acceptedOf labels = handedOf labels ++ waiting ∧ final.Queue waiting := by
  obtain ⟨labels, final, run, seen⟩ := replay_reaches Acceptor.handle
    (Acceptor.started : Acceptor Bool)
    [.accept 1 7 none, .accept 2 8 none, .block false]
    (fun final labels => decide (acceptedOf labels = [(1, 7), (2, 8)] ∧
      handedOf labels = [(2, 8)] ∧ final.cHead = none))
    true (by decide +kernel)
  obtain ⟨accepted, handed, head⟩ := of_decide_eq_true seen
  refine ⟨labels, final, run, accepted, handed, head, ?_⟩
  rintro ⟨waiting, order, -⟩
  rw [accepted, handed] at order
  cases order

end QNXStuff.QXMail
