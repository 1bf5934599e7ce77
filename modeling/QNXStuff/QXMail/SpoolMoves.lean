import QNXStuff.QXMail.Spool

/-! What a step of the spool does: which message moves from the queue to a thread and out of the
spool, which delivery is made, and how a file comes to a mailbox. -/

namespace QNXStuff.QXMail

open Execution SharedLock

namespace SpoolerThread

/-- The message that a thread has. -/
def held : SpoolerThread → Multiset SpoolMsg
  | .taken msg | .scanning msg | .infected msg | .delivering msg _ _ | .external msg _
  | .done msg => {msg}
  | _ => 0

/-- A thread that has no message, and one of these that was woken. -/
def waits : SpoolerThread → Prop
  | .idle | .asleep | .woken => True
  | _ => False

def rises : SpoolerThread → Nat
  | .woken => 1
  | _ => 0

/-- The message of which a thread has still to find out whether it goes on. -/
def unchecked : SpoolerThread → Multiset SpoolMsg
  | .taken msg | .scanning msg => {msg}
  | _ => 0

def delivers : SpoolerThread → Option SpoolMsg
  | .delivering msg _ _ => some msg
  | _ => none

end SpoolerThread

namespace SpoolEvent

def spooled? : SpoolEvent → Multiset SpoolMsg
  | .spooled msg => {msg}
  | _ => 0

def taken? : SpoolEvent → Multiset SpoolMsg
  | .taken msg => {msg}
  | _ => 0

def released? : SpoolEvent → Multiset SpoolMsg
  | .released msg => {msg}
  | _ => 0

def delivered? : SpoolEvent → Multiset (List UInt8 × List UInt8)
  | .delivered name text => {(name.dir, text)}
  | _ => 0

def lost? : SpoolEvent → Multiset (List UInt8 × List UInt8)
  | .lost user text => {(user, text)}
  | _ => 0

def passed? : SpoolEvent → Multiset SpoolMsg
  | .passed msg => {msg}
  | _ => 0

def stopped? : SpoolEvent → Multiset SpoolMsg
  | .stopped msg => {msg}
  | _ => 0

/-- It is about a thread with a message that keeps it. -/
def Inner (event : SpoolEvent) : Prop :=
  event.spooled? = 0 ∧ event.taken? = 0 ∧ event.released? = 0

end SpoolEvent

/-- The numbers that a round closes a second time. -/
def SpoolInput.strays {Thread : Type} : SpoolInput Thread → List Nat
  | .external _ again => again
  | _ => []

/-- The deliveries that a message is due to the mailboxes of its recipients. -/
def MailServer.due (server : MailServer) (rcpts : List (List UInt8)) (text : List UInt8) :
    Multiset (List UInt8 × List UInt8) :=
  ↑((rcpts.filterMap server.mailbox).map fun mbox => (mbox.user, text))

theorem due_local {server : MailServer} {mbox : Mailbox} {rcpt : List UInt8}
    (known : server.mailbox rcpt = some mbox) (rest : List (List UInt8)) (text : List UInt8) :
    server.due (rcpt :: rest) text = {(mbox.user, text)} + server.due rest text := by
  simp [MailServer.due, List.filterMap_cons_some known]

theorem due_remote {server : MailServer} {rcpt : List UInt8} (known : server.mailbox rcpt = none)
    (rest : List (List UInt8)) (text : List UInt8) :
    server.due (rcpt :: rest) text = server.due rest text := by
  simp [MailServer.due, List.filterMap_cons_none known]

/-- The deliveries that a thread has still to make. -/
def SpoolerThread.pending (server : MailServer) :
    SpoolerThread → Multiset (List UInt8 × List UInt8)
  | .delivering msg rcpts _ => server.due rcpts msg.text
  | _ => 0

namespace Spool

variable {Thread : Type}

/-- A thread goes on with its message. -/
structure Keeps [DecidableEq Thread] (spooling : Spooling Thread) (state : Spool Thread)
    (input : SpoolInput Thread) (before now : SpoolerThread) (event : SpoolEvent) (avEnable : Bool) : Prop where
  held : now.held = before.held
  busy : ¬ before.waits ∧ ¬ now.waits
  inner : event.Inner
  due : now.pending spooling.server + (event.delivered? + event.lost?) =
    before.pending spooling.server +
      event.passed?.bind fun msg => spooling.server.due msg.msg.rcpts msg.text
  checked : now.unchecked + (event.passed? + event.stopped?) = before.unchecked
  lost : event.lost? = 0 ∨ ∃ thread time rand msg, ∃ mbox ∈ spooling.server.mbx,
    input = .deliver thread time rand ∧ before.held = {msg} ∧
      state.disk.link msg.name ⟨mbox.user, destEntry spooling thread time rand⟩ = none
  through : ∀ msg, now.delivers = some msg → before.delivers = some msg ∨
    before = .taken msg ∧ state.avEnable = false ∨
    ∃ thread result, before = .scanning msg ∧ input = .scanned thread result ∧
      state.threads thread = before ∧ result ≠ some .virus
  scanner : avEnable = state.avEnable ∨ ∃ thread, input = .scanned thread none

/-- A thread that neither makes a delivery nor lets a message through. -/
theorem keeps_of_eq [DecidableEq Thread] {spooling : Spooling Thread} {state : Spool Thread}
    {input : SpoolInput Thread} {event : SpoolEvent} {before now : SpoolerThread} {avEnable : Bool}
    (held : now.held = before.held)
    (busy : ¬ before.waits ∧ ¬ now.waits) (inner : event.Inner)
    (due : now.pending spooling.server = before.pending spooling.server)
    (silent : event.delivered? = 0 ∧ event.lost? = 0 ∧ event.passed? = 0)
    (checked : now.unchecked + event.stopped? = before.unchecked)
    (through : ∀ msg, now.delivers = some msg → before.delivers = some msg)
    (scanner : avEnable = state.avEnable) :
    state.Keeps spooling input before now event avEnable where
  held := held
  busy := busy
  inner := inner
  due := by rw [due, silent.1, silent.2.1, silent.2.2, Multiset.zero_bind, add_zero]
  checked := by rw [silent.2.2, zero_add, checked]
  lost := .inl silent.2.1
  through := fun msg here => .inl (through msg here)
  scanner := .inl scanner

variable [DecidableEq Thread]

inductive Does (spooling : Spooling Thread) (state : Spool Thread) (input : SpoolInput Thread) :
    SpoolEvent → Spool Thread → Prop where
  | spools {msg : SpoolMsg} {threads : Thread → SpoolerThread} (free : state.disk msg.name = none)
      (fresh : msg.spoolfd ∉ state.fds)
      (rouses : (∀ thread, state.threads thread ≠ .asleep) ∧ threads = state.threads ∨
        ∃ thread, state.threads thread = .asleep ∧
          threads = Function.update state.threads thread .woken) :
      Does spooling state input (.spooled msg) { state with
        spoolMsgs := msg :: state.spoolMsgs
        disk := Function.update state.disk msg.name (some msg.text)
        fds := msg.spoolfd :: state.fds
        threads := threads }
  | sleeps {thread : Thread} (comes : state.threads thread = .idle ∨ state.threads thread = .woken)
      (empty : state.spoolMsgs = []) : Does spooling state input .quiet (state.move thread .asleep)
  | wakes {thread : Thread} (sleeps : state.threads thread = .asleep) :
      Does spooling state input .quiet (state.move thread .woken)
  | takes {thread : Thread} {msg : SpoolMsg} {rest : List SpoolMsg}
      (comes : state.threads thread = .idle ∨ state.threads thread = .woken)
      (first : state.spoolMsgs = msg :: rest) :
      Does spooling state input (.taken msg)
        ({ state with spoolMsgs := rest }.move thread (.taken msg))
  | keeps {thread : Thread} {now : SpoolerThread} {event : SpoolEvent} {avEnable : Bool}
      {fds : List Nat} (keeps : state.Keeps spooling input (state.threads thread) now event avEnable)
      (unlinked : event.delivered? = 0) (kept : input.strays = [] → fds = state.fds) :
      Does spooling state input event
        ({ state with avEnable := avEnable, fds := fds }.move thread now)
  | saves {thread : Thread} {msg : SpoolMsg} {entry : List UInt8}
      (here : state.threads thread = .infected msg)
      (free : state.disk ⟨ascii "infected", entry⟩ = none) (text : List UInt8) :
      Does spooling state input (.saved true) ({ state with
        disk := Function.update state.disk ⟨ascii "infected", entry⟩ (some text) }.move thread
          (.done msg))
  | delivers {thread : Thread} {msg : SpoolMsg} {mbox : Mailbox} {rcpt entry text : List UInt8}
      {rest crcpt : List (List UInt8)}
      (here : state.threads thread = .delivering msg (rcpt :: rest) crcpt)
      (known : spooling.server.mailbox rcpt = some mbox) (free : state.disk ⟨mbox.user, entry⟩ = none)
      (found : state.disk msg.name = some text) :
      Does spooling state input (.delivered ⟨mbox.user, entry⟩ msg.text) ({ state with
        disk := Function.update state.disk ⟨mbox.user, entry⟩ (some text) }.move thread
          (.delivering msg rest crcpt))
  | releases {thread : Thread} {msg : SpoolMsg} (here : state.threads thread = .done msg) :
      Does spooling state input (.released msg) ({ state with
        disk := state.disk.remove msg.name
        fds := state.fds.erase msg.spoolfd }.move thread .idle)

theorem link_some {disk disk' : Disk} {old new : FileName} (linked : disk.link old new = some disk') :
    ∃ text, disk old = some text ∧ disk new = none ∧ disk' = Function.update disk new (some text) := by
  unfold Disk.link at linked
  split at linked
  · next text there free =>
    cases linked
    exact ⟨text, there, free, rfl⟩
  · cases linked

variable {spooling : Spooling Thread} {state after : Spool Thread} {input : SpoolInput Thread}
  {event : SpoolEvent} {thread : Thread}

theorem move_keeps {now : SpoolerThread} {avEnable : Bool}
    (keeps : state.Keeps spooling input (state.threads thread) now event avEnable)
    (unlinked : event.delivered? = 0)
    (same : after = { state with avEnable := avEnable }.move thread now) :
    Does spooling state input event after := same ▸ .keeps keeps unlinked fun _ => rfl

theorem deliverOne_does {msg : SpoolMsg} {rcpts crcpt : List (List UInt8)} {time rand : Nat}
    (asked : input = .deliver thread time rand) (here : state.threads thread = .delivering msg rcpts crcpt)
    (done : deliverOne spooling state thread msg crcpt time rand rcpts = .ok (after, event)) :
    Does spooling state input event after := by
  cases rcpts with
  | nil =>
    cases done
    refine move_keeps (here ▸ ?_) rfl rfl
    exact keeps_of_eq rfl ⟨id, id⟩ ⟨rfl, rfl, rfl⟩ rfl ⟨rfl, rfl, rfl⟩ rfl nofun rfl
  | cons rcpt rest =>
    cases known : spooling.server.mailbox rcpt with
    | none =>
      simp only [deliverOne, known] at done
      cases done
      refine move_keeps (here ▸ ?_) rfl rfl
      exact keeps_of_eq rfl ⟨id, id⟩ ⟨rfl, rfl, rfl⟩ (due_remote known rest msg.text).symm
        ⟨rfl, rfl, rfl⟩ rfl (fun _ => id) rfl
    | some mbox =>
      simp only [deliverOne, known] at done
      split at done
      · next disk linked =>
        cases done
        obtain ⟨text, found, free, rfl⟩ := link_some linked
        exact .delivers here known free found
      · next unlinked =>
        cases done
        have failed : state.disk.link msg.name ⟨mbox.user, destEntry spooling thread time rand⟩ = none :=
          unlinked
        refine move_keeps (here ▸ ⟨rfl, ⟨id, id⟩, ⟨rfl, rfl, rfl⟩, ?_, rfl, .inr ⟨thread, time, rand, msg,
          mbox, List.mem_of_find?_eq_some known, asked, rfl, failed⟩, fun _ => .inl, .inl rfl⟩) rfl rfl
        simp only [SpoolerThread.pending, SpoolEvent.delivered?, SpoolEvent.lost?,
          SpoolEvent.passed?, due_local known, Multiset.zero_bind, zero_add, add_zero]
        exact add_comm _ _

/-- A thread that lets its message through. -/
theorem pass_does {before : SpoolerThread} {msg : SpoolMsg} (avEnable : Bool)
    (here : state.threads thread = before) (held : before.held = {msg}) (busy : ¬ before.waits)
    (none' : before.pending spooling.server = 0) (unchecked : before.unchecked = {msg})
    (through : before = .taken msg ∧ state.avEnable = false ∨
      ∃ thread result, before = .scanning msg ∧ input = .scanned thread result ∧
        state.threads thread = before ∧ result ≠ some .virus)
    (scanner : avEnable = state.avEnable ∨ ∃ thread, input = .scanned thread none)
    (done : { state with avEnable := avEnable }.pass thread msg = .ok (after, event)) :
    Does spooling state input event after := by
  cases done
  refine move_keeps (here ▸ ⟨held.symm, ⟨busy, id⟩, ⟨rfl, rfl, rfl⟩, ?_, ?_, .inl rfl, ?_, scanner⟩) rfl
    rfl
  · rw [none']
    simp [SpoolerThread.pending, SpoolEvent.delivered?, SpoolEvent.lost?, SpoolEvent.passed?]
  · rw [unchecked]
    rfl
  · rintro _ ⟨⟩
    exact .inr through

theorem takeMsg_does (comes : state.threads thread = .idle ∨ state.threads thread = .woken)
    (done : state.takeMsg thread = .ok (after, event)) : Does spooling state input event after := by
  unfold takeMsg at done
  split at done
  · next empty =>
    cases done
    exact .sleeps comes empty
  · next msg rest first =>
    cases done
    exact .takes comes first

variable [Fintype Thread]

theorem condSignal_cases {signalled : Option Thread} (done : state.condSignal signalled = .ok after) :
    ∃ threads, after = { state with threads := threads } ∧
      ((∀ thread, state.threads thread ≠ .asleep) ∧ threads = state.threads ∨
        ∃ thread, state.threads thread = .asleep ∧
          threads = Function.update state.threads thread .woken) := by
  cases signalled with
  | none =>
    simp only [condSignal] at done
    split at done
    · next none =>
      cases done
      exact ⟨state.threads, rfl, .inl ⟨none, rfl⟩⟩
    · cases done
  | some thread =>
    simp only [condSignal] at done
    split at done
    · next sleeps =>
      cases done
      exact ⟨_, rfl, .inr ⟨thread, sleeps, rfl⟩⟩
    · cases done

theorem spool_does {msg : SpoolMsg} {signalled : Option Thread}
    (done : state.spool msg signalled = .ok (after, event)) :
    Does spooling state input event after := by
  unfold spool at done
  split at done
  · cases done
  · next free =>
    rw [not_or, not_not] at free
    obtain ⟨woken, signals, made⟩ := Execution.map_eq_ok.mp done
    cases made
    obtain ⟨threads, rfl, rouses⟩ := condSignal_cases signals
    exact .spools free.1 free.2 rouses

theorem check_does
    (done : handle spooling state (.check thread) = .ok (after, event)) :
    Does spooling state (.check thread) event after := by
  cases here : state.threads thread with
  | taken msg =>
    simp only [handle, here] at done
    split at done
    · cases done
      refine move_keeps (here ▸ ?_) rfl rfl
      exact keeps_of_eq rfl ⟨id, id⟩ ⟨rfl, rfl, rfl⟩ rfl ⟨rfl, rfl, rfl⟩ rfl nofun rfl
    · next off =>
      exact pass_does state.avEnable here rfl id rfl rfl
        (.inl ⟨rfl, Bool.eq_false_iff.mpr off⟩) (.inl rfl) done
  | _ =>
    simp only [handle, here] at done
    cases done

/-- The scanner has answered, or is not there. -/
theorem scanned_does {result : Option AvResult}
    (done : handle spooling state (.scanned thread result) = .ok (after, event)) :
    Does spooling state (.scanned thread result) event after := by
  cases here : state.threads thread with
  | scanning msg =>
    cases result with
    | none =>
      simp only [handle, here] at done
      exact pass_does false here rfl id rfl rfl (.inr ⟨thread, none, rfl, rfl, here, nofun⟩)
        (.inr ⟨thread, rfl⟩) done
    | some result =>
      cases result with
      | virus =>
        simp only [handle, here] at done
        cases done
        refine move_keeps (here ▸ ?_) rfl rfl
        exact keeps_of_eq rfl ⟨id, id⟩ ⟨rfl, rfl, rfl⟩ rfl ⟨rfl, rfl, rfl⟩ rfl nofun rfl
      | clean =>
        simp only [handle, here] at done
        exact pass_does state.avEnable here rfl id rfl rfl
          (.inr ⟨thread, _, rfl, rfl, here, nofun⟩) (.inl rfl) done
      | internal =>
        simp only [handle, here] at done
        exact pass_does state.avEnable here rfl id rfl rfl
          (.inr ⟨thread, _, rfl, rfl, here, nofun⟩) (.inl rfl) done
  | _ =>
    simp only [handle, here] at done
    cases done

theorem save_does {time rand : Nat}
    (done : handle spooling state (.save thread time rand) = .ok (after, event)) :
    Does spooling state (.save thread time rand) event after := by
  cases here : state.threads thread with
  | infected msg =>
    simp only [handle, here] at done
    split at done
    · next disk linked =>
      cases done
      obtain ⟨text, found, free, rfl⟩ := link_some linked
      exact .saves here free text
    · cases done
      refine move_keeps (here ▸ ?_) rfl rfl
      exact keeps_of_eq rfl ⟨id, id⟩ ⟨rfl, rfl, rfl⟩ rfl ⟨rfl, rfl, rfl⟩ rfl nofun rfl
  | _ =>
    simp only [handle, here] at done
    cases done

theorem external_does {again : List Nat}
    (done : handle spooling state (.external thread again) = .ok (after, event)) :
    Does spooling state (.external thread again) event after := by
  cases here : state.threads thread with
  | external msg crcpt =>
    simp only [handle, here] at done
    cases done
    have keeps : state.Keeps spooling (.external thread again) (state.threads thread) (.done msg)
        .quiet state.avEnable := by
      rw [here]
      exact keeps_of_eq rfl ⟨id, id⟩ ⟨rfl, rfl, rfl⟩ rfl ⟨rfl, rfl, rfl⟩ rfl nofun rfl
    refine .keeps keeps rfl fun none => ?_
    rw [show again = [] from none, List.diff_nil]
  | _ =>
    simp only [handle, here] at done
    cases done

theorem handle_does (done : handle spooling state input = .ok (after, event)) :
    Does spooling state input event after := by
  cases input with
  | spool msg signalled => exact spool_does done
  | take thread =>
    cases here : state.threads thread with
    | idle =>
      simp only [handle, here] at done
      exact takeMsg_does (.inl here) done
    | woken =>
      simp only [handle, here] at done
      exact takeMsg_does (.inr here) done
    | _ =>
      simp only [handle, here] at done
      cases done
  | wake thread =>
    simp only [handle] at done
    split at done
    · next sleeps =>
      cases done
      exact .wakes sleeps
    · cases done
  | check thread => exact check_does done
  | scanned thread result => exact scanned_does done
  | save thread time rand => exact save_does done
  | deliver thread time rand =>
    cases here : state.threads thread with
    | delivering msg rcpts crcpt =>
      simp only [handle, here] at done
      exact deliverOne_does rfl here done
    | _ =>
      simp only [handle, here] at done
      cases done
  | external thread again => exact external_does done
  | release thread =>
    cases here : state.threads thread with
    | done msg =>
      simp only [handle, here, release] at done
      cases done
      exact .releases here
    | _ =>
      simp only [handle, here] at done
      cases done

end Spool

end QNXStuff.QXMail
