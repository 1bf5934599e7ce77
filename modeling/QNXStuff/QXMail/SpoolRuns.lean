import Mathlib.Tactic.Abel
import QNXStuff.QXMail.SpoolMoves

/-! Runs of the spool: no message, descriptor or file is lost or used twice, and no message waits
while a spooler sleeps that nobody has woken for it. -/

namespace QNXStuff.QXMail

open Execution SharedLock

/-- The messages that came to the queue, were taken off it, and were released. -/
def spooledOf {Thread : Type} (labels : List (SpoolLabel Thread)) : Multiset SpoolMsg :=
  (labels.map fun label => label.2.spooled?).sum

def takenOf {Thread : Type} (labels : List (SpoolLabel Thread)) : Multiset SpoolMsg :=
  (labels.map fun label => label.2.taken?).sum

def releasedOf {Thread : Type} (labels : List (SpoolLabel Thread)) : Multiset SpoolMsg :=
  (labels.map fun label => label.2.released?).sum

def MailServer.Apart (server : MailServer) (dir : List UInt8) : Prop :=
  ∀ mbox ∈ server.mbx, mbox.user ≠ dir

instance {server : MailServer} {dir : List UInt8} : Decidable (server.Apart dir) :=
  inferInstanceAs (Decidable (∀ mbox ∈ server.mbx, mbox.user ≠ dir))

theorem mailbox_apart {server : MailServer} {dir rcpt : List UInt8} {mbox : Mailbox}
    (apart : server.Apart dir) (known : server.mailbox rcpt = some mbox) : mbox.user ≠ dir :=
  apart mbox (List.mem_of_find?_eq_some known)

theorem infected_ne_spool : ascii "infected" ≠ ascii "spool" := by decide

namespace Spool

variable {Thread : Type}

theorem name_eq_iff {msg other : SpoolMsg} : msg.name = other.name ↔ msg.spoolfn = other.spoolfn := by
  simp [SpoolMsg.name]

theorem held_of_comes {state : Spool Thread} {thread : Thread}
    (comes : state.threads thread = .idle ∨ state.threads thread = .woken) :
    (state.threads thread).held = 0 := by
  rcases comes with here | here <;> rw [here] <;> rfl

section

variable {past : List (SpoolLabel Thread)} {input : SpoolInput Thread} {event : SpoolEvent}

theorem snoc_spooled : spooledOf (past ++ [(input, event)]) = spooledOf past + event.spooled? := by
  simp [spooledOf]

theorem snoc_taken : takenOf (past ++ [(input, event)]) = takenOf past + event.taken? := by
  simp [takenOf]

theorem snoc_released :
    releasedOf (past ++ [(input, event)]) = releasedOf past + event.released? := by
  simp [releasedOf]

end

variable [Fintype Thread]

/-- The messages that wait or that a thread has. -/
def live (state : Spool Thread) : Multiset SpoolMsg :=
  ↑state.spoolMsgs + census SpoolerThread.held state.threads

/-- Every message is where it is once, with its file, and the rest of the directory is as it was
found. -/
structure Sound (start : Disk) (past : List (SpoolLabel Thread)) (state : Spool Thread) : Prop where
  waiting : spooledOf past = ↑state.spoolMsgs + takenOf past
  taken : takenOf past = census SpoolerThread.held state.threads + releasedOf past
  names : (state.live.map SpoolMsg.spoolfn).Nodup
  text : ∀ msg ∈ state.live, state.disk msg.name = some msg.text
  others : ∀ entry, entry ∉ state.live.map SpoolMsg.spoolfn →
    state.disk ⟨ascii "spool", entry⟩ = start ⟨ascii "spool", entry⟩
  fresh : ∀ msg ∈ state.live, start msg.name = none

theorem started_sound (avEnable : Bool) (disk : Disk) :
    (started avEnable disk : Spool Thread).Sound disk [] := by
  have none : census SpoolerThread.held (started avEnable disk : Spool Thread).threads = 0 :=
    census_zero fun _ => rfl
  have empty : (started avEnable disk : Spool Thread).live = 0 := by
    rw [live, none]
    rfl
  refine ⟨rfl, ?_, ?_, ?_, fun _ _ => rfl, ?_⟩
  · rw [none]
    rfl
  · rw [empty]
    exact Multiset.nodup_zero
  · rw [empty]
    nofun
  · rw [empty]
    nofun

variable {start : Disk} {past : List (SpoolLabel Thread)} {state after : Spool Thread}
  {input : SpoolInput Thread} {event : SpoolEvent} {thread : Thread} {msg : SpoolMsg}

theorem held_live (thread : Thread) (held : (state.threads thread).held = {msg}) :
    msg ∈ state.live := by
  classical
  unfold live
  rw [census_split _ _ thread, held]
  simp

/-- A file outside the spool comes, or none. -/
theorem Sound.disk_update (sound : state.Sound start past) (name : FileName) (text : List UInt8)
    (apart : name.dir ≠ ascii "spool") :
    { state with disk := Function.update state.disk name (some text) }.Sound start past where
  waiting := sound.waiting
  taken := sound.taken
  names := sound.names
  text := by
    intro msg member
    have different : msg.name ≠ name := fun same => apart (same ▸ rfl)
    simp only [Function.update_of_ne different]
    exact sound.text msg member
  others := by
    intro entry outside
    have different : (⟨ascii "spool", entry⟩ : FileName) ≠ name := fun same => apart (same ▸ rfl)
    simp only [Function.update_of_ne different]
    exact sound.others entry outside
  fresh := sound.fresh

/-- The messages are the same where the threads hold the same. -/
theorem live_same (msgs : after.spoolMsgs = state.spoolMsgs)
    (same : census SpoolerThread.held after.threads = census SpoolerThread.held state.threads) :
    after.live = state.live := by
  rw [live, live, msgs, same]

theorem live_spool (msgs : after.spoolMsgs = msg :: state.spoolMsgs)
    (same : census SpoolerThread.held after.threads = census SpoolerThread.held state.threads) :
    after.live = msg ::ₘ state.live := by
  rw [live, live, msgs, same, ← Multiset.cons_coe, Multiset.cons_add]

theorem Sound.spool (sound : state.Sound start past) {threads : Thread → SpoolerThread}
    (free : state.disk msg.name = none)
    (same : census SpoolerThread.held threads = census SpoolerThread.held state.threads) :
    ({ state with
      spoolMsgs := msg :: state.spoolMsgs
      disk := Function.update state.disk msg.name (some msg.text)
      fds := msg.spoolfd :: state.fds
      threads := threads } : Spool Thread).Sound start (past ++ [(input, .spooled msg)]) := by
  have more : ({ state with
      spoolMsgs := msg :: state.spoolMsgs
      disk := Function.update state.disk msg.name (some msg.text)
      fds := msg.spoolfd :: state.fds
      threads := threads } : Spool Thread).live = msg ::ₘ state.live := live_spool rfl same
  have new : ∀ other ∈ state.live, other.name ≠ msg.name := by
    intro other member here
    rw [← here, sound.text other member] at free
    cases free
  have outside : msg.spoolfn ∉ state.live.map SpoolMsg.spoolfn := by
    intro member
    obtain ⟨other, inside, here⟩ := Multiset.mem_map.mp member
    exact new other inside (name_eq_iff.mpr here)
  constructor
  · rw [snoc_spooled, snoc_taken, sound.waiting]
    simp only [SpoolEvent.spooled?, SpoolEvent.taken?, ← Multiset.cons_coe,
      ← Multiset.singleton_add, add_zero]
    abel
  · rw [snoc_taken, snoc_released, sound.taken, same]
    simp [SpoolEvent.released?, SpoolEvent.taken?]
  · rw [more, Multiset.map_cons]
    exact Multiset.nodup_cons.mpr ⟨outside, sound.names⟩
  · rw [more]
    intro other member
    rcases Multiset.mem_cons.mp member with rfl | inside
    · exact Function.update_self ..
    · exact (Function.update_of_ne (new other inside) ..).trans (sound.text other inside)
  · rw [more]
    intro entry apart
    rw [Multiset.map_cons, Multiset.mem_cons, not_or] at apart
    have different : (⟨ascii "spool", entry⟩ : FileName) ≠ msg.name := by
      simpa [SpoolMsg.name] using apart.1
    exact (Function.update_of_ne different ..).trans (sound.others entry apart.2)
  · rw [more]
    intro other member
    rcases Multiset.mem_cons.mp member with rfl | inside
    · rw [← free]
      exact (sound.others other.spoolfn outside).symm
    · exact sound.fresh other inside

variable [DecidableEq Thread]

/-- A thread takes a message off the queue, or releases the one it has. -/
theorem live_take {rest : List SpoolMsg} (none : (state.threads thread).held = 0)
    (first : state.spoolMsgs = msg :: rest) :
    ({ state with spoolMsgs := rest }.move thread (.taken msg)).live = state.live := by
  have moved := census_move SpoolerThread.held state.threads thread (.taken msg)
  rw [none, add_zero] at moved
  simp only [live, Spool.move, moved, first, ← Multiset.cons_coe, SpoolerThread.held,
    ← Multiset.singleton_add]
  abel

theorem live_release (here : state.threads thread = .done msg) {disk : Disk} {fds : List Nat} :
    state.live = msg ::ₘ ({ state with disk := disk, fds := fds }.move thread .idle).live := by
  have moved := census_move SpoolerThread.held state.threads thread .idle
  rw [here] at moved
  simp only [SpoolerThread.held, add_zero] at moved
  simp only [live, Spool.move, ← moved, ← Multiset.singleton_add]
  abel

theorem Sound.move (sound : state.Sound start past) {now : SpoolerThread} {avEnable : Bool}
    {fds : List Nat} (held : now.held = (state.threads thread).held) (inner : event.Inner) :
    ({ state with avEnable := avEnable, fds := fds }.move thread now).Sound start
      (past ++ [(input, event)]) := by
  have same : census SpoolerThread.held (Function.update state.threads thread now) =
      census SpoolerThread.held state.threads := census_same held
  have still : ({ state with avEnable := avEnable, fds := fds }.move thread now).live =
      state.live := live_same rfl same
  constructor
  · rw [snoc_spooled, snoc_taken, inner.1, inner.2.1, add_zero, add_zero]
    exact sound.waiting
  · rw [snoc_taken, snoc_released, inner.2.1, inner.2.2, add_zero, add_zero]
    simp only [Spool.move, same]
    exact sound.taken
  · rw [still]
    exact sound.names
  · rw [still]
    exact sound.text
  · rw [still]
    exact sound.others
  · rw [still]
    exact sound.fresh

theorem Sound.take (sound : state.Sound start past) {rest : List SpoolMsg}
    (none : (state.threads thread).held = 0) (first : state.spoolMsgs = msg :: rest) :
    ({ state with spoolMsgs := rest }.move thread (.taken msg)).Sound start
      (past ++ [(input, SpoolEvent.taken msg)]) := by
  have moved := census_move SpoolerThread.held state.threads thread (.taken msg)
  rw [none, add_zero] at moved
  have still := live_take none first
  constructor
  · rw [snoc_spooled, snoc_taken, sound.waiting, first]
    simp only [SpoolEvent.spooled?, SpoolEvent.taken?, ← Multiset.cons_coe, Spool.move,
      ← Multiset.singleton_add, add_zero]
    abel
  · rw [snoc_taken, snoc_released, sound.taken]
    simp only [Spool.move, moved, SpoolEvent.taken?, SpoolEvent.released?, SpoolerThread.held]
    abel
  · rw [still]
    exact sound.names
  · rw [still]
    exact sound.text
  · rw [still]
    exact sound.others
  · rw [still]
    exact sound.fresh

theorem Sound.release (sound : state.Sound start past) (here : state.threads thread = .done msg) :
    ({ state with
      disk := state.disk.remove msg.name
      fds := state.fds.erase msg.spoolfd }.move thread .idle).Sound start
      (past ++ [(input, SpoolEvent.released msg)]) := by
  have moved := census_move SpoolerThread.held state.threads thread .idle
  rw [here] at moved
  simp only [SpoolerThread.held, add_zero] at moved
  have less : state.live = msg ::ₘ ({ state with
      disk := state.disk.remove msg.name
      fds := state.fds.erase msg.spoolfd }.move thread .idle).live := live_release here
  generalize gone : ({ state with
      disk := state.disk.remove msg.name
      fds := state.fds.erase msg.spoolfd }.move thread .idle) = next at less
  have names := sound.names
  rw [less, Multiset.map_cons, Multiset.nodup_cons] at names
  have apart : ∀ other ∈ next.live, other.name ≠ msg.name := by
    intro other member same
    exact names.1 (Multiset.mem_map.mpr ⟨other, member, name_eq_iff.mp same⟩)
  have mine : msg ∈ state.live := less ▸ Multiset.mem_cons_self ..
  constructor
  · rw [snoc_spooled, snoc_taken, sound.waiting, ← gone]
    exact add_assoc _ _ _
  · rw [snoc_taken, snoc_released, sound.taken, ← moved, ← gone]
    simp only [SpoolEvent.taken?, SpoolEvent.released?, Spool.move]
    abel
  · exact names.2
  · intro other member
    rw [← gone]
    exact (Function.update_of_ne (apart other member) ..).trans
      (sound.text other (less ▸ Multiset.mem_cons_of_mem member))
  · intro entry outside
    rw [← gone]
    by_cases same : entry = msg.spoolfn
    · subst same
      exact (Function.update_self ..).trans (sound.fresh msg mine).symm
    · have different : (⟨ascii "spool", entry⟩ : FileName) ≠ msg.name := by
        simpa [SpoolMsg.name] using same
      refine (Function.update_of_ne different ..).trans (sound.others entry ?_)
      rw [less, Multiset.map_cons, Multiset.mem_cons, not_or]
      exact ⟨same, outside⟩
  · intro other member
    exact sound.fresh other (less ▸ Multiset.mem_cons_of_mem member)

theorem Sound.step {spooling : Spooling Thread} (sound : state.Sound start past)
    (apart : spooling.server.Apart (ascii "spool")) (does : Does spooling state input event after) :
    after.Sound start (past ++ [(input, event)]) := by
  cases does with
  | spools free fresh rouses =>
    refine sound.spool free ?_
    rcases rouses with ⟨-, same⟩ | ⟨sleeper, sleeps, same⟩
    · rw [same]
    · rw [same]
      exact census_same (by rw [sleeps]; rfl)
  | sleeps comes empty => exact sound.move (held_of_comes comes).symm ⟨rfl, rfl, rfl⟩
  | wakes sleeps => exact sound.move (by rw [sleeps]; rfl) ⟨rfl, rfl, rfl⟩
  | takes comes first => exact sound.take (held_of_comes comes) first
  | keeps keeps unlinked kept => exact sound.move keeps.held keeps.inner
  | @saves thread msg entry here free text =>
    have saved := sound.disk_update ⟨ascii "infected", entry⟩ text infected_ne_spool
    exact saved.move (by rw [here]; rfl) ⟨rfl, rfl, rfl⟩
  | @delivers thread msg mbox rcpt entry text rest crcpt here known free found =>
    have linked := sound.disk_update ⟨mbox.user, entry⟩ text (mailbox_apart apart known)
    exact linked.move (by rw [here]; rfl) ⟨rfl, rfl, rfl⟩
  | releases here => exact sound.release here

/-- The descriptors that are open are those of the messages not yet released. -/
def Opened (state : Spool Thread) : Prop :=
  (↑state.fds : Multiset Nat) = state.live.map SpoolMsg.spoolfd

theorem Opened.step {spooling : Spooling Thread} (opened : state.Opened)
    (once : input.strays = []) (does : Does spooling state input event after) : after.Opened := by
  have stays {next : Spool Thread} (fds : next.fds = state.fds) (msgs : next.live = state.live) :
      next.Opened := by
    rw [Opened, fds, msgs]
    exact opened
  cases does with
  | @spools msg threads free fresh rouses =>
    have same : census SpoolerThread.held threads = census SpoolerThread.held state.threads := by
      rcases rouses with ⟨-, same⟩ | ⟨sleeper, sleeps, same⟩
      · rw [same]
      · rw [same]
        exact census_same (by rw [sleeps]; rfl)
    rw [Opened, live_spool rfl same, Multiset.map_cons, ← opened, ← Multiset.cons_coe]
  | sleeps comes empty => exact stays rfl (live_same rfl (census_same (held_of_comes comes).symm))
  | wakes sleeps => exact stays rfl (live_same rfl (census_same (by rw [sleeps]; rfl)))
  | takes comes first => exact stays rfl (live_take (held_of_comes comes) first)
  | keeps keeps unlinked kept => exact stays (kept once) (live_same rfl (census_same keeps.held))
  | saves here free text => exact stays rfl (live_same rfl (census_same (by rw [here]; rfl)))
  | delivers here known free found =>
    exact stays rfl (live_same rfl (census_same (by rw [here]; rfl)))
  | @releases thread msg here =>
    have fds : (↑state.fds : Multiset Nat) = _ := opened
    rw [live_release here, Multiset.map_cons] at fds
    show ((state.fds.erase msg.spoolfd : List Nat) : Multiset Nat) = _
    rw [← Multiset.coe_erase, fds, Multiset.erase_cons_head]

theorem run_sound {spooling : Spooling Thread} (apart : spooling.server.Apart (ascii "spool"))
    {avEnable : Bool} {labels : List (SpoolLabel Thread)} {final : Spool Thread}
    (run : Run (SpoolStep spooling) (started avEnable start) labels final) :
    final.Sound start labels := by
  have done := run.history (motive := fun past state => state.Sound start past)
    (started_sound avEnable start)
    fun past state label next sound step => sound.step apart (handle_does step)
  simpa using done

theorem run_opened {spooling : Spooling Thread} {avEnable : Bool}
    {labels : List (SpoolLabel Thread)} {final : Spool Thread}
    (run : Run (SpoolStep spooling) (started avEnable start) labels final)
    (once : ∀ label ∈ labels, label.1.strays = []) : final.Opened := by
  have under : Run (Under (SpoolStep spooling) fun _ label => label.1.strays = [])
      (started avEnable start) labels final := run.under fun label member _ => once label member
  refine under.invariant ?_ fun state label next opened step =>
    opened.step step.2 (handle_does step.1)
  have none : census SpoolerThread.held (started avEnable start : Spool Thread).threads = 0 :=
    census_zero fun _ => rfl
  rw [Opened, live, none]
  rfl

/-- In every order of the sessions and the spoolers each message is taken by one spooler and
released once: what was spooled waits, is with one thread, or is released. The files of the spool
are those of the messages not yet released beside what was there before. While no round closes the
number of a socket twice, the descriptors that are open are theirs as well, and nothing is closed or
removed that is not there. -/
theorem messages_are_spooled_once (spooling : Spooling Thread)
    (apart : spooling.server.Apart (ascii "spool")) (avEnable : Bool) (start : Disk)
    (labels : List (SpoolLabel Thread)) (final : Spool Thread)
    (run : Run (SpoolStep spooling) (started avEnable start) labels final) :
    spooledOf labels = ↑final.spoolMsgs + takenOf labels ∧
      takenOf labels = census SpoolerThread.held final.threads + releasedOf labels ∧
      (∀ msg ∈ final.live, final.disk msg.name = some msg.text) ∧
      (∀ entry, entry ∉ final.live.map SpoolMsg.spoolfn →
        final.disk ⟨ascii "spool", entry⟩ = start ⟨ascii "spool", entry⟩) ∧
      ((∀ label ∈ labels, label.1.strays = []) →
        (↑final.fds : Multiset Nat) = final.live.map SpoolMsg.spoolfd ∧
          ∀ thread msg, final.threads thread = .done msg →
            msg.spoolfd ∈ final.fds ∧ final.disk msg.name ≠ none) := by
  have sound := run_sound apart run
  refine ⟨sound.waiting, sound.taken, sound.text, sound.others, fun once => ?_⟩
  have opened := run_opened run once
  refine ⟨opened, fun thread msg here => ?_⟩
  have live : msg ∈ final.live := held_live thread (by rw [here]; rfl)
  constructor
  · rw [← Multiset.mem_coe, opened]
    exact Multiset.mem_map_of_mem _ live
  · rw [sound.text msg live]
    nofun

/-! ### Waking -/

/-- While a spooler sleeps, as many are woken as messages wait. -/
def Served (state : Spool Thread) : Prop :=
  (∃ thread, state.threads thread = .asleep) →
    state.spoolMsgs.length ≤ census SpoolerThread.rises state.threads

/-- A thread moves on and does not fall asleep. -/
theorem Served.move (served : state.Served) {now : SpoolerThread} {msgs : List SpoolMsg}
    {avEnable : Bool} {disk : Disk} {fds : List Nat} (awake : now ≠ .asleep)
    (covered : msgs.length + (state.threads thread).rises ≤
      state.spoolMsgs.length + now.rises) :
    ({ spoolMsgs := msgs, avEnable := avEnable, disk := disk, fds := fds,
       threads := Function.update state.threads thread now } : Spool Thread).Served := by
  rintro ⟨sleeper, sleeps⟩
  have apart : sleeper ≠ thread := by
    rintro rfl
    simp only [Function.update_self] at sleeps
    exact awake sleeps
  simp only [Function.update_of_ne apart] at sleeps
  have before := served ⟨sleeper, sleeps⟩
  have moved := census_move SpoolerThread.rises state.threads thread now
  dsimp only
  omega

theorem rises_of_busy {phase : SpoolerThread} (busy : ¬ phase.waits) :
    phase.rises = 0 ∧ phase ≠ .asleep := by
  cases phase with
  | idle | asleep | woken => exact absurd trivial busy
  | _ => exact ⟨rfl, nofun⟩

theorem Served.step {spooling : Spooling Thread} (served : state.Served)
    (does : Does spooling state input event after) : after.Served := by
  cases does with
  | spools free fresh rouses =>
    rcases rouses with ⟨none, same⟩ | ⟨sleeper, sleeps, same⟩
    · rw [same]
      rintro ⟨thread, here⟩
      exact absurd here (none thread)
    · rw [same]
      refine served.move nofun ?_
      rw [sleeps]
      simp [SpoolerThread.rises]
  | sleeps comes empty =>
    intro _
    simp [Spool.move, empty]
  | wakes sleeps => exact served.move nofun (by rw [sleeps]; exact Nat.le_succ _)
  | takes comes first =>
    refine served.move nofun ?_
    rw [first]
    rcases comes with here | here <;> rw [here] <;> simp [SpoolerThread.rises]
  | keeps keeps unlinked kept =>
    have before := rises_of_busy keeps.busy.1
    have now := rises_of_busy keeps.busy.2
    exact served.move now.2 (by rw [before.1, now.1])
  | saves here free text => exact served.move nofun (by rw [here]; rfl)
  | delivers here known free found => exact served.move nofun (by rw [here]; rfl)
  | releases here => exact served.move nofun (by rw [here]; rfl)

/-- In every order of the sessions and the spoolers, while a spooler sleeps there are as many on
their way from `pthread_cond_wait` as messages wait. -/
theorem waiting_messages_wake_spoolers (spooling : Spooling Thread) (avEnable : Bool) (start : Disk)
    (labels : List (SpoolLabel Thread)) (final : Spool Thread)
    (run : Run (SpoolStep spooling) (started avEnable start) labels final) : final.Served := by
  refine run.invariant ?_ fun state label next served step => served.step (handle_does step)
  rintro ⟨thread, sleeps⟩
  cases sleeps

end Spool

end QNXStuff.QXMail
