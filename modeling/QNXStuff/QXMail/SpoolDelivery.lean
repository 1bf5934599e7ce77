import QNXStuff.QXMail.SpoolRuns

/-! What comes to the mailboxes: each local recipient's copy, and nothing that the scanner stops. -/

namespace QNXStuff.QXMail

open Execution SharedLock

/-- The messages that went on to their recipients or were stopped, and the deliveries that were made
or failed. -/
def passedOf {Thread : Type} (labels : List (SpoolLabel Thread)) : Multiset SpoolMsg :=
  (labels.map fun label => label.2.passed?).sum

def stoppedOf {Thread : Type} (labels : List (SpoolLabel Thread)) : Multiset SpoolMsg :=
  (labels.map fun label => label.2.stopped?).sum

def deliveredOf {Thread : Type} (labels : List (SpoolLabel Thread)) :
    Multiset (List UInt8 × List UInt8) :=
  (labels.map fun label => label.2.delivered?).sum

def lostOf {Thread : Type} (labels : List (SpoolLabel Thread)) :
    Multiset (List UInt8 × List UInt8) :=
  (labels.map fun label => label.2.lost?).sum

/-- Everything that a mailbox owner is due of some messages. -/
def MailServer.dueAll (server : MailServer) (msgs : Multiset SpoolMsg) :
    Multiset (List UInt8 × List UInt8) :=
  msgs.bind fun msg => server.due msg.msg.rcpts msg.text

def SpoolerThread.scans : SpoolerThread → Option SpoolMsg
  | .scanning msg => some msg
  | _ => none

namespace Spool

variable {Thread : Type}

/-- The name that a delivery is given is not in use in any mailbox. -/
def Fresh [DecidableEq Thread] (spooling : Spooling Thread) (state : Spool Thread) :
    SpoolInput Thread → Prop
  | .deliver thread time rand => ∀ mbox ∈ spooling.server.mbx,
      state.disk ⟨mbox.user, destEntry spooling thread time rand⟩ = none
  | _ => True

/-- The scanner answers, and says so of a text that is infected. -/
def Guarded (infected : List UInt8 → Prop) (state : Spool Thread) : SpoolInput Thread → Prop
  | .scanned thread result => result ≠ none ∧
      ∀ msg ∈ (state.threads thread).scans, infected msg.text → result = some .virus
  | _ => True

instance [DecidableEq Thread] {spooling : Spooling Thread} {state : Spool Thread}
    {input : SpoolInput Thread} : Decidable (state.Fresh spooling input) :=
  match input with
  | .deliver thread time rand => inferInstanceAs (Decidable (∀ mbox ∈ spooling.server.mbx,
      state.disk ⟨mbox.user, destEntry spooling thread time rand⟩ = none))
  | .spool .. | .take .. | .wake .. | .check .. | .scanned .. | .save .. | .external ..
  | .release .. => isTrue trivial

instance {infected : List UInt8 → Prop} [DecidablePred infected] {state : Spool Thread}
    {input : SpoolInput Thread} : Decidable (state.Guarded infected input) :=
  match input with
  | .scanned thread result => inferInstanceAs (Decidable (result ≠ none ∧
      ∀ msg ∈ (state.threads thread).scans, infected msg.text → result = some .virus))
  | .spool .. | .take .. | .wake .. | .check .. | .deliver .. | .save .. | .external ..
  | .release .. => isTrue trivial

/-- Nothing infected is in a mailbox. -/
def Healthy (infected : List UInt8 → Prop) (server : MailServer) (disk : Disk) : Prop :=
  ∀ mbox ∈ server.mbx, ∀ entry text, disk ⟨mbox.user, entry⟩ = some text → ¬ infected text

/-- What a run with a scanner that answers keeps. -/
structure Screened (infected : List UInt8 → Prop) (server : MailServer) (state : Spool Thread) :
    Prop where
  enabled : state.avEnable = true
  through : ∀ thread msg, (state.threads thread).delivers = some msg → ¬ infected msg.text
  healthy : Healthy infected server state.disk

variable {start : Disk} {past : List (SpoolLabel Thread)} {state after : Spool Thread}
  {input : SpoolInput Thread} {event : SpoolEvent} {thread : Thread} {msg : SpoolMsg}
  {infected : List UInt8 → Prop} {spooling : Spooling Thread}

/-- A file comes that is in no mailbox or is not infected. -/
theorem Healthy.update {server : MailServer} {disk : Disk} (healthy : Healthy infected server disk)
    {name : FileName} {content : Option (List UInt8)}
    (harmless : server.Apart name.dir ∨ ∀ text, content = some text → ¬ infected text) :
    Healthy infected server (Function.update disk name content) := by
  intro mbox member entry text here
  by_cases same : (⟨mbox.user, entry⟩ : FileName) = name
  · rw [same, Function.update_self] at here
    rcases harmless with apart | clean
    · exact absurd (congrArg FileName.dir same) (apart mbox member)
    · exact clean text here
  · rw [Function.update_of_ne same] at here
    exact healthy mbox member entry text here

/-- A thread that delivers nothing, or what it delivered before. -/
theorem Screened.move [DecidableEq Thread] (screened : state.Screened infected spooling.server)
    {now : SpoolerThread} {msgs : List SpoolMsg} {disk : Disk} {fds : List Nat}
    (through : ∀ msg, now.delivers = some msg → ¬ infected msg.text)
    (healthy : Healthy infected spooling.server disk) :
    ({ spoolMsgs := msgs, avEnable := state.avEnable, disk := disk, fds := fds,
       threads := Function.update state.threads thread now } : Spool Thread).Screened infected
      spooling.server where
  enabled := screened.enabled
  through := by
    intro other msg here
    by_cases same : other = thread
    · simp only [same, Function.update_self] at here
      exact through msg here
    · simp only [Function.update_of_ne same] at here
      exact screened.through other msg here
  healthy := healthy

section Screening

variable [Fintype Thread] [DecidableEq Thread]

theorem Screened.step (screened : state.Screened infected spooling.server)
    (sound : state.Sound start past) (spoolApart : spooling.server.Apart (ascii "spool"))
    (infectedApart : spooling.server.Apart (ascii "infected"))
    (guarded : state.Guarded infected input) (does : Does spooling state input event after) :
    after.Screened infected spooling.server := by
  cases does with
  | @spools msg threads free fresh rouses =>
    have healthy : Healthy infected spooling.server
        (Function.update state.disk msg.name (some msg.text)) :=
      screened.healthy.update (.inl spoolApart)
    rcases rouses with ⟨-, same⟩ | ⟨sleeper, sleeps, same⟩
    · rw [same]
      exact ⟨screened.enabled, screened.through, healthy⟩
    · rw [same]
      exact screened.move nofun healthy
  | sleeps comes empty => exact screened.move nofun screened.healthy
  | wakes sleeps => exact screened.move nofun screened.healthy
  | takes comes first => exact screened.move nofun screened.healthy
  | @keeps thread now event avEnable fds keeps unlinked kept =>
    have enabled : avEnable = state.avEnable := by
      rcases keeps.scanner with same | ⟨scanner, asked⟩
      · exact same
      · rw [asked] at guarded
        exact absurd rfl guarded.1
    rw [enabled]
    refine screened.move (fun msg here => ?_) screened.healthy
    rcases keeps.through msg here with before | ⟨-, off⟩ | ⟨scanner, result, before, asked, there, passed⟩
    · exact screened.through thread msg before
    · rw [screened.enabled] at off
      cases off
    · -- the scanner would have said so
      rw [asked] at guarded
      have scans : msg ∈ (state.threads scanner).scans := by
        rw [there, before]
        rfl
      exact fun ill => passed (guarded.2 msg scans ill)
  | saves here free text =>
    exact screened.move nofun (screened.healthy.update (.inl infectedApart))
  | @delivers thread msg mbox rcpt entry text rest crcpt here known free found =>
    have clean : ¬ infected msg.text := screened.through thread msg (by rw [here]; rfl)
    have live : msg ∈ state.live := held_live thread (by rw [here]; rfl)
    rw [sound.text msg live, Option.some.injEq] at found
    refine screened.move ?_ (screened.healthy.update (.inr ?_))
    · rintro _ ⟨⟩
      exact clean
    · rintro _ ⟨⟩
      exact found ▸ clean
  | releases here =>
    exact screened.move nofun (screened.healthy.update (.inr nofun))

/-- While the scanner answers and reports what is infected, nothing infected comes to a mailbox, in
every order of the sessions and the spoolers. -/
theorem infected_mail_is_not_delivered (infected : List UInt8 → Prop) (spooling : Spooling Thread)
    (spoolApart : spooling.server.Apart (ascii "spool"))
    (infectedApart : spooling.server.Apart (ascii "infected")) (start : Disk)
    (healthy : Healthy infected spooling.server start) (labels : List (SpoolLabel Thread))
    (final : Spool Thread)
    (run : Run (Under (SpoolStep spooling) fun state label => state.Guarded infected label.1)
      (started true start) labels final) :
    Healthy infected spooling.server final.disk := by
  have done := run.history
    (motive := fun past state =>
      state.Sound start past ∧ state.Screened infected spooling.server)
    ⟨started_sound true start, rfl, nofun, healthy⟩
    fun past state label next kept step =>
      ⟨kept.1.step spoolApart (handle_does step.1),
        kept.2.step kept.1 spoolApart infectedApart step.2 (handle_does step.1)⟩
  exact done.2.healthy

end Screening

/-! ### Every copy -/

section

theorem snoc_passed : passedOf (past ++ [(input, event)]) = passedOf past + event.passed? := by
  simp [passedOf]

theorem snoc_stopped : stoppedOf (past ++ [(input, event)]) = stoppedOf past + event.stopped? := by
  simp [stoppedOf]

theorem snoc_delivered :
    deliveredOf (past ++ [(input, event)]) = deliveredOf past + event.delivered? := by
  simp [deliveredOf]

theorem snoc_lost : lostOf (past ++ [(input, event)]) = lostOf past + event.lost? := by
  simp [lostOf]

/-- The files of the mailboxes stay as they are behind an event that delivers nothing. -/
theorem there_snoc {server : MailServer} {disk disk' : Disk}
    (there : ∀ mbox ∈ server.mbx, ∀ entry text, disk ⟨mbox.user, entry⟩ = some text ↔
      start ⟨mbox.user, entry⟩ = some text ∨
        ∃ label ∈ past, label.2 = .delivered ⟨mbox.user, entry⟩ text)
    (same : ∀ mbox ∈ server.mbx, ∀ entry, disk' ⟨mbox.user, entry⟩ = disk ⟨mbox.user, entry⟩)
    (silent : ∀ name text, event ≠ .delivered name text) :
    ∀ mbox ∈ server.mbx, ∀ entry text, disk' ⟨mbox.user, entry⟩ = some text ↔
      start ⟨mbox.user, entry⟩ = some text ∨
        ∃ label ∈ past ++ [(input, event)], label.2 = .delivered ⟨mbox.user, entry⟩ text := by
  intro mbox member entry text
  rw [same mbox member entry, there mbox member entry text]
  refine or_congr_right ⟨?_, ?_⟩
  · rintro ⟨label, inside, here⟩
    exact ⟨label, List.mem_append_left _ inside, here⟩
  · rintro ⟨label, inside, here⟩
    rcases List.mem_append.mp inside with inside | last
    · exact ⟨label, inside, here⟩
    · rw [List.mem_singleton.mp last] at here
      exact absurd here (silent _ _)

/-- The account of deliveries behind a step of one thread. -/
theorem account_moved {Copy : Type} {made made' lost lost' others others' before now due due' :
    Multiset Copy} (even : made + lost + others = due) (moved : others' + before = others + now)
    (step : now + (made' + lost') = before + due') :
    made + made' + (lost + lost') + others' = due + due' := by
  refine add_right_cancel (b := before) ?_
  calc made + made' + (lost + lost') + others' + before
      = made + made' + (lost + lost') + (others + now) := by rw [add_assoc, moved]
    _ = made + lost + others + (now + (made' + lost')) := by abel
    _ = due + due' + before := by
      rw [even, step]
      abel

end

section Copies

variable [Fintype Thread]

/-- The copies of the messages let through are made, lost or still to be made, and those made are in
the mailboxes. -/
structure Copied (server : MailServer) (start : Disk) (past : List (SpoolLabel Thread))
    (state : Spool Thread) : Prop where
  due : deliveredOf past + lostOf past +
    census (SpoolerThread.pending server) state.threads = server.dueAll (passedOf past)
  there : ∀ mbox ∈ server.mbx, ∀ entry text, state.disk ⟨mbox.user, entry⟩ = some text ↔
    start ⟨mbox.user, entry⟩ = some text ∨
      ∃ label ∈ past, label.2 = .delivered ⟨mbox.user, entry⟩ text

theorem started_copied (server : MailServer) (avEnable : Bool) (disk : Disk) :
    (started avEnable disk : Spool Thread).Copied server disk [] where
  due := by
    have none : census (SpoolerThread.pending server)
        (started avEnable disk : Spool Thread).threads = 0 := census_zero fun _ => rfl
    rw [none]
    rfl
  there := by
    intro mbox member entry text
    simp [started]

theorem other_dir {disk : Disk} {name : FileName} {content : Option (List UInt8)}
    {server : MailServer} (apart : server.Apart name.dir) :
    ∀ mbox ∈ server.mbx, ∀ entry,
      Function.update disk name content ⟨mbox.user, entry⟩ = disk ⟨mbox.user, entry⟩ := by
  intro mbox member entry
  refine Function.update_of_ne (fun same => ?_) ..
  exact apart mbox member (congrArg FileName.dir same)

theorem delivered_of_unlinked (unlinked : event.delivered? = 0) (name : FileName)
    (text : List UInt8) : event ≠ .delivered name text := by
  rintro rfl
  exact Multiset.singleton_ne_zero _ unlinked

/-- The account behind a step that has nothing to do with copies. -/
theorem due_snoc {server : MailServer} {threads : Thread → SpoolerThread}
    (due : deliveredOf past + lostOf past + census (SpoolerThread.pending server) state.threads =
      server.dueAll (passedOf past))
    (same : census (SpoolerThread.pending server) threads =
      census (SpoolerThread.pending server) state.threads)
    (silent : event.delivered? = 0 ∧ event.lost? = 0 ∧ event.passed? = 0) :
    deliveredOf (past ++ [(input, event)]) + lostOf (past ++ [(input, event)]) +
        census (SpoolerThread.pending server) threads =
      server.dueAll (passedOf (past ++ [(input, event)])) := by
  rw [snoc_delivered, snoc_lost, snoc_passed, silent.1, silent.2.1, silent.2.2, same, add_zero,
    add_zero, add_zero, due]

/-- Of the messages taken, which went on and which were stopped. -/
def Checked (past : List (SpoolLabel Thread)) (state : Spool Thread) : Prop :=
  takenOf past =
    census SpoolerThread.unchecked state.threads + (passedOf past + stoppedOf past)

theorem started_checked (avEnable : Bool) (disk : Disk) :
    (started avEnable disk : Spool Thread).Checked [] := by
  have none : census SpoolerThread.unchecked (started avEnable disk : Spool Thread).threads = 0 :=
    census_zero fun _ => rfl
  rw [Checked, none]
  rfl

theorem checked_snoc {threads : Thread → SpoolerThread}
    (checked : state.Checked past)
    (step : census SpoolerThread.unchecked threads + (event.passed? + event.stopped?) =
      census SpoolerThread.unchecked state.threads + event.taken?) :
    takenOf (past ++ [(input, event)]) = census SpoolerThread.unchecked threads +
      (passedOf (past ++ [(input, event)]) + stoppedOf (past ++ [(input, event)])) := by
  rw [snoc_taken, snoc_passed, snoc_stopped, show takenOf past = _ from checked]
  calc census SpoolerThread.unchecked state.threads + (passedOf past + stoppedOf past) +
        event.taken?
      = census SpoolerThread.unchecked state.threads + event.taken? +
          (passedOf past + stoppedOf past) := by abel
    _ = _ := by
      rw [← step]
      abel

/-- A step behind which no more is checked or taken than before. -/
theorem checked_same {threads : Thread → SpoolerThread} (checked : state.Checked past)
    (same : census SpoolerThread.unchecked threads = census SpoolerThread.unchecked state.threads)
    (silent : event.passed? = 0 ∧ event.stopped? = 0 ∧ event.taken? = 0) :
    takenOf (past ++ [(input, event)]) = census SpoolerThread.unchecked threads +
      (passedOf (past ++ [(input, event)]) + stoppedOf (past ++ [(input, event)])) :=
  checked_snoc checked (by rw [same, silent.1, silent.2.1, silent.2.2, add_zero])

variable [DecidableEq Thread]

theorem Checked.step (checked : state.Checked past) (does : Does spooling state input event after) :
    after.Checked (past ++ [(input, event)]) := by
  cases does with
  | spools free fresh rouses =>
    refine checked_same checked ?_ ⟨rfl, rfl, rfl⟩
    rcases rouses with ⟨-, same⟩ | ⟨sleeper, sleeps, same⟩
    · rw [same]
    · rw [same]
      exact census_same (by rw [sleeps]; rfl)
  | sleeps comes empty =>
    refine checked_same checked (census_same ?_) ⟨rfl, rfl, rfl⟩
    rcases comes with here | here <;> rw [here] <;> rfl
  | wakes sleeps =>
    exact checked_same checked (census_same (by rw [sleeps]; rfl)) ⟨rfl, rfl, rfl⟩
  | @takes thread msg rest comes first =>
    have moved := census_move SpoolerThread.unchecked state.threads thread (.taken msg)
    have none : (state.threads thread).unchecked = 0 := by
      rcases comes with here | here <;> rw [here] <;> rfl
    rw [none, add_zero] at moved
    refine checked_snoc checked ?_
    simp only [Spool.move, moved, SpoolEvent.passed?, SpoolEvent.stopped?, SpoolEvent.taken?,
      SpoolerThread.unchecked, add_zero]
  | @keeps thread now event avEnable fds keeps unlinked kept =>
    have moved := census_move SpoolerThread.unchecked state.threads thread now
    refine checked_snoc checked ?_
    rw [keeps.inner.2.1, add_zero]
    refine add_right_cancel (b := now.unchecked) ?_
    simp only [Spool.move]
    rw [← moved, ← keeps.checked]
    abel
  | saves here free text =>
    exact checked_same checked (census_same (by rw [here]; rfl)) ⟨rfl, rfl, rfl⟩
  | delivers here known free found =>
    exact checked_same checked (census_same (by rw [here]; rfl)) ⟨rfl, rfl, rfl⟩
  | releases here =>
    exact checked_same checked (census_same (by rw [here]; rfl)) ⟨rfl, rfl, rfl⟩

theorem Copied.step (copied : state.Copied spooling.server start past)
    (sound : state.Sound start past) (spoolApart : spooling.server.Apart (ascii "spool"))
    (infectedApart : spooling.server.Apart (ascii "infected"))
    (does : Does spooling state input event after) :
    after.Copied spooling.server start (past ++ [(input, event)]) := by
  cases does with
  | spools free fresh rouses =>
    refine ⟨due_snoc copied.due ?_ ⟨rfl, rfl, rfl⟩,
      there_snoc copied.there (other_dir spoolApart) (by simp)⟩
    rcases rouses with ⟨-, same⟩ | ⟨sleeper, sleeps, same⟩
    · rw [same]
    · rw [same]
      exact census_same (by rw [sleeps]; rfl)
  | sleeps comes empty =>
    refine ⟨due_snoc copied.due (census_same ?_) ⟨rfl, rfl, rfl⟩,
      there_snoc copied.there (fun _ _ _ => rfl) (by simp)⟩
    rcases comes with here | here <;> rw [here] <;> rfl
  | wakes sleeps =>
    exact ⟨due_snoc copied.due (census_same (by rw [sleeps]; rfl)) ⟨rfl, rfl, rfl⟩,
      there_snoc copied.there (fun _ _ _ => rfl) (by simp)⟩
  | takes comes first =>
    refine ⟨due_snoc copied.due (census_same ?_) ⟨rfl, rfl, rfl⟩,
      there_snoc copied.there (fun _ _ _ => rfl) (by simp)⟩
    rcases comes with here | here <;> rw [here] <;> rfl
  | @keeps thread now event avEnable fds keeps unlinked kept =>
    refine ⟨?_, there_snoc copied.there (fun _ _ _ => rfl) (delivered_of_unlinked unlinked)⟩
    rw [snoc_delivered, snoc_lost, snoc_passed, MailServer.dueAll, Multiset.add_bind]
    exact account_moved copied.due (census_move ..) keeps.due
  | saves here free text =>
    exact ⟨due_snoc copied.due (census_same (by rw [here]; rfl)) ⟨rfl, rfl, rfl⟩,
      there_snoc copied.there (other_dir infectedApart) (by simp)⟩
  | @delivers thread msg mbox rcpt entry text rest crcpt here known free found =>
    have live : msg ∈ state.live := held_live thread (by rw [here]; rfl)
    rw [sound.text msg live, Option.some.injEq] at found
    subst found
    constructor
    · rw [snoc_delivered, snoc_lost, snoc_passed, MailServer.dueAll, Multiset.add_bind]
      refine account_moved copied.due (census_move ..) ?_
      rw [here]
      simp only [SpoolerThread.pending, SpoolEvent.delivered?, SpoolEvent.lost?,
        SpoolEvent.passed?, due_local known, Multiset.zero_bind, add_zero]
      exact add_comm _ _
    · intro other member name text
      by_cases same : (⟨other.user, name⟩ : FileName) = ⟨mbox.user, entry⟩
      · simp only [Spool.move, same, Function.update_self, Option.some.injEq]
        constructor
        · rintro rfl
          exact .inr ⟨_, List.mem_append_right _ (List.mem_singleton_self _), rfl⟩
        · -- the name was free, so that nothing else has come to it
          have never : ¬ (start ⟨mbox.user, entry⟩ = some text ∨
              ∃ label ∈ past, label.2 = .delivered ⟨mbox.user, entry⟩ text) := by
            rw [← copied.there mbox (List.mem_of_find?_eq_some known) entry text, free]
            simp
          rintro (first | ⟨label, inside, made⟩)
          · exact absurd (.inl first) never
          · rcases List.mem_append.mp inside with inside | last
            · exact absurd (.inr ⟨label, inside, made⟩) never
            · rw [List.mem_singleton.mp last, SpoolEvent.delivered.injEq] at made
              exact made.2
      · simp only [Spool.move, Function.update_of_ne same]
        rw [copied.there other member name text]
        refine or_congr_right ⟨?_, ?_⟩
        · rintro ⟨label, inside, here⟩
          exact ⟨label, List.mem_append_left _ inside, here⟩
        · rintro ⟨label, inside, made⟩
          rcases List.mem_append.mp inside with inside | last
          · exact ⟨label, inside, made⟩
          · rw [List.mem_singleton.mp last, SpoolEvent.delivered.injEq] at made
            exact absurd made.1.symm same
  | releases here =>
    exact ⟨due_snoc copied.due (census_same (by rw [here]; rfl)) ⟨rfl, rfl, rfl⟩,
      there_snoc copied.there (other_dir spoolApart) (by simp)⟩

theorem link_free {disk : Disk} {old new : FileName} {text : List UInt8} (there : disk old = some text)
    (free : disk new = none) : disk.link old new ≠ none := by
  simp [Disk.link, there, free]

/-- A delivery under a free name is not lost. -/
theorem Sound.not_lost (sound : state.Sound start past) (fresh : state.Fresh spooling input)
    (does : Does spooling state input event after) : event.lost? = 0 := by
  cases does with
  | @keeps thread now event avEnable fds keeps unlinked kept =>
    rcases keeps.lost with none | ⟨mover, time, rand, msg, mbox, member, asked, held, failed⟩
    · exact none
    · rw [asked] at fresh
      exact absurd failed (link_free (sound.text msg (held_live _ held)) (fresh mbox member))
  | _ => rfl

/-- In every run in which no delivery comes to a name in use, a message that is taken is stopped by
the scanner or let through, or is still to be checked; every message let through is delivered once to
the mailbox of each local recipient or is with a thread that will do so; and the mailboxes hold what
they held before and these copies. -/
theorem local_copies_are_delivered (spooling : Spooling Thread)
    (spoolApart : spooling.server.Apart (ascii "spool"))
    (infectedApart : spooling.server.Apart (ascii "infected")) (avEnable : Bool) (start : Disk)
    (labels : List (SpoolLabel Thread)) (final : Spool Thread)
    (run : Run (Under (SpoolStep spooling) fun state label => state.Fresh spooling label.1)
      (started avEnable start) labels final) :
    takenOf labels = census SpoolerThread.unchecked final.threads +
        (passedOf labels + stoppedOf labels) ∧
      deliveredOf labels + census (SpoolerThread.pending spooling.server) final.threads =
        spooling.server.dueAll (passedOf labels) ∧
      ∀ mbox ∈ spooling.server.mbx, ∀ entry text, final.disk ⟨mbox.user, entry⟩ = some text ↔
        start ⟨mbox.user, entry⟩ = some text ∨
          ∃ label ∈ labels, label.2 = .delivered ⟨mbox.user, entry⟩ text := by
  have done := run.history
    (motive := fun past state => state.Sound start past ∧
      state.Copied spooling.server start past ∧ lostOf past = 0 ∧ state.Checked past)
    ⟨started_sound avEnable start, started_copied _ _ _, rfl, started_checked _ _⟩
    fun past state label next kept step => by
      have does := handle_does step.1
      refine ⟨kept.1.step spoolApart does, kept.2.1.step kept.1 spoolApart infectedApart does, ?_,
        kept.2.2.2.step does⟩
      rw [snoc_lost, kept.2.2.1, kept.1.not_lost step.2 does, add_zero]
  rw [List.nil_append] at done
  have due := done.2.1.due
  rw [done.2.2.1, add_zero] at due
  exact ⟨done.2.2.2, due, done.2.1.there⟩

end Copies

end Spool

/-! ### Two spoolers -/

def twoSpoolers : Spooling Bool where
  server := ⟨[⟨ascii "ann", ascii "secret"⟩], ascii "mail", ascii "1.2.3.4"⟩
  mytid := fun thread => if thread then 4 else 5

def toAnn (spoolfd : Nat) (text : List UInt8) : SpoolMsg :=
  ⟨⟨ascii "bob", [ascii "ann", ascii "eve@far"]⟩, spoolfd, [UInt8.ofNat spoolfd], text⟩

/-- Two messages come while one spooler sleeps, and the scanner stops the first. -/
def scanTwo : List (SpoolInput Bool) :=
  [.take true, .spool (toAnn 7 [88]) (some true), .spool (toAnn 8 [65]) none, .take true,
    .take false, .check true, .check false, .scanned true (some .clean),
    .scanned false (some .virus), .deliver true 10 20, .save false 10 30, .release false]

/-- One message is released, and the other is with its thread. -/
theorem two_spoolers_take_two : ∃ labels, ∃ final : Spool Bool,
    Run (SpoolStep twoSpoolers) (Spool.started true fun _ => none) labels final ∧
      final.spoolMsgs = [] ∧ final.fds = [8] ∧
      spooledOf labels = ↑final.spoolMsgs + takenOf labels ∧
      (↑final.fds : Multiset Nat) = final.live.map SpoolMsg.spoolfd := by
  obtain ⟨labels, final, run, seen⟩ := replay_reaches (Spool.handle twoSpoolers)
    (Spool.started true fun _ => none) scanTwo
    (fun final labels => decide (final.spoolMsgs = [] ∧ final.fds = [8] ∧
      ∀ label ∈ labels, label.1.strays = []))
    true (by decide +kernel)
  obtain ⟨empty, fds, strays⟩ := of_decide_eq_true seen
  have once := Spool.messages_are_spooled_once twoSpoolers (by decide) true _ labels final run
  exact ⟨labels, final, run, empty, fds, once.1, (once.2.2.2.2 strays).1⟩

/-- A round that closes the number of its socket a second time closes the file of a message that has
got the number meanwhile. -/
theorem stray_close_takes_descriptor : ∃ labels, ∃ final : Spool Bool,
    Run (SpoolStep twoSpoolers) (Spool.started false fun _ => none) labels final ∧
      toAnn 8 [65] ∈ final.spoolMsgs ∧ final.fds = [7] := by
  obtain ⟨labels, final, run, seen⟩ := replay_reaches (Spool.handle twoSpoolers)
    (Spool.started false fun _ => none)
    [.spool (toAnn 7 [88]) none, .take true, .check true, .deliver true 10 20, .deliver true 10 21,
      .deliver true 10 22, .spool (toAnn 8 [65]) none, .external true [8]]
    (fun final _ => (final.spoolMsgs, final.fds)) ([toAnn 8 [65]], [7]) (by decide +kernel)
  have waiting : final.spoolMsgs = [toAnn 8 [65]] := congrArg Prod.fst seen
  exact ⟨labels, final, run, waiting ▸ List.mem_singleton_self _, congrArg Prod.snd seen⟩

/-- Both sleep, and one is woken for a message. -/
theorem one_is_woken_for_one : ∃ labels, ∃ final : Spool Bool,
    Run (SpoolStep twoSpoolers) (Spool.started true fun _ => none) labels final ∧
      final.spoolMsgs = [toAnn 7 [88]] ∧ final.threads false = .asleep ∧ final.Served := by
  obtain ⟨labels, final, run, seen⟩ := replay_reaches (Spool.handle twoSpoolers)
    (Spool.started true fun _ => none)
    [.take true, .take false, .spool (toAnn 7 [88]) (some true)]
    (fun final _ => (final.spoolMsgs, final.threads false)) ([toAnn 7 [88]], .asleep)
    (by decide +kernel)
  exact ⟨labels, final, run, congrArg Prod.fst seen, congrArg Prod.snd seen,
    Spool.waiting_messages_wake_spoolers twoSpoolers true _ labels final run⟩

/-- The other message has come to the mailbox, and the infected one has not. -/
theorem infected_message_is_kept_out : ∃ labels, ∃ final : Spool Bool,
    Run (Under (SpoolStep twoSpoolers) fun state label =>
      state.Guarded (fun text => text = [88]) label.1) (Spool.started true fun _ => none) labels
      final ∧ final.disk ⟨ascii "ann", ascii "41020"⟩ = some [65] ∧
      final.disk ⟨ascii "infected", ascii "51030"⟩ = some [88] ∧
      Spool.Healthy (fun text => text = [88]) twoSpoolers.server final.disk := by
  obtain ⟨labels, final, run, seen⟩ := replay_reaches
    (guarded (Spool.handle twoSpoolers) (Spool.Guarded fun text => text = [88]))
    (Spool.started true fun _ => none) scanTwo
    (fun final _ => (final.disk ⟨ascii "ann", ascii "41020"⟩,
      final.disk ⟨ascii "infected", ascii "51030"⟩)) (some [65], some [88]) (by decide +kernel)
  have run := run_guarded run
  exact ⟨labels, final, run, congrArg Prod.fst seen, congrArg Prod.snd seen,
    Spool.infected_mail_is_not_delivered (fun text => text = [88]) twoSpoolers (by decide)
      (by decide) (fun _ => none) nofun labels final run⟩

theorem copy_for_ann : ∃ labels, ∃ final : Spool Bool,
    Run (Under (SpoolStep twoSpoolers) fun state label => state.Fresh twoSpoolers label.1)
      (Spool.started true fun _ => none) labels final ∧
      final.threads true = .delivering (toAnn 8 [65]) [ascii "eve@far"] [] ∧
      ∀ mbox ∈ twoSpoolers.server.mbx, ∀ entry text,
        final.disk ⟨mbox.user, entry⟩ = some text ↔
          none = some text ∨ ∃ label ∈ labels, label.2 = .delivered ⟨mbox.user, entry⟩ text := by
  obtain ⟨labels, final, run, seen⟩ := replay_reaches
    (guarded (Spool.handle twoSpoolers) (Spool.Fresh twoSpoolers))
    (Spool.started true fun _ => none) scanTwo (fun final _ => final.threads true)
    (.delivering (toAnn 8 [65]) [ascii "eve@far"] []) (by decide +kernel)
  have run := run_guarded run
  exact ⟨labels, final, run, seen, (Spool.local_copies_are_delivered twoSpoolers (by decide)
    (by decide) true (fun _ => none) labels final run).2.2⟩

end QNXStuff.QXMail
