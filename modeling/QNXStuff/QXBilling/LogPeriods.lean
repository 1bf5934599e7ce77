import Mathlib.Data.Fintype.Card
import QNXStuff.Library.Holding
import QNXStuff.QXBilling.Logging

/-! The periods of the packet log: what is stored between two swaps is what the second one
returns. -/

namespace QNXStuff.QXBilling

open Execution Holding

/-! ### Steps -/

namespace Logging

/-- What one step can do. -/
inductive Moves (state : Logging) : LogEvent → Logging → Prop where
  | enter (here : state.writers thread = .idle) (free : state.writing = false) :
      Moves state (.called thread pkt) (state.enter thread pkt)
  | reserve (here : state.writers thread = .entered pkt) :
      Moves state .silent { state.setWriter thread (.reserved pkt state.log.activeCount) with
        log := state.log.reserve.2 }
  | copy (here : state.writers thread = .reserved pkt slot) (room : slot < state.log.logLimit) :
      Moves state (.copied thread slot pkt)
        { state.setWriter thread (.filled pkt slot) with log := state.log.copy slot pkt }
  | clamp (here : state.writers thread = .reserved pkt slot) (full : ¬ slot < state.log.logLimit) :
      Moves state .silent { state.setWriter thread (.filled pkt slot) with log := state.log.clamp }
  | leave (here : state.writers thread = .filled pkt slot) :
      Moves state .silent
        { state.setWriter thread (.left pkt slot) with readers := state.readers.erase thread }
  | finish (here : state.writers thread = .left pkt slot) :
      Moves state (.returned thread pkt (slot < state.log.logLimit)) (state.setWriter thread .idle)
  | start (here : state.swapper = .idle) :
      Moves state .silent (state.setSwapper (.begun state.log.activeLog))
  | lock (here : state.swapper = .begun tmp) (free : state.writing = false)
      (empty : state.readers = []) :
      Moves state .silent { state.setSwapper (.locked tmp) with writing := true }
  | save (here : state.swapper = .locked tmp) :
      Moves state .silent { state.setSwapper (.counted tmp) with log := state.log.saveCount }
  | restart (here : state.swapper = .counted tmp) :
      Moves state .restarted { state.setSwapper (.restarted tmp) with log := state.log.restart }
  | switch (here : state.swapper = .restarted tmp) :
      Moves state .silent { state.setSwapper (.switched tmp) with log := state.log.switch }
  | unlock (here : state.swapper = .switched tmp) :
      Moves state .silent { state.setSwapper (.unlocked tmp) with writing := false }
  | giveBack (here : state.swapper = .unlocked tmp) :
      Moves state .silent { state.setSwapper .restored with log := state.log.giveBack tmp }
  | answer (here : state.swapper = .restored) :
      Moves state (.swapped state.log.logFdNum state.log.shadowCount)
        { state.setSwapper .idle with log := state.log.answer.2 }

variable {state next : Logging} {label : LogLabel} {event : LogEvent}

theorem threadStep_moves {thread : Thread} (step : state.threadStep thread = .ok (next, event)) :
    state.Moves event next := by
  unfold threadStep at step
  cases here : state.writers thread with
  | idle => simp [here] at step
  | entered pkt =>
    rw [here] at step
    cases step
    exact .reserve here
  | reserved pkt slot =>
    rw [here] at step
    by_cases room : slot < state.log.logLimit
    · simp only [Log.fill, if_pos room] at step
      cases step
      exact .copy here room
    · simp only [Log.fill, if_neg room] at step
      cases step
      exact .clamp here room
  | filled pkt slot =>
    rw [here] at step
    cases step
    exact .leave here
  | left pkt slot =>
    rw [here] at step
    cases step
    exact .finish here

theorem swapStep_moves (step : state.swapStep = .ok (next, event)) : state.Moves event next := by
  unfold swapStep at step
  cases here : state.swapper with
  | begun tmp =>
    simp only [here] at step
    split at step
    · cases step
    · next free =>
      simp only [Bool.or_eq_true, Bool.not_eq_true', not_or, Bool.not_eq_true,
        Bool.not_eq_false, List.isEmpty_iff] at free
      cases step
      exact .lock here free.1 free.2
  | idle => rw [here] at step; cases step; exact .start here
  | locked tmp => rw [here] at step; cases step; exact .save here
  | counted tmp => rw [here] at step; cases step; exact .restart here
  | restarted tmp => rw [here] at step; cases step; exact .switch here
  | switched tmp => rw [here] at step; cases step; exact .unlock here
  | unlocked tmp => rw [here] at step; cases step; exact .giveBack here
  | restored => rw [here] at step; cases step; exact .answer here

theorem step_moves (step : LogStep state label next) : state.Moves label.2 next := by
  obtain ⟨move, event⟩ := label
  cases move with
  | store thread pkt =>
    have step : state.storeStep thread pkt = .ok (next, event) := step
    unfold storeStep at step
    cases here : state.writers thread with
    | idle =>
      simp only [here] at step
      split at step
      · cases step
      · next free =>
        cases step
        exact .enter here (Bool.eq_false_iff.mpr free)
    | _ => simp [here] at step
  | thread thread => exact threadStep_moves step
  | swap => exact swapStep_moves step

end Logging

/-! ### The lock -/

/-- A packet thread that holds the read lock. -/
def Writer.inside : Writer → Bool
  | .entered _ | .reserved _ _ | .filled _ _ => true
  | .idle | .left _ _ => false

/-- The manager between `pthread_rwlock_wrlock` and `pthread_rwlock_unlock`. -/
def Swapper.inside : Swapper → Bool
  | .locked _ | .counted _ | .restarted _ | .switched _ => true
  | .idle | .begun _ | .unlocked _ | .restored => false

namespace Logging

structure Locked (state : Logging) : Prop where
  nodup : state.readers.Nodup
  reader_iff : ∀ thread, thread ∈ state.readers ↔ (state.writers thread).inside = true
  writing_eq : state.writing = state.swapper.inside
  alone : state.writing = true → state.readers = []

variable {state next : Logging} {event : LogEvent}

theorem locked_start (region : LogRegion → Nat → QxLog) (numSlots : Fin (2 ^ 31)) :
    (start region numSlots).Locked where
  nodup := List.nodup_nil
  reader_iff thread := by simp [start, Writer.inside]
  writing_eq := rfl
  alone := nofun

theorem Locked.member (locked : state.Locked) {thread : Thread}
    (inside : (state.writers thread).inside = true) : thread ∈ state.readers :=
  (locked.reader_iff thread).mpr inside

theorem Locked.outside (locked : state.Locked) {thread : Thread}
    (outside : (state.writers thread).inside = false) : thread ∉ state.readers := by
  intro member
  rw [(locked.reader_iff thread).mp member] at outside
  cases outside

/-- A packet thread that goes on without taking or releasing the lock. -/
theorem Locked.setWriter (locked : state.Locked) {thread : Thread} {writer : Writer}
    (same : writer.inside = (state.writers thread).inside) :
    (state.setWriter thread writer).Locked where
  nodup := locked.nodup
  reader_iff other := by
    refine (locked.reader_iff other).trans ?_
    by_cases this : other = thread
    · subst this
      simp [Logging.setWriter, same]
    · simp [Logging.setWriter, this]
  writing_eq := locked.writing_eq
  alone := locked.alone

/-- The lock does not depend on what is logged. -/
theorem Locked.withLog (locked : state.Locked) (log : Log) :
    ({ state with log := log } : Logging).Locked :=
  { locked with }

theorem Locked.setSwapper (locked : state.Locked) {swapper : Swapper}
    (same : swapper.inside = state.swapper.inside) : (state.setSwapper swapper).Locked :=
  { locked with writing_eq := locked.writing_eq.trans same.symm }

theorem Moves.locked (move : state.Moves event next) (locked : state.Locked) : next.Locked := by
  cases move with
  | @enter thread pkt here free =>
    have outside : thread ∉ state.readers := locked.outside (by rw [here]; rfl)
    constructor
    · exact List.nodup_cons.mpr ⟨outside, locked.nodup⟩
    · intro other
      by_cases this : other = thread
      · subst this
        simp [Logging.enter, Logging.setWriter, Writer.inside]
      · simp [Logging.enter, Logging.setWriter, this, locked.reader_iff]
    · exact locked.writing_eq
    · intro writing
      rw [show state.writing = true from writing] at free
      cases free
  | reserve here => exact (locked.setWriter (by rw [here]; rfl)).withLog _
  | copy here room => exact (locked.setWriter (by rw [here]; rfl)).withLog _
  | clamp here full => exact (locked.setWriter (by rw [here]; rfl)).withLog _
  | @leave thread pkt slot here =>
    constructor
    · exact locked.nodup.erase thread
    · intro other
      show other ∈ state.readers.erase thread ↔ _
      rw [locked.nodup.mem_erase_iff, locked.reader_iff]
      by_cases this : other = thread
      · subst this
        simp [Logging.setWriter, Writer.inside]
      · simp [Logging.setWriter, this]
    · exact locked.writing_eq
    · intro writing
      show state.readers.erase thread = []
      rw [locked.alone writing, List.erase_nil]
  | finish here => exact locked.setWriter (by rw [here]; rfl)
  | start here => exact locked.setSwapper (by rw [here]; rfl)
  | lock here free empty =>
    exact { locked with writing_eq := rfl, alone := fun _ => empty }
  | save here => exact (locked.setSwapper (by rw [here]; rfl)).withLog _
  | restart here => exact (locked.setSwapper (by rw [here]; rfl)).withLog _
  | switch here => exact (locked.setSwapper (by rw [here]; rfl)).withLog _
  | unlock here => exact { locked with writing_eq := rfl, alone := nofun }
  | giveBack here => exact (locked.setSwapper (by rw [here]; rfl)).withLog _
  | answer here => exact (locked.setSwapper (by rw [here]; rfl)).withLog _

end Logging

/-! ### The slots of a period -/

/-- The slot that a packet thread is going to fill. -/
def Writer.pending (limit : UInt32) : Writer → Option Nat
  | .reserved _ slot => if slot < limit then some slot.toNat else none
  | _ => none

/-- A packet thread that was given a slot past the end of the region. -/
def Writer.over (limit : UInt32) : Writer → Option Unit
  | .reserved _ slot => if slot < limit then none else some ()
  | _ => none

/-- What the events so far say: the slots copied in each finished period and in the one that
goes on, and what the swaps have answered. -/
structure LogHistory where
  closed : List (List (Nat × QxLog))
  current : List (Nat × QxLog)
  swaps : List (Nat × UInt32)

namespace LogHistory

def empty : LogHistory where
  closed := []
  current := []
  swaps := []

def add (history : LogHistory) : LogEvent → LogHistory
  | .copied _ slot pkt => { history with current := history.current ++ [(slot.toNat, pkt)] }
  | .restarted => { history with closed := history.closed ++ [history.current], current := [] }
  | .swapped rgn cnt => { history with swaps := history.swaps ++ [(rgn, cnt)] }
  | _ => history

def of (labels : List LogLabel) : LogHistory :=
  labels.foldl (fun history label => history.add label.2) empty

theorem of_snoc (labels : List LogLabel) (label : LogLabel) :
    of (labels ++ [label]) = (of labels).add label.2 := by
  simp [of]

end LogHistory

namespace Logging

variable {Ref : Type}

/-- What the threads inside hold, by where each of them is. -/
def held (holds : UInt32 → Writer → Option Ref) (state : Logging) : List Ref :=
  state.readers.filterMap (holds state.log.logLimit ∘ state.writers)

/-- A thread inside goes on inside. -/
structure Turned (state : Logging) (thread : Thread) (writer : Writer) (next : Logging) : Prop where
  member : thread ∈ state.readers
  nodup : state.readers.Nodup
  readers_eq : next.readers = state.readers
  writers_eq : next.writers = Function.update state.writers thread writer
  limit_eq : next.log.logLimit = state.log.logLimit

variable {state next : Logging} {thread : Thread} {writer : Writer}

theorem Locked.turned (locked : state.Locked) (inside : (state.writers thread).inside = true)
    (writer : Writer) {log : Log} (limit : log.logLimit = state.log.logLimit) :
    state.Turned thread writer { state.setWriter thread writer with log := log } :=
  ⟨locked.member inside, locked.nodup, rfl, rfl, limit⟩

theorem Turned.gain (turned : state.Turned thread writer next)
    (holds : UInt32 → Writer → Option Ref)
    (free : holds state.log.logLimit (state.writers thread) = none) :
    (next.held holds).Perm ((holds state.log.logLimit writer).toList ++ state.held holds) := by
  unfold held
  rw [turned.readers_eq, turned.writers_eq, turned.limit_eq, Function.comp_update]
  exact held_gain turned.nodup turned.member (holds state.log.logLimit ∘ state.writers) free _

theorem Turned.give (turned : state.Turned thread writer next)
    (holds : UInt32 → Writer → Option Ref) (free : holds state.log.logLimit writer = none) :
    (state.held holds).Perm
      ((holds state.log.logLimit (state.writers thread)).toList ++ next.held holds) := by
  have taken := held_update turned.nodup turned.member (holds state.log.logLimit ∘ state.writers)
    (holds state.log.logLimit writer)
  rw [← Function.comp_update, free] at taken
  unfold held
  rw [turned.readers_eq, turned.writers_eq, turned.limit_eq]
  exact (held_split turned.member _).trans (taken.symm.append_left _)

/-- The slots that were given to threads are those below the count, each to one thread; `current`
is what was copied in this period. -/
structure Counted (state : Logging) (current : List (Nat × QxLog)) : Prop where
  small : state.log.logLimit.toNat < 2 ^ 31
  given : (current.map Prod.fst ++ state.held Writer.pending).Perm
    (List.range (min state.log.activeCount.toNat state.log.logLimit.toNat))
  above : state.log.activeCount.toNat ≤ state.log.logLimit.toNat + (state.held Writer.over).length
  full : state.held Writer.over ≠ [] → state.log.logLimit.toNat ≤ state.log.activeCount.toNat
  stored : ∀ copy ∈ current, state.log.region state.log.activeLog copy.1 = copy.2

variable {current : List (Nat × QxLog)}

theorem counted_start (region : LogRegion → Nat → QxLog) (numSlots : Fin (2 ^ 31)) :
    (start region numSlots).Counted [] where
  small := by
    have inside : (UInt32.ofNat numSlots.val).toNat = numSlots.val :=
      UInt32.toNat_ofNat_of_lt (Nat.lt_trans numSlots.isLt (by decide))
    show (UInt32.ofNat numSlots.val).toNat < 2 ^ 31
    rw [inside]
    exact numSlots.isLt
  given := by simp [start, logInit, held]
  above := by simp [start, logInit]
  full := by simp [start, held]
  stored := nofun

/-- There is room in the counter for every thread that can reserve a slot. -/
theorem Counted.no_wrap (counted : state.Counted current) (locked : state.Locked)
    (member : thread ∈ state.readers)
    (within : (state.writers thread).over state.log.logLimit = none) :
    (state.log.activeCount + 1).toNat = state.log.activeCount.toNat + 1 := by
  have few : state.readers.length ≤ 2 ^ 31 := by
    simpa using locked.nodup.length_le_card
  have others : (state.held Writer.over).length + 1 ≤ state.readers.length := by
    have split := held_split member (Writer.over state.log.logLimit ∘ state.writers)
    have fewer := List.length_filterMap_le (Writer.over state.log.logLimit ∘ state.writers)
      (state.readers.erase thread)
    have present := List.length_pos_of_mem member
    rw [Function.comp_apply, within, Option.toList_none, List.nil_append] at split
    rw [List.length_erase_of_mem member] at fewer
    rw [held, split.length_eq]
    omega
  have small := counted.small
  have above := counted.above
  rw [UInt32.toNat_add]
  exact Nat.mod_eq_of_lt (by simp; omega)

theorem Counted.congr (counted : state.Counted current) (log : next.log = state.log)
    (pendings : (next.held Writer.pending).Perm (state.held Writer.pending))
    (overs : (next.held Writer.over).Perm (state.held Writer.over)) :
    next.Counted current where
  small := log ▸ counted.small
  given := by
    rw [log]
    exact (pendings.append_left _).trans counted.given
  above := by
    rw [log, overs.length_eq]
    exact counted.above
  full := by
    rw [log]
    intro some
    refine counted.full fun none => some ?_
    rw [none] at overs
    exact overs.eq_nil
  stored := log ▸ counted.stored

theorem Counted.enter (counted : state.Counted current) (pkt : QxLog)
    (outside : thread ∉ state.readers) : (state.enter thread pkt).Counted current := by
  have same {Ref : Type} (holds : UInt32 → Writer → Option Ref)
      (free : holds state.log.logLimit (.entered pkt) = none) :
      (state.enter thread pkt).held holds = state.held holds := by
    unfold held
    simp only [Logging.enter, setWriter, Function.comp_update, free]
    exact held_join outside _
  exact counted.congr rfl (.of_eq (same _ rfl)) (.of_eq (same _ rfl))

theorem Counted.leave (counted : state.Counted current) (locked : state.Locked)
    {pkt : QxLog} {slot : UInt32} (here : state.writers thread = .filled pkt slot) :
    ({ state.setWriter thread (.left pkt slot) with
      readers := state.readers.erase thread } : Logging).Counted current := by
  have member : thread ∈ state.readers := locked.member (by rw [here]; rfl)
  refine counted.congr rfl ?_ ?_
  · unfold held
    simp only [setWriter, Function.comp_update]
    exact held_quit locked.nodup member (by simp [here, Writer.pending])
  · unfold held
    simp only [setWriter, Function.comp_update]
    exact held_quit locked.nodup member (by simp [here, Writer.over])

theorem Counted.finish (counted : state.Counted current)
    (outside : thread ∉ state.readers) : (state.setWriter thread .idle).Counted current := by
  have same {Ref : Type} (holds : UInt32 → Writer → Option Ref) :
      (state.setWriter thread .idle).held holds = state.held holds := by
    unfold held
    simp only [setWriter, Function.comp_update]
    exact held_update_outside outside _ _
  exact counted.congr rfl (.of_eq (same _)) (.of_eq (same _))

/-- The count is handed out as a slot; one past the end belongs to nobody. -/
theorem Counted.reserve (counted : state.Counted current) (locked : state.Locked) {pkt : QxLog}
    (here : state.writers thread = .entered pkt)
    (turned : state.Turned thread (.reserved pkt state.log.activeCount) next)
    (log : next.log = state.log.reserve.2) : next.Counted current := by
  have count : next.log.activeCount.toNat = state.log.activeCount.toNat + 1 := by
    rw [log]
    exact counted.no_wrap locked turned.member (by simp [here, Writer.over])
  have pendings := turned.gain Writer.pending (by simp [here, Writer.pending])
  have overs := turned.gain Writer.over (by simp [here, Writer.over])
  have bound := counted.above
  have stored : ∀ copy ∈ current, next.log.region next.log.activeLog copy.1 = copy.2 := by
    rw [log]
    exact counted.stored
  by_cases room : state.log.activeCount < state.log.logLimit
  · have below : state.log.activeCount.toNat < state.log.logLimit.toNat :=
      UInt32.lt_iff_toNat_lt.mp room
    simp only [Writer.pending, Writer.over, if_pos room, Option.toList_some, Option.toList_none,
      List.nil_append, List.singleton_append] at pendings overs
    refine ⟨turned.limit_eq ▸ counted.small, ?_, ?_, ?_, stored⟩
    · have given := counted.given
      rw [Nat.min_eq_left (Nat.le_of_lt below)] at given
      rw [count, turned.limit_eq, Nat.min_eq_left below, List.range_succ]
      refine (pendings.append_left _).trans (List.perm_middle.trans ?_)
      exact (List.perm_append_singleton _ _).symm.trans (given.append_right _)
    · rw [count, turned.limit_eq]
      exact Nat.le_trans below (Nat.le_add_right ..)
    · intro some
      refine absurd (counted.full fun none => some ?_) (Nat.not_le.mpr below)
      rw [none] at overs
      exact overs.eq_nil
  · have above : state.log.logLimit.toNat ≤ state.log.activeCount.toNat :=
      Nat.not_lt.mp fun below => room (UInt32.lt_iff_toNat_lt.mpr below)
    simp only [Writer.pending, Writer.over, if_neg room, Option.toList_some, Option.toList_none,
      List.nil_append, List.singleton_append] at pendings overs
    refine ⟨turned.limit_eq ▸ counted.small, ?_, ?_, ?_, stored⟩
    · have given := counted.given
      rw [Nat.min_eq_right above] at given
      rw [count, turned.limit_eq, Nat.min_eq_right (Nat.le_succ_of_le above)]
      exact (pendings.append_left _).trans given
    · rw [count, turned.limit_eq, overs.length_eq, List.length_cons]
      exact Nat.succ_le_succ bound
    · intro _
      rw [count, turned.limit_eq]
      exact Nat.le_succ_of_le above

/-- A slot is filled by the thread it was given to, and nobody else has it. -/
theorem Counted.copy (counted : state.Counted current) {pkt : QxLog} {slot : UInt32}
    (here : state.writers thread = .reserved pkt slot) (room : slot < state.log.logLimit)
    (turned : state.Turned thread (.filled pkt slot) next)
    (log : next.log = state.log.copy slot pkt) : next.Counted (current ++ [(slot.toNat, pkt)]) := by
  have pendings := turned.give Writer.pending (by simp [Writer.pending])
  have overs := turned.give Writer.over (by simp [Writer.over])
  simp only [here, Writer.pending, Writer.over, if_pos room, Option.toList_some, Option.toList_none,
    List.nil_append, List.singleton_append] at pendings overs
  have given := (pendings.append_left (current.map Prod.fst)).symm.trans counted.given
  have count : next.log.activeCount = state.log.activeCount := by rw [log]; rfl
  have fresh : slot.toNat ∉ current.map Prod.fst := by
    have nodup := given.nodup_iff.mpr List.nodup_range
    intro member
    exact List.disjoint_of_nodup_append nodup member List.mem_cons_self
  refine ⟨turned.limit_eq ▸ counted.small, ?_, ?_, ?_, ?_⟩
  · rw [count, turned.limit_eq]
    simpa using given
  · rw [count, turned.limit_eq, ← overs.length_eq]
    exact counted.above
  · rw [count, turned.limit_eq]
    intro some
    refine counted.full fun none => some ?_
    rw [none] at overs
    exact overs.symm.eq_nil
  · intro copied member
    rw [log]
    have here : (state.log.copy slot pkt).region state.log.activeLog =
        Function.update (state.log.region state.log.activeLog) slot.toNat pkt :=
      Function.update_self ..
    show (state.log.copy slot pkt).region state.log.activeLog copied.1 = copied.2
    rw [here]
    rcases List.mem_append.mp member with earlier | this
    · have apart : copied.1 ≠ slot.toNat := by
        intro same
        exact fresh (same ▸ List.mem_map_of_mem earlier)
      rw [Function.update_of_ne apart]
      exact counted.stored copied earlier
    · obtain rfl := List.mem_singleton.mp this
      exact Function.update_self ..

/-- A slot past the end is given up by the count going back to the end. -/
theorem Counted.clamp (counted : state.Counted current) {pkt : QxLog} {slot : UInt32}
    (here : state.writers thread = .reserved pkt slot) (full : ¬ slot < state.log.logLimit)
    (turned : state.Turned thread (.filled pkt slot) next)
    (log : next.log = state.log.clamp) : next.Counted current := by
  have pendings := turned.give Writer.pending (by simp [Writer.pending])
  have overs := turned.give Writer.over (by simp [Writer.over])
  simp only [here, Writer.pending, Writer.over, if_neg full, Option.toList_some, Option.toList_none,
    List.nil_append, List.singleton_append] at pendings overs
  have count : next.log.activeCount = next.log.logLimit := by rw [log]; rfl
  have above := counted.full fun none => by
    rw [none] at overs
    exact List.cons_ne_nil _ _ overs.symm.eq_nil
  refine ⟨turned.limit_eq ▸ counted.small, ?_, ?_, ?_, ?_⟩
  · have given := counted.given
    rw [Nat.min_eq_right above] at given
    rw [count, Nat.min_self, turned.limit_eq]
    exact (pendings.append_left _).symm.trans given
  · rw [count]
    exact Nat.le_add_right ..
  · intro _
    rw [count]
  · rw [log]
    exact counted.stored

/-- With no thread inside, the slots below the count are those copied in this period. -/
theorem Counted.drained (counted : state.Counted current) (empty : state.readers = []) :
    state.log.activeCount ≤ state.log.logLimit ∧
      current.Perm (state.log.slots state.log.activeLog state.log.activeCount) := by
  have none : state.held Writer.pending = [] := by simp [held, empty]
  have none' : state.held Writer.over = [] := by simp [held, empty]
  have bound := counted.above
  have given := counted.given
  rw [none', List.length_nil, Nat.add_zero] at bound
  rw [none, List.append_nil, Nat.min_eq_left bound] at given
  refine ⟨UInt32.le_iff_toNat_le.mpr bound, ?_⟩
  have copies : current = (current.map Prod.fst).map fun slot =>
      (slot, state.log.region state.log.activeLog slot) := by
    rw [List.map_map]
    symm
    refine (List.map_congr_left fun copied member => ?_).trans current.map_id
    show (copied.1, _) = copied
    rw [counted.stored copied member]
  rw [copies]
  exact given.map _

end Logging

/-! ### The swaps -/

/-- The manager between the end of a period and its answer. -/
def Swapper.closing : Swapper → Bool
  | .restarted _ | .switched _ | .unlocked _ | .restored => true
  | .idle | .begun _ | .locked _ | .counted _ => false

/-- The region of the last period is not asked for again. -/
def Swapper.readable : Swapper → Bool
  | .idle | .restarted _ | .switched _ | .unlocked _ | .restored => true
  | .begun _ | .locked _ | .counted _ => false

/-- Which region `log_fd_num` names, and where the others stand. -/
def Log.At (log : Log) : Swapper → Prop
  | .idle =>
    log.activeLog = shmLogs log.logFdNum ∧ log.shadowLog = (shmLogs log.logFdNum).other
  | .begun tmp | .locked tmp | .counted tmp | .restarted tmp =>
    tmp = shmLogs log.logFdNum ∧ log.activeLog = tmp ∧ log.shadowLog = tmp.other
  | .switched tmp | .unlocked tmp =>
    tmp = shmLogs log.logFdNum ∧ log.activeLog = tmp.other
  | .restored =>
    log.activeLog = (shmLogs log.logFdNum).other ∧ log.shadowLog = shmLogs log.logFdNum

/-- What was copied in a period, slot by slot, is what the region holds below the count. -/
def Log.Returns (log : Log) (period : List (Nat × QxLog)) (rgn : Nat) (cnt : UInt32) : Prop :=
  rgn ≤ 1 ∧ cnt ≤ log.logLimit ∧ period.Perm (log.slots (shmLogs rgn) cnt)

theorem LogRegion.other_ne (region : LogRegion) : region.other ≠ region := by
  cases region <;> simp [LogRegion.other]

theorem LogRegion.other_other (region : LogRegion) : region.other.other = region := by
  cases region <;> rfl

/-- `log_fd_num` goes back and forth. -/
theorem shmLogs_toggle {logFdNum : Nat} (fd : logFdNum ≤ 1) :
    shmLogs (if logFdNum = 1 then 0 else 1) = (shmLogs logFdNum).other := by
  rcases Nat.le_one_iff_eq_zero_or_eq_one.mp fd with rfl | rfl
  · rfl
  · rfl

theorem Log.Returns.copy {log : Log} {period : List (Nat × QxLog)} {rgn : Nat} {cnt : UInt32}
    (returns : log.Returns period rgn cnt) (apart : shmLogs rgn ≠ log.activeLog) (slot : UInt32)
    (pkt : QxLog) : (log.copy slot pkt).Returns period rgn cnt := by
  have same : (log.copy slot pkt).region (shmLogs rgn) = log.region (shmLogs rgn) :=
    Function.update_of_ne apart ..
  unfold Log.Returns Log.slots
  rw [same]
  exact returns

namespace Logging

/-- The swaps that have been answered and the one whose period has ended. -/
def returned (state : Logging) (history : LogHistory) : List (Nat × UInt32) :=
  history.swaps ++
    if state.swapper.closing then [(state.log.logFdNum, state.log.shadowCount)] else []

structure Swapping (state : Logging) (history : LogHistory) : Prop where
  fd : state.log.logFdNum ≤ 1
  place : state.log.At state.swapper
  counted : ∀ tmp, state.swapper = .counted tmp → state.log.shadowCount = state.log.activeCount
  fresh : ∀ tmp, state.swapper = .restarted tmp → history.current = []
  as_many : (state.returned history).length = history.closed.length
  last : state.swapper.readable = true → ∀ earlier rgn cnt before period,
    state.returned history = earlier ++ [(rgn, cnt)] → history.closed = before ++ [period] →
      state.log.Returns period rgn cnt ∧ (state.writing = false → shmLogs rgn ≠ state.log.activeLog)

variable {state next : Logging} {event : LogEvent} {history : LogHistory} {thread : Thread}

theorem swapping_start (region : LogRegion → Nat → QxLog) (numSlots : Fin (2 ^ 31)) :
    (start region numSlots).Swapping .empty where
  fd := Nat.zero_le 1
  place := ⟨rfl, rfl⟩
  counted := nofun
  fresh := nofun
  as_many := rfl
  last _ earlier rgn cnt _ _ swaps := by simp [returned, LogHistory.empty, start, Swapper.closing] at swaps

/-- A thread inside keeps the manager out. -/
theorem Locked.open (locked : state.Locked) (inside : (state.writers thread).inside = true) :
    state.writing = false := by
  have member := locked.member inside
  cases writing : state.writing with
  | false => rfl
  | true =>
    rw [locked.alone writing] at member
    cases member

/-- A thread inside reserves or gives up a slot. -/
theorem Swapping.withCount (swapping : state.Swapping history) (locked : state.Locked)
    (inside : (state.writers thread).inside = true) (writer : Writer) (count : UInt32) :
    ({ state.setWriter thread writer with
      log := { state.log with activeCount := count } } : Logging).Swapping history :=
  { swapping with
    counted := by
      intro tmp here
      have writing := locked.writing_eq
      rw [locked.open inside, show state.swapper = .counted tmp from here] at writing
      cases writing }

theorem Swapping.copy (swapping : state.Swapping history) (locked : state.Locked)
    (inside : (state.writers thread).inside = true) (writer : Writer) (slot : UInt32) (pkt : QxLog)
    (current : List (Nat × QxLog)) :
    ({ state.setWriter thread writer with log := state.log.copy slot pkt } : Logging).Swapping
      { history with current := current } :=
  { swapping with
    fresh := by
      intro tmp here
      have writing := locked.writing_eq
      rw [locked.open inside, show state.swapper = .restarted tmp from here] at writing
      cases writing
    last := by
      intro readable earlier rgn cnt before period swaps closed
      obtain ⟨returns, apart⟩ := swapping.last readable earlier rgn cnt before period swaps closed
      exact ⟨returns.copy (apart (locked.open inside)) slot pkt, apart⟩ }

/-- The manager goes on before the period ends. -/
theorem Swapping.advance (swapping : state.Swapping history)
    (before : state.swapper.closing = false) (swapper : Swapper) (quiet : swapper.readable = false)
    (log : Log) (writing : Bool) (fd : log.logFdNum = state.log.logFdNum) (place : log.At swapper)
    (counted : ∀ tmp, swapper = .counted tmp → log.shadowCount = log.activeCount) :
    ({ state with swapper := swapper, log := log, writing := writing } : Logging).Swapping
      history where
  fd := fd ▸ swapping.fd
  place := place
  counted := counted
  fresh := by
    rintro tmp rfl
    cases quiet
  as_many := by
    have open' : swapper.closing = false := by cases swapper <;> first | rfl | cases quiet
    have many := swapping.as_many
    simp only [returned, before, open'] at many ⊢
    exact many
  last := by
    intro readable
    rw [show swapper.readable = true from readable] at quiet
    cases quiet

/-- The manager goes on after the period has ended. -/
theorem Swapping.conclude (swapping : state.Swapping history) {history' : LogHistory}
    (readable : state.swapper.readable = true) (log : next.log.region = state.log.region)
    (limit : next.log.logLimit = state.log.logLimit) (fd : next.log.logFdNum ≤ 1)
    (place : next.log.At next.swapper) (counted : ∀ tmp, next.swapper ≠ .counted tmp)
    (fresh : ∀ tmp, next.swapper ≠ .restarted tmp) (closed : history'.closed = history.closed)
    (swaps : next.returned history' = state.returned history)
    (apart : ∀ earlier rgn cnt, state.returned history = earlier ++ [(rgn, cnt)] →
      (state.writing = false → shmLogs rgn ≠ state.log.activeLog) →
      next.writing = false → shmLogs rgn ≠ next.log.activeLog) : next.Swapping history' where
  fd := fd
  place := place
  counted tmp here := absurd here (counted tmp)
  fresh tmp here := absurd here (fresh tmp)
  as_many := by
    rw [swaps, closed]
    exact swapping.as_many
  last := by
    intro _ earlier rgn cnt before period last ended
    rw [swaps] at last
    rw [closed] at ended
    obtain ⟨⟨named, small, slots⟩, elsewhere⟩ :=
      swapping.last readable earlier rgn cnt before period last ended
    refine ⟨⟨named, limit ▸ small, ?_⟩, apart earlier rgn cnt last elsewhere⟩
    unfold Log.slots at slots ⊢
    rw [log]
    exact slots

theorem returned_closing (closing : state.swapper.closing = true) (history : LogHistory) :
    state.returned history = history.swaps ++ [(state.log.logFdNum, state.log.shadowCount)] := by
  simp only [returned, closing, if_true]

/-- The period ends when the count starts again. -/
theorem Swapping.restart (swapping : state.Swapping history) (locked : state.Locked)
    (counted : state.Counted history.current) {tmp : LogRegion}
    (here : state.swapper = .counted tmp) :
    ({ state.setSwapper (.restarted tmp) with log := state.log.restart } : Logging).Swapping
      (history.add .restarted) := by
  have place := swapping.place
  have many := swapping.as_many
  have writing : state.writing = true := by
    rw [locked.writing_eq, here]
    rfl
  rw [here] at place
  obtain ⟨rfl, active, shadow⟩ := place
  simp only [returned, here, Swapper.closing] at many
  obtain ⟨small, slots⟩ := counted.drained (locked.alone writing)
  rw [active, ← swapping.counted _ here] at slots
  rw [← swapping.counted _ here] at small
  constructor
  · exact swapping.fd
  · exact ⟨rfl, active, shadow⟩
  · nofun
  · exact fun _ _ => rfl
  · rw [returned_closing rfl]
    simpa [LogHistory.add] using many
  · intro _ earlier rgn cnt before period last ended
    rw [returned_closing rfl] at last
    obtain ⟨-, same⟩ := List.append_singleton_inj.mp last
    obtain ⟨-, same'⟩ := List.append_singleton_inj.mp ended
    cases same
    cases same'
    refine ⟨⟨swapping.fd, small, slots⟩, ?_⟩
    intro free
    rw [show state.writing = false from free] at writing
    cases writing

theorem Moves.swapping (move : state.Moves event next) (locked : state.Locked)
    (counted : state.Counted history.current) (swapping : state.Swapping history) :
    next.Swapping (history.add event) := by
  have place := swapping.place
  cases move with
  | enter here free => exact { swapping with }
  | reserve here => exact swapping.withCount locked (by rw [here]; rfl) _ _
  | copy here room => exact swapping.copy locked (by rw [here]; rfl) _ _ _ _
  | clamp here full => exact swapping.withCount locked (by rw [here]; rfl) _ _
  | leave here => exact { swapping with }
  | finish here => exact { swapping with }
  | start here =>
    rw [here] at place
    refine swapping.advance (by rw [here]; rfl) (.begun state.log.activeLog) rfl state.log
      state.writing rfl ⟨place.1, rfl, ?_⟩ nofun
    rw [place.1]
    exact place.2
  | @lock tmp here free empty =>
    rw [here] at place
    exact swapping.advance (by rw [here]; rfl) (.locked tmp) rfl state.log true rfl place nofun
  | @save tmp here =>
    rw [here] at place
    exact swapping.advance (by rw [here]; rfl) (.counted tmp) rfl state.log.saveCount state.writing
      rfl place fun _ _ => rfl
  | restart here => exact swapping.restart locked counted here
  | switch here =>
    rw [here] at place
    refine swapping.conclude (by rw [here]; rfl) rfl rfl swapping.fd ⟨place.1, place.2.2⟩ nofun nofun
      rfl ?_ ?_
    · rw [returned_closing rfl, returned_closing (by rw [here]; rfl)]
      rfl
    · intro _ _ _ _ _ free
      have writing := locked.writing_eq
      rw [show state.writing = false from free, here] at writing
      cases writing
  | unlock here =>
    rw [here] at place
    have closing : state.swapper.closing = true := by rw [here]; rfl
    refine swapping.conclude (by rw [here]; rfl) rfl rfl swapping.fd place nofun nofun rfl ?_ ?_
    · rw [returned_closing rfl, returned_closing closing]
      rfl
    · intro earlier rgn cnt last _ _
      rw [returned_closing closing] at last
      obtain ⟨-, same⟩ := List.append_singleton_inj.mp last
      cases same
      show shmLogs state.log.logFdNum ≠ state.log.activeLog
      rw [place.2, place.1]
      exact (LogRegion.other_ne _).symm
  | giveBack here =>
    rw [here] at place
    refine swapping.conclude (by rw [here]; rfl) rfl rfl swapping.fd ⟨place.1 ▸ place.2, place.1⟩
      nofun nofun rfl ?_ (fun _ _ _ _ apart => apart)
    rw [returned_closing rfl, returned_closing (by rw [here]; rfl)]
    rfl
  | answer here =>
    rw [here] at place
    have toggled := shmLogs_toggle swapping.fd
    refine swapping.conclude (by rw [here]; rfl) rfl rfl ?_ ⟨?_, ?_⟩ nofun nofun rfl ?_
      (fun _ _ _ _ apart => apart)
    · show (if state.log.logFdNum = 1 then 0 else 1) ≤ 1
      split <;> decide
    · exact place.1.trans toggled.symm
    · show state.log.shadowLog = (shmLogs (if state.log.logFdNum = 1 then 0 else 1)).other
      rw [toggled, LogRegion.other_other]
      exact place.2
    · have closing : state.swapper.closing = true := by rw [here]; rfl
      rw [returned_closing closing]
      exact List.append_nil _

theorem Moves.counted (move : state.Moves event next) (locked : state.Locked)
    (swapping : state.Swapping history) (counted : state.Counted history.current) :
    next.Counted (history.add event).current := by
  cases move with
  | enter here free => exact counted.enter _ (locked.outside (by rw [here]; rfl))
  | reserve here =>
    exact counted.reserve locked here (locked.turned (by rw [here]; rfl) _ rfl) rfl
  | copy here room => exact counted.copy here room (locked.turned (by rw [here]; rfl) _ rfl) rfl
  | clamp here full => exact counted.clamp here full (locked.turned (by rw [here]; rfl) _ rfl) rfl
  | leave here => exact counted.leave locked here
  | finish here => exact counted.finish (locked.outside (by rw [here]; rfl))
  | start here => exact { counted with }
  | lock here free empty => exact { counted with }
  | save here => exact { counted with }
  | restart here =>
    have empty : state.readers = [] := locked.alone (by rw [locked.writing_eq, here]; rfl)
    constructor
    · exact counted.small
    · simp [LogHistory.add, held, setSwapper, Log.restart, empty]
    · exact Nat.zero_le _
    · simp [held, setSwapper, empty]
    · nofun
  | switch here =>
    have fresh := swapping.fresh _ here
    refine { counted with stored := fun copied member => ?_ }
    have member : copied ∈ history.current := member
    rw [fresh] at member
    cases member
  | unlock here => exact { counted with }
  | giveBack here => exact { counted with }
  | answer here => exact { counted with }

end Logging

/-! ### Periods and swaps -/

def LogEvent.copyBy (thread : Thread) : LogEvent → Option QxLog
  | .copied storer _ pkt => if storer = thread then some pkt else none
  | _ => none

def LogEvent.acceptBy (thread : Thread) : LogEvent → Option QxLog
  | .returned storer pkt result => if storer = thread ∧ result = true then some pkt else none
  | _ => none

def LogEvent.slotCopied : LogEvent → Option (Nat × QxLog)
  | .copied _ slot pkt => some (slot.toNat, pkt)
  | _ => none

/-- What a thread copied into a region, one after the other. -/
def copiesBy (thread : Thread) (labels : List LogLabel) : List QxLog :=
  labels.filterMap fun label => label.2.copyBy thread

/-- The packets for which `log_store_pkt` returned 1 to a thread. -/
def acceptedBy (thread : Thread) (labels : List LogLabel) : List QxLog :=
  labels.filterMap fun label => label.2.acceptBy thread

def copiesOf (labels : List LogLabel) : List (Nat × QxLog) :=
  labels.filterMap fun label => label.2.slotCopied

/-- A packet that is in a region before `log_store_pkt` has returned. -/
def Writer.kept (limit : UInt32) : Writer → List QxLog
  | .filled pkt slot | .left pkt slot => if slot < limit then [pkt] else []
  | _ => []

theorem periods_eq (labels : List LogLabel) :
    (LogHistory.of labels).closed.flatten ++ (LogHistory.of labels).current = copiesOf labels := by
  induction labels using List.reverseRecOn with
  | nil => rfl
  | append_singleton labels label ih =>
    have copies : copiesOf (labels ++ [label]) = copiesOf labels ++ label.2.slotCopied.toList := by
      cases copied : label.2.slotCopied <;> simp [copiesOf, copied]
    rw [LogHistory.of_snoc, copies, ← ih]
    obtain ⟨move, event⟩ := label
    cases event <;> simp [LogHistory.add, LogEvent.slotCopied]

namespace Logging

variable {state next : Logging} {event : LogEvent}

theorem Moves.limit (move : state.Moves event next) : next.log.logLimit = state.log.logLimit := by
  cases move <;> rfl

/-- A thread that goes on copies what it returns later. -/
theorem kept_turn {storer : Thread} {writer : Writer} (limit : UInt32)
    (turned : next.writers = Function.update state.writers storer writer)
    (own : (state.writers storer).kept limit ++ (event.copyBy storer).toList =
      (event.acceptBy storer).toList ++ writer.kept limit)
    (others : ∀ thread, storer ≠ thread → event.copyBy thread = none ∧ event.acceptBy thread = none)
    (thread : Thread) : (state.writers thread).kept limit ++ (event.copyBy thread).toList =
      (event.acceptBy thread).toList ++ (next.writers thread).kept limit := by
  rw [turned]
  by_cases same : thread = storer
  · subst same
    rw [Function.update_self]
    exact own
  · obtain ⟨copies, accepts⟩ := others thread (Ne.symm same)
    rw [Function.update_of_ne same, copies, accepts]
    simp

theorem Moves.kept (move : state.Moves event next) (thread : Thread) :
    (state.writers thread).kept state.log.logLimit ++ (event.copyBy thread).toList =
      (event.acceptBy thread).toList ++ (next.writers thread).kept state.log.logLimit := by
  cases move with
  | enter here free =>
    refine kept_turn _ rfl ?_ (fun _ _ => ⟨rfl, rfl⟩) thread
    rw [here]
    rfl
  | reserve here =>
    refine kept_turn _ rfl ?_ (fun _ _ => ⟨rfl, rfl⟩) thread
    rw [here]
    rfl
  | copy here room =>
    refine kept_turn _ rfl ?_ ?_ thread
    · simp [here, Writer.kept, LogEvent.copyBy, LogEvent.acceptBy, room]
    · intro other apart
      exact ⟨if_neg apart, rfl⟩
  | clamp here full =>
    refine kept_turn _ rfl ?_ (fun _ _ => ⟨rfl, rfl⟩) thread
    simp [here, Writer.kept, LogEvent.copyBy, LogEvent.acceptBy, full]
  | leave here =>
    refine kept_turn _ rfl ?_ (fun _ _ => ⟨rfl, rfl⟩) thread
    simp [here, Writer.kept, LogEvent.copyBy, LogEvent.acceptBy]
  | finish here =>
    refine kept_turn _ rfl ?_ ?_ thread
    · simp only [here, Writer.kept, LogEvent.copyBy, LogEvent.acceptBy]
      split <;> simp [*]
    · intro other apart
      exact ⟨rfl, if_neg fun same => apart same.1⟩
  | _ => simp [LogEvent.copyBy, LogEvent.acceptBy, setSwapper]

/-- What a run keeps: the lock, the slots of this period, the returned regions. -/
structure Sound (state : Logging) (labels : List LogLabel) : Prop where
  locked : state.Locked
  counted : state.Counted (LogHistory.of labels).current
  swapping : state.Swapping (LogHistory.of labels)
  kept : ∀ thread, copiesBy thread labels =
    acceptedBy thread labels ++ (state.writers thread).kept state.log.logLimit

theorem Sound.step {labels : List LogLabel} {label : LogLabel} (sound : state.Sound labels)
    (step : LogStep state label next) : next.Sound (labels ++ [label]) := by
  have move := step_moves step
  refine ⟨move.locked sound.locked, ?_, ?_, ?_⟩
  · rw [LogHistory.of_snoc]
    exact move.counted sound.locked sound.swapping sound.counted
  · rw [LogHistory.of_snoc]
    exact move.swapping sound.locked sound.counted sound.swapping
  · intro thread
    have copies : copiesBy thread (labels ++ [label]) =
        copiesBy thread labels ++ (label.2.copyBy thread).toList := by
      cases copied : label.2.copyBy thread <;> simp [copiesBy, copied]
    have accepts : acceptedBy thread (labels ++ [label]) =
        acceptedBy thread labels ++ (label.2.acceptBy thread).toList := by
      cases accepted : label.2.acceptBy thread <;> simp [acceptedBy, accepted]
    rw [copies, accepts, sound.kept thread, move.limit, List.append_assoc, List.append_assoc,
      move.kept thread]

theorem sound_run {region : LogRegion → Nat → QxLog} {numSlots : Fin (2 ^ 31)}
    {labels : List LogLabel} {final : Logging}
    (run : Run LogStep (start region numSlots) labels final) : final.Sound labels := by
  have started : (start region numSlots).Sound [] :=
    ⟨locked_start region numSlots, counted_start region numSlots,
      swapping_start region numSlots, fun _ => rfl⟩
  exact run.history (motive := fun past state => state.Sound past) started
    fun past state label next sound step => sound.step step

end Logging

/-- Every packet for which `log_store_pkt` returned 1 is copied into one slot of one period, the
periods are what the swaps return, and while nobody swaps again the returned region holds below
the returned count what was copied in its period and nothing else. -/
theorem stored_packets_returned_once {region : LogRegion → Nat → QxLog} {numSlots : Fin (2 ^ 31)}
    {labels : List LogLabel} {final : Logging}
    (run : Run LogStep (Logging.start region numSlots) labels final) :
    (∀ thread, copiesBy thread labels =
      acceptedBy thread labels ++ (final.writers thread).kept final.log.logLimit) ∧
    (LogHistory.of labels).closed.flatten ++ (LogHistory.of labels).current = copiesOf labels ∧
    (final.swapper = .idle →
      (LogHistory.of labels).closed.length = (LogHistory.of labels).swaps.length ∧
      ∀ earlier rgn cnt, (LogHistory.of labels).swaps = earlier ++ [(rgn, cnt)] →
        ∃ before period, (LogHistory.of labels).closed = before ++ [period] ∧
          final.log.Returns period rgn cnt) := by
  have sound := Logging.sound_run run
  refine ⟨sound.kept, periods_eq labels, ?_⟩
  intro idle
  have returned : final.returned (LogHistory.of labels) = (LogHistory.of labels).swaps := by
    simp [Logging.returned, idle, Swapper.closing]
  have as_many := sound.swapping.as_many
  rw [returned] at as_many
  refine ⟨as_many.symm, ?_⟩
  intro earlier rgn cnt swaps
  have ended : (LogHistory.of labels).closed ≠ [] := by
    intro none
    rw [none, swaps] at as_many
    simp at as_many
  refine ⟨_, _, (List.dropLast_concat_getLast ended).symm, ?_⟩
  exact (sound.swapping.last (by rw [idle]; rfl) earlier rgn cnt _ _ (returned.trans swaps)
    (List.dropLast_concat_getLast ended).symm).1

/-- Two threads compete for the only slot, and the swap returns the packet of the first. -/
theorem only_slot_returned_once : ∃ labels final period, ∃ pkt pkt' : QxLog,
    Run LogStep (Logging.start (fun _ _ => pkt') 1) labels final ∧ pkt ≠ pkt' ∧
      acceptedBy 0 labels = [pkt] ∧ acceptedBy 1 labels = [] ∧
      (LogHistory.of labels).swaps = [(0, 1)] ∧ (LogHistory.of labels).closed = [period] ∧
      final.log.Returns period 0 1 := by
  let pkt : QxLog := ⟨Vector.replicate 6 1, protoDlcIPv4, 1, 2, protoIPv4TCP, 80, 80, 0, 64⟩
  let pkt' : QxLog := ⟨Vector.replicate 6 2, protoDlcIPv4, 3, 2, protoIPv4TCP, 80, 80, 0, 64⟩
  obtain ⟨labels, final, run, seen⟩ := replay_reaches Logging.handle
    (Logging.start (fun _ _ => pkt') 1)
    ([.store 0 pkt, .store 1 pkt', .thread 0, .thread 1, .thread 1, .thread 0, .thread 1, .thread 0,
      .thread 0, .thread 1] ++ List.replicate 8 .swap)
    (fun final labels => decide (final.swapper = .idle ∧ acceptedBy 0 labels = [pkt] ∧
      acceptedBy 1 labels = [] ∧ (LogHistory.of labels).swaps = [(0, 1)] ∧
      (LogHistory.of labels).closed = [[(0, pkt)]]))
    true (by decide +kernel)
  obtain ⟨idle, first, second, swaps, closed⟩ := of_decide_eq_true seen
  obtain ⟨before, period, ended, returns⟩ :=
    ((stored_packets_returned_once run).2.2 idle).2 [] 0 1 swaps
  have ended : [] ++ [[(0, pkt)]] = before ++ [period] := closed.symm.trans ended
  obtain ⟨-, rfl⟩ := List.append_singleton_inj.mp ended
  exact ⟨labels, final, _, pkt, pkt', run, by decide, first, second, swaps, closed, returns⟩

end QNXStuff.QXBilling
