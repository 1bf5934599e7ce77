import Mathlib.Data.List.Forall2
import QNXStuff.NfmNtc.AllowList

/-! The queue of logged frames: the packet threads fill it, and the thread of the resource manager
hands it out. -/

namespace QNXStuff.NfmNtc

open Execution

/-- `pkt_info_t`: `header` are the `PKT_LOG_SIZE` bytes from `DLC` on. -/
structure PktInfo where
  len : UInt32
  header : List UInt8
  dir : UInt16
  deriving DecidableEq

def pktLogSize : Nat := 42
def pktDirIn : UInt16 := 0
def pktDirOut : UInt16 := 1

def pktLogLimit : Nat := 500

def maxPktRead : Nat := 50

/-- `sizeof(pkt_info_t)` -/
def pktInfoSize : Nat := 48

/-- A frame that goes up or down. -/
structure Frame where
  dir : UInt16
  bytes : List UInt8
  deriving DecidableEq

/-- The thread of the resource manager waits for a message, or it has returned from `ntc_rm_read`
with records that the library has yet to copy. -/
inductive RmThread where
  | block
  | reply (first npkts : Nat)
  deriving DecidableEq

structure PacketQueue where
  pktq : Nat → PktInfo
  numPackets : Nat
  numPktMissed : Int32
  thread : RmThread

/-- What the two threads do next: `listed` is whether the address of a frame is in the list. -/
inductive QueueInput where
  | rxUp (ofInterest listed : Bool) (bytes : List UInt8)
  | rxDown (ofInterest listed : Bool) (bytes : List UInt8)
  | read (xtype nbytes : UInt32)
  | copy
  | flush

inductive QueueEvent where
  | passed
  | blocked
  | logged (frame : Frame)
  | missed
  | unsupported
  | endOfFile
  | taken (npkts : Nat)
  | delivered (records : List PktInfo)
  | flushed
  deriving DecidableEq

/-- The thread of the resource manager does something else. -/
inductive QueueFault where
  | busy
  deriving DecidableEq

namespace PacketQueue

/-- "copy contents of the frame to logging queue": of a short frame, what stood behind stays. -/
def record (frame : Frame) (old : PktInfo) : PktInfo where
  len := UInt32.ofNat frame.bytes.length
  header := frame.bytes.take pktLogSize ++ old.header.drop (frame.bytes.take pktLogSize).length
  dir := frame.dir

/-- "LOG it" -/
def logFrame (queue : PacketQueue) (frame : Frame) : PacketQueue × QueueEvent :=
  if queue.numPackets + 1 > pktLogLimit then
    ({ queue with numPktMissed := queue.numPktMissed + 1 }, .missed)
  else
    ({ queue with
        pktq := Function.update queue.pktq queue.numPackets
          (record frame (queue.pktq queue.numPackets))
        numPackets := queue.numPackets + 1 }, .logged frame)

/-- A frame behind the checks of its interface, its type and its address. -/
def rx (queue : PacketQueue) (dir : UInt16) (ofInterest listed : Bool) (bytes : List UInt8) :
    PacketQueue × QueueEvent :=
  if !ofInterest then (queue, .passed)
  else if Ntc.isArp bytes then (queue, .passed)
  else if !listed then (queue, .blocked)
  else queue.logFrame ⟨dir, bytes⟩

def records (queue : PacketQueue) (first count : Nat) : List PktInfo :=
  (List.range count).map fun place => queue.pktq (first + place)

/-- `ntc_rm_read`. The test of `xtype` is of its lowest bit: `!=` binds tighter than `&`. -/
def ntcRmRead (queue : PacketQueue) (xtype nbytes : UInt32) : PacketQueue × QueueEvent :=
  if xtype &&& 1 ≠ 0 then (queue, .unsupported)
  else if nbytes.toNat < pktInfoSize ∨ queue.numPackets = 0 then (queue, .endOfFile)
  else
    let npkts := min (min maxPktRead (nbytes.toNat / pktInfoSize)) queue.numPackets
    let numPackets := queue.numPackets - npkts
    ({ queue with numPackets := numPackets, thread := .reply numPackets npkts }, .taken npkts)

/-- A message to the resource manager, or the copy that it owes for the last one. -/
def handle (queue : PacketQueue) : QueueInput → Except QueueFault (PacketQueue × QueueEvent)
  | .rxUp ofInterest listed bytes => .ok (queue.rx pktDirIn ofInterest listed bytes)
  | .rxDown ofInterest listed bytes => .ok (queue.rx pktDirOut ofInterest listed bytes)
  | .read xtype nbytes =>
    match queue.thread with
    | .block => .ok (queue.ntcRmRead xtype nbytes)
    | .reply _ _ => .error .busy
  | .copy =>
    match queue.thread with
    | .block => .error .busy
    | .reply first npkts =>
      .ok ({ queue with thread := .block }, .delivered (queue.records first npkts))
  | .flush =>
    match queue.thread with
    | .block => .ok ({ queue with numPackets := 0 }, .flushed)
    | .reply _ _ => .error .busy

/-- The queue of a filter that has been mounted: memory that was never written holds anything. -/
structure Started (queue : PacketQueue) : Prop where
  empty : queue.numPackets = 0
  none : queue.numPktMissed = 0
  thread : queue.thread = .block

end PacketQueue

abbrev QueueLabel := QueueInput × QueueEvent

abbrev QueueStep : PacketQueue → QueueLabel → PacketQueue → Prop := Answers PacketQueue.handle

/-! ### Where the frames are -/

/-- The logged frames that are in the queue, in a reply to be copied, with the clients, and
flushed. -/
structure Ledger where
  queued : List Frame
  leaving : List Frame
  delivered : List Frame
  flushed : List Frame
  deriving DecidableEq

namespace Ledger

def blank : Ledger := ⟨[], [], [], []⟩

def enter (ledger : Ledger) : QueueEvent → Ledger
  | .logged frame => { ledger with queued := ledger.queued ++ [frame] }
  | .taken npkts =>
    let rest := ledger.queued.length - npkts
    { ledger with
      queued := ledger.queued.take rest
      leaving := ledger.leaving ++ ledger.queued.drop rest }
  | .delivered _ => { ledger with delivered := ledger.delivered ++ ledger.leaving, leaving := [] }
  | .flushed => { ledger with flushed := ledger.flushed ++ ledger.queued, queued := [] }
  | _ => ledger

def all (ledger : Ledger) : List Frame :=
  ledger.delivered ++ ledger.leaving ++ ledger.queued ++ ledger.flushed

end Ledger

def ledgerOf (events : List QueueEvent) : Ledger := events.foldl Ledger.enter .blank

def loggedOf (events : List QueueEvent) : List Frame :=
  events.filterMap fun
    | .logged frame => some frame
    | _ => none

/-- The records that clients have read. -/
def deliveredOf (events : List QueueEvent) : List PktInfo :=
  events.flatMap fun
    | .delivered records => records
    | _ => []

def missedOf (events : List QueueEvent) : Nat := events.countP fun event => event == .missed

/-- A record tells the length, the direction and the first bytes of a frame. -/
structure Tells (frame : Frame) (record : PktInfo) : Prop where
  len : record.len = UInt32.ofNat frame.bytes.length
  dir : record.dir = frame.dir
  header : frame.bytes.take pktLogSize <+: record.header

/-- Every logged frame is at one of the four places, what clients have read are the records of the
delivered ones, and refused frames are counted. -/
structure Accounted (queue : PacketQueue) (events : List QueueEvent) : Prop where
  once : (loggedOf events).Perm (ledgerOf events).all
  exact : List.Forall₂ Tells (ledgerOf events).delivered (deliveredOf events)
  queued : List.Forall₂ Tells (ledgerOf events).queued (queue.records 0 queue.numPackets)
  missed : queue.numPktMissed.toInt = missedOf events

def QueueInput.Logs : QueueInput → Prop
  | .rxUp ofInterest listed bytes => ofInterest ∧ Ntc.isArp bytes = false ∧ listed
  | .rxDown ofInterest listed bytes => ofInterest ∧ Ntc.isArp bytes = false ∧ listed
  | _ => False

instance (input : QueueInput) : Decidable input.Logs :=
  match input with
  | .rxUp _ _ _ => inferInstanceAs (Decidable (_ ∧ _))
  | .rxDown _ _ _ => inferInstanceAs (Decidable (_ ∧ _))
  | .read _ _ => isFalse id
  | .copy => isFalse id
  | .flush => isFalse id

/-- No frame is logged between a read and its copy, and no more frames are refused than an `int`
counts. -/
def PacketQueue.Undisturbed (queue : PacketQueue) (input : QueueInput) : Prop :=
  input.Logs →
    if queue.numPackets + 1 > pktLogLimit then queue.numPktMissed.toInt < 2 ^ 31 - 1
    else queue.thread = .block

instance (queue : PacketQueue) (input : QueueInput) : Decidable (queue.Undisturbed input) :=
  inferInstanceAs (Decidable (_ → ite _ _ _))

section

variable {queue next : PacketQueue} {past : List QueueEvent} {event : QueueEvent}

theorem ledgerOf_snoc : ledgerOf (past ++ [event]) = (ledgerOf past).enter event :=
  List.foldl_concat ..

/-- A frame that is logged enters the ledger, and no frame leaves it. -/
theorem Ledger.enter_all (ledger : Ledger) (event : QueueEvent) :
    (ledger.all ++ loggedOf [event]).Perm (ledger.enter event).all := by
  rw [List.perm_iff_count]
  intro frame
  cases event with
  | taken npkts =>
    have split := congrArg (List.count frame)
      (List.take_append_drop (ledger.queued.length - npkts) ledger.queued)
    simp only [List.count_append] at split
    simp only [all, enter, loggedOf, List.filterMap_cons, List.filterMap_nil, List.count_append,
      List.count_nil]
    omega
  | _ =>
    simp only [all, enter, loggedOf, List.filterMap_cons, List.filterMap_nil, List.count_append,
      List.count_nil]
    omega

theorem once_snoc (once : (loggedOf past).Perm (ledgerOf past).all) :
    (loggedOf (past ++ [event])).Perm (ledgerOf (past ++ [event])).all := by
  have moved := (once.append_right (loggedOf [event])).trans ((ledgerOf past).enter_all event)
  rwa [loggedOf, List.filterMap_append, ledgerOf_snoc]

theorem records_add (first count more : Nat) :
    queue.records first (count + more) =
      queue.records first count ++ queue.records (first + count) more := by
  simp only [PacketQueue.records, List.range_add, List.map_append, List.map_map, Nat.add_assoc]
  rfl

theorem records_update {first count place : Nat} {record : PktInfo}
    (behind : first + count ≤ place) (same : next.pktq = Function.update queue.pktq place record) :
    next.records first count = queue.records first count := by
  refine List.map_congr_left fun index member => ?_
  have below := List.mem_range.mp member
  rw [same]
  exact Function.update_of_ne (by omega) ..

theorem record_tells (frame : Frame) (old : PktInfo) : Tells frame (PacketQueue.record frame old) where
  len := rfl
  dir := rfl
  header := List.prefix_append ..

/-- The reply that is to be copied. -/
def RmThread.Leaves (queue : PacketQueue) (leaving : List Frame) : RmThread → Prop
  | .block => leaving = []
  | .reply first npkts => List.Forall₂ Tells leaving (queue.records first npkts)

/-- What the queue and the past have in common, whatever the thread of the resource manager is
about to do. -/
structure Sound (past : List QueueEvent) (queue : PacketQueue) : Prop where
  accounted : Accounted queue past
  leaving : queue.thread.Leaves queue (ledgerOf past).leaving

theorem PacketQueue.Started.sound (started : queue.Started) : Sound [] queue where
  accounted := {
    once := .nil
    exact := .nil
    queued := by
      rw [started.empty]
      exact .nil
    missed := by
      rw [started.none]
      rfl }
  leaving := by
    rw [started.thread]
    rfl

theorem Sound.move (sound : Sound past queue)
    (exact : List.Forall₂ Tells ((ledgerOf past).enter event).delivered
      (deliveredOf past ++ deliveredOf [event]))
    (queued : List.Forall₂ Tells ((ledgerOf past).enter event).queued
      (next.records 0 next.numPackets))
    (missed : next.numPktMissed.toInt = missedOf past + missedOf [event])
    (leaving : next.thread.Leaves next ((ledgerOf past).enter event).leaving) :
    Sound (past ++ [event]) next where
  accounted := {
    once := once_snoc sound.accounted.once
    exact := by rwa [ledgerOf_snoc, deliveredOf, List.flatMap_append]
    queued := by rwa [ledgerOf_snoc]
    missed := by rw [missed, missedOf, missedOf, missedOf, List.countP_append, Int.natCast_add] }
  leaving := by rwa [ledgerOf_snoc]

def QueueEvent.Idle : QueueEvent → Prop
  | .passed | .blocked | .unsupported | .endOfFile => True
  | _ => False

theorem Sound.idle (sound : Sound past queue) (idle : event.Idle) :
    Sound (past ++ [event]) queue := by
  have exact := sound.accounted.exact
  have missed := sound.accounted.missed
  cases event with
  | passed | blocked | unsupported | endOfFile =>
    refine sound.move ?_ sound.accounted.queued ?_ sound.leaving
    · simpa [deliveredOf, Ledger.enter] using exact
    · simpa [missedOf] using missed
  | _ => exact idle.elim

theorem missed_succ {count : Int32} (room : count.toInt < 2 ^ 31 - 1) (counted : 0 ≤ count.toInt) :
    (count + 1).toInt = count.toInt + 1 := by
  rw [Int32.toInt_add]
  show (count.toInt + 1).bmod (2 ^ 32) = _
  rw [Int.bmod_eq_of_le]
  · omega
  · omega

/-- A frame is logged when no reply is to be copied, or refused. -/
theorem Sound.logFrame (sound : Sound past queue) (frame : Frame)
    (ready : if queue.numPackets + 1 > pktLogLimit then queue.numPktMissed.toInt < 2 ^ 31 - 1
      else queue.thread = .block) :
    Sound (past ++ [(queue.logFrame frame).2]) (queue.logFrame frame).1 := by
  have exact := sound.accounted.exact
  have missed := sound.accounted.missed
  have leaving := sound.leaving
  unfold PacketQueue.logFrame
  split at ready
  · next full =>
    rw [if_pos full]
    refine sound.move ?_ sound.accounted.queued ?_ leaving
    · simpa [deliveredOf, Ledger.enter] using exact
    · rw [missed_succ ready (by omega), missed]
      rfl
  · next room =>
    rw [if_neg room]
    rw [ready] at leaving
    refine sound.move ?_ ?_ ?_ ?_
    · simpa [deliveredOf, Ledger.enter] using exact
    · rw [records_add, Nat.zero_add]
      refine List.rel_append ?_ ?_
      · rw [records_update (Nat.zero_add _).le rfl]
        exact sound.accounted.queued
      · exact .cons (by simpa using record_tells frame _) .nil
    · simpa [missedOf] using missed
    · rw [ready]
      exact leaving

/-- A read takes the records from the end of the queue. -/
theorem Sound.ntcRmRead (sound : Sound past queue) (block : queue.thread = .block)
    (xtype nbytes : UInt32) :
    Sound (past ++ [(queue.ntcRmRead xtype nbytes).2]) (queue.ntcRmRead xtype nbytes).1 := by
  have exact := sound.accounted.exact
  have queued := sound.accounted.queued
  have leaving := sound.leaving
  rw [block] at leaving
  unfold PacketQueue.ntcRmRead
  split
  · exact sound.idle trivial
  · split
    · exact sound.idle trivial
    · extract_lets npkts rest
      have within : npkts ≤ queue.numPackets := Nat.min_le_right ..
      have length : (ledgerOf past).queued.length = queue.numPackets := by
        simpa [PacketQueue.records] using queued.length_eq
      have parts : queue.records 0 queue.numPackets =
          queue.records 0 rest ++ queue.records rest npkts := by
        have whole : rest + npkts = queue.numPackets := Nat.sub_add_cancel within
        rw [← whole, records_add, Nat.zero_add]
      have front : (queue.records 0 rest).length = rest := by simp [PacketQueue.records]
      rw [parts] at queued
      refine sound.move ?_ ?_ ?_ ?_
      · simpa [deliveredOf, Ledger.enter] using exact
      · have kept := List.forall₂_take_append _ _ _ queued
        rw [front] at kept
        simp only [Ledger.enter, length]
        exact kept
      · simpa [missedOf] using sound.accounted.missed
      · have taken := List.forall₂_drop_append _ _ _ queued
        rw [front] at taken
        have empty : (ledgerOf past).leaving = [] := leaving
        simp only [Ledger.enter, length, empty, List.nil_append]
        exact taken

theorem Sound.copy {first npkts : Nat} (sound : Sound past queue)
    (reply : queue.thread = .reply first npkts) :
    Sound (past ++ [.delivered (queue.records first npkts)]) { queue with thread := .block } := by
  have leaving := sound.leaving
  rw [reply] at leaving
  refine sound.move ?_ sound.accounted.queued ?_ rfl
  · refine List.rel_append sound.accounted.exact ?_
    simpa [deliveredOf, RmThread.Leaves] using leaving
  · simpa [missedOf] using sound.accounted.missed

theorem Sound.flush (sound : Sound past queue) :
    Sound (past ++ [.flushed]) { queue with numPackets := 0 } := by
  refine sound.move ?_ .nil ?_ sound.leaving
  · simpa [deliveredOf, Ledger.enter] using sound.accounted.exact
  · simpa [missedOf] using sound.accounted.missed

theorem Sound.rx {dir : UInt16} {ofInterest listed : Bool} {bytes : List UInt8}
    (sound : Sound past queue)
    (ready : ofInterest ∧ Ntc.isArp bytes = false ∧ listed →
      if queue.numPackets + 1 > pktLogLimit then queue.numPktMissed.toInt < 2 ^ 31 - 1
      else queue.thread = .block) :
    Sound (past ++ [(queue.rx dir ofInterest listed bytes).2])
      (queue.rx dir ofInterest listed bytes).1 := by
  unfold PacketQueue.rx
  cases ofInterest with
  | false => exact sound.idle trivial
  | true =>
    cases arp : Ntc.isArp bytes with
    | true => exact sound.idle trivial
    | false =>
      cases listed with
      | false => exact sound.idle trivial
      | true => exact sound.logFrame _ (ready ⟨rfl, arp, rfl⟩)

theorem Sound.step {label : QueueLabel} (sound : Sound past queue)
    (step : QueueStep queue label next) (undisturbed : queue.Undisturbed label.1) :
    Sound (past ++ [label.2]) next := by
  obtain ⟨input, event⟩ := label
  have done : queue.handle input = .ok (next, event) := step
  cases input with
  | rxUp ofInterest listed bytes =>
    have moved := @Sound.rx _ _ pktDirIn _ _ _ sound undisturbed
    rwa [Except.ok.inj done] at moved
  | rxDown ofInterest listed bytes =>
    have moved := @Sound.rx _ _ pktDirOut _ _ _ sound undisturbed
    rwa [Except.ok.inj done] at moved
  | read xtype nbytes =>
    simp only [PacketQueue.handle] at done
    split at done
    · next block =>
      have moved := sound.ntcRmRead block xtype nbytes
      rwa [Except.ok.inj done] at moved
    · cases done
  | copy =>
    simp only [PacketQueue.handle] at done
    split at done
    · cases done
    · next first npkts reply =>
      cases done
      exact sound.copy reply
  | flush =>
    simp only [PacketQueue.handle] at done
    split at done
    · cases done
      exact sound.flush
    · cases done

theorem run_sound {start final : PacketQueue} {labels : List QueueLabel}
    (started : start.Started)
    (run : Run (Under QueueStep fun queue label => queue.Undisturbed label.1) start labels final) :
    Sound (labels.map Prod.snd) final := by
  have history := @Run.history _ _ _ (fun past queue => Sound (past.map Prod.snd) queue) _ _ [] _
    run started.sound
    (by
      rintro past queue label next sound ⟨step, undisturbed⟩
      rw [List.map_append]
      exact sound.step step undisturbed)
  simpa using history

/-- The counts of a queue whose frames are accounted for. -/
theorem Accounted.balance (accounted : Accounted queue past) :
    (loggedOf past).length = (deliveredOf past).length + (ledgerOf past).leaving.length +
      queue.numPackets + (ledgerOf past).flushed.length := by
  have all := accounted.once.length_eq
  have delivered := accounted.exact.length_eq
  have queued := accounted.queued.length_eq
  simp only [Ledger.all, List.length_append] at all
  simp only [PacketQueue.records, List.length_map, List.length_range] at queued
  omega

end

/-- Every logged frame is delivered once, with what was logged, or still in the queue, or flushed,
as long as no frame is logged between a read and the copy of its reply. -/
theorem logged_frames_are_delivered_once (start final : PacketQueue) (labels : List QueueLabel)
    (started : start.Started)
    (run : Run (Under QueueStep fun queue label => queue.Undisturbed label.1) start labels final) :
    Accounted final (labels.map Prod.snd) ∧
      (loggedOf (labels.map Prod.snd)).length =
        (deliveredOf (labels.map Prod.snd)).length +
          (ledgerOf (labels.map Prod.snd)).leaving.length + final.numPackets +
          (ledgerOf (labels.map Prod.snd)).flushed.length := by
  have accounted := (run_sound started run).accounted
  exact ⟨accounted, accounted.balance⟩

/-- A queue in memory that holds zeros. -/
def blankQueue : PacketQueue where
  pktq := fun _ => ⟨0, [], 0⟩
  numPackets := 0
  numPktMissed := 0
  thread := .block

theorem blankQueue_started : blankQueue.Started := ⟨rfl, rfl, rfl⟩

/-- Two frames come in, and a read takes the second of them. -/
theorem second_frame_is_delivered : ∃ (labels : List QueueLabel) (final : PacketQueue),
    Accounted final (labels.map Prod.snd) ∧ final.numPackets = 1 ∧
      deliveredOf (labels.map Prod.snd) = [⟨14, frameFrom 2, pktDirOut⟩] := by
  obtain ⟨labels, final, run, seen⟩ := replay_reaches
    (guarded PacketQueue.handle PacketQueue.Undisturbed) blankQueue
    [.rxUp true true (frameFrom 1), .rxDown true true (frameFrom 2), .read 0 48, .copy]
    (fun final labels => decide (final.numPackets = 1 ∧
      deliveredOf (labels.map Prod.snd) = [⟨14, frameFrom 2, pktDirOut⟩]))
    true (by decide +kernel)
  obtain ⟨left, delivered⟩ := of_decide_eq_true seen
  exact ⟨labels, final,
    (logged_frames_are_delivered_once blankQueue final labels blankQueue_started
      (run_guarded run)).1, left, delivered⟩

/-- A frame that is logged before the reply is copied takes the place of the one that is read. -/
theorem late_copy_loses_frame : ∃ labels final, Run QueueStep blankQueue labels final ∧
    blankQueue.Started ∧ (ledgerOf (labels.map Prod.snd)).delivered = [⟨pktDirIn, frameFrom 1⟩] ∧
    deliveredOf (labels.map Prod.snd) = [⟨14, frameFrom 2, pktDirOut⟩] ∧
    final.pktq 0 = ⟨14, frameFrom 2, pktDirOut⟩ ∧ ¬ Accounted final (labels.map Prod.snd) := by
  obtain ⟨labels, final, run, seen⟩ := replay_reaches PacketQueue.handle blankQueue
    [.rxUp true true (frameFrom 1), .read 0 48, .rxDown true true (frameFrom 2), .copy]
    (fun final labels => decide (
      (ledgerOf (labels.map Prod.snd)).delivered = [⟨pktDirIn, frameFrom 1⟩] ∧
      deliveredOf (labels.map Prod.snd) = [⟨14, frameFrom 2, pktDirOut⟩] ∧
      final.pktq 0 = ⟨14, frameFrom 2, pktDirOut⟩))
    true (by decide +kernel)
  obtain ⟨read, delivered, overwritten⟩ := of_decide_eq_true seen
  refine ⟨labels, final, run, blankQueue_started, read, delivered, overwritten, ?_⟩
  intro accounted
  have exact := accounted.exact
  rw [read, delivered] at exact
  cases exact with
  | cons tells rest => exact absurd tells.dir (by decide)

end QNXStuff.NfmNtc
