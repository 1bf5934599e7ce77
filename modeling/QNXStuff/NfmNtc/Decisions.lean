import QNXStuff.NfmNtc.PacketQueue

/-! What becomes of one frame: the interface, the type, the list of addresses, the queue and the
counters together. -/

namespace QNXStuff.NfmNtc

open Execution Memory

/-- `if_info_t` of an interface that the filter sits on. -/
structure IfInfo where
  cell : UInt16
  endpoint : UInt16
  iface : UInt16
  ofinterest : Bool

structure BlkInfo where
  inPkt : UInt32
  outPkt : UInt32

structure Filter where
  ntcIfs : List IfInfo
  ntc : Ntc
  queue : PacketQueue
  numPktBlocked : BlkInfo

/-- The two handlers. -/
inductive Way where
  | up
  | down

/-- Where the address of the correspondent is: the source, or the destination. -/
def Way.place : Way → Nat
  | .up => 6
  | .down => 0

def Way.dir : Way → UInt16
  | .up => pktDirIn
  | .down => pktDirOut

namespace Filter

/-- "check if this is the interface of interest": one that is not in the list is. -/
def ofInterest (filter : Filter) (cell endpoint iface : UInt16) : Bool :=
  match filter.ntcIfs.find? fun ifs =>
    ifs.cell == cell && ifs.endpoint == endpoint && ifs.iface == iface with
  | some ifs => ifs.ofinterest
  | none => true

/-- `atomic_add(&num_pkt_blocked.in_pkt, 1)` or `atomic_add(&num_pkt_blocked.out_pkt, 1)` -/
def countBlocked (filter : Filter) : Way → Filter
  | .up => { filter with
      numPktBlocked := { filter.numPktBlocked with inPkt := filter.numPktBlocked.inPkt + 1 } }
  | .down => { filter with
      numPktBlocked := { filter.numPktBlocked with outPkt := filter.numPktBlocked.outPkt + 1 } }

/-- A frame that is no message. -/
def rx (filter : Filter) (way : Way) (cell endpoint iface : UInt16) (frame : List UInt8) :
    Except NtcFault (Filter × QueueEvent) :=
  if !filter.ofInterest cell endpoint iface then .ok (filter, .passed)
  else if Ntc.isArp frame then .ok (filter, .passed)
  else
    match filter.ntc.search (Ntc.frameMac frame way.place) with
    | none => .error .endless
    | some none => .ok (filter.countBlocked way, .blocked)
    | some (some _) =>
      let (queue, event) := filter.queue.logFrame ⟨way.dir, frame⟩
      .ok ({ filter with queue := queue }, event)

def ntcRxUp (filter : Filter) : UInt16 → UInt16 → UInt16 → List UInt8 →
    Except NtcFault (Filter × QueueEvent) := filter.rx .up

def ntcRxDown (filter : Filter) : UInt16 → UInt16 → UInt16 → List UInt8 →
    Except NtcFault (Filter × QueueEvent) := filter.rx .down

end Filter

/-- A frame, its way, and the interface that it comes from or goes to. -/
structure ArrivedFrame where
  way : Way
  cell : UInt16
  endpoint : UInt16
  iface : UInt16
  bytes : List UInt8

abbrev FrameStep : Filter → ArrivedFrame × QueueEvent → Filter → Prop :=
  Answers fun filter (frame : ArrivedFrame) =>
    filter.rx frame.way frame.cell frame.endpoint frame.iface frame.bytes

/-! ### What a frame says -/

structure DataFrame where
  bytes : List UInt8
  header : 14 ≤ bytes.length

def DataFrame.etherType (frame : DataFrame) : List UInt8 := (frame.bytes.drop 12).take 2

/-- "ARP protocol packets" -/
def DataFrame.Arp (frame : DataFrame) : Prop := frame.etherType = [0x08, 0x06]

/-- The MAC of the correspondent: "mac_src - for incoming packets & mac_dst - for outgoing". -/
def DataFrame.peer (frame : DataFrame) (way : Way) : List UInt8 :=
  (frame.bytes.drop way.place).take 6

/-- The six bytes of an entry as they are in memory. -/
def MacCmp.bytes (addr : MacCmp) : List UInt8 := bytesOf 4 addr.nid.toNat ++ bytesOf 2 addr.vid.toNat

/-- A MAC is on the list. -/
def Filter.Allows (filter : Filter) (mac : List UInt8) : Prop := mac ∈ filter.ntc.addrs.map MacCmp.bytes

def PacketQueue.HasRoom (queue : PacketQueue) : Prop := queue.numPackets + 1 ≤ pktLogLimit

/-- The queue with one more frame behind the others. -/
def PacketQueue.store (queue : PacketQueue) (frame : Frame) : PacketQueue :=
  { queue with
    pktq := Function.update queue.pktq queue.numPackets
      (PacketQueue.record frame (queue.pktq queue.numPackets))
    numPackets := queue.numPackets + 1 }

/-- What is to become of a frame, in all its parts. -/
structure Decided (filter : Filter) (way : Way) (frame : DataFrame) (next : Filter)
    (event : QueueEvent) : Prop where
  passed : event ≠ .blocked ↔ frame.Arp ∨ filter.Allows (frame.peer way)
  logged : event = .logged ⟨way.dir, frame.bytes⟩ ↔
    event ≠ .blocked ∧ ¬ frame.Arp ∧ filter.queue.HasRoom
  stored : event ≠ .blocked → ¬ frame.Arp → filter.queue.HasRoom →
    next = { filter with queue := filter.queue.store ⟨way.dir, frame.bytes⟩ }
  blocked : event = .blocked → next = filter.countBlocked way
  missed : event ≠ .blocked → ¬ frame.Arp → ¬ filter.queue.HasRoom →
    next = { filter with queue :=
      { filter.queue with numPktMissed := filter.queue.numPktMissed + 1 } }
  exempt : event ≠ .blocked → frame.Arp → next = filter

section Frames

variable {filter : Filter} {way : Way} {frame : DataFrame} {addr : MacCmp}

theorem Way.place_le (way : Way) : way.place ≤ 6 := by
  cases way <;> decide

/-- The two parts that are compared are the six bytes. -/
theorem frameMac_bytes (frame : DataFrame) (way : Way) :
    (Ntc.frameMac frame.bytes way.place).bytes = frame.peer way := by
  have place := way.place_le
  have header := frame.header
  have nid : ((frame.bytes.drop way.place).take 4).length = 4 := by
    rw [List.length_take, List.length_drop]
    omega
  have vid : ((frame.bytes.drop (way.place + 4)).take 2).length = 2 := by
    rw [List.length_take, List.length_drop]
    omega
  have first := wordOf_lt ((frame.bytes.drop way.place).take 4)
  have second := wordOf_lt ((frame.bytes.drop (way.place + 4)).take 2)
  have front := bytesOf_wordOf ((frame.bytes.drop way.place).take 4)
  have back := bytesOf_wordOf ((frame.bytes.drop (way.place + 4)).take 2)
  rw [nid] at first front
  rw [vid] at second back
  unfold MacCmp.bytes Ntc.frameMac DataFrame.peer
  rw [UInt32.toNat_ofNat_of_lt' first, UInt16.toNat_ofNat_of_lt' second, front, back,
    ← List.drop_drop, ← List.take_add]

theorem MacCmp.bytes_injective : Function.Injective MacCmp.bytes := by
  intro addr other same
  obtain ⟨nid, vid⟩ := List.append_inj same (by rw [bytesOf_length, bytesOf_length])
  have first := congrArg wordOf nid
  have second := congrArg wordOf vid
  have bound := addr.nid.toNat_lt
  have bound' := other.nid.toNat_lt
  have small := addr.vid.toNat_lt
  have small' := other.vid.toNat_lt
  rw [wordOf_bytesOf, wordOf_bytesOf] at first second
  have nids : addr.nid = other.nid := UInt32.toNat.inj (by omega)
  have vids : addr.vid = other.vid := UInt16.toNat.inj (by omega)
  cases addr
  cases other
  exact congrArg₂ MacCmp.mk nids vids

/-- The word that is compared is that of the bytes the other way round. -/
theorem isArp_iff (frame : DataFrame) :
    Ntc.isArp frame.bytes = true ↔ frame.etherType = [0x06, 0x08] := by
  have two : frame.etherType.length = 2 := by
    have header := frame.header
    unfold DataFrame.etherType
    rw [List.length_take, List.length_drop]
    omega
  have read := bytesOf_wordOf frame.etherType
  rw [two] at read
  have word : Ntc.isArp frame.bytes = true ↔ wordOf frame.etherType = 0x0806 := beq_iff_eq
  rw [word]
  constructor
  · intro same
    rw [← read, same]
    rfl
  · intro same
    rw [same]
    rfl

/-- The search finds an entry when the six bytes are on the list. -/
theorem allows_iff {refs : List Ptr} (holds : filter.ntc.Holds refs) :
    filter.Allows (frame.peer way) ↔
      filter.ntc.search (Ntc.frameMac frame.bytes way.place) ≠ some none := by
  rw [ne_eq, holds.search_none_iff, not_not, ← frameMac_bytes]
  exact List.mem_map_of_injective MacCmp.bytes_injective

/-- The three ways in which a frame of an interface of interest may go. -/
theorem rx_cases {refs : List Ptr} (holds : filter.ntc.Holds refs) {cell endpoint iface : UInt16}
    (interest : filter.ofInterest cell endpoint iface = true) (way : Way) (frame : DataFrame) :
    (frame.etherType = [0x06, 0x08] ∧
      filter.rx way cell endpoint iface frame.bytes = .ok (filter, .passed)) ∨
    (frame.etherType ≠ [0x06, 0x08] ∧ ¬ filter.Allows (frame.peer way) ∧
      filter.rx way cell endpoint iface frame.bytes = .ok (filter.countBlocked way, .blocked)) ∨
    (frame.etherType ≠ [0x06, 0x08] ∧ filter.Allows (frame.peer way) ∧
      filter.rx way cell endpoint iface frame.bytes =
        .ok ({ filter with queue := (filter.queue.logFrame ⟨way.dir, frame.bytes⟩).1 },
          (filter.queue.logFrame ⟨way.dir, frame.bytes⟩).2)) := by
  unfold Filter.rx
  rw [interest]
  by_cases exempt : Ntc.isArp frame.bytes = true
  · exact .inl ⟨(isArp_iff frame).mp exempt, if_pos exempt⟩
  · have other : frame.etherType ≠ [0x06, 0x08] := fun same => exempt ((isArp_iff frame).mpr same)
    rw [Bool.not_true, if_neg Bool.false_ne_true, if_neg exempt, allows_iff holds]
    cases found : filter.ntc.search (Ntc.frameMac frame.bytes way.place) with
    | none =>
      rw [holds.search_eq] at found
      cases found
    | some entry =>
      cases entry with
      | none => exact .inr (.inl ⟨other, not_not.mpr rfl, rfl⟩)
      | some blist => exact .inr (.inr ⟨other, nofun, rfl⟩)

theorem logFrame_room (room : filter.queue.HasRoom) (logged : Frame) :
    filter.queue.logFrame logged = (filter.queue.store logged, .logged logged) :=
  if_neg (Nat.not_lt.mpr room)

theorem logFrame_full (full : ¬ filter.queue.HasRoom) (logged : Frame) :
    filter.queue.logFrame logged =
      ({ filter.queue with numPktMissed := filter.queue.numPktMissed + 1 }, .missed) :=
  if_pos (Nat.not_le.mp full)

theorem missed_ne (count : Int32) : count ≠ count + 1 := by
  intro same
  have zero : (1 : Int32) = 0 := by simpa using same.symm
  cases zero

/-- A frame does to the list and to the queue what the handlers do to each of them alone. -/
theorem rx_parts {cell endpoint iface : UInt16} {bytes : List UInt8} {next : Filter}
    {event : QueueEvent} (done : filter.rx way cell endpoint iface bytes = .ok (next, event)) :
    next.ntc = filter.ntc ∧
      filter.ntc.filter way.place (filter.ofInterest cell endpoint iface) bytes =
        .ok (if event = .blocked then .blocked else .passed) ∧
      ∃ listed, filter.queue.rx way.dir (filter.ofInterest cell endpoint iface) listed bytes =
        (next.queue, event) := by
  unfold Filter.rx at done
  unfold Ntc.filter PacketQueue.rx
  cases interest : filter.ofInterest cell endpoint iface with
  | false =>
    rw [interest] at done
    cases done
    exact ⟨rfl, rfl, true, rfl⟩
  | true =>
    rw [interest, Bool.not_true, if_neg Bool.false_ne_true] at done
    rw [Bool.not_true, if_neg Bool.false_ne_true]
    by_cases exempt : Ntc.isArp bytes = true
    · rw [if_pos exempt] at done
      cases done
      exact ⟨rfl, if_pos exempt, true, by simp [exempt]⟩
    · rw [if_neg exempt] at done
      rw [if_neg exempt]
      cases found : filter.ntc.search (Ntc.frameMac bytes way.place) with
      | none =>
        rw [found] at done
        cases done
      | some entry =>
        rw [found] at done
        cases entry with
        | none =>
          cases done
          exact ⟨by cases way <;> rfl, rfl, false, by cases way <;> simp [exempt, Filter.countBlocked]⟩
        | some blist =>
          have passes : (filter.queue.logFrame ⟨way.dir, bytes⟩).2 ≠ .blocked := by
            unfold PacketQueue.logFrame
            split <;> nofun
          have same : (({ filter with queue := (filter.queue.logFrame ⟨way.dir, bytes⟩).1 } : Filter),
              (filter.queue.logFrame ⟨way.dir, bytes⟩).2) = (next, event) := Except.ok.inj done
          obtain ⟨rfl, rfl⟩ := Prod.mk.inj same
          exact ⟨rfl, by rw [if_neg passes], true, by simp [exempt]⟩

/-- The two handlers as each of the models of a part has them. -/
def Way.ntcInput (way : Way) (interest : Bool) (bytes : List UInt8) : NtcInput :=
  match way with
  | .up => .rxUp interest bytes
  | .down => .rxDown interest bytes

def Way.queueInput (way : Way) (interest listed : Bool) (bytes : List UInt8) : QueueInput :=
  match way with
  | .up => .rxUp interest listed bytes
  | .down => .rxDown interest listed bytes

/-- Frames that come through are a run of the list, which they leave as it is, and a run of the queue
with the same events. -/
theorem frames_run {final : Filter} {labels : List (ArrivedFrame × QueueEvent)}
    (run : Run FrameStep filter labels final) :
    (∃ seen, Run NtcStep filter.ntc seen filter.ntc ∧ final.ntc = filter.ntc ∧
      seen.map Prod.snd = labels.map fun label =>
        if label.2 = .blocked then NtcEvent.blocked else .passed) ∧
    ∃ seen, Run QueueStep filter.queue seen final.queue ∧
      seen.map Prod.snd = labels.map Prod.snd := by
  induction run with
  | nil => exact ⟨⟨[], .nil, rfl, rfl⟩, [], .nil, rfl⟩
  | @cons filter label next labels final first rest ih =>
    obtain ⟨⟨way, cell, endpoint, iface, bytes⟩, event⟩ := label
    obtain ⟨⟨listSeen, listRun, same, told⟩, queueSeen, queueRun, events⟩ := ih
    obtain ⟨ntc, filtered, listed, logged⟩ := rx_parts first
    let interest := filter.ofInterest cell endpoint iface
    have listStep : NtcStep filter.ntc (way.ntcInput interest bytes,
        if event = .blocked then .blocked else .passed) filter.ntc := by
      cases way <;> exact map_eq_ok.mpr ⟨_, filtered, rfl⟩
    have queueStep : QueueStep filter.queue (way.queueInput interest listed bytes, event)
        next.queue := by
      cases way <;> exact congrArg Except.ok logged
    rw [ntc] at listRun same
    refine ⟨⟨_, .cons listStep listRun, same, ?_⟩, _, .cons queueStep queueRun, ?_⟩
    · rw [List.map_cons, told]
      rfl
    · rw [List.map_cons, events]
      rfl

/-- A frame that is taken for ARP without being it. -/
theorem not_decided_swapped (swapped : frame.etherType = [0x06, 0x08]) :
    ¬ Decided filter way frame filter .passed := by
  intro decided
  have plain : ¬ frame.Arp := by
    unfold DataFrame.Arp
    rw [swapped]
    decide
  by_cases room : filter.queue.HasRoom
  · have logged := decided.logged.mpr ⟨nofun, plain, room⟩
    cases logged
  · have counted := decided.missed nofun plain room
    exact missed_ne _ (congrArg (fun filter => filter.queue.numPktMissed) counted)

/-- An ARP frame of a listed address, which is not taken for one. -/
theorem not_decided_arp (arp : frame.Arp) :
    ¬ Decided filter way frame
      { filter with queue := (filter.queue.logFrame ⟨way.dir, frame.bytes⟩).1 }
      (filter.queue.logFrame ⟨way.dir, frame.bytes⟩).2 := by
  intro decided
  by_cases room : filter.queue.HasRoom
  · rw [logFrame_room room] at decided
    exact (decided.logged.mp rfl).2.1 arp
  · rw [logFrame_full room] at decided
    have kept := decided.exempt nofun arp
    exact missed_ne _ (congrArg (fun filter => filter.queue.numPktMissed) kept.symm)

theorem decided_blocked (plain : ¬ frame.Arp) (unlisted : ¬ filter.Allows (frame.peer way)) :
    Decided filter way frame (filter.countBlocked way) .blocked where
  passed := ⟨fun differs => absurd rfl differs,
    fun allowed => absurd allowed (not_or.mpr ⟨plain, unlisted⟩)⟩
  logged := ⟨nofun, fun ⟨differs, _⟩ => absurd rfl differs⟩
  stored differs := absurd rfl differs
  blocked _ := rfl
  missed differs := absurd rfl differs
  exempt differs := absurd rfl differs

theorem decided_listed (plain : ¬ frame.Arp) (listed : filter.Allows (frame.peer way)) :
    Decided filter way frame
      { filter with queue := (filter.queue.logFrame ⟨way.dir, frame.bytes⟩).1 }
      (filter.queue.logFrame ⟨way.dir, frame.bytes⟩).2 := by
  by_cases room : filter.queue.HasRoom
  · rw [logFrame_room room]
    exact
      { passed := ⟨fun _ => .inr listed, fun _ => nofun⟩
        logged := ⟨fun _ => ⟨nofun, plain, room⟩, fun _ => rfl⟩
        stored := fun _ _ _ => rfl
        blocked := nofun
        missed := fun _ _ full => absurd room full
        exempt := fun _ arp => absurd arp plain }
  · rw [logFrame_full room]
    exact
      { passed := ⟨fun _ => .inr listed, fun _ => nofun⟩
        logged := ⟨nofun, fun ⟨_, _, space⟩ => absurd space room⟩
        stored := fun _ _ space => absurd space room
        blocked := nofun
        missed := fun _ _ _ => rfl
        exempt := fun _ arp => absurd arp plain }

/-- A frame of an interface of interest gets its due exactly when its type is neither that of ARP
nor that with the bytes exchanged. -/
theorem frame_decided_iff {labels : List NtcLabel} (reached : Run NtcStep Ntc.init labels filter.ntc)
    {cell endpoint iface : UInt16} (interest : filter.ofInterest cell endpoint iface = true)
    (way : Way) (frame : DataFrame) :
    ∃ next event, filter.rx way cell endpoint iface frame.bytes = .ok (next, event) ∧
      (Decided filter way frame next event ↔
        frame.etherType ≠ [0x08, 0x06] ∧ frame.etherType ≠ [0x06, 0x08]) := by
  obtain ⟨refs, holds⟩ := Ntc.run_holds reached
  rcases rx_cases holds interest way frame with
    ⟨swapped, done⟩ | ⟨other, unlisted, done⟩ | ⟨other, listed, done⟩
  · refine ⟨_, _, done, ?_⟩
    constructor
    · intro decided
      exact absurd decided (not_decided_swapped swapped)
    · intro types
      exact absurd swapped types.2
  · refine ⟨_, _, done, ?_⟩
    constructor
    · intro decided
      exact ⟨fun arp => absurd rfl (decided.passed.mpr (.inl arp)), other⟩
    · intro types
      exact decided_blocked types.1 unlisted
  · refine ⟨_, _, done, ?_⟩
    constructor
    · intro decided
      exact ⟨fun arp => not_decided_arp arp decided, other⟩
    · intro types
      exact decided_listed types.1 listed

end Frames

/-- One interface, an empty list and an empty queue. -/
def freshFilter : Filter where
  ntcIfs := [⟨0, 0, 0, true⟩]
  ntc := Ntc.init
  queue := ⟨fun _ => ⟨0, [], 0⟩, 0, 0, .block⟩
  numPktBlocked := ⟨0, 0⟩

/-- A frame of 60 zero bytes but for its type. -/
def typedFrame (first second : UInt8) : DataFrame where
  bytes := List.replicate 12 0 ++ [first, second] ++ List.replicate 46 0
  header := by simp

/-- An IPv4 frame of an address that is not on the list. -/
theorem ip_frame_is_decided :
    ∃ next event, freshFilter.rx .up 0 0 0 (typedFrame 0x08 0x00).bytes = .ok (next, event) ∧
      Decided freshFilter .up (typedFrame 0x08 0x00) next event := by
  have started : Run NtcStep Ntc.init [] freshFilter.ntc := .nil
  have interest : freshFilter.ofInterest 0 0 0 = true := by decide
  obtain ⟨next, event, done, decided⟩ :=
    frame_decided_iff started interest .up (typedFrame 0x08 0x00)
  exact ⟨next, event, done, decided.mpr (by decide)⟩

/-- An ARP frame of an address that is not on the list is blocked. -/
theorem arp_frame_is_blocked :
    ∃ next event, freshFilter.rx .up 0 0 0 (typedFrame 0x08 0x06).bytes = .ok (next, event) ∧
      event = .blocked ∧ (typedFrame 0x08 0x06).Arp ∧
      ¬ Decided freshFilter .up (typedFrame 0x08 0x06) next event := by
  refine ⟨freshFilter.countBlocked .up, .blocked, rfl, rfl, rfl, fun decided => ?_⟩
  exact absurd rfl (decided.passed.mpr (.inl rfl))

end QNXStuff.NfmNtc
