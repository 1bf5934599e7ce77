import QNXStuff.DevnSer.Sending
import QNXStuff.Library.Reassembly

/-! How the serial driver puts the blocks of the line together, and when it delivers the frames that
were sent. -/

namespace QNXStuff.DevnSer

open Execution Memory Reassembly

/-- The io-net of the receiver: whether it gives a packet for a block and a length
(`devn_alloc_npkt`), and whether it takes the packet (`reg_tx_done`). -/
structure Above where
  alloc : Nat → Nat → Bool
  register : Nat → Bool

/-- Bytes behind the receive buffer are copied. -/
inductive CopyFault where
  | outside
  deriving DecidableEq

/-- What the receiver has done: the blocks that it has had, `bytes_rxed`, and the frames it has
delivered. -/
structure Upper where
  blocks : Nat
  bytesRxed : UInt32
  upward : List (List UInt8)

/-- "the first 4 octets represent actual length of data" -/
def pktLen (recvBuf : List UInt8) : Nat := wordOf (recvBuf.take 4)

/-- What `devn_receive` does with a whole block. -/
def receiveBlock (above : Above) (upper : Upper) (recvBuf : List UInt8) :
    Except CopyFault Upper :=
  let counted := { upper with
    blocks := upper.blocks + 1
    bytesRxed := upper.bytesRxed + UInt32.ofNat (pktLen recvBuf) }
  if above.alloc upper.blocks (pktLen recvBuf) then
    if pktSize < 4 + pktLen recvBuf then .error .outside
    else if above.register upper.blocks then
      .ok { counted with upward := upper.upward ++ [(recvBuf.drop 4).take (pktLen recvBuf)] }
    else .ok counted
  else .ok counted

/-- How a `read` ends: with so many bytes or as many as there are, interrupted, or because the
device was closed. -/
inductive Reading where
  | got (count : Nat)
  | interrupted
  | closed
  deriving DecidableEq

/-- The receive buffer up to `read_bytes`, and the bytes that have not been read. -/
structure Receiver where
  assembly : Assembly UInt8 Upper
  line : List UInt8

def Receiver.start (line : List UInt8) : Receiver := ⟨⟨[], 0, 0, []⟩, line⟩

section Receiving

variable (above : Above)

/-- One `read`, and what follows when it fills the buffer. -/
def receiveTurn (receiver : Receiver) : Reading → Except CopyFault Receiver
  | .got count =>
    let piece := receiver.line.take (min count (pktSize - receiver.assembly.filled.length))
    (push pktSize (receiveBlock above) receiver.assembly piece).map
      (⟨·, receiver.line.drop piece.length⟩)
  | .interrupted => .ok receiver
  | .closed => .ok ⟨{ receiver.assembly with filled := [] }, []⟩

def devnReceive (readings : List Reading) (receiver : Receiver) : Except CopyFault Receiver :=
  readings.foldlM (receiveTurn above) receiver

/-- However the line is read, these frames are delivered, in this order, once all of it is read. -/
def Delivers (line : List UInt8) (frames : List (List UInt8)) : Prop :=
  ∀ readings, Reading.closed ∉ readings →
    ∃ last, devnReceive above readings (.start line) = .ok last ∧
      last.assembly.state.upward <+: frames ∧
      (last.line = [] → last.assembly.state.upward = frames)

/-- However the line is read, only bytes of the receive buffer are copied. -/
def CopiesInside (line : List UInt8) : Prop :=
  ∀ readings, ∃ last, devnReceive above readings (.start line) = .ok last

/-- The length in every block for which there is a packet is at most that of the block. -/
def LengthsInside (line : List UInt8) : Prop :=
  ∀ blocks rest, Cut pktSize line blocks rest → ∀ place block, blocks[place]? = some block →
    above.alloc place (pktLen block) = true → 4 + pktLen block ≤ pktSize

/-- The frames for which the receiver has a packet that can be delivered. -/
def taken : Nat → List (List UInt8) → List (List UInt8)
  | _, [] => []
  | place, frame :: frames =>
    if above.alloc place frame.length && above.register place then
      frame :: taken (place + 1) frames
    else taken (place + 1) frames

/-- The packets that are reached when `tx_done` was called fit into their blocks where the receiver
has packets for them, and it has them for the frames of the chain. -/
def Fits {memory : Nat → Npkt} {npkt : Nat} (below : Below) (chain : Chain memory npkt) : Prop :=
  ∃ walk, Linked below.nextDone (some npkt) walk ∧
    (∀ place addr, walk[place]? = some addr →
      above.alloc place (memory addr).framelen.toNat = true →
      4 + (memory addr).framelen.toNat ≤ pktSize) ∧
    taken above 0 (walk.map fun addr => (memory addr).frame) = chain.frames

end Receiving

/-! ### Blocks that are handled -/

section Blocks

variable {above : Above} {upper next : Upper} {block : List UInt8} {memory : Nat → Npkt}

theorem receiveBlock_inside (done : receiveBlock above upper block = .ok next) :
    next.blocks = upper.blocks + 1 ∧ upper.upward <+: next.upward ∧
      (above.alloc upper.blocks (pktLen block) = true → 4 + pktLen block ≤ pktSize) := by
  unfold receiveBlock at done
  dsimp only at done
  split at done
  · split at done
    · cases done
    · rename_i inside
      split at done
      · cases done
        exact ⟨rfl, List.prefix_append _ _, fun _ => Nat.le_of_not_lt inside⟩
      · cases done
        exact ⟨rfl, List.prefix_rfl, fun _ => Nat.le_of_not_lt inside⟩
  · rename_i refused
    cases done
    exact ⟨rfl, List.prefix_rfl, fun granted => absurd granted refused⟩

theorem receiveBlock_ok (upper : Upper)
    (inside : above.alloc upper.blocks (pktLen block) = true → 4 + pktLen block ≤ pktSize) :
    ∃ next, receiveBlock above upper block = .ok next := by
  unfold receiveBlock
  dsimp only
  split
  · rename_i granted
    rw [if_neg (Nat.not_lt.mpr (inside granted))]
    split
    · exact ⟨_, rfl⟩
    · exact ⟨_, rfl⟩
  · exact ⟨_, rfl⟩

theorem Carries.pktLen {npkt : Npkt} (carries : Carries npkt block) :
    pktLen block = npkt.framelen.toNat := by
  rw [DevnSer.pktLen, carries.length, wordOf_bytesOf]
  exact Nat.mod_eq_of_lt npkt.framelen.toNat_lt

/-- A block that carries a packet delivers its frame. -/
theorem receiveBlock_carries {npkt : Npkt} (carries : Carries npkt block)
    (done : receiveBlock above upper block = .ok next) (frames : List (List UInt8)) :
    next.upward ++ taken above (upper.blocks + 1) frames =
      upper.upward ++ taken above upper.blocks (npkt.frame :: frames) := by
  unfold receiveBlock at done
  rw [taken, carries.whole]
  simp only [carries.pktLen] at done
  by_cases granted : above.alloc upper.blocks npkt.framelen.toNat = true
  · rw [if_pos granted] at done
    rw [granted, Bool.true_and]
    by_cases outside : pktSize < 4 + npkt.framelen.toNat
    · rw [if_pos outside] at done
      cases done
    · rw [if_neg outside, carries.frame (Nat.le_of_not_lt outside)] at done
      split at done
      · cases done
        rw [if_pos ‹_›, List.append_assoc]
        rfl
      · cases done
        rw [if_neg ‹_›]
  · rw [if_neg granted] at done
    cases done
    rw [Bool.eq_false_iff.mpr granted, Bool.false_and, if_neg Bool.false_ne_true]

theorem blocks_handled {blocks : List (List UInt8)} :
    (∃ last, blocks.foldlM (receiveBlock above) upper = .ok last) ↔
      ∀ place block, blocks[place]? = some block →
        above.alloc (upper.blocks + place) (pktLen block) = true → 4 + pktLen block ≤ pktSize := by
  induction blocks generalizing upper with
  | nil => exact ⟨fun _ => nofun, fun _ => ⟨upper, rfl⟩⟩
  | cons block blocks ih =>
    rw [List.foldlM_cons]
    constructor
    · rintro ⟨last, done⟩
      obtain ⟨next, first, rest⟩ := bind_eq_ok.mp done
      obtain ⟨count, _, inside⟩ := receiveBlock_inside first
      intro place other found granted
      cases place with
      | zero =>
        cases found
        exact inside granted
      | succ place =>
        refine ih.mp ⟨last, rest⟩ place other found ?_
        rwa [count, Nat.add_assoc, Nat.add_comm 1]
    · intro inside
      obtain ⟨next, first⟩ := receiveBlock_ok upper (inside 0 block rfl)
      have count := (receiveBlock_inside first).1
      obtain ⟨last, rest⟩ := (@ih next).mpr fun place other found granted =>
        inside (place + 1) other found (by rwa [count, Nat.add_assoc, Nat.add_comm 1] at granted)
      exact ⟨last, bind_eq_ok.mpr ⟨next, first, rest⟩⟩

theorem blocks_grow {blocks : List (List UInt8)}
    (done : blocks.foldlM (receiveBlock above) upper = .ok next) : upper.upward <+: next.upward := by
  induction blocks generalizing upper with
  | nil =>
    cases done
    exact List.prefix_rfl
  | cons block blocks ih =>
    rw [List.foldlM_cons] at done
    obtain ⟨first, begun, rest⟩ := bind_eq_ok.mp done
    exact (receiveBlock_inside begun).2.1.trans (ih rest)

theorem blocks_deliver {walk : List Nat} {blocks : List (List UInt8)}
    (carried : List.Forall₂ (fun addr block => Carries (memory addr) block) walk blocks)
    (done : blocks.foldlM (receiveBlock above) upper = .ok next) :
    next.upward =
      upper.upward ++ taken above upper.blocks (walk.map fun addr => (memory addr).frame) := by
  induction carried generalizing upper with
  | nil =>
    cases done
    exact (List.append_nil _).symm
  | cons carries _ ih =>
    rw [List.foldlM_cons] at done
    obtain ⟨first, begun, rest⟩ := bind_eq_ok.mp done
    rw [ih rest, (receiveBlock_inside begun).1, List.map_cons]
    exact receiveBlock_carries carries begun _

end Blocks

/-! ### Readings -/

section Readings

variable {above : Above} {line rest : List UInt8} {blocks : List (List UInt8)} {final : Upper}
  {receiver : Receiver} {readings : List Reading}

/-- What was read is a part of the line. -/
def Following (above : Above) (line : List UInt8) (receiver : Receiver) : Prop :=
  ∃ seen, seen ++ receiver.line = line ∧
    Assembled pktSize (receiveBlock above) ⟨0, 0, []⟩ seen receiver.assembly

/-- Nothing is left to read. -/
def Shut (receiver : Receiver) : Prop :=
  receiver.line = [] ∧ receiver.assembly.filled.length < pktSize

theorem following_start (line : List UInt8) : Following above line (.start line) :=
  ⟨[], rfl, assembled_nil pktSize_pos⟩

theorem Following.turn (cut : Cut pktSize line blocks rest)
    (handled : blocks.foldlM (receiveBlock above) ⟨0, 0, []⟩ = .ok final)
    (following : Following above line receiver) {reading : Reading} (here : reading ≠ .closed) :
    ∃ next, receiveTurn above receiver reading = .ok next ∧ Following above line next := by
  cases reading with
  | interrupted => exact ⟨receiver, rfl, following⟩
  | closed => exact absurd rfl here
  | got count =>
    obtain ⟨seen, whole, assembled⟩ := following
    have short : receiver.assembly.filled.length < pktSize := assembled.choose_spec.1.short
    let piece := receiver.line.take (min count (pktSize - receiver.assembly.filled.length))
    have fits : receiver.assembly.filled.length + piece.length ≤ pktSize := by
      have length : piece.length ≤ pktSize - receiver.assembly.filled.length :=
        (List.length_take_le _ _).trans (Nat.min_le_right _ _)
      omega
    have split : piece ++ receiver.line.drop piece.length = receiver.line := by
      have front : piece = receiver.line.take piece.length :=
        (List.prefix_iff_eq_take.mp (List.take_prefix _ _))
      nth_rewrite 1 [front]
      exact List.take_append_drop _ _
    rw [← whole, ← split, ← List.append_assoc] at cut
    obtain ⟨next, pushed, assembled⟩ := assembled.push_ok pktSize_pos fits cut handled
    refine ⟨⟨next, receiver.line.drop piece.length⟩, ?_, seen ++ piece, ?_, assembled⟩
    · exact map_eq_ok.mpr ⟨next, pushed, rfl⟩
    · rw [List.append_assoc, split, whole]

theorem Following.run (cut : Cut pktSize line blocks rest)
    (handled : blocks.foldlM (receiveBlock above) ⟨0, 0, []⟩ = .ok final)
    (following : Following above line receiver) (opened : Reading.closed ∉ readings) :
    ∃ last, devnReceive above readings receiver = .ok last ∧ Following above line last := by
  induction readings generalizing receiver with
  | nil => exact ⟨receiver, rfl, following⟩
  | cons reading readings ih =>
    have here : reading ≠ .closed := fun same => opened (same ▸ List.mem_cons_self)
    have later : Reading.closed ∉ readings := fun member => opened (List.mem_cons_of_mem _ member)
    obtain ⟨next, turned, following⟩ := following.turn cut handled here
    obtain ⟨last, done, following⟩ := ih following later
    exact ⟨last, bind_eq_ok.mpr ⟨next, turned, done⟩, following⟩

theorem Shut.turn (shut : Shut receiver) (reading : Reading) :
    ∃ next, receiveTurn above receiver reading = .ok next ∧ Shut next := by
  obtain ⟨done, short⟩ := shut
  cases reading with
  | interrupted => exact ⟨receiver, rfl, done, short⟩
  | closed => exact ⟨_, rfl, rfl, pktSize_pos⟩
  | got count =>
    refine ⟨receiver, ?_, done, short⟩
    have same : push pktSize (receiveBlock above) receiver.assembly [] = .ok receiver.assembly := by
      rw [push, List.append_nil, if_neg (Nat.ne_of_lt short)]
    have kept : Receiver.mk receiver.assembly [] = receiver := by rw [← done]
    simp only [receiveTurn, done, List.take_nil, List.drop_nil, same, Except.map, kept]

/-- If the lengths in the blocks are right, nothing is copied from behind the buffer. -/
theorem readings_inside (cut : Cut pktSize line blocks rest)
    (handled : blocks.foldlM (receiveBlock above) ⟨0, 0, []⟩ = .ok final)
    (steady : Following above line receiver ∨ Shut receiver) :
    ∃ last, devnReceive above readings receiver = .ok last := by
  induction readings generalizing receiver with
  | nil => exact ⟨receiver, rfl⟩
  | cons reading readings ih =>
    have turn : ∃ next, receiveTurn above receiver reading = .ok next ∧
        (Following above line next ∨ Shut next) := by
      rcases steady with following | shut
      · by_cases closed : reading = .closed
        · subst closed
          exact ⟨_, rfl, .inr ⟨rfl, pktSize_pos⟩⟩
        · obtain ⟨next, turned, following⟩ := following.turn cut handled closed
          exact ⟨next, turned, .inl following⟩
      · obtain ⟨next, turned, shut⟩ := shut.turn reading
        exact ⟨next, turned, .inr shut⟩
    obtain ⟨next, turned, steady⟩ := turn
    obtain ⟨last, done⟩ := ih steady
    exact ⟨last, bind_eq_ok.mpr ⟨next, turned, done⟩⟩

theorem whole_readings {upper : Upper} (sizes : ∀ block ∈ blocks, block.length = pktSize) :
    devnReceive above (List.replicate blocks.length (.got pktSize))
        ⟨⟨[], upper⟩, blocks.flatten ++ rest⟩ =
      (blocks.foldlM (receiveBlock above) upper).map (⟨⟨[], ·⟩, rest⟩) := by
  induction blocks generalizing upper with
  | nil => rfl
  | cons block blocks ih =>
    obtain ⟨size, sizes⟩ := List.forall_mem_cons.mp sizes
    have piece : (block ++ (blocks.flatten ++ rest)).take (min pktSize (pktSize - 0)) = block := by
      rw [Nat.sub_zero, Nat.min_self]
      exact List.take_left' size
    have turn : receiveTurn above ⟨⟨[], upper⟩, (block :: blocks).flatten ++ rest⟩ (.got pktSize) =
        (receiveBlock above upper block).map (⟨⟨[], ·⟩, blocks.flatten ++ rest⟩) := by
      rw [receiveTurn, List.flatten_cons, List.append_assoc]
      dsimp only [List.length_nil]
      rw [piece, List.drop_left' rfl, push]
      dsimp only [List.nil_append]
      rw [if_pos size]
      cases receiveBlock above upper block with
      | error fault => rfl
      | ok next => rfl
    unfold devnReceive at ih ⊢
    rw [List.length_cons, List.replicate_succ, List.foldlM_cons, turn, List.foldlM_cons]
    cases receiveBlock above upper block with
    | error fault => rfl
    | ok next => exact ih sizes

/-- What is copied lies inside the buffer, however the line is read, if and only if the lengths in
its blocks are right. -/
theorem copiesInside_iff : CopiesInside above line ↔ LengthsInside above line := by
  constructor
  · intro inside blocks rest cut place block found granted
    obtain ⟨last, done⟩ := inside (List.replicate blocks.length (.got pktSize))
    rw [cut.whole, Receiver.start, whole_readings cut.sizes] at done
    obtain ⟨final, handled, _⟩ := map_eq_ok.mp done
    refine blocks_handled.mp ⟨final, handled⟩ place block found ?_
    rwa [Nat.zero_add]
  · intro lengths readings
    obtain ⟨blocks, rest, cut⟩ := exists_cut pktSize_pos line
    obtain ⟨final, handled⟩ := (@blocks_handled above ⟨0, 0, []⟩ blocks).mpr
      fun place block found granted =>
        lengths blocks rest cut place block found (by rwa [Nat.zero_add] at granted)
    exact readings_inside cut handled (.inl (following_start line))

end Readings

/-! ### Frames that were sent -/

section Frames

variable {above : Above} {memory : Nat → Npkt} {below : Below} {blocks : List (List UInt8)}
  {walk : List Nat}

theorem carried_fits
    (carried : List.Forall₂ (fun addr block => Carries (memory addr) block) walk blocks) :
    (∀ place block, blocks[place]? = some block →
        above.alloc place (pktLen block) = true → 4 + pktLen block ≤ pktSize) ↔
      ∀ place addr, walk[place]? = some addr →
        above.alloc place (memory addr).framelen.toNat = true →
        4 + (memory addr).framelen.toNat ≤ pktSize := by
  have length := carried.length_eq
  constructor
  · intro inside place addr found granted
    obtain ⟨low, rfl⟩ := List.getElem?_eq_some_iff.mp found
    have carries := carried.get low (length ▸ low)
    have here : blocks[place]? = some blocks[place] := List.getElem?_eq_getElem _
    rw [List.get_eq_getElem, List.get_eq_getElem] at carries
    rw [← carries.pktLen] at granted ⊢
    exact inside place _ here granted
  · intro inside place block found granted
    obtain ⟨low, rfl⟩ := List.getElem?_eq_some_iff.mp found
    have carries := carried.get (length ▸ low) low
    have here : walk[place]? = some walk[place] := List.getElem?_eq_getElem _
    rw [List.get_eq_getElem, List.get_eq_getElem] at carries
    rw [carries.pktLen] at granted ⊢
    exact inside place _ here granted

/-- The frames of a chain that was accepted are delivered, however the line is read, if and only if
they fit. -/
theorem delivers_iff (copies : below.Copies) {npkt : Nat} {bytesTxed : UInt32} {sent : Sent}
    (chain : Chain memory npkt)
    (reaches : Reaches (devnRxDown memory below npkt bytesTxed) sent)
    (accepted : sent.result = .ok) :
    Delivers above sent.line chain.frames ↔ Fits above below chain := by
  obtain ⟨walk, blocks, linked, carried, line⟩ := devnRxDown_blocks copies reaches chain.data accepted
  have sizes : ∀ block ∈ blocks, block.length = pktSize := by
    intro block member
    obtain ⟨place, low, rfl⟩ := List.getElem_of_mem member
    exact (carried.get (carried.length_eq ▸ low) low).size
  have cut : Cut pktSize sent.line blocks [] := ⟨by rw [line, List.append_nil], sizes, pktSize_pos⟩
  have handled : (∃ final, blocks.foldlM (receiveBlock above) ⟨0, 0, []⟩ = .ok final) ↔ _ :=
    blocks_handled
  simp only [Nat.zero_add, carried_fits carried] at handled
  constructor
  · intro delivers
    obtain ⟨last, done, _, all⟩ := delivers (List.replicate blocks.length (.got pktSize))
      fun member => nomatch List.eq_of_mem_replicate member
    rw [cut.whole, Receiver.start, whole_readings sizes] at done
    obtain ⟨final, folded, rfl⟩ := map_eq_ok.mp done
    refine ⟨walk, linked, handled.mp ⟨final, folded⟩, ?_⟩
    have upward := blocks_deliver carried folded
    exact upward.symm.trans (all rfl)
  · rintro ⟨walk', linked', short, frames⟩ readings opened
    obtain rfl := linked.unique linked'
    obtain ⟨final, folded⟩ := handled.mpr short
    have upward : final.upward = chain.frames :=
      (blocks_deliver carried folded).trans frames
    obtain ⟨last, done, seen, whole, before, cut', begun⟩ :=
      (following_start sent.line).run cut folded opened
    refine ⟨last, done, ?_, fun empty => ?_⟩
    · rw [← whole] at cut
      obtain ⟨others, rfl⟩ := cut'.later cut
      rw [List.foldlM_append, begun] at folded
      rw [← upward]
      exact blocks_grow folded
    · rw [empty, List.append_nil] at whole
      subst whole
      obtain ⟨rfl, _⟩ := cut'.unique cut
      rw [begun] at folded
      cases folded
      exact upward

/-- Frames that were accepted are delivered if and only if they fit, and of any bytes on the line
those of the receive buffer alone are copied if and only if the lengths in their blocks are right. -/
theorem frames_cross_line_iff (copies : below.Copies) {npkt : Nat} {bytesTxed : UInt32}
    {sent : Sent} (chain : Chain memory npkt)
    (reaches : Reaches (devnRxDown memory below npkt bytesTxed) sent)
    (accepted : sent.result = .ok) :
    (Delivers above sent.line chain.frames ↔ Fits above below chain) ∧
      ∀ line, CopiesInside above line ↔ LengthsInside above line :=
  ⟨delivers_iff copies chain reaches accepted, fun _ => copiesInside_iff⟩

end Frames

/-! ### Two frames, and one that is too long -/

/-- An io-net that always has a packet. -/
def plenty : Above := ⟨fun _ _ => true, fun _ => true⟩

/-- A line that takes every block; packets that are given back stay as they are. -/
def calm (next : Nat → Option Nat) : Below where
  alloc := some fun _ => 0
  memcpyFromNpkt npkt count := npkt.data.take count
  write _ := pktSize
  nextDone := next

theorem calm_copies (next : Nat → Option Nat) : (calm next).Copies := fun _ _ => rfl

def twoPackets (addr : Nat) : Npkt :=
  if addr = 0 then ⟨false, 2, [1, 2], some 1⟩ else ⟨false, 1, [3], none⟩

def longPacket : Npkt := ⟨false, 1517, List.replicate 1517 0, none⟩

def twoChain : Chain twoPackets 0 := ⟨[0, 1], ⟨rfl, rfl, rfl⟩, rfl⟩

def longChain : Chain (fun _ => longPacket) 0 := ⟨[0], ⟨rfl, rfl⟩, rfl⟩

theorem two_frames_cross_line :
    ∃ sent, Reaches (devnRxDown twoPackets (calm fun addr => (twoPackets addr).next) 0 0) sent ∧
      sent.result = .ok ∧ Delivers plenty sent.line [[1, 2], [3]] := by
  have linked : Linked (fun addr => (twoPackets addr).next) (some 0) [0, 1] := twoChain.linked
  obtain ⟨sent, reaches, accepted⟩ :=
    @devnRxDown_accepts twoPackets _ (calm_copies _) 0 0 _ _ rfl rfl linked
      (by decide) fun _ => rfl
  refine ⟨sent, reaches, accepted, ?_⟩
  refine (frames_cross_line_iff (calm_copies _) twoChain reaches accepted).1.mpr ⟨[0, 1], linked, ?_, rfl⟩
  intro place addr found _
  rcases List.mem_cons.mp (List.mem_of_getElem? found) with rfl | last
  · decide
  · rw [List.mem_singleton.mp last]
    decide

theorem long_frame_is_accepted :
    ∃ sent, Reaches (devnRxDown (fun _ => longPacket) (calm fun _ => none) 0 0) sent ∧
      sent.result = .ok ∧ ¬ Delivers plenty sent.line [longPacket.frame] ∧
      ¬ CopiesInside plenty sent.line := by
  have linked : Linked (calm fun _ => none).nextDone (some 0) [0] := ⟨rfl, rfl⟩
  have whole : longPacket.frame.length = longPacket.framelen.toNat := by
    rw [Npkt.frame, longPacket, List.length_take, List.length_replicate]
    rfl
  obtain ⟨sent, reaches, accepted⟩ :=
    @devnRxDown_accepts (fun _ => longPacket) _ (calm_copies _) 0 0 _ _ rfl rfl linked
      (fun _ _ => whole) fun _ => rfl
  have beyond : ¬ Delivers plenty sent.line longChain.frames := by
    intro delivers
    obtain ⟨walk, linked', short, _⟩ := (delivers_iff (calm_copies _) longChain reaches accepted).mp delivers
    obtain rfl := linked.unique linked'
    have fits : 4 + (1517 : UInt32).toNat ≤ pktSize := short 0 0 rfl rfl
    exact absurd fits (by decide)
  refine ⟨sent, reaches, accepted, beyond, fun inside => ?_⟩
  obtain ⟨walk, blocks, linked', carried, line⟩ := devnRxDown_blocks (calm_copies _) reaches rfl accepted
  obtain rfl := linked.unique linked'
  obtain ⟨block, _, carries, none, rfl⟩ := List.forall₂_cons_left_iff.mp carried
  obtain rfl := List.forall₂_nil_left_iff.mp none
  have cut : Cut pktSize sent.line [block] [] :=
    ⟨line.trans (List.append_nil _).symm, by simpa using carries.size, pktSize_pos⟩
  have fits := copiesInside_iff.mp inside [block] [] cut 0 block rfl rfl
  rw [carries.pktLen] at fits
  have fits : 4 + (1517 : UInt32).toNat ≤ pktSize := fits
  exact absurd fits (by decide)

end QNXStuff.DevnSer
