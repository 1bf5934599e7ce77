import QNXStuff.Library.Fuel
import QNXStuff.Library.Memory
import Mathlib.Data.List.Forall2

/-! How the serial driver sends frames down the line, each of them in a block of the same size. -/

namespace QNXStuff.DevnSer

open Execution Memory

/-- `DEF_PKT_SIZE`, the value of `serial.pkt_size` and of `max_pkt_size`. -/
def pktSize : Nat := 1520

theorem pktSize_pos : 0 < pktSize := by decide

/-- `npkt_t`: whether `_NPKT_MSG` is among its flags, and what its buffers hold. -/
structure Npkt where
  msg : Bool
  framelen : UInt32
  data : List UInt8
  next : Option Nat

def Npkt.frame (npkt : Npkt) : List UInt8 := npkt.data.take npkt.framelen.toNat

/-- What io-net and the line do: the buffer of `alloc`, if any, what `memcpy_from_npkt` copies of so
many bytes, what each `write` returns, and what stands in `next` of a packet that `tx_done` has given
back. -/
structure Below where
  alloc : Option Block
  memcpyFromNpkt : Npkt → Nat → List UInt8
  write : Nat → Int
  nextDone : Nat → Option Nat

/-- `memcpy_from_npkt` copies as many bytes as it is told to, or all that there are. -/
def Below.Copies (below : Below) : Prop :=
  ∀ npkt count, below.memcpyFromNpkt npkt count = npkt.data.take count

/-- `TX_DOWN_OK` and `TX_DOWN_FAILED` -/
inductive TxDown where
  | ok
  | failed
  deriving DecidableEq

/-- The result, what was written to the line, and `bytes_txed`. -/
structure Sent where
  result : TxDown
  line : List UInt8
  bytesTxed : UInt32

/-- `txbuf` and `tmp_pkt`, and what has been sent so far. -/
structure Sending where
  txbuf : Block
  tmpPkt : Option Nat
  writes : Nat
  line : List UInt8
  bytesTxed : UInt32

section Sending

variable (memory : Nat → Npkt) (below : Below)

/-- One turn of `while( tmp_pkt != NULL )`. What a longer frame has behind `txbuf` is not sent. -/
def rxDownTurn (state : Sending) : Except Unit (Pass Sending Sent) :=
  match state.tmpPkt with
  | none => .ok (.stop ⟨.ok, state.line, state.bytesTxed⟩)
  | some addr =>
    let npkt := memory addr
    let copied := below.memcpyFromNpkt npkt npkt.framelen.toNat
    let txbuf := writeBytes state.txbuf 0 (bytesOf 4 npkt.framelen.toNat)
    let txbuf := writeBytes txbuf 4 copied
    if copied.length ≠ npkt.framelen.toNat then
      .ok (.stop ⟨.failed, state.line, state.bytesTxed⟩)
    else
      let written := below.write state.writes
      let line := state.line ++ (readBytes txbuf 0 pktSize).take written.toNat
      if written ≠ pktSize then .ok (.stop ⟨.failed, line, state.bytesTxed⟩)
      else
        -- `next` is read when the packet has already been given back
        .ok (.again
          { txbuf := txbuf
            tmpPkt := below.nextDone addr
            writes := state.writes + 1
            line := line
            bytesTxed := state.bytesTxed + npkt.framelen })

def devnRxDown (npkt : Nat) (bytesTxed : UInt32) (fuel : Nat) : Except Unit Sent :=
  if (memory npkt).msg then .ok ⟨.ok, [], bytesTxed⟩
  else
    match below.alloc with
    | none => .ok ⟨.failed, [], bytesTxed⟩
    | some txbuf =>
      loop (rxDownTurn memory below) () fuel
        { txbuf := txbuf, tmpPkt := some npkt, writes := 0, line := [], bytesTxed := bytesTxed }

end Sending

/-! ### Blocks on the line -/

/-- The packets that are reached from one by these pointers. -/
def Linked (next : Nat → Option Nat) : Option Nat → List Nat → Prop
  | start, [] => start = none
  | start, addr :: rest => start = some addr ∧ Linked next (next addr) rest

/-- A block with the length of the packet, and its frame when that fits. -/
structure Carries (npkt : Npkt) (block : List UInt8) : Prop where
  size : block.length = pktSize
  length : block.take 4 = bytesOf 4 npkt.framelen.toNat
  whole : npkt.frame.length = npkt.framelen.toNat
  frame : 4 + npkt.framelen.toNat ≤ pktSize →
    (block.drop 4).take npkt.framelen.toNat = npkt.frame

section Blocks

variable {memory : Nat → Npkt} {below : Below}

theorem Below.Copies.frame (copies : below.Copies) (addr : Nat) :
    below.memcpyFromNpkt (memory addr) (memory addr).framelen.toNat = (memory addr).frame :=
  copies _ _

theorem carries_txbuf {npkt : Npkt} (txbuf : Block)
    (whole : npkt.frame.length = npkt.framelen.toNat) :
    Carries npkt (readBytes (writeBytes (writeBytes txbuf 0 (bytesOf 4 npkt.framelen.toNat)) 4
      npkt.frame) 0 pktSize) := by
  have header := readBytes_writeBytes txbuf 0 (bytesOf 4 npkt.framelen.toNat)
  rw [bytesOf_length] at header
  have split : readBytes (writeBytes (writeBytes txbuf 0 (bytesOf 4 npkt.framelen.toNat)) 4
      npkt.frame) 0 pktSize = bytesOf 4 npkt.framelen.toNat ++
        readBytes (writeBytes (writeBytes txbuf 0 (bytesOf 4 npkt.framelen.toNat)) 4
          npkt.frame) 4 1516 := by
    rw [show pktSize = 4 + 1516 from rfl, readBytes_append,
      readBytes_writeBytes_outside (.inl (Nat.le_refl 4)), header]
  refine ⟨readBytes_length .., ?_, whole, fun fits => ?_⟩
  · rw [split, List.take_left' (bytesOf_length ..)]
  · have more : 1516 = npkt.frame.length + (1516 - npkt.frame.length) := by
      rw [whole]
      unfold pktSize at fits
      omega
    rw [split, List.drop_left' (bytesOf_length ..), more, readBytes_append, readBytes_writeBytes,
      List.take_left' whole]

/-- What an accepted chain puts on the line: a block for each packet that is reached. -/
theorem rxDownTurn_blocks (copies : below.Copies) {state : Sending} {sent : Sent}
    (ends : Ends (rxDownTurn memory below) state sent) (accepted : sent.result = .ok) :
    ∃ walk blocks, Linked below.nextDone state.tmpPkt walk ∧
      List.Forall₂ (fun addr block => Carries (memory addr) block) walk blocks ∧
      sent.line = state.line ++ blocks.flatten := by
  induction ends with
  | @stop state sent done =>
    unfold rxDownTurn at done
    cases here : state.tmpPkt with
    | none =>
      rw [here] at done
      cases done
      exact ⟨[], [], rfl, .nil, (List.append_nil _).symm⟩
    | some addr =>
      simp only [here, copies.frame] at done
      by_cases whole : (memory addr).frame.length = (memory addr).framelen.toNat
      · rw [if_neg (not_not.mpr whole)] at done
        by_cases all : below.write state.writes = pktSize
        · rw [if_neg (not_not.mpr all)] at done
          cases done
        · rw [if_pos all] at done
          cases done
          cases accepted
      · rw [if_pos whole] at done
        cases done
        cases accepted
  | @again state next sent done rest ih =>
    obtain ⟨walk, blocks, linked, carried, line⟩ := ih accepted
    unfold rxDownTurn at done
    cases here : state.tmpPkt with
    | none =>
      rw [here] at done
      cases done
    | some addr =>
      simp only [here, copies.frame] at done
      by_cases whole : (memory addr).frame.length = (memory addr).framelen.toNat
      · rw [if_neg (not_not.mpr whole)] at done
        by_cases all : below.write state.writes = pktSize
        · rw [if_neg (not_not.mpr all)] at done
          cases done
          have carries := carries_txbuf state.txbuf whole
          refine ⟨addr :: walk, _ :: blocks, ⟨rfl, linked⟩, .cons carries carried, ?_⟩
          rw [line, all, Int.toNat_natCast, List.take_of_length_le (Nat.le_of_eq carries.size),
            List.flatten_cons, List.append_assoc]
        · rw [if_pos all] at done
          cases done
      · rw [if_pos whole] at done
        cases done

theorem Linked.unique {next : Nat → Option Nat} {start : Option Nat} {walk walk' : List Nat}
    (linked : Linked next start walk) (linked' : Linked next start walk') : walk = walk' := by
  induction walk generalizing start walk' with
  | nil =>
    cases walk' with
    | nil => rfl
    | cons addr walk' => cases linked.symm.trans linked'.1
  | cons addr walk ih =>
    obtain ⟨here, rest⟩ := linked
    cases walk' with
    | nil => cases here.symm.trans linked'
    | cons addr' walk' =>
      obtain ⟨here', rest'⟩ := linked'
      cases here.symm.trans here'
      rw [ih rest rest']

/-- The packets that an accepted chain sends, and the blocks that it puts on the line. -/
theorem devnRxDown_blocks (copies : below.Copies) {npkt : Nat} {bytesTxed : UInt32} {sent : Sent}
    (reaches : Reaches (devnRxDown memory below npkt bytesTxed) sent)
    (data : (memory npkt).msg = false) (accepted : sent.result = .ok) :
    ∃ walk blocks, Linked below.nextDone (some npkt) walk ∧
      List.Forall₂ (fun addr block => Carries (memory addr) block) walk blocks ∧
      sent.line = blocks.flatten := by
  obtain ⟨fuel, done⟩ := reaches
  unfold devnRxDown at done
  rw [data] at done
  cases buffer : below.alloc with
  | none =>
    simp only [buffer] at done
    cases done
    cases accepted
  | some txbuf =>
    simp only [buffer] at done
    exact rxDownTurn_blocks copies (reaches_loop.mp ⟨fuel, done⟩) accepted

theorem rxDownTurn_accepts (copies : below.Copies) {state : Sending} {walk : List Nat}
    (linked : Linked below.nextDone state.tmpPkt walk)
    (whole : ∀ addr ∈ walk, (memory addr).frame.length = (memory addr).framelen.toNat)
    (written : ∀ count, below.write count = pktSize) :
    ∃ sent, Ends (rxDownTurn memory below) state sent ∧ sent.result = .ok := by
  induction walk generalizing state with
  | nil =>
    refine ⟨⟨.ok, state.line, state.bytesTxed⟩, .stop ?_, rfl⟩
    rw [rxDownTurn, show state.tmpPkt = none from linked]
  | cons addr walk ih =>
    obtain ⟨here, rest⟩ := linked
    obtain ⟨this, others⟩ := List.forall_mem_cons.mp whole
    let txbuf := writeBytes (writeBytes state.txbuf 0 (bytesOf 4 (memory addr).framelen.toNat)) 4
      (memory addr).frame
    obtain ⟨sent, ends, accepted⟩ := @ih
      { txbuf := txbuf
        tmpPkt := below.nextDone addr
        writes := state.writes + 1
        line := state.line ++ (readBytes txbuf 0 pktSize).take (below.write state.writes).toNat
        bytesTxed := state.bytesTxed + (memory addr).framelen } rest others
    refine ⟨sent, .again ?_ ends, accepted⟩
    rw [rxDownTurn, here]
    dsimp only
    rw [copies.frame, if_neg (not_not.mpr this), if_neg (not_not.mpr (written state.writes))]

/-- Packets that have their bytes are accepted by a line that takes them. -/
theorem devnRxDown_accepts (copies : below.Copies) {npkt : Nat} {bytesTxed : UInt32}
    {walk : List Nat} {txbuf : Block}
    (data : (memory npkt).msg = false) (allocated : below.alloc = some txbuf)
    (linked : Linked below.nextDone (some npkt) walk)
    (whole : ∀ addr ∈ walk, (memory addr).frame.length = (memory addr).framelen.toNat)
    (written : ∀ count, below.write count = pktSize) :
    ∃ sent, Reaches (devnRxDown memory below npkt bytesTxed) sent ∧ sent.result = .ok := by
  let start : Sending :=
    { txbuf := txbuf, tmpPkt := some npkt, writes := 0, line := [], bytesTxed := bytesTxed }
  obtain ⟨sent, ends, accepted⟩ := @rxDownTurn_accepts _ _ copies start _ linked whole written
  obtain ⟨fuel, done⟩ := reaches_loop.mpr ends
  refine ⟨sent, ⟨fuel, ?_⟩, accepted⟩
  rw [devnRxDown, data, if_neg Bool.false_ne_true, allocated]
  exact done

end Blocks

/-- Data packets that are linked, as they are when they are sent down. -/
structure Chain (memory : Nat → Npkt) (npkt : Nat) where
  addrs : List Nat
  linked : Linked (fun addr => (memory addr).next) (some npkt) addrs
  data : (memory npkt).msg = false

def Chain.frames {memory : Nat → Npkt} {npkt : Nat} (chain : Chain memory npkt) :
    List (List UInt8) :=
  chain.addrs.map fun addr => (memory addr).frame

end QNXStuff.DevnSer
