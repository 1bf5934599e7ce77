import Mathlib.Data.List.GetD
import QNXStuff.Library.Digests
import QNXStuff.QXMail.Md5

/-! The hashes of the mail server: `MD5bin` computes the digest that the tables define. -/

namespace QNXStuff.QXMail

open Memory Sine Digests

/-! ### The steps -/

theorem ff_eq (b c d : UInt32) : ff b c d = roundF b c d := by
  refine UInt32.eq_of_toBitVec_eq (BitVec.eq_of_getLsbD_eq fun bit inside => ?_)
  simp only [ff, roundF, UInt32.toBitVec_xor, UInt32.toBitVec_and, UInt32.toBitVec_or,
    UInt32.toBitVec_not, BitVec.getLsbD_xor, BitVec.getLsbD_and, BitVec.getLsbD_or,
    BitVec.getLsbD_not, inside]
  cases b.toBitVec.getLsbD bit <;> cases c.toBitVec.getLsbD bit <;>
    cases d.toBitVec.getLsbD bit <;> rfl

/-- The second function is the first one, with its arguments moved. -/
theorem fg_eq (b c d : UInt32) : fg b c d = roundG b c d := by
  calc fg b c d
    _ = roundF d b c := ff_eq d b c
    _ = roundG b c d := by rw [roundF, roundG, UInt32.and_comm d, UInt32.and_comm (~~~d)]

/-- The registers as the digest names them. -/
def Registers.state (regs : Registers) : State := ⟨regs.a, regs.b, regs.c, regs.d⟩

/-- The four phases, one behind the other. -/
def allOps : List Op := phase1 ++ phase2 ++ phase3 ++ phase4

def opFunction (phase : Nat) : UInt32 → UInt32 → UInt32 → UInt32 :=
  match phase with
  | 0 => ff
  | 1 => fg
  | 2 => fh
  | _ => fi

theorem constants_enclosed :
    ∀ number < 64, Enclosed (number + 1) (allOps.getD number (0, 0, 0)).2.2.toNat := by
  decide +kernel

theorem shifts_and_words : ∀ number < 64,
    (allOps.getD number (0, 0, 0)).1 = UInt32.ofNat (stepShift number) ∧
      (allOps.getD number (0, 0, 0)).2.1 = stepWord number ∧
      0 < stepShift number ∧ stepShift number < 32 := by
  decide +kernel

theorem cyclic_eq (word : UInt32) {shift : Nat} (some : 0 < shift) (fits : shift < 32) :
    cyclic word (UInt32.ofNat shift) = rotate word shift := by
  have small : (UInt32.ofNat shift).toNat = shift := by
    rw [UInt32.toNat_ofNat']
    omega
  have rest : (32 - UInt32.ofNat shift).toNat = 32 - shift := by
    rw [UInt32.toNat_sub_of_le]
    · rw [small]
      rfl
    · rw [UInt32.le_iff_toNat_le, small]
      exact fits.le
  refine UInt32.eq_of_toBitVec_eq ?_
  rw [cyclic, rotate, BitVec.rotateLeft_def, UInt32.toBitVec_or, UInt32.toBitVec_shiftLeft,
    UInt32.toBitVec_shiftRight, BitVec.shiftLeft_eq', BitVec.ushiftRight_eq', BitVec.toNat_umod,
    BitVec.toNat_umod]
  simp only [UInt32.toNat_toBitVec, small, rest]
  have left : shift % (32 : BitVec 32).toNat = shift := Nat.mod_eq_of_lt fits
  have right : (32 - shift) % (32 : BitVec 32).toNat = 32 - shift :=
    Nat.mod_eq_of_lt (Nat.sub_lt (by decide) some)
  rw [left, right, Nat.mod_eq_of_lt fits]

/-- An operation is the step of its number. -/
theorem op_eq (block : List UInt32) (regs : Registers) {number : Nat} (inside : number < 64) :
    (op (opFunction (number / 16)) block regs (allOps.getD number (0, 0, 0))).state =
      step (fun word => block.getD word 0) regs.state number := by
  obtain ⟨shift, word, some, fits⟩ := shifts_and_words number inside
  have constant : (allOps.getD number (0, 0, 0)).2.2 = UInt32.ofNat (sineTable (number + 1)) := by
    rw [sineTable_eq (constants_enclosed number inside), UInt32.ofNat_toNat]
  have function : opFunction (number / 16) regs.b regs.c regs.d =
      stepFunction number regs.b regs.c regs.d := by
    unfold stepFunction
    match number / 16 with
    | 0 => exact ff_eq _ _ _
    | 1 => exact fg_eq _ _ _
    | 2 => rfl
    | _ + 3 => rfl
  simp only [op, step, Registers.state, shift, word, constant, function, cyclic_eq _ some fits]
  rw [UInt32.add_comm (rotate _ _), UInt32.add_assoc regs.a, UInt32.add_assoc regs.a]

/-- The operations of a phase are sixteen steps. -/
theorem phase_eq (block : List UInt32) {round : Nat} {phase : List Op} {numbers : List Nat}
    (listed : phase = numbers.map fun number => allOps.getD number (0, 0, 0))
    (same : ∀ number ∈ numbers, number / 16 = round ∧ number < 64) (regs : Registers) :
    (phase.foldl (op (opFunction round) block) regs).state =
      numbers.foldl (step fun word => block.getD word 0) regs.state := by
  subst listed
  induction numbers generalizing regs with
  | nil => rfl
  | cons number numbers ih =>
    obtain ⟨function, inside⟩ := same number List.mem_cons_self
    have first := op_eq block regs inside
    rw [function] at first
    rw [List.map_cons, List.foldl_cons, List.foldl_cons, ← first]
    exact ih (fun other member => same other (List.mem_cons_of_mem number member)) _

theorem md5Block_eq (regs : Registers) (block : List UInt32) :
    (md5Block regs block).state = process regs.state fun word => block.getD word 0 := by
  have numbers : List.range 64 = List.range' 0 16 ++ List.range' 16 16 ++ List.range' 32 16 ++
      List.range' 48 16 := by decide
  have first := @phase_eq block 0 phase1 (List.range' 0 16) (by decide) (by decide)
  have second := @phase_eq block 1 phase2 (List.range' 16 16) (by decide) (by decide)
  have third := @phase_eq block 2 phase3 (List.range' 32 16) (by decide) (by decide)
  have fourth := @phase_eq block 3 phase4 (List.range' 48 16) (by decide) (by decide)
  unfold process
  rw [numbers, List.foldl_append, List.foldl_append, List.foldl_append, ← first, ← second, ← third,
    ← fourth]
  rfl

/-! ### The message -/

theorem getD_drop (bytes : List UInt8) (start place : Nat) :
    (bytes.drop start).getD place 0 = bytes.getD (start + place) 0 := by
  rw [List.getD_eq_getElem?_getD, List.getD_eq_getElem?_getD, List.getElem?_drop]

theorem wordOf_take (bytes : List UInt8) :
    wordOf (bytes.take 4) = (bytes.getD 0 0).toNat + 256 * ((bytes.getD 1 0).toNat +
      256 * ((bytes.getD 2 0).toNat + 256 * (bytes.getD 3 0).toNat)) := by
  match bytes with
  | [] => rfl
  | [_] => rfl
  | [_, _] => rfl
  | [_, _, _] => rfl
  | _ :: _ :: _ :: _ :: _ => rfl

/-- Bytes that are shifted apart and joined make a little-endian word. -/
theorem join_bytes (b0 b1 b2 b3 : UInt8) :
    b0.toUInt32 ||| b1.toUInt32 <<< 8 ||| b2.toUInt32 <<< 16 ||| b3.toUInt32 <<< 24 =
      UInt32.ofNat (b0.toNat + 256 * (b1.toNat + 256 * (b2.toNat + 256 * b3.toNat))) := by
  have bound0 := b0.toNat_lt
  have bound1 := b1.toNat_lt
  have bound2 := b2.toNat_lt
  have bound3 := b3.toNat_lt
  have small1 : b1.toNat <<< 8 < 2 ^ 32 := by
    rw [Nat.shiftLeft_eq]
    omega
  have small2 : b2.toNat <<< 16 < 2 ^ 32 := by
    rw [Nat.shiftLeft_eq]
    omega
  have small3 : b3.toNat <<< 24 < 2 ^ 32 := by
    rw [Nat.shiftLeft_eq]
    omega
  refine UInt32.toNat_inj.mp ?_
  simp only [UInt32.toNat_or, UInt32.toNat_shiftLeft, UInt8.toNat_toUInt32, UInt32.toNat_ofNat',
    UInt32.reduceToNat, Nat.reduceMod]
  rw [Nat.mod_eq_of_lt small1, Nat.mod_eq_of_lt small2, Nat.mod_eq_of_lt small3,
    Nat.mod_eq_of_lt (by omega), Nat.or_comm b0.toNat, ← Nat.shiftLeft_add_eq_or_of_lt bound0,
    Nat.or_comm _ (b2.toNat <<< 16), ← Nat.shiftLeft_add_eq_or_of_lt,
    Nat.or_comm _ (b3.toNat <<< 24), ← Nat.shiftLeft_add_eq_or_of_lt]
  all_goals
    simp only [Nat.shiftLeft_eq]
    omega

/-- A word of a list of bytes is the value of four of them. -/
theorem wordAt_eq (bytes : List UInt8) (word : Nat) :
    wordAt bytes word = UInt32.ofNat (wordOf ((bytes.drop (4 * word)).take 4)) := by
  rw [wordOf_take, getD_drop, getD_drop, getD_drop, getD_drop]
  exact join_bytes _ _ _ _

theorem wordBytes_eq (word : UInt32) : wordBytes word = bytesOf 4 word.toNat := by
  have place (shift : UInt32) (some : shift.toNat < 32) :
      (word >>> shift).toUInt8 = UInt8.ofNat (word.toNat / 2 ^ shift.toNat) := by
    refine UInt8.toNat_inj.mp ?_
    rw [UInt32.toNat_toUInt8, UInt32.toNat_shiftRight, UInt8.toNat_ofNat', Nat.mod_eq_of_lt some,
      Nat.shiftRight_eq_div_pow]
  have first : word.toUInt8 = UInt8.ofNat word.toNat := by
    refine UInt8.toNat_inj.mp ?_
    rw [UInt32.toNat_toUInt8, UInt8.toNat_ofNat']
  simp only [wordBytes, bytesOf, first, place 8 (by decide), place 16 (by decide),
    place 24 (by decide), Nat.div_div_eq_div_mul]
  rfl

/-! ### The padding -/

/-- How many blocks the padded message has. -/
def blockCount (length : Nat) : Nat := length / 64 + 1 + if 56 ≤ length % 64 then 1 else 0

/-- Where the length begins, in the last block. -/
theorem pad_zeros (length : Nat) :
    length + 1 + (119 - length % 64) % 64 = 64 * blockCount length - 8 := by
  unfold blockCount
  have division := Nat.div_add_mod length 64
  have bound := Nat.mod_lt length (by decide : 0 < 64)
  split <;> omega

theorem blockCount_pos (length : Nat) : 0 < blockCount length := by
  unfold blockCount
  omega

theorem pad_length (buf : List UInt8) : (padMessage buf).length = 64 * blockCount buf.length := by
  have zeros := pad_zeros buf.length
  have some := blockCount_pos buf.length
  simp only [padMessage, List.length_append, List.length_cons, List.length_replicate, bytesOf_length]
  omega

theorem padded_length (buf : List UInt8) : (padded buf).length = 16 * blockCount buf.length := by
  simp only [padded, blockCount, List.length_set, List.length_map, List.length_range]
  split <;> omega

/-- In front of the length there is the message, with a one behind it and zeros. -/
theorem pad_front (buf : List UInt8) {place : Nat}
    (front : place < 64 * blockCount buf.length - 8) :
    (padMessage buf).getD place 0 = (buf ++ [0x80]).getD place 0 := by
  have split : padMessage buf = (buf ++ [0x80]) ++ (List.replicate ((119 - buf.length % 64) % 64) 0 ++
      bytesOf 8 (8 * buf.length)) := by simp [padMessage]
  rw [split]
  by_cases inside : place < (buf ++ [0x80]).length
  · exact List.getD_append _ _ _ _ inside
  · rw [List.getD_append_right _ _ _ _ (Nat.not_lt.mp inside),
      List.getD_eq_default (buf ++ [0x80]) _ (Nat.not_lt.mp inside)]
    have zeros := pad_zeros buf.length
    rw [List.length_append, List.length_singleton] at inside ⊢
    rw [List.getD_append _ _ _ _ (by rw [List.length_replicate]; omega)]
    exact List.getD_replicate _ (by omega)

/-- The length in bits, behind everything else. -/
theorem pad_back (buf : List UInt8) :
    (padMessage buf).drop (64 * blockCount buf.length - 8) = bytesOf 8 (8 * buf.length) := by
  have split : padMessage buf = (buf ++ 0x80 :: List.replicate ((119 - buf.length % 64) % 64) 0) ++
      bytesOf 8 (8 * buf.length) := by simp [padMessage]
  rw [split]
  refine List.drop_left' ?_
  rw [List.length_append, List.length_cons, List.length_replicate, ← pad_zeros]
  omega

/-- The value of four bytes is known by the bytes. -/
theorem wordOf_congr {bytes other : List UInt8} {word : Nat}
    (same : ∀ place < 4, bytes.getD (4 * word + place) 0 = other.getD (4 * word + place) 0) :
    wordOf ((bytes.drop (4 * word)).take 4) = wordOf ((other.drop (4 * word)).take 4) := by
  simp only [wordOf_take, getD_drop]
  rw [same 0 (by decide), same 1 (by decide), same 2 (by decide), same 3 (by decide)]

/-- The words of `MD5bin` are those of the padded message. -/
theorem padded_getD {buf : List UInt8} (short : buf.length < 2 ^ 29) {word : Nat}
    (inside : word < 16 * blockCount buf.length) :
    (padded buf).getD word 0 =
      UInt32.ofNat (wordOf (((padMessage buf).drop (4 * word)).take 4)) := by
  have some := blockCount_pos buf.length
  have zeros := pad_zeros buf.length
  have count : (padded buf).length = 16 * blockCount buf.length := padded_length buf
  have words : (padded buf) = ((List.range (16 * blockCount buf.length)).map
      (wordAt (buf ++ [0x80]))).set (16 * blockCount buf.length - 2)
        (UInt32.ofNat (buf.length * 8)) := by
    have length : (buf.length / 64 + 1) * 16 + (if 56 ≤ buf.length % 64 then 16 else 0) =
        16 * blockCount buf.length := by
      unfold blockCount
      split <;> omega
    simp only [padded, length]
  have bits : bytesOf 8 (8 * buf.length) = bytesOf 4 (8 * buf.length) ++ [0, 0, 0, 0] := by
    have high : 8 * buf.length / 256 / 256 / 256 / 256 = 0 := by omega
    simp [bytesOf, high]
  rw [words, List.getD_eq_getElem?_getD, List.getElem?_set]
  by_cases low : 16 * blockCount buf.length - 2 = word
  · have bound : word < ((List.range (16 * blockCount buf.length)).map
        (wordAt (buf ++ [0x80]))).length := by simpa using inside
    have place : 4 * word = 64 * blockCount buf.length - 8 := by omega
    rw [if_pos low, if_pos (low ▸ bound), place, pad_back, bits,
      List.take_left' (bytesOf_length 4 _), wordOf_bytesOf, Option.getD_some, Nat.mul_comm]
    refine UInt32.toNat_inj.mp ?_
    rw [UInt32.toNat_ofNat', UInt32.toNat_ofNat']
    omega
  · rw [if_neg low, List.getElem?_map, List.getElem?_range inside, Option.map_some,
      Option.getD_some, wordAt_eq]
    by_cases front : word < 16 * blockCount buf.length - 2
    · refine congrArg UInt32.ofNat (wordOf_congr fun place few => ?_)
      exact (pad_front buf (by omega)).symm
    · have last : 4 * word = 64 * blockCount buf.length - 8 + 4 := by omega
      have behind : (buf ++ [0x80]).drop (4 * word) = [] := by
        refine List.drop_eq_nil_of_le ?_
        rw [List.length_append, List.length_singleton]
        omega
      rw [behind, last, ← List.drop_drop, pad_back, bits, List.drop_left' (bytesOf_length 4 _)]
      rfl

theorem blocks_eq (times : Nat) (words : List UInt32) :
    blocks times words = (List.range times).map fun block => (words.drop (16 * block)).take 16 := by
  induction times generalizing words with
  | zero => rfl
  | succ times ih =>
    rw [blocks, ih, List.range_succ_eq_map, List.map_cons, List.map_map]
    refine congrArg₂ List.cons rfl (List.map_congr_left fun block _ => ?_)
    rw [List.drop_drop, Function.comp_apply, Nat.mul_succ, Nat.add_comm]

theorem foldl_md5Block {times : List Nat} {block : Nat → List UInt32} {words : Nat → Nat → UInt32}
    (same : ∀ time ∈ times, ∀ word < 16, (block time).getD word 0 = words time word)
    (regs : Registers) :
    ((times.map block).foldl md5Block regs).state = (times.map words).foldl process regs.state := by
  induction times generalizing regs with
  | nil => rfl
  | cons time times ih =>
    have first : (md5Block regs (block time)).state = process regs.state (words time) := by
      rw [md5Block_eq]
      exact process_congr _ (same time List.mem_cons_self)
    rw [List.map_cons, List.map_cons, List.foldl_cons, List.foldl_cons, ← first]
    exact ih (fun other member => same other (List.mem_cons_of_mem time member)) _

/-- `MD5bin` returns the digest of a message of less than 2^32 bits. -/
theorem md5Bin_eq {buf : List UInt8} (short : buf.length < 2 ^ 29) : md5Bin buf = md5 buf := by
  have words : ∀ time ∈ List.range (blockCount buf.length), ∀ word < 16,
      (((padded buf).drop (16 * time)).take 16).getD word 0 =
        blockWord (padMessage buf) time word := by
    intro time member word few
    have inside := List.mem_range.mp member
    rw [List.getD_eq_getElem?_getD, List.getElem?_take_of_lt few, List.getElem?_drop,
      ← List.getD_eq_getElem?_getD, padded_getD short (by omega), blockWord, Nat.mul_add,
      ← Nat.mul_assoc]
  have states := foldl_md5Block words ⟨0x67452301, 0xefcdab89, 0x98badcfe, 0x10325476⟩
  have count : (padded buf).length / 16 = blockCount buf.length := by
    rw [padded_length]
    exact Nat.mul_div_cancel_left _ (by decide)
  have count' : (padMessage buf).length / 64 = blockCount buf.length := by
    rw [pad_length]
    exact Nat.mul_div_cancel_left _ (by decide)
  have start : initial =
      (⟨0x67452301, 0xefcdab89, 0x98badcfe, 0x10325476⟩ : Registers).state := rfl
  simp only [md5Bin, md5, count, count', blocks_eq]
  rw [start, ← states]
  simp [wordBytes_eq, Registers.state]

/-- `MD5bin` and the digest that is driven by the sine table are one function. -/
theorem md5Bin_digests (buf : List UInt8) (short : buf.length < 2 ^ 29) :
    md5Bin buf = md5 buf ∧ (md5 buf).length = 16 :=
  ⟨md5Bin_eq short, by simp [md5]⟩

/-- The digest of three letters. -/
theorem abc_digests : md5 (ascii "abc") = [0x90, 0x01, 0x50, 0x98, 0x3c, 0xd2, 0x4f, 0xb0, 0xd6,
    0x96, 0x3f, 0x7d, 0x28, 0xe1, 0x7f, 0x72] := by
  rw [← (md5Bin_digests (ascii "abc") (by decide)).1]
  decide +kernel

end QNXStuff.QXMail
