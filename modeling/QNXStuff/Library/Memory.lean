import Mathlib.Data.List.GetD
import Mathlib.Tactic.Ring

/-! Blocks of bytes, little-endian words in them, and files as the C library
shows them: a block is addressed by position, a file also knows its length. -/

namespace QNXStuff.Memory

/-- A block of memory, addressed from its start. -/
abbrev Block := Nat → UInt8

/-- The `count` bytes of a block from `start`. -/
def readBytes (block : Block) (start count : Nat) : List UInt8 :=
  (List.range count).map fun position => block (start + position)

/-- `memcpy( block + start, bytes, ... )` -/
def writeBytes (block : Block) (start : Nat) (bytes : List UInt8) : Block := fun position =>
  if start ≤ position ∧ position < start + bytes.length then bytes.getD (position - start) 0
  else block position

@[simp] theorem readBytes_length (block : Block) (start count : Nat) :
    (readBytes block start count).length = count := by simp [readBytes]

theorem readBytes_getD (block : Block) {start count position : Nat} (inside : position < count) :
    (readBytes block start count).getD position 0 = block (start + position) := by
  simp [readBytes, List.getD_eq_getElem?_getD, List.getElem?_range inside]

/-- Two blocks that agree on a range have the same bytes there. -/
theorem readBytes_congr {block other : Block} {start start' count : Nat}
    (same : ∀ position < count, block (start + position) = other (start' + position)) :
    readBytes block start count = readBytes other start' count :=
  List.map_congr_left fun position member => same position (List.mem_range.mp member)

theorem writeBytes_outside {block : Block} {start position : Nat} {bytes : List UInt8}
    (outside : position < start ∨ start + bytes.length ≤ position) :
    writeBytes block start bytes position = block position :=
  if_neg (by omega)

theorem readBytes_writeBytes (block : Block) (start : Nat) (bytes : List UInt8) :
    readBytes (writeBytes block start bytes) start bytes.length = bytes := by
  refine List.ext_getElem (by simp) fun position _ inside => ?_
  simp [readBytes, writeBytes, inside, List.getD_eq_getElem?_getD]

theorem readBytes_writeBytes_outside {block : Block} {start start' count : Nat}
    {bytes : List UInt8} (outside : start' + count ≤ start ∨ start + bytes.length ≤ start') :
    readBytes (writeBytes block start bytes) start' count = readBytes block start' count :=
  readBytes_congr fun _ _ => writeBytes_outside (by omega)

theorem readBytes_append (block : Block) (start first second : Nat) :
    readBytes block start (first + second) =
      readBytes block start first ++ readBytes block (start + first) second := by
  simp [readBytes, List.range_add, Nat.add_assoc]

theorem readBytes_succ (block : Block) (start count : Nat) :
    readBytes block start (count + 1) = block start :: readBytes block (start + 1) count := by
  rw [Nat.add_comm, readBytes_append]
  rfl

/-- What lies there is one list behind another. -/
theorem readBytes_eq_append {block : Block} {start : Nat} {first second : List UInt8} :
    readBytes block start (first ++ second).length = first ++ second ↔
      readBytes block start first.length = first ∧
        readBytes block (start + first.length) second.length = second := by
  rw [List.length_append, readBytes_append]
  constructor
  · intro same
    exact List.append_inj same (readBytes_length _ _ _)
  · rintro ⟨same, same'⟩
    rw [same, same']

theorem readBytes_eq_cons {block : Block} {start : Nat} {byte : UInt8} {rest : List UInt8} :
    readBytes block start (byte :: rest).length = byte :: rest ↔
      block start = byte ∧ readBytes block (start + 1) rest.length = rest := by
  rw [List.length_cons, readBytes_succ, List.cons_eq_cons]

theorem writeBytes_append (block : Block) (start : Nat) (first second : List UInt8) :
    writeBytes (writeBytes block start first) (start + first.length) second =
      writeBytes block start (first ++ second) := by
  funext position
  simp only [writeBytes, List.length_append]
  by_cases behind : start + first.length ≤ position
  · have later : position - start - first.length = position - (start + first.length) := by omega
    rw [List.getD_append_right _ _ _ _ (by omega), later]
    by_cases inside : position < start + first.length + second.length
    · rw [if_pos ⟨behind, inside⟩, if_pos (by omega)]
    · rw [if_neg (fun both => inside both.2), if_neg (fun both => by omega),
        if_neg (fun both => by omega)]
  · rw [if_neg (fun both => behind both.1)]
    by_cases inside : start ≤ position
    · rw [if_pos (by omega), if_pos (by omega), List.getD_append _ _ _ _ (by omega)]
    · rw [if_neg (fun both => inside both.1), if_neg (fun both => inside both.1)]

theorem writeBytes_comm (block : Block) {start start' : Nat} {bytes bytes' : List UInt8}
    (apart : start + bytes.length ≤ start' ∨ start' + bytes'.length ≤ start) :
    writeBytes (writeBytes block start bytes) start' bytes' =
      writeBytes (writeBytes block start' bytes') start bytes := by
  funext position
  by_cases inside : start ≤ position ∧ position < start + bytes.length
  · rw [writeBytes_outside (by omega), writeBytes, writeBytes, if_pos inside, if_pos inside]
  · rw [writeBytes_outside (show position < start ∨ start + bytes.length ≤ position by omega)]
    simp only [writeBytes, if_neg inside]

theorem writeBytes_nil (block : Block) (start : Nat) : writeBytes block start [] = block := by
  funext position
  exact writeBytes_outside (Nat.lt_or_ge position start)

theorem writeBytes_over (block : Block) (start : Nat) {old new : List UInt8}
    (longer : old.length ≤ new.length) :
    writeBytes (writeBytes block start old) start new = writeBytes block start new := by
  funext position
  simp only [writeBytes]
  by_cases inside : start ≤ position ∧ position < start + new.length
  · rw [if_pos inside, if_pos inside]
  · rw [if_neg inside, if_neg inside, if_neg (by omega)]

/-- The unsigned value of little-endian bytes. -/
def wordOf : List UInt8 → Nat
  | [] => 0
  | byte :: rest => byte.toNat + 256 * wordOf rest

/-- `width` little-endian bytes of a value, the rest of it cut off. -/
def bytesOf : (width value : Nat) → List UInt8
  | 0, _ => []
  | width + 1, value => UInt8.ofNat value :: bytesOf width (value / 256)

@[simp] theorem bytesOf_length (width value : Nat) : (bytesOf width value).length = width := by
  induction width generalizing value with
  | zero => rfl
  | succ width ih => simp [bytesOf, ih]

theorem wordOf_bytesOf (width value : Nat) :
    wordOf (bytesOf width value) = value % 256 ^ width := by
  induction width generalizing value with
  | zero => simp [bytesOf, wordOf, Nat.mod_one]
  | succ width ih =>
    have split : value % (256 * 256 ^ width) = value % 256 + 256 * (value / 256 % 256 ^ width) :=
      Nat.mod_mul
    simp [bytesOf, wordOf, ih, Nat.pow_succ', split]

theorem bytesOf_mod (width value : Nat) : bytesOf width (value % 256 ^ width) = bytesOf width value := by
  induction width generalizing value with
  | zero => rfl
  | succ width ih =>
    have low : UInt8.ofNat (value % 256 ^ (width + 1)) = UInt8.ofNat value := by
      rw [← UInt8.toNat_inj]
      simp only [UInt8.toNat_ofNat', Nat.pow_succ]
      exact Nat.mod_mod_of_dvd value (Dvd.intro_left _ rfl)
    have high : value % 256 ^ (width + 1) / 256 = value / 256 % 256 ^ width := by
      rw [Nat.pow_succ, Nat.mul_comm, Nat.mod_mul_right_div_self]
    rw [bytesOf, bytesOf, low, high, ih]

theorem wordOf_lt (bytes : List UInt8) : wordOf bytes < 256 ^ bytes.length := by
  induction bytes with
  | nil => decide
  | cons byte rest ih =>
    have small := byte.toNat_lt
    rw [wordOf, List.length_cons, Nat.pow_succ]
    omega

theorem bytesOf_wordOf (bytes : List UInt8) : bytesOf bytes.length (wordOf bytes) = bytes := by
  induction bytes with
  | nil => rfl
  | cons byte rest ih =>
    have small := byte.toNat_lt
    have low : UInt8.ofNat (byte.toNat + 256 * wordOf rest) = byte := by
      rw [← UInt8.toNat_inj, UInt8.toNat_ofNat']
      omega
    have high : (byte.toNat + 256 * wordOf rest) / 256 = wordOf rest := by omega
    rw [List.length_cons, wordOf, bytesOf, low, high, ih]

structure File where
  size : Nat
  byte : Block

namespace File

/-- `write` of `count` bytes at a position; a gap behind the old end reads as zeros. -/
def pwrite (file : File) (start : Nat) (bytes : Block) (count : Nat) : File where
  size := max file.size (start + count)
  byte position :=
    if start ≤ position ∧ position < start + count then bytes (position - start)
    else if position < file.size then file.byte position
    else 0

/-- `read` of `count` bytes into a buffer: what lies behind the end of the file
leaves the buffer as it was. -/
def pread (file : File) (start : Nat) (buffer : Block) (count : Nat) : Block := fun position =>
  if position < count ∧ start + position < file.size then file.byte (start + position)
  else buffer position

theorem pwrite_inside {file : File} {start count position : Nat} {bytes : Block}
    (inside : position < count) :
    (file.pwrite start bytes count).byte (start + position) = bytes position := by
  have range : start ≤ start + position ∧ start + position < start + count := by omega
  simp [pwrite, range]

theorem pwrite_outside {file : File} {start count position : Nat} {bytes : Block}
    (known : position < file.size) (outside : position < start ∨ start + count ≤ position) :
    (file.pwrite start bytes count).byte position = file.byte position := by
  have range : ¬ (start ≤ position ∧ position < start + count) := by omega
  simp [pwrite, range, known]

theorem pread_inside {file : File} {start count position : Nat} {buffer : Block}
    (inside : position < count) (known : start + position < file.size) :
    file.pread start buffer count position = file.byte (start + position) :=
  if_pos ⟨inside, known⟩

end File

end QNXStuff.Memory
