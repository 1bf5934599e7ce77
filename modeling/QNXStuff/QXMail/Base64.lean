import Mathlib.Tactic.IntervalCases
import QNXStuff.Library.Memory
import QNXStuff.QXMail.Text

/-! Base64 text, written and read in memory: what is encoded is decoded again, also in place. -/

namespace QNXStuff.QXMail

open Memory

/-! ### Encoding -/

def basis64 : List UInt8 :=
  ascii "ABCDEFGHIJKLMNOPQRSTUVWXYZabcdefghijklmnopqrstuvwxyz0123456789+/" ++ List.replicate 139 63

def char (index : UInt8) : UInt8 := basis64.getD index.toNat 0

/-- The characters that `encode64` writes. -/
def encodeGroups : List UInt8 → List UInt8
  | b0 :: b1 :: b2 :: rest =>
    char (b0 >>> 2) :: char (((b0 <<< (4 : UInt8)) &&& (0x30 : UInt8)) ||| (b1 >>> 4)) ::
      char (((b1 <<< (2 : UInt8)) &&& (0x3c : UInt8)) ||| (b2 >>> 6)) ::
      char (b2 &&& 0x3f) :: encodeGroups rest
  | [b0, b1] =>
    [char (b0 >>> 2), char (((b0 <<< (4 : UInt8)) &&& (0x30 : UInt8)) ||| (b1 >>> 4)),
      char ((b1 <<< (2 : UInt8)) &&& (0x3c : UInt8)), pad]
  | [b0] => [char (b0 >>> 2), char ((b0 <<< (4 : UInt8)) &&& (0x30 : UInt8)), pad, pad]
  | [] => []

inductive EncodeStatus
  | ok
  | bufover
  deriving DecidableEq

/-- `encode64`: what it returns, `outlen` and the memory. -/
def encode64 (input : List UInt8) (memory : Block) (output outmax : Nat) :
    EncodeStatus × Nat × Block :=
  let olen := (input.length + 2) % 2 ^ 32 / 3 * 4 % 2 ^ 32
  if outmax < olen then (.bufover, olen, memory)
  else
    let text := encodeGroups input
    let written := writeBytes memory output text
    (.ok, olen, if olen < outmax then writeBytes written (output + text.length) [0] else written)

/-! ### Decoding -/

/-- What `decode64` makes of four characters. -/
def decodeGroup (c1 c2 c3 c4 : UInt8) : Option (List UInt8) := do
  let v1 ← char64 c1
  let v2 ← char64 c2
  let v3 ← if c3 = pad then some 0 else char64 c3
  let v4 ← if c4 = pad then some 0 else char64 c4
  let first : UInt8 := (v1 <<< 2) ||| (v2 >>> 4)
  let second : UInt8 := ((v2 <<< (4 : UInt8)) &&& (0xf0 : UInt8)) ||| (v3 >>> 2)
  let third : UInt8 := ((v3 <<< (6 : UInt8)) &&& (0xc0 : UInt8)) ||| v4
  if c3 = pad then some [first]
  else if c4 = pad then some [first, second]
  else some [first, second, third]

/-- The loop of `decode64` in memory: what is left there and the end of what it wrote. -/
def decodeLoop : (groups : Nat) → (memory : Block) → (input output : Nat) → Option (Block × Nat)
  | 0, memory, _, output => some (memory, output)
  | groups + 1, memory, input, output => do
    let group ← decodeGroup (memory input) (memory (input + 1)) (memory (input + 2))
      (memory (input + 3))
    decodeLoop groups (writeBytes memory output group) (input + 4) (output + group.length)

/-- Where the text begins and how long it is, behind `"+ "`. -/
def skipPlus (memory : Block) (input inlen : Nat) : Nat × Nat :=
  if 2 ≤ inlen ∧ memory input = 43 ∧ memory (input + 1) = 32 then (input + 2, inlen - 2)
  else (input, inlen)

/-- `decode64` in memory: what is left there and `outlen`; `none` is `B64_FAIL`. -/
def decode64At (memory : Block) (input inlen output : Nat) : Option (Block × Nat) :=
  let (input, inlen) := skipPlus memory input inlen
  if memory input = 0 then none
  else do
    let (memory, past) ← decodeLoop (inlen / 4) memory input output
    some (writeBytes memory past [0], past - output)

/-! ### The bits of a group -/

theorem first_bits (b0 b1 : UInt8) :
    ((b0 >>> 2) <<< 2) ||| ((((b0 <<< (4 : UInt8)) &&& (0x30 : UInt8)) ||| (b1 >>> 4)) >>> 4) =
      b0 := by
  refine UInt8.eq_of_toBitVec_eq (BitVec.eq_of_getLsbD_eq fun bit inside => ?_)
  interval_cases bit <;> simp

theorem second_bits (b0 b1 b2 : UInt8) :
    (((((b0 <<< (4 : UInt8)) &&& (0x30 : UInt8)) ||| (b1 >>> 4)) <<< (4 : UInt8)) &&&
        (0xf0 : UInt8)) |||
      ((((b1 <<< (2 : UInt8)) &&& (0x3c : UInt8)) ||| (b2 >>> 6)) >>> 2) = b1 := by
  refine UInt8.eq_of_toBitVec_eq (BitVec.eq_of_getLsbD_eq fun bit inside => ?_)
  interval_cases bit <;> simp

theorem third_bits (b1 b2 : UInt8) :
    (((((b1 <<< (2 : UInt8)) &&& (0x3c : UInt8)) ||| (b2 >>> 6)) <<< (6 : UInt8)) &&&
        (0xc0 : UInt8)) ||| (b2 &&& 0x3f) = b2 := by
  refine UInt8.eq_of_toBitVec_eq (BitVec.eq_of_getLsbD_eq fun bit inside => ?_)
  interval_cases bit <;> simp

theorem shifted_lt {byte : UInt8} {n : Nat} (enough : 2 ≤ n) (few : n < 8) :
    (byte >>> UInt8.ofNat n).toNat < 64 := by
  have bound := byte.toNat_lt
  have small : (UInt8.ofNat n).toNat % 8 = n := by
    rw [UInt8.toNat_ofNat']
    omega
  rw [UInt8.toNat_shiftRight, small, Nat.shiftRight_eq_div_pow]
  calc
    byte.toNat / 2 ^ n ≤ byte.toNat / 2 ^ 2 :=
      Nat.div_le_div_left (Nat.pow_le_pow_right (by decide) enough) (by decide)
    _ < 64 := by omega

theorem masked_lt (byte : UInt8) {mask : UInt8} (small : mask.toNat < 64) :
    (byte &&& mask).toNat < 64 := by
  rw [UInt8.toNat_and]
  exact lt_of_le_of_lt Nat.and_le_right small

theorem joined_lt {first second : UInt8} (small : first.toNat < 64) (small' : second.toNat < 64) :
    (first ||| second).toNat < 64 := by
  rw [UInt8.toNat_or]
  exact Nat.or_lt_two_pow (n := 6) small small'

/-- A character of the alphabet is read as its index. -/
theorem char64_char {index : UInt8} (small : index.toNat < 64) :
    char64 (char index) = some index ∧ char index ≠ pad ∧ char index ≠ 0 ∧ char index ≠ 32 := by
  have all : ∀ value < 64, char64 (char (UInt8.ofNat value)) = some (UInt8.ofNat value) ∧
      char (UInt8.ofNat value) ≠ pad ∧ char (UInt8.ofNat value) ≠ 0 ∧
      char (UInt8.ofNat value) ≠ 32 := by
    decide +kernel
  have this := all index.toNat small
  rwa [UInt8.ofNat_toNat] at this

/-! ### Groups -/

/-- The loop takes the group off the text. -/
theorem decodeGroups_cons (groups : Nat) (c1 c2 c3 c4 : UInt8) (rest : List UInt8) :
    decodeGroups (groups + 1) (c1 :: c2 :: c3 :: c4 :: rest) =
      (decodeGroup c1 c2 c3 c4).bind fun group =>
        (decodeGroups groups rest).bind fun later => some (group ++ later) := by
  simp only [decodeGroups, decodeGroup, Option.bind_eq_bind]
  cases char64 c1 with
  | none => rfl
  | some v1 =>
    cases char64 c2 with
    | none => rfl
    | some v2 =>
      simp only [Option.bind_some]
      by_cases one : c3 = pad
      · simp only [if_pos one]
        by_cases two : c4 = pad
        · simp only [if_pos two, Option.bind_some, List.cons_append, List.nil_append]
        · simp only [if_neg two]
          cases char64 c4 <;> rfl
      · simp only [if_neg one]
        cases char64 c3 with
        | none => rfl
        | some v3 =>
          by_cases two : c4 = pad
          · simp only [if_pos two, Option.bind_some, List.cons_append, List.nil_append]
          · simp only [if_neg two, Option.bind_some]
            cases char64 c4 <;> rfl

theorem decodeGroup_length {c1 c2 c3 c4 : UInt8} {group : List UInt8}
    (decoded : decodeGroup c1 c2 c3 c4 = some group) : group.length ≤ 3 := by
  unfold decodeGroup at decoded
  by_cases one : c3 = pad
  · simp only [if_pos one, Option.bind_eq_bind, Option.bind_eq_some_iff] at decoded
    obtain ⟨v1, _, v2, _, decoded⟩ := decoded
    by_cases two : c4 = pad
    · simp only [if_pos two] at decoded
      obtain ⟨_, _, decoded⟩ := decoded
      rw [← Option.some.inj decoded]
      exact Nat.le_add_left 1 2
    · simp only [if_neg two] at decoded
      obtain ⟨_, _, decoded⟩ := decoded
      obtain ⟨_, _, decoded⟩ := Option.bind_eq_some_iff.mp decoded
      rw [← Option.some.inj decoded]
      exact Nat.le_add_left 1 2
  · simp only [if_neg one, Option.bind_eq_bind, Option.bind_eq_some_iff] at decoded
    obtain ⟨v1, _, v2, _, v3, _, decoded⟩ := decoded
    by_cases two : c4 = pad
    · simp only [if_pos two, Option.bind_some] at decoded
      rw [← Option.some.inj decoded]
      exact Nat.le_succ 2
    · simp only [if_neg two, Option.bind_eq_some_iff] at decoded
      obtain ⟨v4, _, decoded⟩ := decoded
      rw [← Option.some.inj decoded]
      exact le_rfl

theorem decodeGroup_char {v1 v2 v3 v4 : UInt8} (small1 : v1.toNat < 64) (small2 : v2.toNat < 64)
    (small3 : v3.toNat < 64) (small4 : v4.toNat < 64) :
    decodeGroup (char v1) (char v2) (char v3) (char v4) =
        some [(v1 <<< 2) ||| (v2 >>> 4), ((v2 <<< (4 : UInt8)) &&& (0xf0 : UInt8)) ||| (v3 >>> 2),
          ((v3 <<< (6 : UInt8)) &&& (0xc0 : UInt8)) ||| v4] ∧
      decodeGroup (char v1) (char v2) (char v3) pad =
        some [(v1 <<< 2) ||| (v2 >>> 4),
          ((v2 <<< (4 : UInt8)) &&& (0xf0 : UInt8)) ||| (v3 >>> 2)] ∧
      decodeGroup (char v1) (char v2) pad pad = some [(v1 <<< 2) ||| (v2 >>> 4)] := by
  obtain ⟨read1, -⟩ := char64_char small1
  obtain ⟨read2, -⟩ := char64_char small2
  obtain ⟨read3, pad3, -⟩ := char64_char small3
  obtain ⟨read4, pad4, -⟩ := char64_char small4
  refine ⟨?_, ?_, ?_⟩
  · simp [decodeGroup, read1, read2, read3, read4, pad3, pad4]
  · simp [decodeGroup, read1, read2, read3, pad3]
  · simp [decodeGroup, read1, read2]

/-- The indices of a group have six bits. -/
theorem indices_small (b0 b1 b2 : UInt8) :
    (b0 >>> 2).toNat < 64 ∧
      (((b0 <<< (4 : UInt8)) &&& (0x30 : UInt8)) ||| (b1 >>> 4)).toNat < 64 ∧
      (((b1 <<< (2 : UInt8)) &&& (0x3c : UInt8)) ||| (b2 >>> 6)).toNat < 64 ∧
      (b2 &&& 0x3f).toNat < 64 := by
  refine ⟨shifted_lt (n := 2) (by decide) (by decide), ?_, ?_, masked_lt _ (by decide)⟩
  · exact joined_lt (masked_lt _ (by decide)) (shifted_lt (n := 4) (by decide) (by decide))
  · exact joined_lt (masked_lt _ (by decide)) (shifted_lt (n := 6) (by decide) (by decide))

theorem decodeGroups_encodeGroups (bytes : List UInt8) :
    decodeGroups ((bytes.length + 2) / 3) (encodeGroups bytes) = some bytes := by
  induction bytes using encodeGroups.induct with
  | case1 b0 b1 b2 rest ih =>
    have count : ((b0 :: b1 :: b2 :: rest).length + 2) / 3 = (rest.length + 2) / 3 + 1 := by
      simp only [List.length_cons]
      omega
    obtain ⟨small1, small2, small3, small4⟩ := indices_small b0 b1 b2
    rw [count, encodeGroups, decodeGroups_cons, (decodeGroup_char small1 small2 small3 small4).1,
      first_bits, second_bits, third_bits, ih]
    rfl
  | case2 b0 b1 =>
    obtain ⟨small1, small2, small3, small4⟩ := indices_small b0 b1 0
    have zero : (b1 <<< (2 : UInt8) &&& (0x3c : UInt8)) ||| ((0 : UInt8) >>> 6) =
        (b1 <<< (2 : UInt8)) &&& (0x3c : UInt8) := UInt8.or_zero
    have second := second_bits b0 b1 0
    have group := (decodeGroup_char small1 small2 small3 small4).2.1
    rw [zero] at second group
    have count : ([b0, b1].length + 2) / 3 = 0 + 1 := by rw [List.length_cons, List.length_singleton]
    rw [count, encodeGroups, decodeGroups_cons, group, first_bits, second]
    rfl
  | case3 b0 =>
    obtain ⟨small1, small2, small3, small4⟩ := indices_small b0 0 0
    have zero : (b0 <<< (4 : UInt8) &&& (0x30 : UInt8)) ||| ((0 : UInt8) >>> 4) =
        (b0 <<< (4 : UInt8)) &&& (0x30 : UInt8) := UInt8.or_zero
    have first := first_bits b0 0
    have group := (decodeGroup_char small1 small2 small3 small4).2.2
    rw [zero] at first group
    have count : ([b0].length + 2) / 3 = 0 + 1 := by rw [List.length_singleton]
    rw [count, encodeGroups, decodeGroups_cons, group, first]
    rfl
  | case4 => rfl

theorem encodeGroups_length (bytes : List UInt8) :
    (encodeGroups bytes).length = 4 * ((bytes.length + 2) / 3) := by
  induction bytes using encodeGroups.induct with
  | case1 b0 b1 b2 rest ih =>
    simp only [encodeGroups, List.length_cons, ih]
    omega
  | case2 b0 b1 => simp [encodeGroups]
  | case3 b0 => simp [encodeGroups]
  | case4 => rfl

/-- A text begins with two characters of the alphabet. -/
theorem encodeGroups_head {bytes : List UInt8} (some : bytes ≠ []) :
    (encodeGroups bytes).getD 0 0 ≠ 0 ∧ (encodeGroups bytes).getD 1 0 ≠ 32 := by
  have plain (first second third : UInt8) := indices_small first second third
  match bytes with
  | [] => exact absurd rfl some
  | [b0] =>
    obtain ⟨small1, -⟩ := plain b0 0 0
    exact ⟨(char64_char small1).2.2.1, (char64_char (masked_lt _ (by decide))).2.2.2⟩
  | [b0, b1] =>
    obtain ⟨small1, small2, -⟩ := plain b0 b1 0
    exact ⟨(char64_char small1).2.2.1, (char64_char small2).2.2.2⟩
  | b0 :: b1 :: b2 :: rest =>
    obtain ⟨small1, small2, -⟩ := plain b0 b1 b2
    exact ⟨(char64_char small1).2.2.1, (char64_char small2).2.2.2⟩

/-! ### In memory -/

theorem readBytes_four (memory : Block) (input groups : Nat) :
    readBytes memory input (4 * (groups + 1)) = memory input :: memory (input + 1) ::
      memory (input + 2) :: memory (input + 3) :: readBytes memory (input + 4) (4 * groups) := by
  have split : List.range (4 * (groups + 1)) =
      0 :: 1 :: 2 :: 3 :: (List.range (4 * groups)).map (4 + ·) := by
    rw [Nat.mul_succ, Nat.add_comm, List.range_add]
    rfl
  simp only [readBytes, split, List.map_cons, List.map_map, Nat.add_zero]
  congr 4
  refine List.map_congr_left fun place _ => ?_
  rw [Function.comp_apply, Nat.add_assoc]

/-- The loop reads every group before it is written over: what it leaves is what the groups of the
text that it found are decoded to. -/
theorem decodeLoop_eq (groups : Nat) {memory : Block} {input output : Nat}
    (apart : output ≤ input ∨ input + 4 * groups ≤ output) :
    decodeLoop groups memory input output =
      (decodeGroups groups (readBytes memory input (4 * groups))).map fun bytes =>
        (writeBytes memory output bytes, output + bytes.length) := by
  induction groups generalizing memory input output with
  | zero =>
    have nothing : writeBytes memory output [] = memory := by
      funext position
      exact writeBytes_outside (by simp; omega)
    rw [decodeLoop, decodeGroups, Option.map_some, nothing]
    rfl
  | succ groups ih =>
    rw [decodeLoop, readBytes_four, decodeGroups_cons, Option.bind_eq_bind]
    cases decoded : decodeGroup (memory input) (memory (input + 1)) (memory (input + 2))
      (memory (input + 3)) with
    | none => rfl
    | some group =>
      have short := decodeGroup_length decoded
      have kept : readBytes (writeBytes memory output group) (input + 4) (4 * groups) =
          readBytes memory (input + 4) (4 * groups) :=
        readBytes_writeBytes_outside (by omega)
      simp only [Option.bind_some]
      rw [ih (by omega), kept]
      cases decodeGroups groups (readBytes memory (input + 4) (4 * groups)) with
      | none => rfl
      | some later =>
        simp only [Option.map_some, Option.bind_some, writeBytes_append, List.length_append,
          Nat.add_assoc]

/-- A text with a character in a group that is neither in the alphabet nor `'='` is not decoded. -/
theorem decodeGroups_fails {groups place : Nat} {text : List UInt8} (inside : place < 4 * groups)
    (unknown : char64 (text.getD place 0) = none) (filled : text.getD place 0 ≠ pad) :
    decodeGroups groups text = none := by
  induction groups generalizing place text with
  | zero => omega
  | succ groups ih =>
    match text with
    | [] | [_] | [_, _] | [_, _, _] => rfl
    | c1 :: c2 :: c3 :: c4 :: rest =>
      rw [decodeGroups_cons, Option.bind_eq_none_iff]
      intro group decoded
      match place with
      | 0 | 1 | 2 | 3 =>
        simp only [List.getD_cons_zero, List.getD_cons_succ] at unknown filled
        simp [decodeGroup, unknown, filled] at decoded
      | place + 4 =>
        have later : decodeGroups groups rest = none := ih (by omega) unknown filled
        rw [later]
        rfl

/-- What `decode64` makes of a text that is not overtaken. -/
theorem decode64At_eq {memory : Block} {input inlen output start size : Nat}
    (skipped : skipPlus memory input inlen = (start, size))
    (apart : output ≤ start ∨ start + 4 * (size / 4) ≤ output) (text : memory start ≠ 0) :
    decode64At memory input inlen output =
      (decodeGroups (size / 4) (readBytes memory start (4 * (size / 4)))).map fun bytes =>
        (writeBytes memory output (bytes ++ [0]), bytes.length) := by
  simp only [decode64At, skipped, if_neg text, decodeLoop_eq _ apart, Option.bind_eq_bind]
  cases decodeGroups (size / 4) (readBytes memory start (4 * (size / 4))) with
  | none => rfl
  | some bytes =>
    simp only [Option.map_some, Option.bind_some, writeBytes_append, Nat.add_sub_cancel_left]

/-- What lies behind the groups is not looked at. -/
theorem decodeGroups_append (groups : Nat) {text : List UInt8} (whole : 4 * groups ≤ text.length)
    (rest : List UInt8) : decodeGroups groups (text ++ rest) = decodeGroups groups text := by
  induction groups generalizing text with
  | zero => rfl
  | succ groups ih =>
    match text with
    | [] | [_] | [_, _] | [_, _, _] =>
      simp only [List.length_cons, List.length_nil] at whole
      omega
    | c1 :: c2 :: c3 :: c4 :: text =>
      simp only [List.cons_append, decodeGroups_cons]
      rw [ih (by simp only [List.length_cons] at whole; omega)]

theorem decodeGroups_readBytes {groups n : Nat} (whole : 4 * groups ≤ n) (memory : Block)
    (start : Nat) : decodeGroups groups (readBytes memory start n) =
      decodeGroups groups (readBytes memory start (4 * groups)) := by
  obtain ⟨rest, rfl⟩ := Nat.exists_eq_add_of_le whole
  rw [readBytes_append, decodeGroups_append groups (by rw [readBytes_length])]

/-- In memory `decode64` does what it does with the string of a session. -/
theorem decode64At_decode64 {memory : Block} {input inlen output : Nat}
    (apart : output ≤ input ∨ input + inlen ≤ output) :
    decode64At memory input inlen output =
      (decode64 (readBytes memory input (inlen + 1)) inlen).map fun bytes =>
        (writeBytes memory output (bytes ++ [0]), bytes.length) := by
  have two : 2 ≤ inlen → ((readBytes memory input (inlen + 1)).take 2 = ascii "+ " ↔
      memory input = 43 ∧ memory (input + 1) = 32) ∧
        (readBytes memory input (inlen + 1)).drop 2 = readBytes memory (input + 2) (inlen - 1) := by
    intro long
    obtain ⟨rest, rfl⟩ := Nat.exists_eq_add_of_le long
    have split : readBytes memory input (2 + rest + 1) =
        [memory input, memory (input + 1)] ++ readBytes memory (input + 2) (rest + 1) := by
      rw [Nat.add_assoc, readBytes_append]
      rfl
    rw [split]
    simp only [List.cons_append, List.nil_append, List.take_succ_cons, List.take_zero,
      List.drop_succ_cons, List.drop_zero]
    refine ⟨?_, congrArg (readBytes memory (input + 2)) (by omega)⟩
    have plus : ascii "+ " = [43, 32] := by decide
    rw [plus, List.cons.injEq, List.cons.injEq, eq_self, and_true]
  have head (start count : Nat) : (readBytes memory start (count + 1)).head? =
      some (memory start) := by
    rw [Nat.add_comm, readBytes_append]
    rfl
  by_cases skips : 2 ≤ inlen ∧ memory input = 43 ∧ memory (input + 1) = 32
  · obtain ⟨long, plus⟩ := skips
    have skipped : skipPlus memory input inlen = (input + 2, inlen - 2) := if_pos ⟨long, plus⟩
    have count : inlen - 1 = inlen - 2 + 1 := by omega
    simp only [decode64, if_pos (And.intro long ((two long).1.mpr plus)), (two long).2]
    rw [count, head]
    by_cases ended : memory (input + 2) = 0
    · simp [decode64At, skipped, ended]
    · rw [decode64At_eq skipped (by omega) ended, if_neg (fun same => ended (Option.some.inj same)),
        ← decodeGroups_readBytes (n := inlen - 2 + 1) (by omega)]
  · have skipped : skipPlus memory input inlen = (input, inlen) := if_neg skips
    have kept : ¬ (2 ≤ inlen ∧ (readBytes memory input (inlen + 1)).take 2 = ascii "+ ") :=
      fun both => skips ⟨both.1, (two both.1).1.mp both.2⟩
    simp only [decode64, if_neg kept]
    rw [head]
    by_cases ended : memory input = 0
    · simp [decode64At, skipped, ended]
    · rw [decode64At_eq skipped (by omega) ended, if_neg (fun same => ended (Option.some.inj same)),
        ← decodeGroups_readBytes (n := inlen + 1) (by omega)]

/-- The length of the text, as `encode64` counts it. -/
def textLength (bytes : List UInt8) : Nat := 4 * ((bytes.length + 2) / 3)

theorem encode64_eq {bytes : List UInt8} {outmax : Nat} (room : textLength bytes + 1 ≤ outmax)
    (limit : outmax < 2 ^ 32) (memory : Block) (output : Nat) :
    encode64 bytes memory output outmax =
      (.ok, textLength bytes, writeBytes memory output (encodeGroups bytes ++ [0])) := by
  unfold textLength at room
  have counted : (bytes.length + 2) % 2 ^ 32 / 3 * 4 % 2 ^ 32 = 4 * ((bytes.length + 2) / 3) := by
    rw [Nat.mod_eq_of_lt (a := bytes.length + 2) (by omega), Nat.mul_comm]
    exact Nat.mod_eq_of_lt (by omega)
  simp only [encode64, counted, textLength]
  rw [if_neg (by omega), if_pos (by omega), writeBytes_append]

/-- Every text that `encode64` writes is read back by `decode64`, with or without its NUL, into a
buffer of its own or in place; and a group with a foreign character is not read. -/
theorem base64_reads_back :
    (∀ bytes memory output outmax, bytes ≠ [] → textLength bytes + 1 ≤ outmax →
      outmax < 2 ^ 32 → ∃ encoded,
        encode64 bytes memory output outmax = (.ok, textLength bytes, encoded) ∧
        readBytes encoded output (textLength bytes) = encodeGroups bytes ∧
        ∀ inlen target, inlen = textLength bytes ∨ inlen = textLength bytes + 1 →
          target ≤ output ∨ output + textLength bytes ≤ target → ∃ decoded,
            decode64At encoded output inlen target = some (decoded, bytes.length) ∧
              readBytes decoded target bytes.length = bytes) ∧
      ∀ memory input inlen output start size place,
        skipPlus memory input inlen = (start, size) → output ≤ input ∨ input + inlen ≤ output →
        place < 4 * (size / 4) → char64 (memory (start + place)) = none →
        memory (start + place) ≠ pad → decode64At memory input inlen output = none := by
  refine ⟨?_, ?_⟩
  · intro bytes memory output outmax some room limit
    have size := encodeGroups_length bytes
    have text : readBytes (writeBytes memory output (encodeGroups bytes ++ [0])) output
        (textLength bytes) = encodeGroups bytes := by
      rw [← writeBytes_append, readBytes_writeBytes_outside (.inl (by rw [size, textLength])),
        textLength, ← size, readBytes_writeBytes]
    refine ⟨_, encode64_eq room limit memory output, text, ?_⟩
    generalize writeBytes memory output (encodeGroups bytes ++ [0]) = encoded at text
    intro inlen target given apart
    have many : 0 < bytes.length := List.length_pos_iff.mpr some
    have first : encoded output = (encodeGroups bytes).getD 0 0 := by
      rw [← text, readBytes_getD _ (by unfold textLength; omega), Nat.add_zero]
    have second : encoded (output + 1) = (encodeGroups bytes).getD 1 0 := by
      rw [← text, readBytes_getD _ (by unfold textLength; omega)]
    obtain ⟨begun, plain⟩ := encodeGroups_head some
    have unskipped : skipPlus encoded output inlen = (output, inlen) := by
      refine if_neg fun both => plain ?_
      rw [← second, both.2.2]
    have groups : inlen / 4 = (bytes.length + 2) / 3 := by
      unfold textLength at given
      omega
    have decodes := decode64At_eq unskipped
      (show target ≤ output ∨ output + 4 * (inlen / 4) ≤ target by rw [groups]; exact apart)
      (by rw [first]; exact begun)
    have whole : readBytes encoded output (4 * (inlen / 4)) = encodeGroups bytes := by
      rw [groups]
      exact text
    rw [whole, groups, decodeGroups_encodeGroups] at decodes
    refine ⟨_, decodes, ?_⟩
    rw [← writeBytes_append, readBytes_writeBytes_outside (.inl le_rfl), readBytes_writeBytes]
  · intro memory input inlen output start size place skipped apart inside unknown filled
    by_cases ended : memory start = 0
    · simp only [decode64At, skipped, if_pos ended]
    · have here : (readBytes memory start (4 * (size / 4))).getD place 0 =
          memory (start + place) := readBytes_getD memory inside
      have ranges : output ≤ start ∨ start + 4 * (size / 4) ≤ output := by
        unfold skipPlus at skipped
        split at skipped <;> cases skipped <;> omega
      rw [decode64At_eq skipped ranges ended,
        decodeGroups_fails inside (here ▸ unknown) (here ▸ filled)]
      rfl

/-- Two bytes and back, in place; and a text with a blank in its second group. -/
theorem two_bytes_are_read_back :
    (∃ encoded decoded, encode64 [104, 105] (fun _ => 255) 4 5 = (.ok, 4, encoded) ∧
        decode64At encoded 4 5 4 = some (decoded, 2) ∧ readBytes decoded 4 2 = [104, 105]) ∧
      decode64At (writeBytes (fun _ => 0) 0 (ascii "aGk=aG k")) 0 8 0 = none := by
  obtain ⟨encoded, encodes, _, reads⟩ := base64_reads_back.1 [104, 105] (fun _ => 255) 4 5
    (by decide) (by decide) (by decide)
  obtain ⟨decoded, decodes, whole⟩ := reads 5 4 (.inr rfl) (.inl le_rfl)
  exact ⟨⟨encoded, decoded, encodes, decodes, whole⟩,
    base64_reads_back.2 _ 0 8 0 0 8 6 (by decide) (.inl le_rfl) (by decide) (by decide) (by decide)⟩

end QNXStuff.QXMail
