import QNXStuff.Library.Memory
import QNXStuff.Library.SineTable

/-! The digest MD5, driven by its tables, and keyed digests of messages. -/

namespace QNXStuff.Digests

open Memory Sine

/-- The four words that are carried from block to block. -/
structure State where
  a : UInt32
  b : UInt32
  c : UInt32
  d : UInt32

/-! ### One block -/

def roundF (x y z : UInt32) : UInt32 := (x &&& y) ||| (~~~x &&& z)
def roundG (x y z : UInt32) : UInt32 := (x &&& z) ||| (y &&& ~~~z)
def roundH (x y z : UInt32) : UInt32 := x ^^^ y ^^^ z
def roundI (x y z : UInt32) : UInt32 := y ^^^ (x ||| ~~~z)

/-- The function of a step; the 64 steps of a block make four rounds. -/
def stepFunction (step : Nat) : UInt32 → UInt32 → UInt32 → UInt32 :=
  match step / 16 with
  | 0 => roundF
  | 1 => roundG
  | 2 => roundH
  | _ => roundI

def stepWord (step : Nat) : Nat :=
  match step / 16 with
  | 0 => step % 16
  | 1 => (5 * step + 1) % 16
  | 2 => (3 * step + 5) % 16
  | _ => 7 * step % 16

/-- By how many bits a step rotates. -/
def stepShift (step : Nat) : Nat :=
  let shifts :=
    match step / 16 with
    | 0 => [7, 12, 17, 22]
    | 1 => [5, 9, 14, 20]
    | 2 => [4, 11, 16, 23]
    | _ => [6, 10, 15, 21]
  shifts.getD (step % 4) 0

def rotate (word : UInt32) (shift : Nat) : UInt32 := ⟨word.toBitVec.rotateLeft shift⟩

/-- One step, behind which the words change their places. -/
noncomputable def step (block : Nat → UInt32) (state : State) (step : Nat) : State :=
  let sum := state.a + stepFunction step state.b state.c state.d + block (stepWord step) +
    UInt32.ofNat (sineTable (step + 1))
  ⟨state.d, state.b + rotate sum (stepShift step), state.b, state.c⟩

noncomputable def process (state : State) (block : Nat → UInt32) : State :=
  let final := (List.range 64).foldl (step block) state
  ⟨state.a + final.a, state.b + final.b, state.c + final.c, state.d + final.d⟩

/-! ### The message -/

/-- A message with a one bit, zero bits up to 56 bytes modulo 64, and its length in bits. -/
def padMessage (message : List UInt8) : List UInt8 :=
  message ++ 0x80 :: (List.replicate ((119 - message.length % 64) % 64) 0 ++
    bytesOf 8 (8 * message.length))

def blockWord (bytes : List UInt8) (block word : Nat) : UInt32 :=
  UInt32.ofNat (wordOf ((bytes.drop (64 * block + 4 * word)).take 4))

def initial : State := ⟨0x67452301, 0xefcdab89, 0x98badcfe, 0x10325476⟩

/-- The digest of a message. -/
noncomputable def md5 (message : List UInt8) : List UInt8 :=
  let bytes := padMessage message
  let final := ((List.range (bytes.length / 64)).map (blockWord bytes)).foldl process initial
  [final.a, final.b, final.c, final.d].flatMap fun word => bytesOf 4 word.toNat

/-- The keyed digest of a message under a hash function with blocks of 64 bytes: a long key is
hashed first. -/
def hmac (hash : List UInt8 → List UInt8) (key message : List UInt8) : List UInt8 :=
  let key := if 64 < key.length then hash key else key
  let block := key ++ List.replicate (64 - key.length) 0
  hash (block.map (· ^^^ 0x5c) ++ hash (block.map (· ^^^ 0x36) ++ message))

/-- Bytes in lower-case hexadecimal. -/
def hexadecimal (bytes : List UInt8) : List UInt8 :=
  bytes.flatMap fun byte => [digit (byte.toNat / 16), digit (byte.toNat % 16)]
where
  digit (value : Nat) : UInt8 :=
    ([48, 49, 50, 51, 52, 53, 54, 55, 56, 57, 97, 98, 99, 100, 101, 102] : List UInt8).getD value 0

/-! ### Blocks -/

theorem stepWord_lt (step : Nat) : stepWord step < 16 := by
  unfold stepWord
  split <;> exact Nat.mod_lt _ (by decide)

/-- A block is known by its sixteen words. -/
theorem process_congr (state : State) {block block' : Nat → UInt32}
    (same : ∀ word < 16, block word = block' word) : process state block = process state block' := by
  have steps : step block = step block' := by
    funext state number
    simp only [step, same _ (stepWord_lt number)]
  rw [process, process, steps]

end QNXStuff.Digests
