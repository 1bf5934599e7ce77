import QNXStuff.QXMail.Text

/-! The MD5 hash with which a client shows that it knows the password of a mailbox. -/

namespace QNXStuff.QXMail

/-! ### The steps -/

/-- An `OP` of a phase: the rotation, the word of the block and the constant. -/
abbrev Op := UInt32 × Nat × UInt32

def ff (b c d : UInt32) : UInt32 := d ^^^ (b &&& (c ^^^ d))
def fg (b c d : UInt32) : UInt32 := ff d b c
def fh (b c d : UInt32) : UInt32 := b ^^^ c ^^^ d
def fi (b c d : UInt32) : UInt32 := c ^^^ (b ||| ~~~d)

def phase1 : List Op :=
  [(7, 0, 0xd76aa478), (12, 1, 0xe8c7b756), (17, 2, 0x242070db), (22, 3, 0xc1bdceee),
   (7, 4, 0xf57c0faf), (12, 5, 0x4787c62a), (17, 6, 0xa8304613), (22, 7, 0xfd469501),
   (7, 8, 0x698098d8), (12, 9, 0x8b44f7af), (17, 10, 0xffff5bb1), (22, 11, 0x895cd7be),
   (7, 12, 0x6b901122), (12, 13, 0xfd987193), (17, 14, 0xa679438e), (22, 15, 0x49b40821)]

def phase2 : List Op :=
  [(5, 1, 0xf61e2562), (9, 6, 0xc040b340), (14, 11, 0x265e5a51), (20, 0, 0xe9b6c7aa),
   (5, 5, 0xd62f105d), (9, 10, 0x02441453), (14, 15, 0xd8a1e681), (20, 4, 0xe7d3fbc8),
   (5, 9, 0x21e1cde6), (9, 14, 0xc33707d6), (14, 3, 0xf4d50d87), (20, 8, 0x455a14ed),
   (5, 13, 0xa9e3e905), (9, 2, 0xfcefa3f8), (14, 7, 0x676f02d9), (20, 12, 0x8d2a4c8a)]

def phase3 : List Op :=
  [(4, 5, 0xfffa3942), (11, 8, 0x8771f681), (16, 11, 0x6d9d6122), (23, 14, 0xfde5380c),
   (4, 1, 0xa4beea44), (11, 4, 0x4bdecfa9), (16, 7, 0xf6bb4b60), (23, 10, 0xbebfbc70),
   (4, 13, 0x289b7ec6), (11, 0, 0xeaa127fa), (16, 3, 0xd4ef3085), (23, 6, 0x04881d05),
   (4, 9, 0xd9d4d039), (11, 12, 0xe6db99e5), (16, 15, 0x1fa27cf8), (23, 2, 0xc4ac5665)]

def phase4 : List Op :=
  [(6, 0, 0xf4292244), (10, 7, 0x432aff97), (15, 14, 0xab9423a7), (21, 5, 0xfc93a039),
   (6, 12, 0x655b59c3), (10, 3, 0x8f0ccc92), (15, 10, 0xffeff47d), (21, 1, 0x85845dd1),
   (6, 8, 0x6fa87e4f), (10, 15, 0xfe2ce6e0), (15, 6, 0xa3014314), (21, 13, 0x4e0811a1),
   (6, 4, 0xf7537e82), (10, 11, 0xbd3af235), (15, 2, 0x2ad7d2bb), (21, 9, 0xeb86d391)]

/-- The registers A, B, C and D, in the order in which the next step takes them. -/
structure Registers where
  a : UInt32
  b : UInt32
  c : UInt32
  d : UInt32

def cyclic (word shift : UInt32) : UInt32 := (word <<< shift) ||| (word >>> (32 - shift))

/-- `OP`; the step behind it takes the registers one place on. -/
def op (f : UInt32 → UInt32 → UInt32 → UInt32) (block : List UInt32) (regs : Registers) (step : Op) :
    Registers :=
  let (shift, word, constant) := step
  let sum := regs.a + (f regs.b regs.c regs.d + block.getD word 0 + constant)
  ⟨regs.d, cyclic sum shift + regs.b, regs.b, regs.c⟩

def md5Block (regs : Registers) (block : List UInt32) : Registers :=
  let after1 := phase1.foldl (op ff block) regs
  let after2 := phase2.foldl (op fg block) after1
  let after3 := phase3.foldl (op fh block) after2
  let after4 := phase4.foldl (op fi block) after3
  ⟨regs.a + after4.a, regs.b + after4.b, regs.c + after4.c, regs.d + after4.d⟩

/-! ### The message -/

/-- A word of little-endian bytes. -/
def wordAt (bytes : List UInt8) (word : Nat) : UInt32 :=
  (bytes.getD (4 * word) 0).toUInt32 ||| (bytes.getD (4 * word + 1) 0).toUInt32 <<< 8 |||
    (bytes.getD (4 * word + 2) 0).toUInt32 <<< 16 ||| (bytes.getD (4 * word + 3) 0).toUInt32 <<< 24

def wordBytes (word : UInt32) : List UInt8 :=
  [word.toUInt8, (word >>> 8).toUInt8, (word >>> 16).toUInt8, (word >>> 24).toUInt8]

/-- "apply padding": the words of the message. -/
def padded (buf : List UInt8) : List UInt32 :=
  let length := (buf.length / 64 + 1) * 16 + if 56 ≤ buf.length % 64 then 16 else 0
  let bytes := buf ++ [0x80]
  ((List.range length).map (wordAt bytes)).set (length - 2) (UInt32.ofNat (buf.length * 8))

def blocks : Nat → List UInt32 → List (List UInt32)
  | 0, _ => []
  | times + 1, words => words.take 16 :: blocks times (words.drop 16)

def md5Bin (buf : List UInt8) : List UInt8 :=
  let words := padded buf
  let regs := (blocks (words.length / 16) words).foldl md5Block
    ⟨0x67452301, 0xefcdab89, 0x98badcfe, 0x10325476⟩
  wordBytes regs.a ++ wordBytes regs.b ++ wordBytes regs.c ++ wordBytes regs.d

def hexDigit (value : UInt8) : UInt8 := if value < 10 then 48 + value else 87 + value

/-- `GetMD5`: the bytes of the hash in hexadecimal. -/
def getMD5 (buf : List UInt8) : List UInt8 :=
  (md5Bin buf).flatMap fun (byte : UInt8) => [hexDigit (byte >>> 4), hexDigit (byte &&& 15)]

end QNXStuff.QXMail
