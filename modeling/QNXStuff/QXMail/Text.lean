import QNXStuff.QXMail.Lines

/-! Strings as the mail server reads them out of its buffers. -/

namespace QNXStuff.QXMail

/-- The bytes of a text of the source. -/
def ascii (text : String) : List UInt8 := text.toList.map fun char => UInt8.ofNat char.toNat

/-- The string in a buffer, up to its NUL. -/
def cstr (buffer : List UInt8) : List UInt8 := buffer.takeWhile (· != 0)

def toupper (byte : UInt8) : UInt8 := if 97 ≤ byte ∧ byte ≤ 122 then byte - 32 else byte

def tolower (byte : UInt8) : UInt8 := if 65 ≤ byte ∧ byte ≤ 90 then byte + 32 else byte

/-- `0 == stricmp( first, second )` -/
def stricmp (first second : List UInt8) : Bool := first.map tolower == second.map tolower

/-- `strchr`: the place of a byte in a string. -/
def strchr (string : List UInt8) (byte : UInt8) : Option Nat :=
  string.findIdx? (· == byte)

/-! ### Base64 -/

/-- `CHAR64`; `none` is -1. -/
def char64 (byte : UInt8) : Option UInt8 :=
  if 65 ≤ byte ∧ byte ≤ 90 then some (byte - 65)
  else if 97 ≤ byte ∧ byte ≤ 122 then some (byte - 71)
  else if 48 ≤ byte ∧ byte ≤ 57 then some (byte + 4)
  else if byte = 43 then some 62
  else if byte = 47 then some 63
  else none

/-- The character that fills a group up. -/
def pad : UInt8 := 61

/-- The loop of `decode64` over groups of four characters. -/
def decodeGroups : Nat → List UInt8 → Option (List UInt8)
  | 0, _ => some []
  | groups + 1, c1 :: c2 :: c3 :: c4 :: rest => do
    let v1 ← char64 c1
    let v2 ← char64 c2
    let v3 ← if c3 = pad then some 0 else char64 c3
    let v4 ← if c4 = pad then some 0 else char64 c4
    let first : UInt8 := (v1 <<< 2) ||| (v2 >>> 4)
    let second : UInt8 := ((v2 <<< (4 : UInt8)) &&& (0xf0 : UInt8)) ||| (v3 >>> 2)
    let third : UInt8 := ((v3 <<< (6 : UInt8)) &&& (0xc0 : UInt8)) ||| v4
    let later ← decodeGroups groups rest
    if c3 = pad then some (first :: later)
    else if c4 = pad then some (first :: second :: later)
    else some (first :: second :: third :: later)
  | _ + 1, _ => none

/-- `decode64`; `none` is `B64_FAIL`. -/
def decode64 (buffer : List UInt8) (inlen : Nat) : Option (List UInt8) :=
  let (buffer, inlen) :=
    if 2 ≤ inlen ∧ buffer.take 2 = ascii "+ " then (buffer.drop 2, inlen - 2) else (buffer, inlen)
  if buffer.head? = some 0 then none else decodeGroups (inlen / 4) buffer

end QNXStuff.QXMail
