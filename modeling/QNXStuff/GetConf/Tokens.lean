import Mathlib.Data.List.Basic
import QNXStuff.Library.Execution

/-! The configuration files: their lines, and the words that the servers read from them. -/

namespace QNXStuff.GetConf

open Execution

def confStringLen : Nat := 4096

def confComment : UInt8 := 35

/-- `ConfFile` from where it is read on, `ConfString`, `ConfToken` and `GetConf_ln`. -/
structure Conf where
  confFile : List UInt8
  confString : List UInt8
  confToken : Nat
  getConfLn : Nat

/-- A string without an end, or a file without one. -/
inductive ConfFault where
  | wild
  | endless
  deriving DecidableEq

def isBlank (byte : UInt8) : Bool := byte == 32 || byte == 9

def isEnd (byte : UInt8) : Bool := byte == 0 || byte == 10

def inWord (byte : UInt8) : Bool := !isBlank byte && !isEnd byte

/-- What `fgets` takes from a file, and what it leaves. -/
def gets : Nat → List UInt8 → List UInt8 × List UInt8
  | 0, file => ([], file)
  | _, [] => ([], [])
  | size + 1, byte :: file =>
    if byte = 10 then ([10], file)
    else
      let (line, rest) := gets size file
      (byte :: line, rest)

/-- A line in a buffer, over what was there before. -/
def overlay (buffer line : List UInt8) : List UInt8 := line ++ 0 :: buffer.drop (line.length + 1)

namespace Conf

/-- `fgets( ConfString, ConfStringLen, ConfFile )` -/
def fgets (conf : Conf) : Option Conf :=
  if conf.confFile = [] then none
  else
    let (line, rest) := gets (confStringLen - 1) conf.confFile
    some { conf with confFile := rest, confString := overlay conf.confString line }

/-- How far a loop over `ConfString` goes on: `ConfToken<ConfStringLen-1`. -/
def runLength (conf : Conf) (place : Nat) (goes : UInt8 → Bool) : Nat :=
  (((conf.confString.take (confStringLen - 1)).drop place).takeWhile goes).length

def getConfToken (conf : Conf) : Except ConfFault (Conf × Option (List UInt8)) :=
  let start := conf.confToken + conf.runLength conf.confToken isBlank
  let rest := conf.confString.drop start
  -- the loop that looks for the end has no bound
  if rest.all inWord then .error .wild
  else if rest.takeWhile inWord = [] ∨ rest.head? = some confComment then
    .ok ({ conf with confToken := start }, none)
  else
    let stop := start + conf.runLength start inWord
    let confString := conf.confString.set stop 0
    .ok ({ conf with confString := confString, confToken := stop + 1 },
      some ((confString.drop start).takeWhile (· != 0)))

/-- One turn of `while( 1 )` -/
def stringTurn (conf : Conf) : Except ConfFault (Pass Conf (Conf × Option (List UInt8))) :=
  let conf := { conf with getConfLn := conf.getConfLn + 1 }
  match conf.fgets with
  | none => .ok (.stop (conf, none))
  | some conf =>
    ({ conf with confToken := 0 }.getConfToken).map fun (conf, token) =>
      match token with
      | some token => .stop (conf, some token)
      | none => .again conf

def getConfString (conf : Conf) : Except ConfFault (Conf × Option (List UInt8)) :=
  loop stringTurn .endless (conf.confFile.length + 1) conf

/-- After `GetConf_open`: memory from `malloc` holds anything. -/
structure Opened (conf : Conf) (file : List UInt8) : Prop where
  file : conf.confFile = file
  length : conf.confString.length = confStringLen
  token : conf.confToken = 0

end Conf

inductive ConfCall where
  | string
  | token
  deriving DecidableEq

def Conf.handle (conf : Conf) : ConfCall → Except ConfFault (Conf × Option (List UInt8))
  | .string => conf.getConfString
  | .token => conf.getConfToken

abbrev ConfLabel := ConfCall × Option (List UInt8)

abbrev ConfStep : Conf → ConfLabel → Conf → Prop := Answers Conf.handle

/-! ### Lines and words -/

def linesOf : List UInt8 → List (List UInt8)
  | [] => []
  | byte :: file =>
    if byte = 10 then [10] :: linesOf file
    else
      match linesOf file with
      | [] => [[byte]]
      | line :: lines => (byte :: line) :: lines

/-- What stands between the blanks and tabs of a text. -/
def pieces (text : List UInt8) : List (List UInt8) :=
  (text.splitOnP isBlank).filter (· != [])

def isComment (word : List UInt8) : Bool := word.head? == some confComment

/-- The words of a line up to the first that starts with '#'. -/
def wordsOf (line : List UInt8) : List (List UInt8) :=
  (pieces (line.takeWhile (· != 10))).takeWhile fun word => !isComment word

/-- The lines to come, and the words to come of the line that was read last, if there is one. -/
structure ConfText where
  lines : List (List UInt8)
  pending : Option (List (List UInt8))

def nextLine : List (List UInt8) → Option (List (List UInt8)) → ConfText × Option (List UInt8)
  | [], pending => (⟨[], pending⟩, none)
  | line :: lines, _ =>
    match wordsOf line with
    | [] => nextLine lines (some [])
    | word :: words => (⟨lines, some words⟩, some word)

/-- What the calls mean; before a line has been read nothing is said of `GetConf_token`. -/
inductive TextStep : ConfText → ConfLabel → ConfText → Prop where
  | string {text : ConfText} :
      TextStep text (.string, (nextLine text.lines text.pending).2)
        (nextLine text.lines text.pending).1
  | word {lines : List (List UInt8)} {word : List UInt8} {words : List (List UInt8)} :
      TextStep ⟨lines, some (word :: words)⟩ (.token, some word) ⟨lines, some words⟩
  | null {lines : List (List UInt8)} : TextStep ⟨lines, some []⟩ (.token, none) ⟨lines, some []⟩
  | unread {lines : List (List UInt8)} {token : Option (List UInt8)} :
      TextStep ⟨lines, none⟩ (.token, token) ⟨lines, none⟩

/-- What stands at `ConfToken` yields no token. -/
def quiet (rest : List UInt8) : Bool :=
  match rest.dropWhile isBlank with
  | [] => false
  | byte :: behind => isEnd byte || byte == confComment && !behind.all inWord

/-- The last word of a text ends with it, and no comment stands before. -/
def touchesEnd (text : List UInt8) : Bool :=
  text.getLast?.any inWord && (pieces text).all fun word => !isComment word

/-- A call of `GetConf_string` that meets no NUL in a line, and whose line has a newline, a blank or
a comment behind its last word, unless what stood in the buffer behind yields no token. -/
def LinesSound : List (List UInt8) → List UInt8 → Prop
  | [], _ => True
  | line :: lines, buffer =>
    0 ∉ line ∧
      if wordsOf line = [] then LinesSound lines (overlay buffer line)
      else touchesEnd line → quiet (buffer.drop (line.length + 1))

def decideLines : (lines : List (List UInt8)) → (buffer : List UInt8) →
    Decidable (LinesSound lines buffer)
  | [], _ => isTrue trivial
  | line :: lines, buffer =>
    have := decideLines lines (overlay buffer line)
    inferInstanceAs (Decidable (_ ∧ ite _ _ _))

instance {lines : List (List UInt8)} {buffer : List UInt8} : Decidable (LinesSound lines buffer) :=
  decideLines lines buffer

def Conf.LineSound (conf : Conf) : ConfCall → Prop
  | .string => LinesSound (linesOf conf.confFile) conf.confString
  | .token => True

instance {conf : Conf} {call : ConfCall} : Decidable (conf.LineSound call) :=
  match call with
  | .string => inferInstanceAs (Decidable (LinesSound _ _))
  | .token => isTrue trivial

end QNXStuff.GetConf
