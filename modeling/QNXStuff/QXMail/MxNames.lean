import Mathlib.Algebra.Group.Nat.Defs
import Mathlib.Data.List.GetD
import QNXStuff.Library.Execution
import QNXStuff.QXMail.Text

/-! Names in an answer to an MX question: the loop of the spooler that decodes them, which may leave
the datagram, leave its buffer or never end. -/

namespace QNXStuff.QXMail

open Execution

/-- What can happen to the spooler while it decodes an answer. -/
inductive DecodeFault
  /-- It reads behind the datagram. -/
  | beyond
  /-- It writes behind `rname`. -/
  | overflow
  /-- It is not done yet. -/
  | spent
  deriving DecidableEq

def readByte (message : List UInt8) (place : Nat) : Except DecodeFault UInt8 :=
  match message[place]? with
  | some byte => .ok byte
  | none => .error .beyond

/-- `ENDIAN_RET16` of the two bytes at a place. -/
def readWord (message : List UInt8) (place : Nat) : Except DecodeFault Nat := do
  let high ← readByte message place
  let low ← readByte message (place + 1)
  .ok (high.toNat * 256 + low.toNat)

/-- `rname[j] = byte; j++`, where `j` is the number of bytes that are there. -/
def writeByte (rname : List UInt8) (byte : UInt8) : Except DecodeFault (List UInt8) :=
  if rname.length < 256 then .ok (rname ++ [byte]) else .error .overflow

/-- `i` and what the loop has written to `rname`. -/
structure NameState where
  i : Nat
  rname : List UInt8
  deriving DecidableEq

/-- `for(k;k>0;k--)` -/
def copyLabel (message : List UInt8) : Nat → NameState → Except DecodeFault NameState
  | 0, state => .ok state
  | k + 1, state => do
    let byte ← readByte message state.i
    let rname ← writeByte state.rname byte
    copyLabel message k ⟨state.i + 1, rname⟩

/-- `while(j<256)` -/
def nameGoesOn (state : NameState) : Pass NameState (List UInt8) :=
  if state.rname.length < 256 then .again state else .stop state.rname

/-- "decode the answer": the body of its loop. -/
def nameTurn (message : List UInt8) (state : NameState) :
    Except DecodeFault (Pass NameState (List UInt8)) := do
  let k ← readByte message state.i
  if k &&& 0xc0 = 0xc0 then
    let word ← readWord message state.i
    .ok (nameGoesOn { state with i := word % 2 ^ 14 })
  else if k = 0 then .ok (.stop state.rname)
  else
    let state ← copyLabel message k.toNat { state with i := state.i + 1 }
    let rname ← writeByte state.rname (46 : UInt8)
    .ok (nameGoesOn { state with rname })

/-- The string that is left in `rname`: the last dot is taken off. -/
def decodeName (message : List UInt8) (fuel i : Nat) : Except DecodeFault (List UInt8) :=
  (loop (nameTurn message) .spent fuel ⟨i, []⟩).map fun rname => cstr rname.dropLast

/-! ### Labels in their order -/

/-- The labels of a name as they are sent, without the end. -/
def wireLabels (labels : List (List UInt8)) : List UInt8 :=
  labels.flatMap fun label => UInt8.ofNat label.length :: label

/-- The labels with a dot behind each. -/
def dotted (labels : List (List UInt8)) : List UInt8 := labels.flatMap fun label => label ++ [46]

/-- The labels with a dot in front of each. -/
def dottedBefore (labels : List (List UInt8)) : List UInt8 :=
  labels.flatMap fun label => 46 :: label

theorem intercalate_cons (label : List UInt8) (labels : List (List UInt8)) :
    [46].intercalate (label :: labels) = label ++ dottedBefore labels := by
  induction labels generalizing label with
  | nil => simp [dottedBefore]
  | cons next labels ih =>
    have step : [46].intercalate (label :: next :: labels) =
        label ++ (46 :: [46].intercalate (next :: labels)) := by
      simp [List.intercalate, List.intersperse]
    rw [step, ih]
    rfl

theorem dotted_eq {labels : List (List UInt8)} (some : labels ≠ []) :
    dotted labels = [46].intercalate labels ++ [46] := by
  obtain ⟨label, labels, rfl⟩ := List.exists_cons_of_ne_nil some
  rw [intercalate_cons]
  induction labels generalizing label with
  | nil => simp [dotted, dottedBefore]
  | cons next labels ih =>
    have first : dotted (label :: next :: labels) = label ++ [46] ++ dotted (next :: labels) := rfl
    rw [first, ih next (List.cons_ne_nil _ _)]
    simp [dottedBefore]

/-- The text of a name, without its last dot. -/
theorem dotted_dropLast (labels : List (List UInt8)) :
    (dotted labels).dropLast = [46].intercalate labels := by
  cases labels with
  | nil => rfl
  | cons label labels => rw [dotted_eq (List.cons_ne_nil _ _), List.dropLast_concat]

theorem readByte_ok {message rest : List UInt8} {place : Nat} {byte : UInt8}
    (here : message.drop place = byte :: rest) : readByte message place = .ok byte := by
  have found : message[place]? = some byte := by
    rw [← Nat.add_zero place, ← List.getElem?_drop, here]
    rfl
  rw [readByte, found]

theorem copyLabel_ok {message text rest : List UInt8} {i : Nat} {rname : List UInt8}
    (here : message.drop i = text ++ rest) (room : rname.length + text.length ≤ 256) :
    copyLabel message text.length ⟨i, rname⟩ = .ok ⟨i + text.length, rname ++ text⟩ := by
  induction text generalizing i rname with
  | nil => simp [copyLabel]
  | cons byte text ih =>
    rw [List.length_cons] at room
    have space : rname.length < 256 := by omega
    have later : message.drop (i + 1) = text ++ rest := by
      rw [← List.drop_drop, here]
      rfl
    have copied := @ih (i + 1) (rname ++ [byte]) later (by rw [List.length_append]; simp; omega)
    rw [List.length_cons, copyLabel, readByte_ok here]
    simp only [writeByte, if_pos space, Except.bind, bind, copied, List.append_assoc,
      List.singleton_append, Nat.add_assoc, Nat.add_comm 1]

theorem nameTurn_label {message label rest : List UInt8} {k : UInt8} {i : Nat} {rname : List UInt8}
    (size : message.drop i = k :: (label ++ rest)) (length : label.length = k.toNat)
    (mark : k &&& 0xc0 ≠ 0xc0) (some : k ≠ 0) (room : rname.length + label.length < 256) :
    nameTurn message ⟨i, rname⟩ =
      .ok (nameGoesOn ⟨i + (label.length + 1), rname ++ label ++ [46]⟩) := by
  have text : message.drop (i + 1) = label ++ rest := by
    rw [← List.drop_drop, size]
    rfl
  have copied := copyLabel_ok text room.le
  have space : (rname ++ label).length < 256 := by
    rw [List.length_append]
    exact room
  simp only [nameTurn, readByte_ok size, Except.bind, bind, if_neg mark, if_neg some, ← length,
    copied, writeByte, if_pos space, Nat.add_assoc, Nat.add_comm 1]

/-- A label of the usual length is no pointer. -/
theorem short_label {size : Nat} (some : 0 < size) (short : size < 64) :
    UInt8.ofNat size &&& 0xc0 ≠ 0xc0 ∧ UInt8.ofNat size ≠ 0 ∧ (UInt8.ofNat size).toNat = size := by
  have all : ∀ size < 64, UInt8.ofNat size &&& 0xc0 ≠ 0xc0 ∧
      (0 < size → UInt8.ofNat size ≠ 0) ∧ (UInt8.ofNat size).toNat = size := by
    decide +kernel
  obtain ⟨mark, zero, same⟩ := all size short
  exact ⟨mark, zero some, same⟩

/-- The loop takes label after label until the end of the name. -/
theorem loop_labels {message rest : List UInt8} {labels : List (List UInt8)} {i fuel : Nat}
    {rname : List UInt8} (here : message.drop i = wireLabels labels ++ 0 :: rest)
    (sizes : ∀ label ∈ labels, 0 < label.length ∧ label.length < 64)
    (room : rname.length + (dotted labels).length < 256) (enough : labels.length < fuel) :
    loop (nameTurn message) .spent fuel ⟨i, rname⟩ = .ok (rname ++ dotted labels) := by
  induction labels generalizing i fuel rname with
  | nil =>
    obtain ⟨fuel, rfl⟩ := Nat.exists_eq_add_of_lt enough
    have ended : nameTurn message ⟨i, rname⟩ = .ok (.stop rname) := by
      rw [nameTurn, readByte_ok here]
      rfl
    simp [loop, ended, dotted]
  | cons label labels ih =>
    obtain ⟨fuel, rfl⟩ := Nat.exists_eq_add_of_lt enough
    have front : wireLabels (label :: labels) =
        UInt8.ofNat label.length :: (label ++ wireLabels labels) := rfl
    have marks : dotted (label :: labels) = label ++ [46] ++ dotted labels := rfl
    obtain ⟨some, short⟩ := sizes label List.mem_cons_self
    rw [front, List.cons_append, List.append_assoc] at here
    rw [marks, List.length_append, List.length_append, List.length_singleton] at room
    obtain ⟨mark, filled, length⟩ := short_label some short
    have turn := @nameTurn_label _ _ _ _ _ rname here length.symm mark filled (by omega)
    have goes : (rname ++ label ++ [46]).length < 256 := by
      rw [List.length_append, List.length_append, List.length_singleton]
      omega
    have later : message.drop (i + (label.length + 1)) = wireLabels labels ++ 0 :: rest := by
      rw [← List.drop_drop, here, List.drop_succ_cons, List.drop_left]
    have rounds := @ih (i + (label.length + 1)) (labels.length + 1 + fuel) (rname ++ label ++ [46]) later
      (fun other member => sizes other (List.mem_cons_of_mem label member))
      (by rw [List.length_append, List.length_append, List.length_singleton]; omega) (by omega)
    have steps : (label :: labels).length + fuel + 1 = labels.length + 1 + fuel + 1 := by
      rw [List.length_cons]
    rw [steps, loop, turn, nameGoesOn, if_pos goes]
    simp only [rounds]
    rw [marks, ← List.append_assoc, ← List.append_assoc]

end QNXStuff.QXMail
