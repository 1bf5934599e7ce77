import QNXStuff.QXBase.FlatTable

/-! Update rules: the client library writes them, and the server carries them out. -/

namespace QNXStuff.QXBase

open Memory Execution

/-! ### The client library -/

/-- What `Qbase_SetUpdateField` answers. -/
inductive FieldCode where
  | ok
  | buf
  | nofld
  deriving DecidableEq

/-- A call of `Qbase_SetUpdateField`: `uValue` are the `UVSize` bytes at `UValue`. -/
structure FieldCall where
  fNum : Nat
  uValue : List UInt8
  action : UInt8
  deriving DecidableEq

/-- `Qbase_SetUpdateField`, which writes into the block of the rule or anywhere behind it. -/
def setUpdateField (desc : TableDesc) (uRule : List UInt8) (call : FieldCall) :
    Except Fault (List UInt8 × FieldCode) :=
  if call.uValue = [] then .ok (uRule, .buf)
  else
    match desc.fields[call.fNum]? with
    | none => .ok (uRule, .nofld)
    | some field =>
      if field.length < call.uValue.length then .ok (uRule, .buf)
      else
        let start := 4 + desc.fieldNum + field.offset
        if uRule.length < start + call.uValue.length then .error .wild
        else .ok ((overwrite uRule start call.uValue).set (4 + call.fNum) call.action, .ok)

def setUpdateFields (desc : TableDesc) (uRule : List UInt8) (calls : List FieldCall) :
    Except Fault (List UInt8) :=
  calls.foldlM (fun uRule call => (setUpdateField desc uRule call).map Prod.fst) uRule

/-- `Qbase_update` sends as many bytes as the rule says. -/
def updateMessage (uRule : List UInt8) : List UInt8 := uRule.take (wordOf (uRule.take 4))

/-! ### The message -/

abbrev msgLength : Nat := 2048

/-- What the receive buffer of the server has behind `io_devctl_t`. -/
abbrev msgRoom : Nat := msgLength - 16

/-- What a handler finds at `_DEVCTL_DATA`: the message as far as it was received, and then what
stands behind the buffer. -/
def arrived (behind : Block) (message : List UInt8) : List UInt8 :=
  message.take msgRoom ++ readBytes behind 0 (message.length - msgRoom)

/-! ### What a rule means -/

def FieldDesc.bytes (field : FieldDesc) (row : Row) : List UInt8 :=
  (row.drop field.offset).take field.length

def lastCall (calls : List FieldCall) (index : Nat) : Option FieldCall :=
  calls.reverse.find? fun call => call.fNum == index

def integerAfter {width : Nat} (divide : BitVec width → BitVec width → BitVec width)
    (action : UInt8) (old value : BitVec width) : BitVec width :=
  match action.toNat with
  | actSet => value
  | actAdd => old + value
  | actSub => old - value
  | actMul => old * value
  | actDiv => divide old value
  | _ => old

def integerBytes (width : Nat) (divide : BitVec (8 * width) → BitVec (8 * width) → BitVec (8 * width))
    (action : UInt8) (old value : List UInt8) : List UInt8 :=
  bytesOf width
    (integerAfter divide action (BitVec.ofNat _ (wordOf old)) (BitVec.ofNat _ (wordOf value))).toNat

def fieldAfter (type : Nat) (action : UInt8) (old value : List UInt8) : List UInt8 :=
  match type with
  | typeUint => integerBytes 4 BitVec.udiv action old value
  | typeInt => integerBytes 4 BitVec.sdiv action old value
  | typeUint16 => integerBytes 2 BitVec.udiv action old value
  | typeInt16 => integerBytes 2 BitVec.sdiv action old value
  | typeDouble =>
    if action.toNat = actSet then value
    else bytesOf 8 (updateDouble action.toNat (wordOf old) (wordOf value))
  | _ => if action.toNat = actSet then value else old

def LegalAction (type : Nat) (action : UInt8) (old value : List UInt8) : Prop :=
  action.toNat = actDiv → type ≤ typeInt16 → wordOf value ≠ 0 ∧
    ¬ (type = typeInt ∧ signed 4 (wordOf old) = -2 ^ 31 ∧ signed 4 (wordOf value) = -1)

def Legal (desc : TableDesc) (calls : List FieldCall) (row : Row) : Prop :=
  ∀ index field call, desc.fields[index]? = some field → lastCall calls index = some call →
    LegalAction field.type call.action (field.bytes row) call.uValue

theorem legal_nil (desc : TableDesc) (row : Row) : Legal desc [] row := by
  intro index field call found last
  cases last

/-- The values of the calls are as long as their fields. -/
def FullLength (desc : TableDesc) (calls : List FieldCall) : Prop :=
  ∀ call ∈ calls, ∀ field, desc.fields[call.fNum]? = some field →
    call.uValue.length = field.length

def calledField (calls : List FieldCall) (index : Nat) (field : FieldDesc) (old : List UInt8) :
    List UInt8 :=
  match lastCall calls index with
  | some call => fieldAfter field.type call.action old call.uValue
  | none => old

/-- The fields that were named are changed, each by its last action, and nothing else is. -/
structure Changed (desc : TableDesc) (calls : List FieldCall) (row result : Row) : Prop where
  length : result.length = row.length
  field : ∀ index field, desc.fields[index]? = some field →
    field.bytes result = calledField calls index field (field.bytes row)
  other : ∀ position < row.length,
    (∀ call ∈ calls, ∀ field, desc.fields[call.fNum]? = some field →
      position < field.offset ∨ field.offset + field.length ≤ position) →
    result[position]? = row[position]?

/-- The scan looks at the row and goes on. -/
def passed (filters : List Filter) (row : Row) : Bool := dataFilter filters row != .broken

/-! ### Integers -/

section Integers

theorem unsigned_action {width action old value : Nat} (oldLess : old < 256 ^ width)
    (valueLess : value < 256 ^ width) (legal : action = actDiv → value ≠ 0) (code : UInt8)
    (named : code.toNat = action) :
    (updateUnsigned width action old value).map (bytesOf width) =
      .ok (bytesOf width (integerAfter BitVec.udiv code (BitVec.ofNat (8 * width) old)
        (BitVec.ofNat (8 * width) value)).toNat) := by
  have size : 2 ^ (8 * width) = 256 ^ width := Nat.pow_mul 2 8 width
  have old' : old % 256 ^ width = old := Nat.mod_eq_of_lt oldLess
  have value' : value % 256 ^ width = value := Nat.mod_eq_of_lt valueLess
  have less : 256 ^ width - value + old = old + 256 ^ width - value := by omega
  unfold updateUnsigned integerAfter
  rw [named]
  split
  · simp only [Except.map, BitVec.toNat_ofNat, size, value']
  · simp only [Except.map, BitVec.toNat_add, BitVec.toNat_ofNat, size, old', value', bytesOf_mod]
  · simp only [Except.map, BitVec.toNat_sub, BitVec.toNat_ofNat, size, old', value', less,
      bytesOf_mod]
  · rw [if_neg (legal rfl)]
    simp only [Except.map, BitVec.udiv_eq, BitVec.toNat_udiv, BitVec.toNat_ofNat, size, old', value']
  · simp only [Except.map, BitVec.toNat_mul, BitVec.toNat_ofNat, size, old', value', bytesOf_mod]
  · simp only [Except.map, BitVec.toNat_ofNat, size, old']

theorem signed_eq {width word : Nat} (positive : 0 < width) (less : word < 256 ^ width) :
    signed width word = (BitVec.ofNat (8 * width) word).toInt := by
  have size : 2 ^ (8 * width) = 256 ^ width := Nat.pow_mul 2 8 width
  have even : 2 * (256 ^ width / 2) = 256 ^ width := by
    obtain ⟨width, rfl⟩ := Nat.exists_eq_add_one_of_ne_zero (Nat.ne_of_gt positive)
    rw [Nat.pow_succ]
    omega
  have word' : word % 256 ^ width = word := Nat.mod_eq_of_lt less
  rw [BitVec.toInt_eq_toNat_cond, BitVec.toNat_ofNat, size, word', signed]
  by_cases low : word < 256 ^ width / 2
  · rw [if_pos low, if_pos (by omega)]
  · rw [if_neg low, if_neg (by omega)]
    push_cast
    rfl

theorem ofInt_bmod (width : Nat) (value : Int) :
    BitVec.ofInt width (value.bmod (2 ^ width)) = BitVec.ofInt width value := by
  apply BitVec.eq_of_toInt_eq
  simp

theorem signed_action {width action old value : Nat} (positive : 0 < width)
    (oldLess : old < 256 ^ width) (valueLess : value < 256 ^ width)
    (legal : action = actDiv → value ≠ 0 ∧
      ¬ (width = 4 ∧ signed width old = -2 ^ 31 ∧ signed width value = -1)) (code : UInt8)
    (named : code.toNat = action) :
    (updateSigned width action (signed width old) (signed width value)).map
        (fun result => bytesOf width (result % 256 ^ width).toNat) =
      .ok (bytesOf width (integerAfter BitVec.sdiv code (BitVec.ofNat (8 * width) old)
        (BitVec.ofNat (8 * width) value)).toNat) := by
  have size : (2 : Nat) ^ (8 * width) = 256 ^ width := Nat.pow_mul 2 8 width
  have back (result : Int) : (result % 256 ^ width).toNat =
      (BitVec.ofInt (8 * width) result).toNat := by
    rw [BitVec.toNat_ofInt, size]
    push_cast
    rfl
  simp only [signed_eq positive oldLess, signed_eq positive valueLess] at legal ⊢
  have nonzero (legal : value ≠ 0) : (BitVec.ofNat (8 * width) value).toInt ≠ 0 := by
    have below : (value : Int) < 256 ^ width := by exact_mod_cast valueLess
    rw [← signed_eq positive valueLess, signed]
    split
    · omega
    · omega
  generalize BitVec.ofNat (8 * width) old = first at legal ⊢
  generalize BitVec.ofNat (8 * width) value = second at legal nonzero ⊢
  unfold updateSigned integerAfter
  rw [named]
  split
  · simp only [Except.map, back, BitVec.ofInt_toInt]
  · simp only [Except.map, back, BitVec.ofInt_add, BitVec.ofInt_toInt]
  · have minus : BitVec.ofInt (8 * width) (first.toInt - second.toInt) = first - second := by
      apply BitVec.eq_of_toInt_eq
      rw [BitVec.toInt_ofInt, BitVec.toInt_sub]
    simp only [Except.map, back, minus]
  · obtain ⟨divisor, overflow⟩ := legal rfl
    rw [if_neg (not_or.mpr ⟨nonzero divisor, overflow⟩)]
    have quotient : BitVec.ofInt (8 * width) (first.toInt.tdiv second.toInt) =
        first.sdiv second := by
      rw [← ofInt_bmod, ← BitVec.toInt_sdiv, BitVec.ofInt_toInt]
    simp only [Except.map, back, quotient]
  · simp only [Except.map, back, BitVec.ofInt_mul, BitVec.ofInt_toInt]
  · simp only [Except.map, back, BitVec.ofInt_toInt]

end Integers

/-! ### One field -/

section Field

variable {field : FieldDesc}

theorem bytesOf_word {width : Nat} {bytes : List UInt8} (length : bytes.length = width) :
    bytesOf width (wordOf bytes) = bytes := by
  rw [← length, bytesOf_wordOf]

theorem word_less {width : Nat} {bytes : List UInt8} (length : bytes.length = width) :
    wordOf bytes < 256 ^ width := length ▸ wordOf_lt bytes

/-- The action of a rule on a field is what the rule means. -/
theorem updateField_after {action : UInt8} {old value : List UInt8}
    (oldLength : old.length = field.width) (valueLength : value.length = field.width)
    (legal : LegalAction field.type action old value) :
    updateField field action.toNat old value = .ok (fieldAfter field.type action old value) := by
  obtain ⟨type, length, offset⟩ := field
  rcases type with _ | _ | _ | _ | _ | type
  · exact unsigned_action (word_less oldLength) (word_less valueLength)
      (fun divides => (legal divides (show 0 ≤ 3 by decide)).1) action rfl
  · exact @signed_action 4 _ _ _ (by decide) (word_less oldLength) (word_less valueLength)
      (fun divides => (legal divides (show 1 ≤ 3 by decide)).imp_right fun less same => less ⟨rfl, same.2⟩)
      action rfl
  · exact unsigned_action (word_less oldLength) (word_less valueLength)
      (fun divides => (legal divides (show 2 ≤ 3 by decide)).1) action rfl
  · exact @signed_action 2 _ _ _ (by decide) (word_less oldLength) (word_less valueLength)
      (fun divides => (legal divides (show 3 ≤ 3 by decide)).imp_right fun _ same => nomatch same.1)
      action rfl
  · have value' : bytesOf 8 (wordOf value) = value := bytesOf_word valueLength
    by_cases set : action.toNat = actSet
    · simp [updateField, fieldAfter, set, updateDouble, value']
    · simp [updateField, fieldAfter, set]
  · rfl

/-- `SET` copies the bytes. -/
theorem fieldAfter_set {action : UInt8} {old value : List UInt8}
    (valueLength : value.length = field.width) (set : action.toNat = actSet) :
    fieldAfter field.type action old value = value := by
  obtain ⟨type, length, offset⟩ := field
  have integer (width : Nat) (divide : BitVec (8 * width) → BitVec (8 * width) → BitVec (8 * width))
      (length : value.length = width) : integerBytes width divide action old value = value := by
    have value' : wordOf value % 2 ^ (8 * width) = wordOf value :=
      Nat.mod_eq_of_lt (by rw [Nat.pow_mul]; exact word_less length)
    unfold integerBytes integerAfter
    rw [set]
    exact (congrArg (bytesOf width) value').trans (bytesOf_word length)
  rcases type with _ | _ | _ | _ | _ | type
  · exact integer 4 _ valueLength
  · exact integer 4 _ valueLength
  · exact integer 2 _ valueLength
  · exact integer 2 _ valueLength
  · exact if_pos set
  · exact if_pos set

theorem fieldAfter_none {action : UInt8} {old value : List UInt8}
    (oldLength : old.length = field.width) (none : action.toNat = actNone) :
    fieldAfter field.type action old value = old := by
  obtain ⟨type, length, offset⟩ := field
  have integer (width : Nat) (divide : BitVec (8 * width) → BitVec (8 * width) → BitVec (8 * width))
      (length : old.length = width) : integerBytes width divide action old value = old := by
    have old' : wordOf old % 2 ^ (8 * width) = wordOf old :=
      Nat.mod_eq_of_lt (by rw [Nat.pow_mul]; exact word_less length)
    unfold integerBytes integerAfter
    rw [none]
    exact (congrArg (bytesOf width) old').trans (bytesOf_word length)
  rcases type with _ | _ | _ | _ | _ | type
  · exact integer 4 _ oldLength
  · exact integer 4 _ oldLength
  · exact integer 2 _ oldLength
  · exact integer 2 _ oldLength
  · have old' : bytesOf 8 (wordOf old) = old := bytesOf_word oldLength
    simp [fieldAfter, none, updateDouble, old']
  · simp [fieldAfter, none]

theorem fieldAfter_length {action : UInt8} {old value : List UInt8}
    (oldLength : old.length = field.width) (valueLength : value.length = field.width) :
    (fieldAfter field.type action old value).length = field.width := by
  obtain ⟨type, length, offset⟩ := field
  have either (condition : Prop) [Decidable condition] (first second : List UInt8) (width : Nat)
      (length : first.length = width) (length' : second.length = width) :
      (if condition then first else second).length = width := by
    split
    · exact length
    · exact length'
  rcases type with _ | _ | _ | _ | _ | type
  · exact bytesOf_length ..
  · exact bytesOf_length ..
  · exact bytesOf_length ..
  · exact bytesOf_length ..
  · exact either _ _ _ _ valueLength (bytesOf_length ..)
  · exact either _ _ _ _ valueLength oldLength

end Field

/-! ### Rows of fields -/

/-- Fields that follow each other from an offset on. -/
def Consecutive : Nat → List FieldDesc → Prop
  | _, [] => True
  | start, field :: rest => field.offset = start ∧ Consecutive (start + field.length) rest

theorem consecutive_placed {curOffset : Nat} {fields : List FieldDesc}
    (small : curOffset + totalLength fields < 2 ^ 32) :
    Consecutive curOffset (placeFields curOffset fields).1 := by
  induction fields generalizing curOffset with
  | nil => trivial
  | cons field rest ih =>
    have total : totalLength (field :: rest) = field.length + totalLength rest := by
      simp [totalLength]
    rw [total] at small
    have next : (curOffset + field.length) % 2 ^ 32 = curOffset + field.length :=
      Nat.mod_eq_of_lt (by omega)
    refine ⟨rfl, ?_⟩
    simp only [next]
    exact ih (by omega)

/-- What is made of the fields in a part of a row, one after the other. -/
def mapFields (after : Nat → FieldDesc → List UInt8 → List UInt8) :
    Nat → List FieldDesc → List UInt8 → List UInt8
  | _, [], _ => []
  | index, field :: rest, part =>
    after index field (part.take field.length) ++
      mapFields after (index + 1) rest (part.drop field.length)

section Fields

variable {after : Nat → FieldDesc → List UInt8 → List UInt8}

def KeepsLength (after : Nat → FieldDesc → List UInt8 → List UInt8) (index : Nat)
    (fields : List FieldDesc) : Prop :=
  ∀ (place : Nat) (field : FieldDesc), fields[place]? = some field →
    ∀ old, old.length = field.length → (after (index + place) field old).length = field.length

theorem KeepsLength.head {index : Nat} {first : FieldDesc} {rest : List FieldDesc}
    (keeps : KeepsLength after index (first :: rest)) {old : List UInt8}
    (length : old.length = first.length) : (after index first old).length = first.length :=
  keeps 0 first rfl old length

theorem KeepsLength.tail {index : Nat} {first : FieldDesc} {rest : List FieldDesc}
    (keeps : KeepsLength after index (first :: rest)) : KeepsLength after (index + 1) rest := by
  intro place field found old length
  have next : index + 1 + place = index + (place + 1) := by omega
  rw [next]
  exact keeps (place + 1) field found old length

theorem totalLength_cons (field : FieldDesc) (rest : List FieldDesc) :
    totalLength (field :: rest) = field.length + totalLength rest := by
  simp [totalLength]

theorem mapFields_length {index : Nat} {fields : List FieldDesc}
    (keeps : KeepsLength after index fields) {part : List UInt8}
    (length : part.length = totalLength fields) :
    (mapFields after index fields part).length = part.length := by
  induction fields generalizing index part with
  | nil => exact length.symm
  | cons field rest ih =>
    rw [totalLength_cons] at length
    have first : (part.take field.length).length = field.length := by
      rw [List.length_take]
      omega
    have later : (part.drop field.length).length = totalLength rest := by
      rw [List.length_drop]
      omega
    rw [mapFields, List.length_append, keeps.head first, ih keeps.tail later, List.length_drop]
    omega

/-- A field of the changed row is made of the field of the row; what stands in front is of no
account. -/
theorem mapFields_field {fields : List FieldDesc} {start index place : Nat}
    (keeps : KeepsLength after index fields) {front front' part : List UInt8} {field : FieldDesc}
    (placed : Consecutive start fields) (frontLength : front.length = start)
    (frontLength' : front'.length = start) (length : part.length = totalLength fields)
    (found : fields[place]? = some field) :
    field.bytes (front' ++ mapFields after index fields part) =
      after (index + place) field (field.bytes (front ++ part)) := by
  induction fields generalizing start index place front front' part with
  | nil => cases found
  | cons first rest ih =>
    rw [totalLength_cons] at length
    obtain ⟨offset, placed⟩ := placed
    have here : (part.take first.length).length = first.length := by
      rw [List.length_take]
      omega
    have later : (part.drop first.length).length = totalLength rest := by
      rw [List.length_drop]
      omega
    have changed := keeps.head here
    cases place with
    | zero =>
      cases found
      have old : field.bytes (front ++ part) = part.take field.length := by
        rw [FieldDesc.bytes, offset, List.drop_left' frontLength]
      rw [old, FieldDesc.bytes, offset, List.drop_left' frontLength', mapFields,
        List.take_left' changed]
      rfl
    | succ place =>
      have split : front ++ part =
          (front ++ part.take first.length) ++ part.drop first.length := by
        rw [List.append_assoc, List.take_append_drop]
      have next : index + (place + 1) = index + 1 + place := by omega
      rw [split, mapFields, ← List.append_assoc, next]
      refine ih keeps.tail placed ?_ ?_ later found
      · rw [List.length_append, here, frontLength]
      · rw [List.length_append, changed, frontLength']

/-- Every byte of a row of fields is a byte of one of them. -/
theorem consecutive_covers {fields : List FieldDesc} {start position : Nat}
    (placed : Consecutive start fields) (above : start ≤ position)
    (below : position < start + totalLength fields) :
    ∃ (place : Nat) (field : FieldDesc), fields[place]? = some field ∧ field.offset ≤ position ∧
      position < field.offset + field.length := by
  induction fields generalizing start with
  | nil =>
    have none : totalLength [] = 0 := rfl
    omega
  | cons first rest ih =>
    rw [totalLength_cons] at below
    obtain ⟨offset, placed⟩ := placed
    by_cases inside : position < start + first.length
    · exact ⟨0, first, rfl, offset ▸ above, by omega⟩
    · obtain ⟨place, field, found, inField⟩ := ih placed (by omega) (by omega)
      exact ⟨place + 1, field, found, inField⟩

theorem consecutive_inside {fields : List FieldDesc} {start place : Nat} {field : FieldDesc}
    (placed : Consecutive start fields) (found : fields[place]? = some field) :
    start ≤ field.offset ∧ field.offset + field.length ≤ start + totalLength fields := by
  induction fields generalizing start place with
  | nil => cases found
  | cons first rest ih =>
    rw [totalLength_cons]
    obtain ⟨offset, placed⟩ := placed
    cases place with
    | zero =>
      cases found
      omega
    | succ place =>
      have inside := ih placed found
      omega

/-- A field behind the front of a row does not depend on it. -/
theorem bytes_behind {field : FieldDesc} {front front' part : List UInt8}
    (same : front.length = front'.length) (behind : front.length ≤ field.offset) :
    field.bytes (front ++ part) = field.bytes (front' ++ part) := by
  have front_nil : front.drop field.offset = [] := List.drop_eq_nil_of_le behind
  have front_nil' : front'.drop field.offset = [] := List.drop_eq_nil_of_le (same ▸ behind)
  rw [FieldDesc.bytes, FieldDesc.bytes, List.drop_append, List.drop_append, front_nil, front_nil',
    same]

/-- The loop over the fields changes one after the other. -/
theorem foldlM_fields {fieldNum : Nat} {message : List UInt8} {fields : List FieldDesc}
    {start index : Nat} (keeps : KeepsLength after index fields) {front part : List UInt8}
    (placed : Consecutive start fields) (frontLength : front.length = start)
    (length : part.length = totalLength fields)
    (each : ∀ place field, fields[place]? = some field → ∀ before behind : List UInt8,
      before.length = field.offset →
      updateRowField fieldNum message (before ++ (field.bytes (front ++ part) ++ behind))
          (field, index + place) =
        .ok (before ++ (after (index + place) field (field.bytes (front ++ part)) ++ behind))) :
    (fields.zipIdx index).foldlM (updateRowField fieldNum message) (front ++ part) =
      .ok (front ++ mapFields after index fields part) := by
  induction fields generalizing start index front part with
  | nil =>
    have nil : part = [] := List.eq_nil_of_length_eq_zero length
    subst nil
    rfl
  | cons first rest ih =>
    rw [totalLength_cons] at length
    obtain ⟨offset, placed⟩ := placed
    have here : (part.take first.length).length = first.length := by
      rw [List.length_take]
      omega
    have later : (part.drop first.length).length = totalLength rest := by
      rw [List.length_drop]
      omega
    have changed := keeps.head here
    have old : first.bytes (front ++ part) = part.take first.length := by
      rw [FieldDesc.bytes, offset, List.drop_left' frontLength]
    have split : front ++ part = (front ++ part.take first.length) ++ part.drop first.length := by
      rw [List.append_assoc, List.take_append_drop]
    have moved : updateRowField fieldNum message (front ++ part) (first, index) =
        .ok (front ++ (after index first (part.take first.length) ++ part.drop first.length)) := by
      have moved := each 0 first rfl front (part.drop first.length) (frontLength.trans offset.symm)
      rwa [old, List.take_append_drop] at moved
    rw [List.zipIdx_cons, List.foldlM_cons, moved]
    show List.foldlM _ (front ++ _) _ = _
    rw [mapFields, ← List.append_assoc, ← List.append_assoc]
    have frontLength' : (front ++ after index first (part.take first.length)).length =
        start + first.length := by
      rw [List.length_append, changed, frontLength]
    refine ih keeps.tail placed frontLength' later fun place field found before behind beforeLength => ?_
    have next : index + (place + 1) = index + 1 + place := by omega
    have step := each (place + 1) field found before behind beforeLength
    have same : field.bytes (front ++ part) = field.bytes
        ((front ++ after index first (part.take first.length)) ++ part.drop first.length) := by
      rw [split]
      refine bytes_behind ?_ ?_
      · rw [List.length_append, List.length_append, here, changed]
      · rw [List.length_append, here, frontLength]
        exact (consecutive_inside placed found).1
    rwa [same, next] at step

end Fields

/-! ### What the library writes -/

section Writing

variable {desc : TableDesc} {calls : List FieldCall}

theorem overwrite_getElem? {row bytes : List UInt8} {start position : Nat}
    (inside : start + bytes.length ≤ row.length) :
    (overwrite row start bytes)[position]? =
      if start ≤ position ∧ position < start + bytes.length then bytes[position - start]?
      else row[position]? := by
  have front : (row.take start).length = start := by
    rw [List.length_take]
    omega
  unfold overwrite
  rw [List.append_assoc]
  by_cases before : position < start
  · rw [if_neg (by omega), List.getElem?_append_left (by omega), List.getElem?_take_of_lt before]
  · rw [List.getElem?_append_right (by omega), front]
    by_cases written : position < start + bytes.length
    · rw [if_pos ⟨by omega, written⟩, List.getElem?_append_left (by omega)]
    · rw [if_neg (by omega), List.getElem?_append_right (by omega), List.getElem?_drop]
      congr 1
      omega

/-- Bytes that an assignment does not reach. -/
theorem take_drop_congr {first second : List UInt8} {start count : Nat}
    (same : ∀ position, start ≤ position → position < start + count →
      first[position]? = second[position]?) :
    (first.drop start).take count = (second.drop start).take count := by
  apply List.ext_getElem?
  intro position
  simp only [List.getElem?_take, List.getElem?_drop]
  split
  · exact same _ (by omega) (by omega)
  · rfl

theorem lastCall_append (past : List FieldCall) (call : FieldCall) (index : Nat) :
    lastCall (past ++ [call]) index = if call.fNum = index then some call else lastCall past index := by
  unfold lastCall
  rw [List.reverse_append, List.reverse_singleton, List.singleton_append, List.find?_cons]
  by_cases same : call.fNum = index
  · simp [same]
  · rw [if_neg same]
    simp [beq_eq_false_iff_ne.mpr same]

/-- The fields of a table lie one behind the other. -/
structure TableDesc.Aligned (desc : TableDesc) : Prop where
  placed : Consecutive 0 desc.fields
  total : desc.rowLen = totalLength desc.fields
  metered : ∀ field ∈ desc.fields, field.width = field.length

theorem TableDesc.Tiled.aligned (tiled : desc.Tiled) (small : totalLength desc.fields < 2 ^ 32) :
    desc.Aligned := by
  obtain ⟨metered, source, placed, total⟩ := tiled
  have ending := (@placeFields_inside 0 source (by omega)).1
  have consecutive := @consecutive_placed 0 source (by omega)
  rw [placed] at ending consecutive
  exact ⟨consecutive, by simpa [total] using ending, fun field member => (metered field member).1⟩

theorem ClientBuilt.aligned (built : ClientBuilt desc) (small : totalLength desc.fields < 2 ^ 32) :
    desc.Aligned :=
  built.tiled.aligned small

theorem consecutive_apart {fields : List FieldDesc} {start place place' : Nat}
    {field field' : FieldDesc} (placed : Consecutive start fields) (before : place < place')
    (found : fields[place]? = some field) (found' : fields[place']? = some field') :
    field.offset + field.length ≤ field'.offset := by
  induction fields generalizing start place place' with
  | nil => cases found
  | cons first rest ih =>
    obtain ⟨offset, placed⟩ := placed
    cases place' with
    | zero => cases before
    | succ place' =>
      cases place with
      | zero =>
        cases found
        rw [offset]
        exact (consecutive_inside placed found').1
      | succ place => exact ih placed (Nat.lt_of_succ_lt_succ before) found found'

/-- What stands in a rule after the calls. -/
structure RuleHolds (desc : TableDesc) (calls : List FieldCall) (uRule : List UInt8) : Prop where
  length : uRule.length = 4 + desc.fieldNum + desc.rowLen
  size : uRule.take 4 = bytesOf 4 (4 + desc.fieldNum + desc.rowLen)
  action : ∀ index field, desc.fields[index]? = some field → uRule.getD (4 + index) 0 =
    if field.length = 0 then 0 else ((lastCall calls index).map FieldCall.action).getD 0
  value : ∀ index field call, desc.fields[index]? = some field → lastCall calls index = some call →
    (uRule.drop (4 + desc.fieldNum + field.offset)).take field.length = call.uValue

theorem header_holds (desc : TableDesc) : RuleHolds desc [] (getUpdateHeader desc) where
  length := getUpdateHeader_length desc
  size := List.take_left' (bytesOf_length ..)
  action index field found := by
    rw [getUpdateHeader_action desc (List.getElem?_eq_some_iff.mp found).1]
    split
    · rfl
    · rfl
  value index field call found last := nomatch last

/-- A call for a field without bytes, or for none, leaves what stands in the rule. -/
theorem RuleHolds.idle {past : List FieldCall} {uRule : List UInt8} {call : FieldCall}
    (holds : RuleHolds desc past uRule)
    (full : ∀ field, desc.fields[call.fNum]? = some field → call.uValue.length = field.length)
    (none : ∀ field, desc.fields[call.fNum]? = some field → field.length = 0) :
    RuleHolds desc (past ++ [call]) uRule where
  length := holds.length
  size := holds.size
  action index field found := by
    rw [lastCall_append, holds.action index field found]
    by_cases here : call.fNum = index
    · have none := none field (here ▸ found)
      rw [if_pos none, if_pos none]
    · rw [if_neg here]
  value index field last found lasts := by
    rw [lastCall_append] at lasts
    by_cases here : call.fNum = index
    · rw [if_pos here] at lasts
      cases lasts
      have length := full field (here ▸ found)
      have none := none field (here ▸ found)
      rw [none, List.take_zero, List.eq_nil_of_length_eq_zero (length.trans none)]
    · rw [if_neg here] at lasts
      exact holds.value index field last found lasts

/-- The rule with the value and the action of a call for the field. -/
def ruleWith (desc : TableDesc) (uRule : List UInt8) (field : FieldDesc) (call : FieldCall) :
    List UInt8 :=
  (overwrite uRule (4 + desc.fieldNum + field.offset) call.uValue).set (4 + call.fNum) call.action

/-- A value for a field that has bytes is written into the rule. -/
structure Writes (desc : TableDesc) (past : List FieldCall) (uRule : List UInt8)
    (field : FieldDesc) (call : FieldCall) : Prop where
  aligned : desc.Aligned
  holds : RuleHolds desc past uRule
  named : desc.fields[call.fNum]? = some field
  full : call.uValue.length = field.length
  bytes : field.length ≠ 0

namespace Writes

variable {past : List FieldCall} {uRule : List UInt8} {field : FieldDesc} {call : FieldCall}
  (writes : Writes desc past uRule field call)
include writes

theorem room : 4 + desc.fieldNum + field.offset + call.uValue.length ≤ uRule.length := by
  have inside := (consecutive_inside writes.aligned.placed writes.named).2
  rw [writes.holds.length, writes.full, writes.aligned.total]
  omega

theorem below : call.fNum < desc.fieldNum := (List.getElem?_eq_some_iff.mp writes.named).1

theorem done : setUpdateField desc uRule call = .ok (ruleWith desc uRule field call, .ok) := by
  have nonempty : call.uValue ≠ [] := by
    intro empty
    have full := writes.full
    rw [empty, List.length_nil] at full
    exact writes.bytes full.symm
  unfold setUpdateField
  simp only [if_neg nonempty, writes.named, if_neg (Nat.not_lt.mpr (Nat.le_of_eq writes.full)),
    if_neg (Nat.not_lt.mpr writes.room)]
  rfl

theorem length : (ruleWith desc uRule field call).length = uRule.length := by
  rw [ruleWith, List.length_set, overwrite_length writes.room]

/-- The byte at a position of the new rule. -/
theorem written (position : Nat) : (ruleWith desc uRule field call)[position]? =
    if 4 + call.fNum = position then some call.action
    else if 4 + desc.fieldNum + field.offset ≤ position ∧
        position < 4 + desc.fieldNum + field.offset + call.uValue.length then
      call.uValue[position - (4 + desc.fieldNum + field.offset)]?
    else uRule[position]? := by
  have room := writes.room
  have below := writes.below
  rw [ruleWith, List.getElem?_set, overwrite_length room, overwrite_getElem? room]
  by_cases here : 4 + call.fNum = position
  · rw [if_pos here, if_pos here, if_pos (by omega)]
  · rw [if_neg here, if_neg here]

theorem action {index : Nat} {other : FieldDesc} (found : desc.fields[index]? = some other) :
    (ruleWith desc uRule field call).getD (4 + index) 0 = if other.length = 0 then 0
      else ((lastCall (past ++ [call]) index).map FieldCall.action).getD 0 := by
  have below : index < desc.fieldNum := (List.getElem?_eq_some_iff.mp found).1
  rw [List.getD_eq_getElem?_getD, writes.written, lastCall_append]
  by_cases here : call.fNum = index
  · subst here
    rw [writes.named] at found
    cases found
    rw [if_pos rfl, if_pos rfl, if_neg writes.bytes]
    rfl
  · rw [if_neg (by omega), if_neg (by omega), if_neg here, ← List.getD_eq_getElem?_getD]
    exact writes.holds.action index other found

theorem value {index : Nat} {other : FieldDesc} {last : FieldCall}
    (found : desc.fields[index]? = some other)
    (lasts : lastCall (past ++ [call]) index = some last) :
    ((ruleWith desc uRule field call).drop (4 + desc.fieldNum + other.offset)).take other.length =
      last.uValue := by
  have below := writes.below
  have full := writes.full
  rw [lastCall_append] at lasts
  by_cases here : call.fNum = index
  · subst here
    rw [if_pos rfl] at lasts
    cases lasts
    rw [writes.named] at found
    cases found
    apply List.ext_getElem?
    intro position
    have here := writes.written (4 + desc.fieldNum + field.offset + position)
    rw [if_neg (by omega)] at here
    rw [List.getElem?_take, List.getElem?_drop, here]
    by_cases inside : position < field.length
    · rw [if_pos inside, if_pos (by omega), Nat.add_sub_cancel_left]
    · rw [if_neg inside, List.getElem?_eq_none_iff.mpr (by omega)]
  · rw [if_neg here] at lasts
    rw [← writes.holds.value index other last found lasts]
    refine take_drop_congr fun position above before => ?_
    rw [writes.written, if_neg (by omega)]
    rcases Nat.lt_or_gt_of_ne here with less | greater
    · have apart := consecutive_apart writes.aligned.placed less writes.named found
      rw [if_neg (by omega)]
    · have apart := consecutive_apart writes.aligned.placed greater found writes.named
      rw [if_neg (by omega)]

theorem rule : RuleHolds desc (past ++ [call]) (ruleWith desc uRule field call) where
  length := writes.length.trans writes.holds.length
  size := by
    have below := writes.below
    rw [← writes.holds.size]
    refine @take_drop_congr _ _ 0 4 fun position _ before => (writes.written position).trans ?_
    rw [if_neg (by omega), if_neg (by omega)]
  action _ _ found := writes.action found
  value _ _ _ found lasts := writes.value found lasts

end Writes

theorem call_holds (aligned : desc.Aligned) {past : List FieldCall} {uRule : List UInt8}
    (holds : RuleHolds desc past uRule) {call : FieldCall}
    (full : ∀ field, desc.fields[call.fNum]? = some field → call.uValue.length = field.length) :
    ∃ next, (setUpdateField desc uRule call).map Prod.fst = .ok next ∧
      RuleHolds desc (past ++ [call]) next := by
  by_cases empty : call.uValue = []
  · refine ⟨uRule, ?_, holds.idle full fun field named => ?_⟩
    · unfold setUpdateField
      rw [if_pos empty]
      rfl
    · rw [← full field named, empty, List.length_nil]
  · cases named : desc.fields[call.fNum]? with
    | none =>
      refine ⟨uRule, ?_, holds.idle full fun field found => ?_⟩
      · unfold setUpdateField
        rw [if_neg empty, named]
        rfl
      · rw [named] at found
        cases found
    | some field =>
      have length := full field named
      have some : field.length ≠ 0 := fun none =>
        empty (List.eq_nil_of_length_eq_zero (length.trans none))
      have writes : Writes desc past uRule field call := ⟨aligned, holds, named, length, some⟩
      exact ⟨_, congrArg (Except.map Prod.fst) writes.done, writes.rule⟩

/-- What stands in a rule after all calls. -/
theorem calls_hold (aligned : desc.Aligned) {past : List FieldCall} {uRule : List UInt8}
    (holds : RuleHolds desc past uRule) (full : FullLength desc calls) :
    ∃ next, setUpdateFields desc uRule calls = .ok next ∧ RuleHolds desc (past ++ calls) next := by
  induction calls generalizing past uRule with
  | nil => exact ⟨uRule, rfl, by rwa [List.append_nil]⟩
  | cons call rest ih =>
    obtain ⟨middle, first, holds'⟩ := call_holds aligned holds (full call List.mem_cons_self)
    obtain ⟨next, later, holds''⟩ :=
      ih holds' fun other member => full other (List.mem_cons_of_mem call member)
    refine ⟨next, ?_, by simpa using holds''⟩
    unfold setUpdateFields at later ⊢
    rw [List.foldlM_cons, first]
    exact later

end Writing

/-! ### What the server reads -/

section Reading

variable {desc : TableDesc} {calls : List FieldCall} {uRule : List UInt8}

/-- The value of the last call for a field is as long as the field. -/
theorem FullLength.last (full : FullLength desc calls) {index : Nat} {field : FieldDesc}
    {call : FieldCall} (found : desc.fields[index]? = some field)
    (last : lastCall calls index = some call) : call.uValue.length = field.length := by
  have member : call ∈ calls := List.mem_reverse.mp (List.mem_of_find?_eq_some last)
  have named := @List.find?_some _ (fun call : FieldCall => call.fNum == index) _ _ last
  exact full call member field (beq_iff_eq.mp named ▸ found)

theorem calledField_length (aligned : desc.Aligned) (full : FullLength desc calls) :
    KeepsLength (calledField calls) 0 desc.fields := by
  intro place field found old length
  rw [Nat.zero_add]
  have width := aligned.metered field (List.mem_of_getElem? found)
  unfold calledField
  split
  · next call last =>
    rw [← width]
    exact fieldAfter_length (length.trans width.symm) ((full.last found last).trans width.symm)
  · exact length

/-- The loop over the fields does what the calls asked for. -/
theorem updateRow_calls (aligned : desc.Aligned) (full : FullLength desc calls)
    (holds : RuleHolds desc calls uRule) {row : Row} (length : row.length = desc.rowLen)
    (legal : Legal desc calls row) :
    updateRow desc uRule row = .ok (mapFields (calledField calls) 0 desc.fields row) := by
  refine @foldlM_fields _ desc.fieldNum uRule desc.fields 0 0 (calledField_length aligned full)
    [] row aligned.placed rfl (length.trans aligned.total) ?_
  intro place field found before behind beforeLength
  rw [Nat.zero_add, List.nil_append]
  have width := aligned.metered field (List.mem_of_getElem? found)
  have inside := (consecutive_inside aligned.placed found).2
  have oldLength : (field.bytes row).length = field.width := by
    rw [FieldDesc.bytes, List.length_take, List.length_drop, length, aligned.total]
    omega
  have action := holds.action place field found
  unfold updateRowField
  simp only [action]
  by_cases empty : field.length = 0
  · have idle : UInt8.toNat 0 = actNone := rfl
    rw [if_pos empty, if_pos idle]
    have nil : field.bytes row = [] := List.eq_nil_of_length_eq_zero (by omega)
    have after := calledField_length aligned full place field found [] (by rw [empty]; rfl)
    rw [Nat.zero_add] at after
    rw [nil, List.eq_nil_of_length_eq_zero (after.trans empty)]
  · rw [if_neg empty]
    have old : ((before ++ (field.bytes row ++ behind)).drop field.offset).take field.width =
        field.bytes row := by
      rw [List.drop_left' beforeLength, List.take_left' oldLength]
    unfold calledField
    cases last : lastCall calls place with
    | none => exact if_pos rfl
    | some call =>
      have valueLength := (full.last found last).trans width.symm
      have value := holds.value place field call found last
      simp only [Option.map_some, Option.getD_some]
      by_cases none : call.action.toNat = actNone
      · rw [if_pos none, fieldAfter_none oldLength none]
      · rw [if_neg none, old, width, value,
          updateField_after oldLength valueLength (legal place field call found last)]
        have after : (fieldAfter field.type call.action (field.bytes row) call.uValue).length =
            field.width := fieldAfter_length oldLength valueLength
        simp only [Except.map, overwrite, Except.ok.injEq]
        rw [List.take_left' beforeLength, after, List.append_assoc, ← List.drop_drop,
          List.drop_left' beforeLength, List.drop_left' oldLength]

/-- The fields that were named are changed, and nothing else is. -/
theorem mapFields_changed (aligned : desc.Aligned) (full : FullLength desc calls) {row : Row}
    (length : row.length = desc.rowLen) :
    Changed desc calls row (mapFields (calledField calls) 0 desc.fields row) := by
  have keeps := calledField_length aligned full
  have total := length.trans aligned.total
  have field (index : Nat) (field : FieldDesc) (found : desc.fields[index]? = some field) :
      field.bytes (mapFields (calledField calls) 0 desc.fields row) =
        calledField calls index field (field.bytes row) := by
    have changed := @mapFields_field _ _ 0 0 index keeps [] [] row field aligned.placed rfl rfl
      total found
    rwa [Nat.zero_add, List.nil_append, List.nil_append] at changed
  refine ⟨mapFields_length keeps total, field, fun position below others => ?_⟩
  obtain ⟨index, entry, found, above, before⟩ :=
    consecutive_covers aligned.placed (Nat.zero_le position) (by omega)
  have uncalled : lastCall calls index = none := by
    refine List.find?_eq_none.mpr fun call member named => ?_
    have named : call.fNum = index := beq_iff_eq.mp named
    have apart := others call (List.mem_reverse.mp member) entry (named ▸ found)
    omega
  have same := congrArg (fun bytes : List UInt8 => bytes[position - entry.offset]?)
    (field index entry found)
  simp only [calledField, uncalled, FieldDesc.bytes, List.getElem?_take, List.getElem?_drop] at same
  rwa [if_pos (by omega), if_pos (by omega), Nat.add_sub_cancel' above] at same

end Reading

/-! ### Rules that fit -/

/-- A scan that is not cut short looks at the rows in front of the first that a strict filter
refuses. -/
theorem changeRows_each {desc : TableDesc} {filters : List Filter} {change : Change}
    (many : change.single = false) {changed : Row → Row → Prop} {rows : List Row}
    (each : ∀ row ∈ rows, dataFilter filters row = .pass →
      ∃ result, change.apply desc row = .ok result ∧ changed row result) :
    ∃ front, changeRows desc filters change rows.length rows =
        .ok (front ++ rows.dropWhile (passed filters), 0) ∧
      List.Forall₂ (fun row result =>
        if dataFilter filters row = .pass then changed row result else result = row)
        (rows.takeWhile (passed filters)) front := by
  induction rows with
  | nil => exact ⟨[], rfl, .nil⟩
  | cons row rest ih =>
    obtain ⟨front, scanned, same⟩ :=
      ih fun other member => each other (List.mem_cons_of_mem row member)
    rw [List.length_cons]
    simp only [changeRows, many, Bool.false_eq_true, if_false, scanned]
    cases verdict : dataFilter filters row with
    | broken =>
      refine ⟨[], ?_, ?_⟩
      · rw [List.dropWhile_cons_of_neg (by simp [passed, verdict])]
        rfl
      · rw [List.takeWhile_cons_of_neg (by simp [passed, verdict])]
        exact .nil
    | skip =>
      refine ⟨row :: front, ?_, ?_⟩
      · rw [List.dropWhile_cons_of_pos (by simp [passed, verdict])]
        rfl
      · rw [List.takeWhile_cons_of_pos (by simp [passed, verdict])]
        exact .cons (by rw [if_neg (by simp [verdict])]) same
    | pass =>
      obtain ⟨result, applied, changes⟩ := each row List.mem_cons_self verdict
      refine ⟨result :: front, ?_, ?_⟩
      · rw [List.dropWhile_cons_of_pos (by simp [passed, verdict])]
        simp only [applied]
        rfl
      · rw [List.takeWhile_cons_of_pos (by simp [passed, verdict])]
        exact .cons (by rwa [if_pos verdict]) same

section Fit

variable {desc : TableDesc} {calls : List FieldCall} {uRule : List UInt8}

theorem updateMessage_whole (holds : RuleHolds desc calls uRule)
    (small : 4 + desc.fieldNum + desc.rowLen < 2 ^ 32) : updateMessage uRule = uRule := by
  have size : wordOf (uRule.take 4) = uRule.length := by
    rw [holds.size, wordOf_bytesOf, holds.length]
    exact Nat.mod_eq_of_lt small
  rw [updateMessage, size, List.take_length]

theorem arrived_length (behind : Block) (message : List UInt8) :
    (arrived behind message).length = message.length := by
  rw [arrived, List.length_append, List.length_take, readBytes_length]
  omega

theorem arrived_short (behind : Block) {message : List UInt8} (short : message.length ≤ msgRoom) :
    arrived behind message = message := by
  rw [arrived, Nat.sub_eq_zero_of_le short, List.take_of_length_le short]
  exact List.append_nil message

/-- A rule that the server receives whole changes a row as it was asked to. -/
theorem whole_rule_changes (aligned : desc.Aligned) (fit : 4 + desc.fieldNum + desc.rowLen ≤ msgRoom)
    (full : FullLength desc calls) (holds : RuleHolds desc calls uRule) (behind : Block) {row : Row}
    (length : row.length = desc.rowLen) (legal : Legal desc calls row) :
    ∃ result, updateRow desc (arrived behind (updateMessage uRule)) row = .ok result ∧
      Changed desc calls row result := by
  rw [updateMessage_whole holds (Nat.lt_of_le_of_lt fit (by decide)),
    arrived_short behind (holds.length ▸ fit)]
  exact ⟨_, updateRow_calls aligned full holds length legal, mapFields_changed aligned full length⟩

/-- The last byte of a row is in a field, which ends there. -/
theorem last_field (aligned : desc.Aligned) (bytes : totalLength desc.fields ≠ 0) :
    ∃ (index : Nat) (field : FieldDesc), desc.fields[index]? = some field ∧
      0 < field.length ∧ field.offset + field.length = desc.rowLen := by
  obtain ⟨index, field, found, above, below⟩ :=
    @consecutive_covers _ 0 (totalLength desc.fields - 1) aligned.placed (Nat.zero_le _) (by omega)
  have inside := (consecutive_inside aligned.placed found).2
  have total := aligned.total
  exact ⟨index, field, found, by omega, by omega⟩

end Fit

/-! ### Rules that do not fit -/

/-- Offsets that pass 2^32 leave a field that ends behind the row. -/
theorem placeFields_wraps {curOffset : Nat} {fields : List FieldDesc} (start : curOffset < 2 ^ 32) :
    (placeFields curOffset fields).2 < 2 ^ 32 ∧
      (2 ^ 32 ≤ curOffset + totalLength fields →
        ∃ (index : Nat) (field : FieldDesc), (placeFields curOffset fields).1[index]? = some field ∧
          field.offset < 2 ^ 32 ∧ 2 ^ 32 ≤ field.offset + field.length) := by
  induction fields generalizing curOffset with
  | nil =>
    have none : totalLength [] = 0 := rfl
    exact ⟨start, fun wraps => by omega⟩
  | cons field rest ih =>
    have next := @ih ((curOffset + field.length) % 2 ^ 32) (Nat.mod_lt _ (by decide))
    refine ⟨next.1, fun wraps => ?_⟩
    rw [totalLength_cons] at wraps
    by_cases here : 2 ^ 32 ≤ curOffset + field.length
    · exact ⟨0, _, rfl, start, here⟩
    · have same : (curOffset + field.length) % 2 ^ 32 = curOffset + field.length :=
        Nat.mod_eq_of_lt (Nat.not_le.mp here)
      rw [same] at next
      obtain ⟨index, other, found, outside⟩ := next.2 (by omega)
      refine ⟨index + 1, other, ?_, outside⟩
      simp only [placeFields, same]
      exact found

section Failing

variable {desc : TableDesc}

/-- A value of ones for a field. -/
def onesFor (index : Nat) (field : FieldDesc) : FieldCall :=
  ⟨index, List.replicate field.length 1, UInt8.ofNat actSet⟩

theorem onesFor_full {index : Nat} {field : FieldDesc} (found : desc.fields[index]? = some field) :
    FullLength desc [onesFor index field] := by
  intro call member other named
  rw [List.mem_singleton.mp member] at named ⊢
  rw [show desc.fields[(onesFor index field).fNum]? = some field from found] at named
  cases named
  exact List.length_replicate

/-- A value for a field that ends behind the row is written behind the rule. -/
theorem wrapped_value_is_wild (built : ClientBuilt desc) (wraps : 2 ^ 32 ≤ totalLength desc.fields) :
    ∃ (index : Nat) (field : FieldDesc), desc.fields[index]? = some field ∧
      setUpdateField desc (getUpdateHeader desc) (onesFor index field) = .error .wild := by
  obtain ⟨-, source, placed, total⟩ := built.tiled
  have wrapped := @placeFields_wraps 0 source (by decide)
  rw [placed] at wrapped
  obtain ⟨index, field, found, start, outside⟩ := wrapped.2 (by omega)
  refine ⟨index, field, found, ?_⟩
  have rowLen := wrapped.1
  have nonempty : (onesFor index field).uValue ≠ [] := by
    refine List.ne_nil_of_length_pos ?_
    rw [show (onesFor index field).uValue.length = field.length from List.length_replicate]
    omega
  have found' : desc.fields[(onesFor index field).fNum]? = some field := found
  have length : (onesFor index field).uValue.length = field.length := List.length_replicate
  unfold setUpdateField
  rw [if_neg nonempty, found']
  simp only [length]
  rw [if_neg (Nat.lt_irrefl _), if_pos]
  rw [getUpdateHeader_length]
  omega

theorem arrived_zeros (message : List UInt8) (position : Nat) :
    (arrived (fun _ => 0) message).getD position 0 =
      if position < msgRoom then message.getD position 0 else 0 := by
  have zeros (count place : Nat) : (readBytes (fun _ => 0) 0 count).getD place 0 = 0 := by
    by_cases inside : place < count
    · rw [readBytes_getD _ inside]
    · exact List.getD_eq_default _ _ (by rw [readBytes_length]; omega)
  unfold arrived
  by_cases short : message.length ≤ msgRoom
  · rw [Nat.sub_eq_zero_of_le short, List.take_of_length_le short]
    rw [show readBytes (fun _ => 0) 0 0 = [] from rfl, List.append_nil]
    split
    · rfl
    · exact List.getD_eq_default _ _ (by omega)
  · have room : (message.take msgRoom).length = msgRoom := by
      rw [List.length_take]
      omega
    split
    · next inside =>
      rw [List.getD_append _ _ _ _ (by rwa [room]), List.getD_eq_getElem?_getD,
        List.getElem?_take_of_lt inside, ← List.getD_eq_getElem?_getD]
    · rw [List.getD_append_right _ _ _ _ (by omega)]
      exact zeros _ _

theorem lastCall_ones (index : Nat) (field : FieldDesc) (other : Nat) :
    lastCall [onesFor index field] other = if index = other then some (onesFor index field) else none :=
  lastCall_append [] (onesFor index field) other

theorem onesFor_legal (index : Nat) (field : FieldDesc) (row : Row) :
    Legal desc [onesFor index field] row := by
  intro other entry call _ lasts divides
  rw [lastCall_ones] at lasts
  split at lasts
  · cases lasts
    cases divides
  · cases lasts

theorem Changed.ones (aligned : desc.Aligned) {index : Nat} {field : FieldDesc} {row result : Row}
    (found : desc.fields[index]? = some field)
    (changed : Changed desc [onesFor index field] row result) :
    field.bytes result = List.replicate field.length 1 := by
  have width := aligned.metered field (List.mem_of_getElem? found)
  have after := changed.field index field found
  unfold calledField at after
  rw [lastCall_ones, if_pos rfl] at after
  exact after.trans (fieldAfter_set (by rw [width]; exact List.length_replicate) rfl)

/-- A rule that ends behind the buffer, with a value for the field that ends there. -/
structure CutRule (desc : TableDesc) (index : Nat) (field : FieldDesc) (uRule : List UInt8) : Prop
    where
  aligned : desc.Aligned
  found : desc.fields[index]? = some field
  positive : 0 < field.length
  ends : field.offset + field.length = desc.rowLen
  holds : RuleHolds desc [onesFor index field] uRule
  long : msgRoom < 4 + desc.fieldNum + desc.rowLen

namespace CutRule

variable {index : Nat} {field : FieldDesc} {uRule : List UInt8} {row result : Row}
  (cut : CutRule desc index field uRule)
include cut

theorem idle (other : Nat) (below : other < desc.fields.length) (apart : other ≠ index) :
    (arrived (fun _ => 0) uRule).getD (4 + other) 0 = 0 := by
  rw [arrived_zeros]
  split
  · have found : desc.fields[other]? = some desc.fields[other] := List.getElem?_eq_getElem _
    rw [cut.holds.action other _ found, lastCall_ones, if_neg (Ne.symm apart)]
    split
    · rfl
    · rfl
  · rfl

/-- The last byte of the value has not arrived. -/
theorem value_lost :
    ((arrived (fun _ => 0) uRule).drop (4 + desc.fieldNum + field.offset)).take field.length ≠
      List.replicate field.length 1 := by
  intro copied
  have positive := cut.positive
  have copied := congrArg (fun bytes : List UInt8 => bytes[field.length - 1]?) copied
  have missing := arrived_zeros uRule (4 + desc.fieldNum + field.offset + (field.length - 1))
  have ends := cut.ends
  have long := cut.long
  rw [if_neg (by omega), List.getD_eq_getElem?_getD] at missing
  simp only [List.getElem?_take, List.getElem?_drop, List.getElem?_replicate] at copied
  rw [if_pos (by omega), if_pos (by omega)] at copied
  rw [copied] at missing
  cases missing

/-- When the action arrives, the field gets what has arrived of the value. -/
theorem copies (rowLength : row.length = desc.rowLen) (received : 4 + index < msgRoom)
    (applied : updateRow desc (arrived (fun _ => 0) uRule) row = .ok result) :
    field.bytes result =
      ((arrived (fun _ => 0) uRule).drop (4 + desc.fieldNum + field.offset)).take field.length := by
  have width := cut.aligned.metered field (List.mem_of_getElem? cut.found)
  have ends := cut.ends
  have acts : ((arrived (fun _ => 0) uRule).getD (4 + index) 0).toNat = actSet := by
    rw [arrived_zeros, if_pos received, cut.holds.action index field cut.found,
      if_neg (Nat.ne_of_gt cut.positive), lastCall_ones, if_pos rfl]
    rfl
  have oldLength : ((row.drop field.offset).take field.width).length = field.width := by
    rw [List.length_take, List.length_drop, rowLength, width]
    omega
  have valueLength : (((arrived (fun _ => 0) uRule).drop (4 + desc.fieldNum + field.offset)).take
      field.width).length = field.width := by
    rw [List.length_take, List.length_drop, arrived_length, cut.holds.length, width]
    omega
  have written := @updateField_after field (UInt8.ofNat actSet) _ _ oldLength valueLength
    fun divides => absurd divides (by decide)
  rw [fieldAfter_set valueLength rfl] at written
  rw [updateRow_single cut.found cut.idle] at applied
  unfold updateRowField at applied
  dsimp only at applied
  rw [acts, if_neg (show actSet ≠ actNone by decide),
    show actSet = (UInt8.ofNat actSet).toNat from rfl, written] at applied
  cases applied
  have same := overwrite_read (show field.offset ≤ row.length by omega)
    (((arrived (fun _ => 0) uRule).drop (4 + desc.fieldNum + field.offset)).take field.width)
  rw [valueLength, width] at same
  rw [FieldDesc.bytes, width, same]

theorem loses (rowLength : row.length = desc.rowLen)
    (before : field.bytes row ≠ List.replicate field.length 1)
    (applied : updateRow desc (arrived (fun _ => 0) uRule) row = .ok result) :
    field.bytes result ≠ List.replicate field.length 1 := by
  by_cases received : 4 + index < msgRoom
  · rw [cut.copies rowLength received applied]
    exact cut.value_lost
  · rw [updateRow_single cut.found cut.idle, updateRowField, arrived_zeros, if_neg received]
      at applied
    cases applied
    exact before

end CutRule

end Failing

end QNXStuff.QXBase
