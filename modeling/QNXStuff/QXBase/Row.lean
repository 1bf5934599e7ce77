import QNXStuff.QXBase.Layout
import QNXStuff.Library.Memory
import QNXStuff.Library.Execution

/-! What the server does to one row: the filter rules that select it and the
update rules that change it. -/

namespace QNXStuff.QXBase

open Memory Execution

/-- A row of `RowLen` bytes. -/
abbrev Row := List UInt8

/-- Why a handler does not return: failed file I/O, a trapped division, a jump or
access through a wild pointer, a loop that does not end. -/
inductive Fault where
  | io
  | trap
  | wild
  | hang
  deriving DecidableEq

/-! ### Filter rules -/

/-- The bits of `Flags` of a filter. -/
abbrev cmpEq : Nat := 0x00000001
abbrev cmpG : Nat := 0x00000002
abbrev cmpL : Nat := 0x00000004
abbrev cmpCeq : Nat := 0x00000010
abbrev cmpCg : Nat := 0x00000020
abbrev cmpCl : Nat := 0x00000040
abbrev cmpStrict : Nat := 0x80000000

/-- The entries of the table `FFUNCS`. -/
inductive CmpFunc where
  | uint
  | int
  | uint16
  | int16
  | double
  | timestamp
  | binary
  | string
  deriving DecidableEq

/-- `FFUNCS`, indexed by the type of a field. -/
def ffuncs : List CmpFunc :=
  [.uint, .int, .uint16, .int16, .double, .timestamp, .binary, .string]

/-- `Qbase_filter_t`; `value` are the bytes of the request from `Value` on. -/
structure Filter where
  flags : Nat
  fNum : Nat
  field : Nat
  fSize : Nat
  vSize : Nat
  cmpFunc : CmpFunc
  value : List UInt8
  deriving DecidableEq

def Filter.has (condition : Filter) (flag : Nat) : Bool := condition.flags &&& flag != 0

/-- The two's complement reading of a word of `width` bytes. -/
def signed (width word : Nat) : Int :=
  if word < 256 ^ width / 2 then (word : Int) else (word : Int) - 256 ^ width

def Filter.fieldWord (condition : Filter) (width : Nat) (row : Row) : Nat :=
  wordOf ((row.drop condition.field).take width)

def Filter.valueWord (condition : Filter) (width : Nat) : Nat :=
  wordOf (condition.value.take width)

/-- The three tests that the comparisons of numbers share. -/
def Filter.compare (condition : Filter) (equal greater lower : Bool) : Bool :=
  (condition.has cmpEq && equal) || (condition.has cmpG && greater) ||
    (condition.has cmpL && lower)

def filterUint (condition : Filter) (row : Row) : Bool :=
  let value := condition.valueWord 4
  let field := condition.fieldWord 4 row
  condition.compare (field == value) (value < field) (field < value)

def filterInt (condition : Filter) (row : Row) : Bool :=
  let value := signed 4 (condition.valueWord 4)
  let field := signed 4 (condition.fieldWord 4 row)
  condition.compare (field == value) (value < field) (field < value)

def filterUint16 (condition : Filter) (row : Row) : Bool :=
  let value := condition.valueWord 2
  let field := condition.fieldWord 2 row
  condition.compare (field == value) (value < field) (field < value)

def filterInt16 (condition : Filter) (row : Row) : Bool :=
  let value := signed 2 (condition.valueWord 2)
  let field := signed 2 (condition.fieldWord 2 row)
  condition.compare (field == value) (value < field) (field < value)

def filterDouble (condition : Filter) (row : Row) : Bool :=
  let value := Float.ofBits (UInt64.ofNat (condition.valueWord 8))
  let field := Float.ofBits (UInt64.ofNat (condition.fieldWord 8 row))
  condition.compare (field == value) (value < field) (field < value)

/-- Only the seconds, the first word of a `struct timespec`, are compared. -/
def filterTimestamp (condition : Filter) (row : Row) : Bool :=
  let value := condition.valueWord 4
  let field := condition.fieldWord 4 row
  condition.compare (field == value) (value < field) (field < value)

/-- `memcmp`: the difference of the first bytes that differ. Only its sign is documented. -/
def memcmp : List UInt8 → List UInt8 → Nat → Int
  | first :: rest, second :: rest', count + 1 =>
    if first = second then memcmp rest rest' count
    else (first.toNat : Int) - (second.toNat : Int)
  | _, _, _ => 0

/-- No difference is found exactly in equal bytes. -/
theorem memcmp_eq_zero {first second : List UInt8} {count : Nat} (length : first.length = count)
    (length' : second.length = count) : memcmp first second count = 0 ↔ first = second := by
  induction first generalizing second count with
  | nil =>
    subst length
    obtain rfl := List.length_eq_zero_iff.mp length'
    simp [memcmp]
  | cons byte rest ih =>
    cases second with
    | nil =>
      subst length'
      cases length
    | cons byte' rest' =>
      subst length
      have shorter : rest'.length = rest.length := by simpa using length'
      by_cases same : byte = byte'
      · simp [memcmp, same, ih rfl shorter]
      · have apart : byte.toNat ≠ byte'.toNat := fun equal => same (UInt8.toNat_inj.mp equal)
        have unequal : byte :: rest ≠ byte' :: rest' := fun equal => same (List.cons.inj equal).1
        simp only [List.length_cons, memcmp, if_neg same, unequal, iff_false]
        omega

def toLower (byte : UInt8) : UInt8 := if 65 ≤ byte ∧ byte ≤ 90 then byte + 32 else byte

/-- `memicmp`: `memcmp` that ignores the case of letters. -/
def memicmp (first second : List UInt8) (count : Nat) : Int :=
  memcmp (first.map toLower) (second.map toLower) count

/-- With any `memcmp`, as a value of it is asked for. -/
def filterBinaryBy (compare : List UInt8 → List UInt8 → Nat → Int) (condition : Filter) (row : Row) :
    Bool :=
  let field := row.drop condition.field
  if condition.fSize != condition.vSize then false
  else condition.has cmpEq && 1 == compare field condition.value condition.fSize

def filterBinary : Filter → Row → Bool := filterBinaryBy memcmp

def filterString (condition : Filter) (row : Row) : Bool :=
  let field := row.drop condition.field
  let value := condition.value
  let whole := condition.fSize == condition.vSize
  let size := min condition.fSize condition.vSize
  (condition.has cmpEq && whole && 0 == memcmp field value condition.fSize) ||
  (condition.has cmpCeq && whole && 0 == memicmp field value condition.fSize) ||
  (condition.has cmpG && 0 < memcmp field value size) ||
  (condition.has cmpCg && 0 < memicmp field value size) ||
  (condition.has cmpL && 0 > memcmp field value size) ||
  (condition.has cmpCl && 0 < memicmp field value size)

/-- `cmp_func(CFilter, Row)` -/
def Filter.accepts (condition : Filter) (row : Row) : Bool :=
  match condition.cmpFunc with
  | .uint => filterUint condition row
  | .int => filterInt condition row
  | .uint16 => filterUint16 condition row
  | .int16 => filterInt16 condition row
  | .double => filterDouble condition row
  | .timestamp => filterTimestamp condition row
  | .binary => filterBinary condition row
  | .string => filterString condition row

def Filter.strict (condition : Filter) : Bool := condition.has cmpStrict

/-- The results 0, 1 and -1 of `Qbase_data_filter`. -/
inductive Verdict where
  | skip
  | pass
  | broken
  deriving DecidableEq

/-- The loop over the filter stack. -/
def applyFilters (row : Row) : List Filter → Verdict
  | [] => .pass
  | condition :: rest =>
    if condition.accepts row then applyFilters row rest
    else if condition.strict then .broken
    else .skip

/-- The first word of a row: its primary key, or 0 when the row is deleted. -/
def keyOf (row : Row) : Nat := wordOf (row.take 4)

def dataFilter (filters : List Filter) (row : Row) : Verdict :=
  if keyOf row = 0 then .skip else applyFilters row filters

/-! ### Update rules -/

/-- The `QBASE_U_*` actions. -/
@[match_pattern] abbrev actNone : Nat := 0
@[match_pattern] abbrev actSet : Nat := 1
@[match_pattern] abbrev actAdd : Nat := 2
@[match_pattern] abbrev actSub : Nat := 3
@[match_pattern] abbrev actMul : Nat := 4
@[match_pattern] abbrev actDiv : Nat := 5

/-- The unsigned branches, before the result is cut to the width of the field. -/
def updateUnsigned (width action field value : Nat) : Except Fault Nat :=
  match action with
  | actSet => .ok value
  | actAdd => .ok (field + value)
  | actSub => .ok (field + 256 ^ width - value)
  | actDiv => if value = 0 then .error .trap else .ok (field / value)
  | actMul => .ok (field * value)
  | _ => .ok field

/-- The signed branches. A 16-bit quotient is computed in an `int` and cannot overflow. -/
def updateSigned (width action : Nat) (field value : Int) : Except Fault Int :=
  match action with
  | actSet => .ok value
  | actAdd => .ok (field + value)
  | actSub => .ok (field - value)
  | actDiv =>
    if value = 0 ∨ (width = 4 ∧ field = -2 ^ 31 ∧ value = -1) then .error .trap
    else .ok (field.tdiv value)
  | actMul => .ok (field * value)
  | _ => .ok field

def updateDouble (action field value : Nat) : Nat :=
  let u := Float.ofBits (UInt64.ofNat field)
  let v := Float.ofBits (UInt64.ofNat value)
  match action with
  | actSet => value
  | actAdd => (u + v).toBits.toNat
  | actSub => (u - v).toBits.toNat
  | actDiv => (u / v).toBits.toNat
  | actMul => (u * v).toBits.toNat
  | _ => field

/-- The bytes one action leaves in a field: the `switch` over the type of the field. -/
def updateField (desc : FieldDesc) (action : Nat) (field value : List UInt8) :
    Except Fault (List UInt8) :=
  match desc.type with
  | typeUint => (updateUnsigned 4 action (wordOf field) (wordOf value)).map (bytesOf 4)
  | typeInt =>
    (updateSigned 4 action (signed 4 (wordOf field)) (signed 4 (wordOf value))).map
      fun result => bytesOf 4 (result % 256 ^ 4).toNat
  | typeUint16 => (updateUnsigned 2 action (wordOf field) (wordOf value)).map (bytesOf 2)
  | typeInt16 =>
    (updateSigned 2 action (signed 2 (wordOf field)) (signed 2 (wordOf value))).map
      fun result => bytesOf 2 (result % 256 ^ 2).toNat
  | typeDouble => .ok (bytesOf 8 (updateDouble action (wordOf field) (wordOf value)))
  | _ => .ok (if action = actSet then value else field)

/-- Overwrite the bytes of a row from `start` on. -/
def overwrite (row : Row) (start : Nat) (bytes : List UInt8) : Row :=
  row.take start ++ bytes ++ row.drop (start + bytes.length)

/-- One pass of the loop over the fields. `message` is the update header: four bytes
of size, one action for each field, and a row of values. -/
def updateRowField (fieldNum : Nat) (message : List UInt8) (row : Row)
    (entry : FieldDesc × Nat) : Except Fault Row :=
  let action := (message.getD (4 + entry.2) 0).toNat
  if action = actNone then .ok row
  else
    let start := entry.1.offset
    let value := (message.drop (4 + fieldNum + start)).take entry.1.width
    (updateField entry.1 action ((row.drop start).take entry.1.width) value).map
      (overwrite row start)

/-- The loop over the fields of a row that is to be updated. -/
def updateRow (desc : TableDesc) (message : List UInt8) (row : Row) : Except Fault Row :=
  desc.fields.zipIdx.foldlM (updateRowField desc.fieldNum message) row

/-- `*((uint32_t*)where) = 0` -/
def deleteRow (row : Row) : Row := overwrite row 0 [0, 0, 0, 0]

/-- What the three scanning requests do to a row the filters let through. -/
inductive Change where
  | update (message : List UInt8)
  | updcur (message : List UInt8)
  | delete
  deriving DecidableEq

def Change.apply (desc : TableDesc) (row : Row) : Change → Except Fault Row
  | .update message => updateRow desc message row
  | .updcur message => updateRow desc message row
  | .delete => .ok (deleteRow row)

/-- Whether the scan ends after the first row it looks at. -/
def Change.single : Change → Bool
  | .updcur _ => true
  | _ => false

/-- The size check on the update header. -/
def Change.fits (desc : TableDesc) : Change → Bool
  | .update message | .updcur message =>
    decide (4 + desc.fieldNum + desc.rowLen ≤ message.length)
  | .delete => true

theorem keyOf_deleteRow (row : Row) : keyOf (deleteRow row) = 0 := by
  simp [keyOf, deleteRow, overwrite, wordOf]

/-! ### Rows keep their length -/

theorem overwrite_length {row : Row} {start : Nat} {bytes : List UInt8}
    (inside : start + bytes.length ≤ row.length) :
    (overwrite row start bytes).length = row.length := by
  simp only [overwrite, List.length_append, List.length_take, List.length_drop]
  omega

theorem length_overwrite_le (row : Row) (start : Nat) (bytes : List UInt8) :
    row.length ≤ (overwrite row start bytes).length := by
  simp only [overwrite, List.length_append, List.length_take, List.length_drop]
  omega

theorem overwrite_read {row : Row} {start : Nat} (inside : start ≤ row.length)
    (bytes : List UInt8) :
    ((overwrite row start bytes).drop start).take bytes.length = bytes := by
  have front : (row.take start).length = start := by
    rw [List.length_take, Nat.min_eq_left inside]
  rw [overwrite, List.append_assoc, List.drop_left' front, List.take_left' rfl]

theorem overwrite_before {row : Row} {start position : Nat} (before : position < start)
    (inside : start ≤ row.length) (bytes : List UInt8) :
    (overwrite row start bytes).getD position 0 = row.getD position 0 := by
  have front : position < (row.take start).length := by
    rw [List.length_take]
    omega
  rw [overwrite, List.append_assoc, List.getD_append _ _ _ _ front,
    List.getD_eq_getElem?_getD, List.getElem?_take_of_lt before, ← List.getD_eq_getElem?_getD]

theorem updateField_length {desc : FieldDesc} {action : Nat} {field value result : List UInt8}
    (updated : updateField desc action field value = .ok result)
    (fieldLength : field.length = desc.width) (valueLength : value.length = desc.width) :
    result.length = desc.width := by
  have mapped {α : Type} {source : Except Fault α} {width : Nat} {encode : α → Nat}
      (same : source.map (fun number => bytesOf width (encode number)) = .ok result) :
      result.length = width := by
    cases source with
    | error fault => cases same
    | ok number =>
      cases same
      exact bytesOf_length ..
  unfold updateField at updated
  unfold FieldDesc.width at fieldLength valueLength ⊢
  split at updated
  · simpa only [*] using mapped updated
  · simpa only [*] using mapped updated
  · simpa only [*] using mapped updated
  · simpa only [*] using mapped updated
  · cases updated
    simp only [*, bytesOf_length]
  · cases updated
    split <;> simp only [*]

/-- One field is overwritten with as many bytes as it has, or nothing happens. -/
theorem updateRowField_cases (layout : Layout) {message : List UInt8} {row result : Row}
    (fits : 4 + layout.fieldNum + layout.rowLen ≤ message.length)
    (rowLength : row.length = layout.rowLen) {entry : FieldDesc × Nat}
    (member : entry ∈ layout.fields.zipIdx)
    (updated : updateRowField layout.fieldNum message row entry = .ok result) :
    result = row ∨ ((message.getD (4 + entry.2) 0).toNat ≠ actNone ∧
      ∃ bytes, bytes.length = entry.1.width ∧
        entry.1.offset + entry.1.width ≤ layout.rowLen ∧
        result = overwrite row entry.1.offset bytes) := by
  have inRow := layout.sound.inRow entry.1 (List.fst_mem_of_mem_zipIdx member)
  unfold updateRowField at updated
  dsimp only at updated
  split at updated
  · cases updated
    exact .inl rfl
  · next acts =>
    cases result : updateField entry.1 (message.getD (4 + entry.2) 0).toNat
        ((row.drop entry.1.offset).take entry.1.width)
        ((message.drop (4 + layout.fieldNum + entry.1.offset)).take entry.1.width) with
    | error fault =>
      rw [result] at updated
      cases updated
    | ok bytes =>
      rw [result] at updated
      cases updated
      have written : bytes.length = entry.1.width := updateField_length result
        (by simp only [List.length_take, List.length_drop]; omega)
        (by simp only [List.length_take, List.length_drop]; omega)
      exact .inr ⟨acts, bytes, written, inRow, rfl⟩

theorem updateRow_length (layout : Layout) {message : List UInt8} {row result : Row}
    (fits : 4 + layout.fieldNum + layout.rowLen ≤ message.length)
    (rowLength : row.length = layout.rowLen)
    (updated : updateRow layout.toTableDesc message row = .ok result) :
    result.length = layout.rowLen := by
  refine foldlM_invariant (motive := fun row => row.length = layout.rowLen) rowLength
    (fun row entry member length next moved => ?_) updated
  rcases updateRowField_cases layout fits length member moved with
    rfl | ⟨_, bytes, written, inRow, rfl⟩
  · exact length
  · rw [overwrite_length (by omega), length]

theorem Change.apply_length (layout : Layout) {change : Change} {row result : Row}
    (fits : change.fits layout.toTableDesc = true) (rowLength : row.length = layout.rowLen)
    (applied : change.apply layout.toTableDesc row = .ok result) :
    result.length = layout.rowLen := by
  have key := layout.sound.keyWord
  cases change with
  | update message => exact updateRow_length layout (of_decide_eq_true fits) rowLength applied
  | updcur message => exact updateRow_length layout (of_decide_eq_true fits) rowLength applied
  | delete =>
    cases applied
    rw [deleteRow, overwrite_length (by simp; omega), rowLength]

/-! ### The update header -/

def getUpdateHeader (desc : TableDesc) : List UInt8 :=
  bytesOf 4 (4 + desc.fieldNum + desc.rowLen) ++
    List.replicate (desc.fieldNum + desc.rowLen) 0

section Header

variable {desc : TableDesc}

theorem getUpdateHeader_length (desc : TableDesc) :
    (getUpdateHeader desc).length = 4 + desc.fieldNum + desc.rowLen := by
  rw [getUpdateHeader, List.length_append, bytesOf_length, List.length_replicate, Nat.add_assoc]

theorem getUpdateHeader_action (desc : TableDesc) {field : Nat} (inside : field < desc.fieldNum) :
    (getUpdateHeader desc).getD (4 + field) 0 = 0 := by
  rw [getUpdateHeader, List.getD_append_right _ _ _ _ (by rw [bytesOf_length]; omega),
    bytesOf_length, List.getD_eq_getElem _ _ (by rw [List.length_replicate]; omega),
    List.getElem_replicate]

/-- An update with an action on one field only is the update of this field. -/
theorem updateRow_single {message : List UInt8} {index : Nat} {field : FieldDesc}
    (found : desc.fields[index]? = some field)
    (rest : ∀ other < desc.fieldNum, other ≠ index → message.getD (4 + other) 0 = 0) (row : Row) :
    updateRow desc message row = updateRowField desc.fieldNum message row (field, index) := by
  have inside : index < desc.fields.length := (List.getElem?_eq_some_iff.mp found).1
  have below : index < desc.fields.zipIdx.length := by simpa using inside
  have entry : desc.fields.zipIdx[index] = (field, index) := by
    rw [List.getElem_zipIdx, Nat.zero_add, (List.getElem?_eq_some_iff.mp found).2]
  have idle (row : Row) (other : FieldDesc × Nat) (member : other ∈ desc.fields.zipIdx)
      (apart : other.2 ≠ index) : updateRowField desc.fieldNum message row other = .ok row := by
    have below := List.snd_lt_of_mem_zipIdx member
    refine if_pos ?_
    rw [rest other.2 (by simpa [TableDesc.fieldNum] using below) apart]
    rfl
  have before : ∀ other ∈ desc.fields.zipIdx.take index,
      updateRowField desc.fieldNum message row other = .ok row := by
    intro other member
    obtain ⟨place, here, rfl⟩ := List.mem_take_iff_getElem.mp member
    refine idle row _ (List.getElem_mem _) ?_
    rw [List.getElem_zipIdx]
    show 0 + place ≠ index
    omega
  have behind (result : Row) : ∀ other ∈ desc.fields.zipIdx.drop (index + 1),
      updateRowField desc.fieldNum message result other = .ok result := by
    intro other member
    obtain ⟨place, here, rfl⟩ := List.mem_drop_iff_getElem.mp member
    refine idle result _ (List.getElem_mem _) ?_
    rw [List.getElem_zipIdx]
    show 0 + (index + 1 + place) ≠ index
    omega
  have split : desc.fields.zipIdx = desc.fields.zipIdx.take index ++
      (field, index) :: desc.fields.zipIdx.drop (index + 1) := by
    rw [← entry, List.getElem_cons_drop, List.take_append_drop]
  unfold updateRow
  rw [split, List.foldlM_append, foldlM_fixed before]
  show List.foldlM (updateRowField desc.fieldNum message) row ((field, index) :: _) = _
  rw [List.foldlM_cons]
  cases updateRowField desc.fieldNum message row (field, index) with
  | error fault => rfl
  | ok result => exact foldlM_fixed (behind result)

end Header

end QNXStuff.QXBase
