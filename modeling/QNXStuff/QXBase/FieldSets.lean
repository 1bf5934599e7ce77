import QNXStuff.QXBase.ResizedRows

/-! The descriptors that the client library makes of whatever a program passes to it, and the rows in
which it sets fields. -/

namespace QNXStuff.QXBase

open Memory

/-- `Qbase_new_tbldesc`, where the header and the fields lie in the `Size` bytes that it allocates.
For `ColNum` -1 there are no fields. -/
def qbaseNewTbldesc (colNum rowsPP lockPages : Int32) (tName : String) : Option TableDesc :=
  let size := 80 + colNum.toInt * 12
  if -1 ≤ colNum.toInt ∧ size < 2 ^ 32 then
    some (fixtbl
      { name := String.ofList (tName.toList.take 32)
        size := size.toNat
        rowLen := 0
        index := 0
        pageRows := rowsPP.toUInt32.toNat
        lockPages := lockPages.toUInt32.toNat
        fields := List.replicate (colNum.toInt + 1).toNat
          { type := typeUint, length := 4, offset := 0 } })
  else none

/-- The descriptors after any calls of `Qbase_set_field_metrics`. -/
inductive Measured : TableDesc → Prop where
  | new {colNum rowsPP lockPages : Int32} {tName : String}
      (made : qbaseNewTbldesc colNum rowsPP lockPages tName = some desc) : Measured desc
  | metrics (measured : Measured desc) (colNum : Int32) (type length : UInt32) :
      Measured (setFieldMetrics desc colNum.toInt type.toNat length.toNat).1

/-- The codes of `Qbase_field_set`. -/
inductive SetCode where
  | ok
  | buf
  | nofld
  deriving DecidableEq

/-- `Qbase_field_set`: the row and the code. `none` is NULL; a fault is a byte behind the value or
behind the row. -/
def qbaseFieldSet (wTable : Option TableDesc) (row : Option Row) (fNum : Int32)
    (value : Option (List UInt8)) (size : UInt32) : Except Unit (Option Row × SetCode) :=
  match wTable, row, value with
  | some desc, some bytes, some value =>
    match desc.fields[(fNum.toInt % 2 ^ 32).toNat]? with
    | none => .ok (row, .nofld)
    | some field =>
      let nbytes := min field.length size.toNat
      if value.length < nbytes ∨ bytes.length < field.offset + nbytes then .error ()
      else .ok (some (overwrite bytes field.offset (value.take nbytes)), .ok)
  | _, _, _ => .ok (row, .buf)

/-! ### Tiles -/

/-- The fields tile the row. -/
structure TableDesc.Tiles (desc : TableDesc) : Prop where
  first : ∀ field, desc.fields[0]? = some field → field.offset = 0
  next : ∀ place field field', desc.fields[place]? = some field →
    desc.fields[place + 1]? = some field' → field'.offset = field.offset + field.length
  rowLen : desc.rowLen = totalLength desc.fields

/-- The column number is in 0..FieldNum-1. -/
def TableDesc.HasColumn (desc : TableDesc) (colNum : Int32) : Prop :=
  0 ≤ colNum.toInt ∧ colNum.toInt < desc.fieldNum

def TableDesc.column (desc : TableDesc) (colNum : Int32) : Option FieldDesc :=
  if 0 ≤ colNum.toInt then desc.fields[colNum.toInt.toNat]? else none

theorem consecutive_next {fields : List FieldDesc} {start place : Nat} {field field' : FieldDesc}
    (placed : Consecutive start fields) (found : fields[place]? = some field)
    (found' : fields[place + 1]? = some field') :
    field'.offset = field.offset + field.length := by
  induction fields generalizing start place with
  | nil => cases found
  | cons first rest ih =>
    obtain ⟨offset, placed⟩ := placed
    cases place with
    | zero =>
      cases found
      cases rest with
      | nil => cases found'
      | cons second rest =>
        cases found'
        rw [offset]
        exact placed.1
    | succ place => exact ih placed found found'

theorem TableDesc.Aligned.tiles {desc : TableDesc} (aligned : desc.Aligned) : desc.Tiles where
  first field found := by
    have placed := aligned.placed
    cases fields : desc.fields with
    | nil =>
      rw [fields] at found
      cases found
    | cons head rest =>
      rw [fields] at found placed
      cases found
      exact placed.1
  next _ _ _ found found' := consecutive_next aligned.placed found found'
  rowLen := aligned.total

section Measured

variable {desc : TableDesc}

theorem fixtbl_fieldNum (desc : TableDesc) : (fixtbl desc).fieldNum = desc.fieldNum := by
  have same := congrArg List.length (metricsOf_placed 0 desc.fields)
  rwa [metricsOf_length, metricsOf_length] at same

theorem setFieldMetrics_fieldNum (colNum : Int) (type length : Nat) :
    (setFieldMetrics desc colNum type length).1.fieldNum = desc.fieldNum := by
  unfold setFieldMetrics
  dsimp only
  split
  · rfl
  · rw [fixtbl_fieldNum]
    exact List.length_modify ..

/-- A new descriptor has fields of the default length, and these were allocated in 32 bits. -/
theorem qbaseNewTbldesc_made {colNum rowsPP lockPages : Int32} {tName : String}
    (made : qbaseNewTbldesc colNum rowsPP lockPages tName = some desc) :
    ∃ (header : TableDesc) (count : Nat), desc = fixtbl { header with
      fields := List.replicate count { type := typeUint, length := 4, offset := 0 } } ∧
        count < 2 ^ 31 := by
  unfold qbaseNewTbldesc at made
  dsimp only at made
  split at made
  · rename_i fits
    cases made
    exact ⟨⟨_, _, 0, 0, _, _, []⟩, (colNum.toInt + 1).toNat, rfl, by omega⟩
  · cases made

theorem Measured.tiled (measured : Measured desc) : desc.Tiled := by
  induction measured with
  | new made =>
    obtain ⟨header, count, rfl, _⟩ := qbaseNewTbldesc_made made
    refine tiled_fixtbl fun field member => ?_
    rw [List.eq_of_mem_replicate member]
    exact ⟨rfl, nofun⟩
  | metrics _ colNum type length ih => exact ih.metrics _ _ _

theorem Measured.fieldNum_lt (measured : Measured desc) : desc.fieldNum < 2 ^ 31 := by
  induction measured with
  | new made =>
    obtain ⟨header, count, rfl, few⟩ := qbaseNewTbldesc_made made
    rwa [fixtbl_fieldNum, TableDesc.fieldNum, List.length_replicate]
  | metrics _ colNum type length ih => rwa [setFieldMetrics_fieldNum]

/-- The unsigned comparison takes the columns that there are. -/
theorem column_eq (few : desc.fieldNum < 2 ^ 31) (colNum : Int32) :
    desc.fields[(colNum.toInt % 2 ^ 32).toNat]? = desc.column colNum := by
  have above := colNum.le_toInt
  have below := colNum.toInt_lt
  unfold TableDesc.column
  by_cases negative : 0 ≤ colNum.toInt
  · rw [if_pos negative, Int.emod_eq_of_lt negative (by omega)]
  · rw [if_neg negative]
    refine List.getElem?_eq_none ?_
    unfold TableDesc.fieldNum at few
    omega

theorem column_apart {desc : TableDesc} {colNum colNum' : Int32} {field field' : FieldDesc}
    (found : desc.column colNum = some field) (found' : desc.column colNum' = some field')
    (apart : colNum ≠ colNum') :
    ∃ place place' : Nat, place ≠ place' ∧ desc.fields[place]? = some field ∧
      desc.fields[place']? = some field' := by
  unfold TableDesc.column at found found'
  split at found
  · rename_i positive
    split at found'
    · rename_i positive'
      refine ⟨colNum.toInt.toNat, colNum'.toInt.toNat, fun same => apart ?_, found, found'⟩
      exact Int32.toInt_inj.mp (by omega)
    · cases found'
  · cases found

/-- A column that is out of range is not set. -/
theorem setFieldMetrics_beyond (few : desc.fieldNum < 2 ^ 31) {colNum : Int32}
    (beyond : ¬ desc.HasColumn colNum) (type length : Nat) :
    setFieldMetrics desc colNum.toInt type length = (desc, 0) := by
  have above := colNum.le_toInt
  have below := colNum.toInt_lt
  unfold TableDesc.HasColumn at beyond
  refine if_pos ?_
  omega

end Measured

/-! ### Rows -/

/-- A call of `Qbase_field_set` with a value of at least `Size` bytes. -/
structure FieldSet where
  fNum : Int32
  value : List UInt8
  size : UInt32
  held : size.toNat ≤ value.length

namespace FieldSet

variable {desc : TableDesc} {row next : Row}

def apply (call : FieldSet) (desc : TableDesc) (row : Row) : Except Unit (Option Row × SetCode) :=
  qbaseFieldSet (some desc) (some row) call.fNum (some call.value) call.size

/-- Calls one after the other; whether a field was refused does not end them. -/
def applyAll (desc : TableDesc) : List FieldSet → Row → Except Unit (Option Row)
  | [], row => .ok (some row)
  | call :: calls, row =>
    match call.apply desc row with
    | .ok (some next, _) => applyAll desc calls next
    | .ok (none, _) => .ok none
    | .error fault => .error fault

/-- What the call puts into the field. -/
def written (call : FieldSet) (field : FieldDesc) : List UInt8 :=
  call.value.take (min field.length call.size.toNat)

theorem written_length (call : FieldSet) (field : FieldDesc) :
    (call.written field).length = min field.length call.size.toNat := by
  have held := call.held
  rw [written, List.length_take]
  omega

def after (call : FieldSet) (desc : TableDesc) (row : Row) : Row :=
  match desc.column call.fNum with
  | none => row
  | some field => overwrite row field.offset (call.written field)

theorem column_inside (aligned : desc.Aligned) {fNum : Int32} {field : FieldDesc}
    (found : desc.column fNum = some field) : field.offset + field.length ≤ desc.rowLen := by
  unfold TableDesc.column at found
  split at found
  · rw [aligned.total, ← Nat.zero_add (totalLength _)]
    exact (consecutive_inside aligned.placed found).2
  · cases found

theorem written_inside (aligned : desc.Aligned) (whole : row.length = desc.rowLen)
    (call : FieldSet) {field : FieldDesc} (found : desc.column call.fNum = some field) :
    field.offset + (call.written field).length ≤ row.length := by
  have inside := column_inside aligned found
  rw [written_length, whole]
  omega

/-- A call stays within its value and the row. -/
theorem apply_eq (aligned : desc.Aligned) (few : desc.fieldNum < 2 ^ 31) (call : FieldSet)
    (whole : row.length = desc.rowLen) :
    call.apply desc row = .ok (some (call.after desc row),
      if (desc.column call.fNum).isSome then .ok else .nofld) := by
  unfold apply qbaseFieldSet after
  simp only [column_eq few]
  cases found : desc.column call.fNum with
  | none => rfl
  | some field =>
    have held := call.held
    have inside := call.written_inside aligned whole found
    rw [written_length] at inside
    exact if_neg (by omega)

theorem after_length (aligned : desc.Aligned) (call : FieldSet) (whole : row.length = desc.rowLen) :
    (call.after desc row).length = desc.rowLen := by
  unfold after
  cases found : desc.column call.fNum with
  | none => exact whole
  | some field => exact (overwrite_length (call.written_inside aligned whole found)).trans whole

theorem after_outside (aligned : desc.Aligned) (call : FieldSet) (whole : row.length = desc.rowLen)
    {position : Nat} (outside : ∀ field, desc.column call.fNum = some field →
      position < field.offset ∨ field.offset + field.length ≤ position) :
    (call.after desc row)[position]? = row[position]? := by
  unfold after
  cases found : desc.column call.fNum with
  | none => rfl
  | some field =>
    have apart := outside field found
    have length := call.written_length field
    refine (overwrite_getElem? (call.written_inside aligned whole found)).trans (if_neg ?_)
    omega

theorem after_other (aligned : desc.Aligned) (call : FieldSet) (whole : row.length = desc.rowLen)
    {fNum : Int32} {field : FieldDesc} (found : desc.column fNum = some field)
    (apart : call.fNum ≠ fNum) {position : Nat} (above : field.offset ≤ position)
    (below : position < field.offset + field.length) :
    (call.after desc row)[position]? = row[position]? := by
  refine call.after_outside aligned whole fun field' found' => ?_
  obtain ⟨place, place', different, here, there⟩ := column_apart found found' apart.symm
  rcases Nat.lt_or_gt_of_ne different with before | behind
  · have ends := consecutive_apart aligned.placed before here there
    omega
  · have ends := consecutive_apart aligned.placed behind there here
    omega

/-- Calls for other fields leave the bytes of a field as they are. -/
theorem applyAll_others (aligned : desc.Aligned) (few : desc.fieldNum < 2 ^ 31)
    {calls : List FieldSet} (whole : row.length = desc.rowLen) {fNum : Int32}
    (others : ∀ call ∈ calls, call.fNum ≠ fNum) :
    ∃ last, applyAll desc calls row = .ok (some last) ∧ last.length = desc.rowLen ∧
      ∀ field, desc.column fNum = some field → ∀ position, field.offset ≤ position →
        position < field.offset + field.length → last[position]? = row[position]? := by
  induction calls generalizing row with
  | nil => exact ⟨row, rfl, whole, fun _ _ _ _ _ => rfl⟩
  | cons call calls ih =>
    obtain ⟨other, others⟩ := List.forall_mem_cons.mp others
    obtain ⟨last, done, length, same⟩ := ih (call.after_length aligned whole) others
    refine ⟨last, ?_, length, fun field found position above below => ?_⟩
    · rw [applyAll, call.apply_eq aligned few whole]
      exact done
    · rw [same field found position above below]
      exact call.after_other aligned whole found other above below

end FieldSet

structure TableDesc.SetsApart (desc : TableDesc) : Prop where
  /-- A call does not leave the row, and changes bytes of its field only. -/
  confined : ∀ (call : FieldSet) (row : Row), row.length = desc.rowLen →
    ∃ next code, call.apply desc row = .ok (some next, code) ∧ next.length = desc.rowLen ∧
      (code = .ok ↔ desc.HasColumn call.fNum) ∧
      ∀ position, next[position]? ≠ row[position]? → ∃ field, desc.column call.fNum = some field ∧
        field.offset ≤ position ∧ position < field.offset + field.length
  /-- What it sets is read back after calls for other fields. -/
  readBack : ∀ (call : FieldSet) (field : FieldDesc) (others : List FieldSet) (row : Row),
    row.length = desc.rowLen → desc.column call.fNum = some field →
    (∀ other ∈ others, other.fNum ≠ call.fNum) →
    ∃ last, FieldSet.applyAll desc (call :: others) row = .ok (some last) ∧
      last.length = desc.rowLen ∧
      (field.bytes last).take (call.written field).length = call.written field

namespace Measured

variable {desc : TableDesc}

theorem hasColumn_iff {colNum : Int32} :
    desc.HasColumn colNum ↔ (desc.column colNum).isSome = true := by
  unfold TableDesc.HasColumn TableDesc.column TableDesc.fieldNum
  by_cases positive : 0 ≤ colNum.toInt
  · rw [if_pos positive, isSome_getElem?]
    omega
  · rw [if_neg positive]
    exact ⟨fun has => absurd has.1 positive, nofun⟩

theorem setsApart (measured : Measured desc) (aligned : desc.Aligned) : desc.SetsApart where
  confined call row whole := by
    refine ⟨_, _, call.apply_eq aligned measured.fieldNum_lt whole,
      call.after_length aligned whole, ?_, fun position changed => ?_⟩
    · rw [hasColumn_iff]
      split
      · exact ⟨fun _ => ‹_›, fun _ => rfl⟩
      · exact ⟨nofun, fun has => absurd has ‹_›⟩
    · by_contra outside
      refine changed (call.after_outside aligned whole fun field found => ?_)
      by_contra inside
      exact outside ⟨field, found, by omega, by omega⟩
  readBack call field others row whole found apart := by
    have whole' := call.after_length aligned whole
    obtain ⟨last, done, length, same⟩ :=
      FieldSet.applyAll_others aligned measured.fieldNum_lt whole' apart
    refine ⟨last, ?_, length, ?_⟩
    · rw [FieldSet.applyAll, call.apply_eq aligned measured.fieldNum_lt whole]
      exact done
    · have size := call.written_length field
      have kept : field.bytes last = field.bytes (call.after desc row) :=
        take_drop_congr fun position above below => same field found position above below
      rw [kept, FieldDesc.bytes, List.take_take, Nat.min_eq_left (by omega), FieldSet.after, found]
      have inside := call.written_inside aligned whole found
      exact overwrite_read (by omega) _

end Measured

/-- Whatever calls have set the metrics of a new descriptor, its fields tile the row, the columns
that it does not have are not set, and what is set in a field stays until it is set again. -/
theorem fields_tile_rows {desc : TableDesc} (measured : Measured desc)
    (small : totalLength desc.fields < 2 ^ 31) :
    desc.Tiles ∧
      (∀ colNum : Int32, ¬ desc.HasColumn colNum → ∀ type length : UInt32,
        setFieldMetrics desc colNum.toInt type.toNat length.toNat = (desc, 0)) ∧
      desc.SetsApart := by
  have aligned := measured.tiled.aligned (by omega)
  refine ⟨aligned.tiles, fun colNum beyond type length => ?_, measured.setsApart aligned⟩
  exact setFieldMetrics_beyond measured.fieldNum_lt beyond _ _

/-- A table with two fields, the second of them with text of five bytes. -/
theorem words_tile_rows : totalLength (setFieldMetrics (newTbldesc 1 16 3 "words") 1 7 5).1.fields = 9 ∧
    (setFieldMetrics (newTbldesc 1 16 3 "words") 1 7 5).1.Tiles :=
  have made : qbaseNewTbldesc 1 16 3 "words" = some (newTbldesc 1 16 3 "words") := rfl
  ⟨rfl, (fields_tile_rows (.metrics (.new made) 1 7 5) (by decide)).1⟩

end QNXStuff.QXBase
