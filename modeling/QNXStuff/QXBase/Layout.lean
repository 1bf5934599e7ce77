import Mathlib.Data.List.Basic
import Mathlib.Tactic.Linarith

/-! Table descriptors: the fields of a row, and the client library that builds them. -/

namespace QNXStuff.QXBase

/-- The `QBASE_TYPE_*` codes. -/
@[match_pattern] abbrev typeUint : Nat := 0
@[match_pattern] abbrev typeInt : Nat := 1
@[match_pattern] abbrev typeUint16 : Nat := 2
@[match_pattern] abbrev typeInt16 : Nat := 3
@[match_pattern] abbrev typeDouble : Nat := 4
@[match_pattern] abbrev typeTimestamp : Nat := 5
@[match_pattern] abbrev typeBinary : Nat := 6
@[match_pattern] abbrev typeString : Nat := 7

/-- `QBASE_TYPE_VARLEN`: the types from here on keep the length the client asks for. -/
abbrev typeVarlen : Nat := 6

/-- `Qbase_field_desc_t` -/
structure FieldDesc where
  type : Nat
  length : Nat
  offset : Nat
  deriving DecidableEq

/-- `Qbase_table_desc_t`; `FieldNum` is the length of `fields`. -/
structure TableDesc where
  name : String
  size : Nat
  rowLen : Nat
  index : Nat
  pageRows : Nat
  lockPages : Nat
  fields : List FieldDesc
  deriving DecidableEq

def TableDesc.fieldNum (desc : TableDesc) : Nat := desc.fields.length

/-- How many bytes of a row an update of the field overwrites. -/
def FieldDesc.width (field : FieldDesc) : Nat :=
  match field.type with
  | typeUint | typeInt => 4
  | typeUint16 | typeInt16 => 2
  | typeDouble => 8
  | _ => field.length

/-- A descriptor whose rows begin with a key word, contain all their fields and
fill pages that a 32-bit size can measure. -/
structure TableDesc.Sound (desc : TableDesc) : Prop where
  pageRows_pos : 0 < desc.pageRows
  lockPages_min : 3 ≤ desc.lockPages
  keyWord : 4 ≤ desc.rowLen
  pageSize_lt : desc.rowLen * desc.pageRows < 2 ^ 32
  inRow : ∀ field ∈ desc.fields, field.offset + field.width ≤ desc.rowLen
  stampInRow : ∀ field ∈ desc.fields, field.type = typeTimestamp →
    field.offset + 4 ≤ desc.rowLen

/-- A descriptor together with the proof that it is sound. -/
structure Layout extends TableDesc where
  sound : toTableDesc.Sound

/-- `Size = RowLen * PageRows` of a page. -/
def Layout.pageSize (layout : Layout) : Nat := layout.rowLen * layout.pageRows

theorem Layout.rowLen_pos (layout : Layout) : 0 < layout.rowLen :=
  Nat.lt_of_lt_of_le (by decide) layout.sound.keyWord

theorem Layout.pageSize_pos (layout : Layout) : 0 < layout.pageSize :=
  Nat.mul_pos layout.rowLen_pos layout.sound.pageRows_pos

theorem Layout.row_in_page (layout : Layout) {row rows : Nat} (inside : row < rows) :
    row * layout.rowLen + layout.rowLen ≤ rows * layout.rowLen := by
  have step : (row + 1) * layout.rowLen ≤ rows * layout.rowLen :=
    Nat.mul_le_mul_right _ inside
  rwa [Nat.succ_mul] at step

theorem Layout.rows_le_pageSize (layout : Layout) {rows : Nat} (inside : rows ≤ layout.pageRows) :
    rows * layout.rowLen ≤ layout.pageSize := by
  rw [Layout.pageSize, Nat.mul_comm layout.rowLen]
  exact Nat.mul_le_mul_right _ inside

/-- The loop of `Qbase_fixtbl` from the offset `curOffset` on. -/
def placeFields : Nat → List FieldDesc → List FieldDesc × Nat
  | curOffset, [] => ([], curOffset)
  | curOffset, field :: rest =>
    let placed := placeFields ((curOffset + field.length) % 2 ^ 32) rest
    ({ field with offset := curOffset } :: placed.1, placed.2)

def fixtbl (desc : TableDesc) : TableDesc :=
  let placed := placeFields 0 desc.fields
  { desc with fields := placed.1, rowLen := placed.2 }

/-- `Qbase_new_tbldesc`; 80 is `sizeof(Qbase_table_desc_t)`, 12 that of a field. -/
def newTbldesc (colNum rowsPP lockPages : Nat) (tName : String) : TableDesc :=
  fixtbl
    { name := String.ofList (tName.toList.take 32)
      size := 80 + colNum * 12
      rowLen := 0
      index := 0
      pageRows := rowsPP
      lockPages := lockPages
      fields := List.replicate (colNum + 1) { type := typeUint, length := 4, offset := 0 } }

/-- The length `Qbase_set_field_metrics` gives a field of this type. -/
def metricLength (type length : Nat) : Nat :=
  if type < typeVarlen then
    match type with
    | typeInt => 4
    | typeUint => 4
    | typeInt16 => 2
    | typeUint16 => 2
    | typeDouble => 8
    | typeTimestamp => 8
    | _ => length
  else length

/-- `Qbase_set_field_metrics`: the new descriptor and the return value. A negative
column number compares as a large unsigned one. -/
def setFieldMetrics (desc : TableDesc) (colNum : Int) (type length : Nat) : TableDesc × Nat :=
  let column := (colNum % 2 ^ 32).toNat
  if desc.fieldNum ≤ column then (desc, 0)
  else
    (fixtbl { desc with
      fields := desc.fields.modify column fun field =>
        { field with type := type, length := metricLength type length } }, 1)

/-- The descriptors a client can build with the library. -/
inductive ClientBuilt : TableDesc → Prop where
  | new (colNum rowsPP lockPages : Nat) (tName : String) :
      ClientBuilt (newTbldesc colNum rowsPP lockPages tName)
  | metrics (built : ClientBuilt desc) (colNum : Int) (type length : Nat) :
      ClientBuilt (setFieldMetrics desc colNum type length).1

def totalLength (fields : List FieldDesc) : Nat := (fields.map FieldDesc.length).sum

/-- The metrics of a field the library has set: updates write exactly its length. -/
def FieldDesc.Metered (field : FieldDesc) : Prop :=
  field.width = field.length ∧ (field.type = typeTimestamp → field.length = 8)

/-- While the offsets stay below 2^32 the loop places every field in front of its end. -/
theorem placeFields_inside {curOffset : Nat} {fields : List FieldDesc}
    (small : curOffset + totalLength fields < 2 ^ 32) :
    (placeFields curOffset fields).2 = curOffset + totalLength fields ∧
      ∀ field ∈ (placeFields curOffset fields).1,
        field.offset + field.length ≤ (placeFields curOffset fields).2 := by
  induction fields generalizing curOffset with
  | nil => simp [placeFields, totalLength]
  | cons field rest ih =>
    have total : totalLength (field :: rest) = field.length + totalLength rest := by
      simp [totalLength]
    rw [total] at small ⊢
    have next : (curOffset + field.length) % 2 ^ 32 = curOffset + field.length :=
      Nat.mod_eq_of_lt (by omega)
    obtain ⟨ending, inside⟩ := @ih (curOffset + field.length) (by omega)
    simp only [placeFields, next, List.mem_cons, forall_eq_or_imp]
    refine ⟨by omega, by omega, inside⟩

/-- The loop changes nothing but the offsets. -/
theorem placeFields_kept {curOffset : Nat} {fields : List FieldDesc} :
    totalLength (placeFields curOffset fields).1 = totalLength fields ∧
      ∀ field ∈ (placeFields curOffset fields).1,
        ∃ source ∈ fields, field.type = source.type ∧ field.length = source.length := by
  induction fields generalizing curOffset with
  | nil => simp [placeFields]
  | cons field rest ih =>
    obtain ⟨total, kept⟩ := ih
    constructor
    · simpa [placeFields, totalLength] using total
    · intro placed member
      rcases List.mem_cons.mp member with rfl | member
      · exact ⟨field, List.mem_cons_self, rfl, rfl⟩
      · obtain ⟨source, present, same⟩ := kept placed member
        exact ⟨source, List.mem_cons_of_mem _ present, same⟩

theorem metered_of_same {field source : FieldDesc} (metered : source.Metered)
    (type : field.type = source.type) (length : field.length = source.length) :
    field.Metered := by
  unfold FieldDesc.Metered FieldDesc.width at *
  rw [type, length]
  exact metered

theorem metered_metrics (field : FieldDesc) (type length : Nat) :
    FieldDesc.Metered { field with type := type, length := metricLength type length } := by
  unfold FieldDesc.Metered FieldDesc.width metricLength
  constructor
  · dsimp only
    split <;> simp_all [typeVarlen]
  · intro stamp
    have stamp : type = typeTimestamp := stamp
    subst stamp
    rfl

/-- What the library keeps true of a descriptor. -/
structure TableDesc.Tiled (desc : TableDesc) : Prop where
  metered : ∀ field ∈ desc.fields, field.Metered
  placed : ∃ source : List FieldDesc,
    placeFields 0 source = (desc.fields, desc.rowLen) ∧
      totalLength source = totalLength desc.fields

theorem tiled_fixtbl {desc : TableDesc} (metered : ∀ field ∈ desc.fields, field.Metered) :
    (fixtbl desc).Tiled := by
  obtain ⟨total, kept⟩ := placeFields_kept
  refine ⟨fun field member => ?_, desc.fields, rfl, total.symm⟩
  obtain ⟨source, present, type, length⟩ := kept field member
  exact metered_of_same (metered source present) type length

theorem TableDesc.Tiled.metrics {desc : TableDesc} (tiled : desc.Tiled) (colNum : Int)
    (type length : Nat) : (setFieldMetrics desc colNum type length).1.Tiled := by
  unfold setFieldMetrics
  dsimp only
  split
  · exact tiled
  · refine tiled_fixtbl fun field member => ?_
    obtain ⟨column, inside, rfl⟩ := List.getElem_of_mem member
    rw [List.getElem_modify]
    split
    · exact metered_metrics _ type length
    · exact tiled.metered _ (List.getElem_mem _)

theorem ClientBuilt.tiled {desc : TableDesc} (built : ClientBuilt desc) : desc.Tiled := by
  induction built with
  | new colNum rowsPP lockPages tName =>
    refine tiled_fixtbl fun field member => ?_
    rw [List.eq_of_mem_replicate member]
    exact ⟨rfl, nofun⟩
  | metrics _ colNum type length ih => exact ih.metrics colNum type length

/-- Every table starts with the counter at zero. -/
theorem ClientBuilt.index_eq {desc : TableDesc} (built : ClientBuilt desc) : desc.index = 0 := by
  induction built with
  | new => rfl
  | metrics built colNum type length ih =>
    unfold setFieldMetrics
    dsimp only
    split
    · exact ih
    · exact ih

/-- A client-built descriptor is sound once its numbers fit. -/
theorem ClientBuilt.sound {desc : TableDesc} (built : ClientBuilt desc)
    (small : totalLength desc.fields < 2 ^ 32) (pageRows_pos : 0 < desc.pageRows)
    (lockPages_min : 3 ≤ desc.lockPages) (keyWord : 4 ≤ desc.rowLen)
    (pageSize_lt : desc.rowLen * desc.pageRows < 2 ^ 32) : desc.Sound := by
  obtain ⟨metered, source, placed, total⟩ := built.tiled
  have inside := (@placeFields_inside 0 source (by omega)).2
  rw [placed] at inside
  refine ⟨pageRows_pos, lockPages_min, keyWord, pageSize_lt, fun field member => ?_,
    fun field member stamp => ?_⟩
  · rw [(metered field member).1]
    exact inside field member
  · have length := (metered field member).2 stamp
    have ends : field.offset + field.length ≤ desc.rowLen := inside field member
    omega

end QNXStuff.QXBase
