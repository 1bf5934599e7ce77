import QNXStuff.QXBase.Fetch
import QNXStuff.QXBase.UpdateRules

/-! `QXB-resize`: a table gets other columns. Its files are renamed, a new table is created under
its name and the rows are copied. -/

namespace QNXStuff.QXBase

open Memory Execution

def tmpTabName : String := "tmp_tbl"

/-! ### The script -/

/-- A line COLUMN: a column of the old table, or a new one. -/
inductive Column where
  | old (number : UInt32)
  | new (type : Fin 8) (length : UInt32)
  deriving DecidableEq

/-- A script in which everything required is set. -/
structure Script where
  table : String
  rowsPp : UInt32
  lockPages : UInt32
  recreateOnly : Bool
  columns : List Column
  short : table.length < 32
  some : columns ≠ []
  few : columns.length < 2 ^ 31

/-- `QBASE_TYPE_LAST_EFFECTIVE+1`: the type of a column OLD until it is looked up. -/
abbrev typeOld : Nat := 8

structure ChCol where
  colType : Nat
  colLength : Nat
  colOldIndex : Nat
  colOldOffset : Nat
  deriving DecidableEq

/-- "What kind of column is it?" -/
def Column.chCol : Column → ChCol
  | .old number => ⟨typeOld, 0, number.toNat, 0⟩
  | .new type length => ⟨type, length.toNat, 0, 0⟩

/-! ### The files -/

structure TableFile where
  desc : TableDesc
  rows : List Row
  sized : desc.size = 68 + 12 * desc.fieldNum
  whole : ∀ row ∈ rows, row.length = desc.rowLen

/-- The files in QXBASE_ROOT by the names of their tables. -/
abbrev Disk := String → Option TableFile

/-- `link` and `unlink`: no file is replaced, and the results are not looked at. -/
def Disk.move (disk : Disk) (source target : String) : Disk :=
  let linked := if (disk target).isSome then disk else Function.update disk target (disk source)
  Function.update linked source none

/-- The rows that are not deleted, as `Qbase_fetch` delivers them from pages in their places. -/
def TableFile.liveRows (file : TableFile) : List Row := (deliver [] file.rows 0).map Prod.fst

/-! ### The server -/

/-- What a run can come to besides its end: a pointer that is NULL, a descriptor that is longer
than a message, a table that has no pages, bytes outside of a row or of a page. -/
inductive ResizeFault where
  | null
  | message
  | pages
  | row
  | page
  deriving DecidableEq

/-- The server can divide the rows into pages. -/
def TableDesc.Paged (desc : TableDesc) : Prop :=
  0 < desc.pageRows ∧ 4 ≤ desc.rowLen ∧ desc.rowLen * desc.pageRows < 2 ^ 32

instance {desc : TableDesc} : Decidable desc.Paged := inferInstanceAs (Decidable (_ ∧ _ ∧ _))

/-- `Qbase_table_select` and `Qbase_table_caps`: the table, if there is one. -/
def mountFile (disk : Disk) (name : String) : Except ResizeFault (Option TableFile) :=
  match disk name with
  | none => .ok none
  | some file =>
    if ¬ file.desc.Paged then .error .pages
    else if msgRoom < file.desc.size then .error .message
    else .ok (some file)

/-- The pages of so many rows, and the one behind them, end in front of the position 2^31. -/
def TableDesc.Placed (desc : TableDesc) (count : Nat) : Prop :=
  (count / desc.pageRows + 1) * (desc.rowLen * desc.pageRows % 2 ^ 32) < 2 ^ 31

instance {desc : TableDesc} {count : Nat} : Decidable (desc.Placed count) :=
  inferInstanceAs (Decidable (_ < _))

/-- What the server makes of a table whose pages get further than that, where calls on the data file
are refused and it goes on: the rows that it delivers, and those that it has of the rows it was
given. -/
structure Overlong where
  delivered : TableFile → List Row
  kept : TableDesc → List Row → List Row

namespace Overlong

variable (overlong : Overlong)

/-- The rows that `Qbase_fetch` brings. -/
def fetched (file : TableFile) : List Row :=
  if file.desc.Placed file.rows.length then file.liveRows else overlong.delivered file

/-- The rows of a table into which these were inserted. -/
def stored (desc : TableDesc) (rows : List Row) : List Row :=
  if desc.Placed rows.length then rows else overlong.kept desc rows

end Overlong

/-- `Qbase_table_create`: whether it is accepted. -/
def createFile (disk : Disk) (desc : TableDesc) : Except ResizeFault Bool :=
  if (disk desc.name).isSome then .ok false
  else if msgRoom < desc.size then .error .message
  else .ok (decide (3 ≤ desc.lockPages))

/-- `Qbase_insert`: the rows with the new one, or nothing when the row is refused. -/
def insertRow (desc : TableDesc) (rows : List Row) (row : Row) :
    Except ResizeFault (Option (List Row)) :=
  if desc.rowLen = 0 then .ok none
  else
    let place := rows.length % desc.pageRows
    if desc.rowLen * desc.pageRows % 2 ^ 32 < place * desc.rowLen + max desc.rowLen 4 then
      .error .page
    else .ok (some (rows ++ [(withKey row (rows.length + 1)).take desc.rowLen]))

/-! ### The tool -/

/-- "get values from previous table"; `behind` is what stands behind the descriptor. -/
def ChCol.resolve (behind : FieldDesc) (old : TableDesc) (col : ChCol) : Option ChCol :=
  if col.colType = typeOld ∧ col.colOldIndex ≠ 0 then
    if old.fieldNum < col.colOldIndex then none
    else
      let field := old.fields.getD col.colOldIndex behind
      some ⟨field.type, field.length, col.colOldIndex, field.offset⟩
  else some col

/-- "Set field types of new table", from a column on. -/
def setMetrics : TableDesc → Nat → List ChCol → Option TableDesc
  | desc, _, [] => some desc
  | desc, colNum, col :: rest =>
    let (desc, result) := setFieldMetrics desc colNum col.colType col.colLength
    if result ≠ 1 then none else setMetrics desc (colNum + 1) rest

/-- "Create a new table descriptor" -/
def newDesc (script : Script) (cols : List ChCol) : Option TableDesc :=
  setMetrics
    (newTbldesc cols.length script.rowsPp.toNat script.lockPages.toNat script.table) 1 cols

/-- `Qbase_field_set` with the bytes of the old row from an offset on; the size is the length
of the field itself. -/
def fieldSet (desc : TableDesc) (row : Row) (fNum : Nat) (value : List UInt8) :
    Except ResizeFault (Option Row) :=
  match desc.fields[fNum]? with
  | none => .ok none
  | some field =>
    if value.length < field.length ∨ row.length < field.offset + field.length then .error .row
    else .ok (some (overwrite row field.offset (value.take field.length)))

/-- "Copy values of requested columns to new buffer", from a column on. The numbers were checked
when the columns were looked up. -/
def copyColumns (desc : TableDesc) (oldRow : Row) : Nat → List ChCol → Row →
    Except ResizeFault (Option Row)
  | _, [], row => .ok (some row)
  | colNum, col :: rest, row =>
    if col.colOldIndex = 0 then copyColumns desc oldRow (colNum + 1) rest row
    else
      match fieldSet desc row colNum (oldRow.drop col.colOldOffset) with
      | .error fault => .error fault
      | .ok none => .ok none
      | .ok (some row) => copyColumns desc oldRow (colNum + 1) rest row

/-- "copy old data to new table": the rows of the new table, and whether all were copied. -/
def copyRows (desc : TableDesc) (cols : List ChCol) : List Row → List Row →
    Except ResizeFault (List Row × Bool)
  | [], rows => .ok (rows, true)
  | oldRow :: rest, rows =>
    match copyColumns desc oldRow 1 cols (List.replicate desc.rowLen 0) with
    | .error fault => .error fault
    | .ok none => .ok (rows, false)
    | .ok (some row) =>
      match insertRow desc rows row with
      | .error fault => .error fault
      | .ok none => .ok (rows, false)
      | .ok (some rows) => copyRows desc cols rest rows

/-- The table that was created, with its rows, and whether the tool came to its end. -/
structure Resizing where
  created : Option (TableDesc × List Row)
  finished : Bool

/-- The tool returns before it has created a table. -/
def Resizing.refused : Resizing := ⟨none, false⟩

/-- "Create table" and what follows. -/
def fillTable (overlong : Overlong) (disk : Disk) (script : Script) (old : TableFile) (cols : List ChCol)
    (desc : TableDesc) : Except ResizeFault Resizing :=
  match createFile disk desc with
  | .error fault => .error fault
  | .ok false => .ok .refused
  | .ok true =>
    if script.recreateOnly then .ok ⟨some (desc, []), true⟩
    else (copyRows desc cols (overlong.fetched old) []).map fun (rows, finished) =>
      ⟨some (desc, overlong.stored desc rows), finished⟩

/-- `main` after the script is read. -/
def resize (overlong : Overlong) (behind : FieldDesc) (disk : Disk) (script : Script) :
    Except ResizeFault Resizing :=
  let cols := script.columns.map Column.chCol
  if (disk script.table).isNone then
    match newDesc script cols with
    | none => .ok .refused
    | some _ => .error .null -- `old_tbl_desc->Name`
  else
    let disk := disk.move script.table tmpTabName
    match mountFile disk tmpTabName with
    | .error fault => .error fault
    | .ok none => .ok .refused
    | .ok (some old) =>
      match cols.mapM (ChCol.resolve behind old.desc) with
      | none => .ok .refused
      | some cols =>
        match newDesc script cols with
        | none => .ok .refused
        | some desc => fillTable overlong disk script old cols desc

/-! ### What the tool should do -/

/-- What a column should hold for a row of the old table. -/
def Column.value (old : TableDesc) (oldRow : Row) : Column → List UInt8
  | .old number => (old.fields.getD number.toNat ⟨0, 0, 0⟩).bytes oldRow
  | .new type length => List.replicate (metricLength type length.toNat) 0

def RowResized (script : Script) (old desc : TableDesc) (oldRow row : Row) : Prop :=
  ∀ (place : Nat) (column : Column), script.columns[place]? = some column →
    ∃ field, desc.fields[place + 1]? = some field ∧ field.bytes row = column.value old oldRow

/-- The new table has a row for every live row of the old one. -/
def Resized (script : Script) (old : TableFile) (outcome : Resizing) : Prop :=
  ∃ desc rows, outcome = ⟨some (desc, rows), true⟩ ∧
    List.Forall₂ (RowResized script old.desc desc) old.liveRows rows

/-- The columns that are referenced are copied, and a script that references a column that does
not exist is refused. -/
structure ResizeRight (overlong : Overlong) (behind : FieldDesc) (disk : Disk) (script : Script) :
    Prop where
  copies : ∀ old, disk script.table = some old →
    (∀ number, Column.old number ∈ script.columns → number.toNat < old.desc.fieldNum) →
    ∃ outcome, resize overlong behind disk script = .ok outcome ∧ Resized script old outcome
  refuses : (∃ number, Column.old number ∈ script.columns ∧
      ∀ old, disk script.table = some old → old.desc.fieldNum ≤ number.toNat) →
    ∃ outcome, resize overlong behind disk script = .ok outcome ∧ outcome.created = none

/-! ### When it does -/

/-- The length of a column in the new table. -/
def Column.width (old : TableDesc) : Column → Nat
  | .old number =>
    if number.toNat = 0 then 0
    else
      let field := old.fields.getD number.toNat ⟨0, 0, 0⟩
      metricLength field.type field.length
  | .new type length => metricLength type length.toNat

/-- The length of a column is what its row has of the column it is copied from. -/
def Column.Kept (old : TableDesc) : Column → Prop
  | .old number =>
    let field := old.fields.getD number.toNat ⟨0, 0, 0⟩
    min field.length (old.rowLen - field.offset) = (Column.old number).width old
  | .new _ _ => True

instance {old : TableDesc} {column : Column} : Decidable (column.Kept old) :=
  match column with
  | .old _ => inferInstanceAs (Decidable (_ = _))
  | .new _ _ => inferInstanceAs (Decidable True)

/-- The length of a row of the new table. -/
def Script.rowLen (script : Script) (old : TableDesc) : Nat :=
  4 + (script.columns.map (Column.width old)).sum

/-- The rows can be copied. -/
structure Copyable (script : Script) (old : TableFile) : Prop where
  wanted : script.recreateOnly = false
  kept : ∀ column ∈ script.columns, column.Kept old.desc
  small : script.rowLen old.desc < 2 ^ 32
  inPage : ∀ index < old.liveRows.length,
    (index % script.rowsPp.toNat + 1) * script.rowLen old.desc ≤
      script.rowLen old.desc * script.rowsPp.toNat % 2 ^ 32

/-- When rows are copied the pages of the old table have their places, and those of the new one. -/
def Script.Placed (script : Script) (old : TableFile) : Prop :=
  (∀ number, Column.old number ∈ script.columns → number.toNat < old.desc.fieldNum) →
    script.recreateOnly = false → old.desc.Placed old.rows.length ∧
      (old.liveRows.length / script.rowsPp.toNat + 1) *
        (script.rowLen old.desc * script.rowsPp.toNat % 2 ^ 32) < 2 ^ 31

/-- The descriptor of the new table fits into a message. -/
def Script.Sendable (script : Script) : Prop := 80 + 12 * script.columns.length ≤ msgRoom

instance {script : Script} : Decidable script.Sendable := inferInstanceAs (Decidable (_ ≤ _))

structure ResizableTable (script : Script) (old : TableFile) : Prop where
  paged : old.desc.Paged
  room : old.desc.size ≤ msgRoom
  copies : (∀ number, Column.old number ∈ script.columns → number.toNat < old.desc.fieldNum) →
    script.Sendable ∧ 3 ≤ script.lockPages.toNat ∧ (old.liveRows ≠ [] → Copyable script old)
  refuses : (∃ number, Column.old number ∈ script.columns ∧
      old.desc.fieldNum ≤ number.toNat) →
    (∃ number, Column.old number ∈ script.columns ∧ old.desc.fieldNum < number.toNat) ∨
      script.Sendable ∧ script.lockPages.toNat < 3

/-- A script without a table references no column. -/
def Resizable (disk : Disk) (script : Script) : Prop :=
  match disk script.table with
  | none => ∀ number, Column.old number ∉ script.columns
  | some old => ResizableTable script old

end QNXStuff.QXBase
