import QNXStuff.QXBase.Resize

/-! When the rows of a table that `QXB-resize` makes are those of the old one. -/

namespace QNXStuff.QXBase

open Memory Execution

/-! ### The new descriptor -/

/-- Types and lengths, without the offsets. -/
def metricsOf (fields : List FieldDesc) : List (Nat × Nat) :=
  fields.map fun field => (field.type, field.length)

/-- What a column makes of its field. -/
def ChCol.metrics (col : ChCol) : Nat × Nat := (col.colType, metricLength col.colType col.colLength)

theorem metricsOf_placed (curOffset : Nat) (fields : List FieldDesc) :
    metricsOf (placeFields curOffset fields).1 = metricsOf fields := by
  induction fields generalizing curOffset with
  | nil => rfl
  | cons field rest ih => exact congrArg ((field.type, field.length) :: ·) (ih _)

theorem metricsOf_length (fields : List FieldDesc) : (metricsOf fields).length = fields.length :=
  List.length_map ..

/-- A descriptor for these columns. -/
structure BuiltFor (script : Script) (cols : List ChCol) (desc : TableDesc) : Prop where
  built : ClientBuilt desc
  metrics : metricsOf desc.fields = (typeUint, 4) :: cols.map ChCol.metrics
  name : desc.name = script.table
  size : desc.size = 80 + cols.length * 12
  pageRows : desc.pageRows = script.rowsPp.toNat
  lockPages : desc.lockPages = script.lockPages.toNat

section Build

variable {desc : TableDesc} {colNum : Nat} {cols : List ChCol} {front : List (Nat × Nat)}

theorem setFieldMetrics_at {back : List (Nat × Nat)} {old : Nat × Nat}
    (fields : metricsOf desc.fields = front ++ old :: back) (place : front.length = colNum)
    (small : colNum < 2 ^ 32) (type length : Nat) :
    ∃ next, setFieldMetrics desc colNum type length = (next, 1) ∧
      metricsOf next.fields = front ++ (type, metricLength type length) :: back ∧
      next.name = desc.name ∧ next.size = desc.size ∧ next.pageRows = desc.pageRows ∧
      next.lockPages = desc.lockPages ∧ (ClientBuilt desc → ClientBuilt next) := by
  have column : ((colNum : Int) % 2 ^ 32).toNat = colNum := by omega
  have count : desc.fields.length = front.length + 1 + back.length := by
    rw [← metricsOf_length, fields, List.length_append, List.length_cons]
    omega
  have inside : ¬ desc.fieldNum ≤ colNum := by
    unfold TableDesc.fieldNum
    omega
  refine ⟨(setFieldMetrics desc colNum type length).1, ?_, ?_, ?_⟩
  · unfold setFieldMetrics
    simp only [column, if_neg inside]
  · unfold setFieldMetrics
    simp only [column, if_neg inside, fixtbl, metricsOf_placed]
    have changed : metricsOf (desc.fields.modify colNum fun field =>
        { field with type := type, length := metricLength type length }) =
        (metricsOf desc.fields).set colNum (type, metricLength type length) := by
      apply List.ext_getElem?
      intro index
      unfold metricsOf
      rw [List.getElem?_map, List.getElem?_modify, List.getElem?_set, List.length_map,
        List.getElem?_map]
      by_cases here : colNum = index
      · subst here
        have found : desc.fields[colNum]? = some desc.fields[colNum] := List.getElem?_eq_getElem _
        simp only [found, ↓reduceIte, Option.map_eq_map, Option.map_some]
        rw [if_pos (by omega)]
      · simp [here]
    rw [changed, fields, List.set_append_right _ _ (Nat.le_of_eq place), place, Nat.sub_self,
      List.set_cons_zero]
  · have kept : ClientBuilt desc → ClientBuilt (setFieldMetrics desc colNum type length).1 :=
      fun built => .metrics built colNum type length
    refine ⟨?_, ?_, ?_, ?_, kept⟩
    all_goals
      unfold setFieldMetrics
      simp only [column, if_neg inside, fixtbl]

theorem setMetrics_spec (fields : metricsOf desc.fields = front ++ List.replicate cols.length (0, 4))
    (place : front.length = colNum) (small : colNum + cols.length < 2 ^ 32) :
    ∃ next, setMetrics desc colNum cols = some next ∧
      metricsOf next.fields = front ++ cols.map ChCol.metrics ∧
      next.name = desc.name ∧ next.size = desc.size ∧ next.pageRows = desc.pageRows ∧
      next.lockPages = desc.lockPages ∧ (ClientBuilt desc → ClientBuilt next) := by
  induction cols generalizing desc colNum front with
  | nil => exact ⟨desc, rfl, fields, rfl, rfl, rfl, rfl, id⟩
  | cons col rest ih =>
    rw [List.length_cons] at small
    rw [List.length_cons, List.replicate_succ] at fields
    obtain ⟨first, set, fields', name, size, pageRows, lockPages, built⟩ :=
      setFieldMetrics_at fields place (by omega) col.colType col.colLength
    rw [← List.singleton_append, ← List.append_assoc] at fields'
    obtain ⟨next, rest', fields'', name', size', pageRows', lockPages', built'⟩ :=
      @ih first (colNum + 1) _ fields' (by rw [List.length_append, place]; rfl) (by omega)
    refine ⟨next, ?_, ?_, name'.trans name, size'.trans size, pageRows'.trans pageRows,
      lockPages'.trans lockPages, fun start => built' (built start)⟩
    · rw [setMetrics, set]
      exact rest'
    · rw [fields'', List.append_assoc]
      rfl

theorem newDesc_built (script : Script) (few : cols.length < 2 ^ 31) :
    ∃ desc, newDesc script cols = some desc ∧ BuiltFor script cols desc := by
  have fields : metricsOf (newTbldesc cols.length script.rowsPp.toNat script.lockPages.toNat
      script.table).fields = [(typeUint, 4)] ++ List.replicate cols.length (0, 4) := by
    unfold newTbldesc
    simp only [fixtbl, metricsOf_placed]
    simp [metricsOf, List.replicate_succ]
  obtain ⟨desc, done, metrics, name, size, pageRows, lockPages, built⟩ :=
    @setMetrics_spec _ 1 _ _ fields rfl (by omega)
  have short : script.table.toList.take 32 = script.table.toList :=
    List.take_of_length_le (Nat.le_of_lt script.short)
  refine ⟨desc, done, built (.new ..), metrics, name.trans ?_, size, pageRows, lockPages⟩
  show String.ofList (script.table.toList.take 32) = script.table
  rw [short, String.ofList_toList]

end Build

/-! ### Columns that are looked up -/

/-- What a column is once it is looked up. -/
def Column.resolved (behind : FieldDesc) (old : TableDesc) : Column → ChCol
  | .old number =>
    if number.toNat = 0 then (Column.old number).chCol
    else
      let field := old.fields.getD number.toNat behind
      ⟨field.type, field.length, number.toNat, field.offset⟩
  | .new type length => (Column.new type length).chCol

def Column.Beyond (old : TableDesc) : Column → Prop
  | .old number => old.fieldNum < number.toNat
  | .new _ _ => False

section Resolve

variable {behind : FieldDesc} {old : TableDesc}

theorem resolved_key {number : UInt32} (zero : number.toNat = 0) :
    (Column.old number).resolved behind old = (Column.old number).chCol := if_pos zero

theorem resolved_old {number : UInt32} (nonzero : number.toNat ≠ 0) :
    (Column.old number).resolved behind old =
      ⟨(old.fields.getD number.toNat behind).type, (old.fields.getD number.toNat behind).length,
        number.toNat, (old.fields.getD number.toNat behind).offset⟩ := if_neg nonzero

theorem resolve_beyond {column : Column} (beyond : column.Beyond old) :
    column.chCol.resolve behind old = none := by
  cases column with
  | new type length => cases beyond
  | old number =>
    have positive : number.toNat ≠ 0 := Nat.ne_of_gt (Nat.lt_of_le_of_lt (Nat.zero_le _) beyond)
    unfold ChCol.resolve
    rw [if_pos ⟨rfl, positive⟩]
    exact if_pos beyond

theorem resolve_within {column : Column} (within : ¬ column.Beyond old) :
    column.chCol.resolve behind old = some (column.resolved behind old) := by
  cases column with
  | new type length =>
    have known : ¬ ((type : Nat) = typeOld ∧ (Column.new type length).chCol.colOldIndex ≠ 0) :=
      fun both => both.2 rfl
    exact if_neg known
  | old number =>
    unfold ChCol.resolve Column.resolved
    dsimp only
    by_cases zero : number.toNat = 0
    · rw [if_pos zero]
      exact if_neg fun both => both.2 zero
    · rw [if_neg zero, if_pos ⟨rfl, zero⟩]
      exact if_neg within

theorem resolve_all (columns : List Column) :
    (columns.map Column.chCol).mapM (ChCol.resolve behind old) = none ↔
      ∃ column ∈ columns, column.Beyond old := by
  induction columns with
  | nil => simp
  | cons column rest ih =>
    rw [List.map_cons, List.mapM_cons]
    by_cases beyond : column.Beyond old
    · rw [resolve_beyond beyond]
      exact ⟨fun _ => ⟨column, List.mem_cons_self, beyond⟩, fun _ => rfl⟩
    · rw [resolve_within beyond]
      have later : (∃ other ∈ column :: rest, other.Beyond old) ↔
          ∃ other ∈ rest, other.Beyond old := by simp [beyond]
      rw [later, ← ih]
      cases (rest.map Column.chCol).mapM (ChCol.resolve behind old) with
      | none => exact ⟨fun _ => rfl, fun _ => rfl⟩
      | some cols => exact ⟨nofun, nofun⟩

theorem resolve_some {columns : List Column} (within : ∀ column ∈ columns, ¬ column.Beyond old) :
    (columns.map Column.chCol).mapM (ChCol.resolve behind old) =
      some (columns.map (Column.resolved behind old)) := by
  induction columns with
  | nil => rfl
  | cons column rest ih =>
    rw [List.map_cons, List.mapM_cons, resolve_within (within column List.mem_cons_self),
      ih fun other member => within other (List.mem_cons_of_mem column member)]
    rfl

/-- A field that exists does not depend on what stands behind the descriptor. -/
theorem getD_within {number : Nat} (within : number < old.fieldNum) (first second : FieldDesc) :
    old.fields.getD number first = old.fields.getD number second := by
  unfold TableDesc.fieldNum at within
  rw [List.getD_eq_getElem _ _ within, List.getD_eq_getElem _ _ within]

/-- The column of an existing field, or a new one. -/
def Column.Within (old : TableDesc) : Column → Prop
  | .old number => number.toNat < old.fieldNum
  | .new _ _ => True

theorem Column.Within.not_beyond {column : Column} (within : column.Within old) :
    ¬ column.Beyond old := by
  cases column with
  | old number => exact Nat.not_lt_of_lt within
  | new type length => exact id

theorem Column.Within.width {column : Column} (within : column.Within old) :
    (column.resolved behind old).metrics.2 = column.width old := by
  cases column with
  | new type length => rfl
  | old number =>
    unfold Column.resolved Column.width
    dsimp only
    by_cases zero : number.toNat = 0
    · rw [if_pos zero, if_pos zero]
      rfl
    · rw [if_neg zero, if_neg zero, getD_within within behind ⟨0, 0, 0⟩]
      rfl

end Resolve

/-! ### One row -/

section Row

variable {desc : TableDesc} {oldRow row : Row}

/-- A field that is written holds the value, and the others what they held. -/
theorem write_field (aligned : desc.Aligned) {place : Nat} {field : FieldDesc}
    {value : List UInt8} (found : desc.fields[place]? = some field)
    (length : value.length = field.length) (whole : row.length = desc.rowLen) :
    (overwrite row field.offset value).length = desc.rowLen ∧
      ∀ (index : Nat) (other : FieldDesc), desc.fields[index]? = some other →
        other.bytes (overwrite row field.offset value) =
          if index = place then value else other.bytes row := by
  have ends := (consecutive_inside aligned.placed found).2
  have inside : field.offset + value.length ≤ row.length := by
    rw [length, whole, aligned.total]
    omega
  refine ⟨(overwrite_length inside).trans whole, fun index other found' => ?_⟩
  by_cases same : index = place
  · subst same
    rw [found] at found'
    cases found'
    rw [if_pos rfl, FieldDesc.bytes, ← length, overwrite_read (by omega)]
  · rw [if_neg same]
    refine take_drop_congr fun position above below => ?_
    rw [overwrite_getElem? inside, if_neg]
    rcases Nat.lt_or_gt_of_ne same with before | after
    · have apart := consecutive_apart aligned.placed before found' found
      omega
    · have apart := consecutive_apart aligned.placed after found found'
      omega

/-- The columns from one on are copied into their fields. -/
theorem copyColumns_spec (aligned : desc.Aligned) {colNum : Nat} {cols : List ChCol}
    (whole : row.length = desc.rowLen)
    (fits : ∀ (place : Nat) (col : ChCol), cols[place]? = some col → col.colOldIndex ≠ 0 →
      ∃ field, desc.fields[colNum + place]? = some field ∧
        field.length ≤ (oldRow.drop col.colOldOffset).length) :
    ∃ copied, copyColumns desc oldRow colNum cols row = .ok (some copied) ∧
      copied.length = desc.rowLen ∧
      (∀ (index : Nat) (field : FieldDesc), desc.fields[index]? = some field → index < colNum →
        field.bytes copied = field.bytes row) ∧
      ∀ (place : Nat) (col : ChCol) (field : FieldDesc), cols[place]? = some col →
        desc.fields[colNum + place]? = some field → field.bytes copied =
          if col.colOldIndex = 0 then field.bytes row
          else (oldRow.drop col.colOldOffset).take field.length := by
  induction cols generalizing colNum row with
  | nil => exact ⟨row, rfl, whole, fun _ _ _ _ => rfl, nofun⟩
  | cons col rest ih =>
    have later (place : Nat) (other : ChCol) (found : rest[place]? = some other)
        (copies : other.colOldIndex ≠ 0) : ∃ field,
        desc.fields[colNum + 1 + place]? = some field ∧
          field.length ≤ (oldRow.drop other.colOldOffset).length := by
      obtain ⟨field, there, enough⟩ := fits (place + 1) other found copies
      exact ⟨field, by rw [← there]; congr 1; omega, enough⟩
    by_cases zero : col.colOldIndex = 0
    · obtain ⟨copied, done, length, before, columns⟩ := @ih row (colNum + 1) whole later
      refine ⟨copied, by rw [copyColumns, if_pos zero, done], length,
        fun index field found below => before index field found (Nat.lt_succ_of_lt below), ?_⟩
      intro place other field found there
      cases place with
      | zero =>
        cases found
        rw [if_pos zero]
        exact before colNum field there (Nat.lt_succ_self colNum)
      | succ place =>
        exact columns place other field found (by rw [← there]; congr 1; omega)
    · obtain ⟨field, there, enough⟩ := fits 0 col rfl zero
      rw [Nat.add_zero] at there
      have value : ((oldRow.drop col.colOldOffset).take field.length).length = field.length :=
        List.length_take_of_le enough
      obtain ⟨whole', written⟩ := write_field aligned there value whole
      obtain ⟨copied, done, length, before, columns⟩ := ih whole' later
      have set : fieldSet desc row colNum (oldRow.drop col.colOldOffset) =
          .ok (some (overwrite row field.offset
            ((oldRow.drop col.colOldOffset).take field.length))) := by
        have ends := (consecutive_inside aligned.placed there).2
        unfold fieldSet
        rw [there]
        refine if_neg ?_
        rw [whole, aligned.total]
        omega
      refine ⟨copied, by rw [copyColumns, if_neg zero, set]; exact done, length, ?_, ?_⟩
      · intro index other found below
        rw [before index other found (Nat.lt_succ_of_lt below), written index other found,
          if_neg (Nat.ne_of_lt below)]
      · intro place other field' found there'
        cases place with
        | zero =>
          cases found
          rw [Nat.add_zero, there] at there'
          cases there'
          rw [if_neg zero, before colNum field there (Nat.lt_succ_self colNum),
            written colNum field there, if_pos rfl]
        | succ place =>
          have behind : desc.fields[colNum + 1 + place]? = some field' := by
            rw [← there']
            congr 1
            omega
          have apart : ¬ colNum + 1 + place = colNum := by omega
          rw [columns place other field' found behind, written _ field' behind, if_neg apart]

/-- Columns that were copied had their bytes and their place. -/
theorem copyColumns_inside {colNum : Nat} {cols : List ChCol} {copied : Row}
    (done : copyColumns desc oldRow colNum cols row = .ok (some copied))
    (whole : row.length = desc.rowLen) :
    copied.length = desc.rowLen ∧
      ∀ (place : Nat) (col : ChCol), cols[place]? = some col → col.colOldIndex ≠ 0 →
        ∃ field, desc.fields[colNum + place]? = some field ∧
          field.length ≤ (oldRow.drop col.colOldOffset).length ∧
          field.offset + field.length ≤ desc.rowLen := by
  induction cols generalizing colNum row with
  | nil =>
    cases done
    exact ⟨whole, nofun⟩
  | cons col rest ih =>
    -- a column of the rest, seen from here
    have shift {row : Row} (done : copyColumns desc oldRow (colNum + 1) rest row = .ok (some copied))
        (whole : row.length = desc.rowLen) (place : Nat) (other : ChCol)
        (found : rest[place]? = some other) (copies : other.colOldIndex ≠ 0) : ∃ field,
        desc.fields[colNum + (place + 1)]? = some field ∧
          field.length ≤ (oldRow.drop other.colOldOffset).length ∧
          field.offset + field.length ≤ desc.rowLen := by
      obtain ⟨field, there, inside⟩ := (ih done whole).2 place other found copies
      exact ⟨field, by rw [← there]; congr 1; omega, inside⟩
    rw [copyColumns] at done
    by_cases zero : col.colOldIndex = 0
    · rw [if_pos zero] at done
      refine ⟨(ih done whole).1, ?_⟩
      intro place other found copies
      cases place with
      | zero =>
        cases found
        exact absurd zero copies
      | succ place => exact shift done whole place other found copies
    · rw [if_neg zero] at done
      unfold fieldSet at done
      cases there : desc.fields[colNum]? with
      | none =>
        rw [there] at done
        cases done
      | some field =>
        rw [there] at done
        by_cases outside : (oldRow.drop col.colOldOffset).length < field.length ∨
            row.length < field.offset + field.length
        · simp only [if_pos outside] at done
          cases done
        · simp only [if_neg outside] at done
          have value : ((oldRow.drop col.colOldOffset).take field.length).length =
              field.length := List.length_take_of_le (by omega)
          have whole' : (overwrite row field.offset
              ((oldRow.drop col.colOldOffset).take field.length)).length = desc.rowLen := by
            rw [overwrite_length (by omega), whole]
          refine ⟨(ih done whole').1, ?_⟩
          intro place other found copies
          cases place with
          | zero =>
            cases found
            exact ⟨field, there, by omega, by omega⟩
          | succ place => exact shift done whole' place other found copies

end Row

/-! ### The rows one after the other -/

section Rows

variable {desc : TableDesc} {cols : List ChCol}

/-- A row that is inserted has its place in a page. -/
def HasPlace (desc : TableDesc) (index : Nat) : Prop :=
  index % desc.pageRows * desc.rowLen + max desc.rowLen 4 ≤ desc.rowLen * desc.pageRows % 2 ^ 32

/-- The rows are copied when each of them can be. -/
theorem copyRows_spec {right : Row → Row → Prop} (keyed : desc.rowLen ≠ 0)
    {oldRows rows : List Row}
    (good : ∀ oldRow ∈ oldRows, ∃ row,
      copyColumns desc oldRow 1 cols (List.replicate desc.rowLen 0) = .ok (some row) ∧
      ∀ key, right oldRow ((withKey row key).take desc.rowLen))
    (places : ∀ index, rows.length ≤ index → index < rows.length + oldRows.length →
      HasPlace desc index) :
    ∃ made, copyRows desc cols oldRows rows = .ok (rows ++ made, true) ∧
      List.Forall₂ right oldRows made := by
  induction oldRows generalizing rows with
  | nil => exact ⟨[], by rw [copyRows, List.append_nil], .nil⟩
  | cons oldRow rest ih =>
    obtain ⟨row, copied, holds⟩ := good oldRow List.mem_cons_self
    have place := places rows.length (Nat.le_refl _)
      (Nat.lt_add_of_pos_right (Nat.succ_pos _))
    have inserted : insertRow desc rows row =
        .ok (some (rows ++ [(withKey row (rows.length + 1)).take desc.rowLen])) := by
      unfold insertRow
      rw [if_neg keyed]
      exact if_neg (Nat.not_lt.mpr place)
    obtain ⟨made, done, all⟩ := @ih (rows ++ [(withKey row (rows.length + 1)).take desc.rowLen])
      (fun other member => good other (List.mem_cons_of_mem oldRow member))
      (fun index above below => by
        rw [List.length_append, List.length_singleton] at above below
        refine places index (Nat.le_of_succ_le above) ?_
        rw [List.length_cons]
        omega)
    refine ⟨_ :: made, ?_, .cons (holds (rows.length + 1)) all⟩
    rw [copyRows, copied]
    simp only [inserted]
    rw [done, List.append_assoc]
    rfl

/-- A row that was copied had its columns and its place, and the others were copied behind it. -/
theorem copyRows_cons {oldRow : Row} {rest rows final : List Row}
    (done : copyRows desc cols (oldRow :: rest) rows = .ok (final, true)) :
    ∃ row, copyColumns desc oldRow 1 cols (List.replicate desc.rowLen 0) = .ok (some row) ∧
      HasPlace desc rows.length ∧
      copyRows desc cols rest (rows ++ [(withKey row (rows.length + 1)).take desc.rowLen]) =
        .ok (final, true) := by
  rw [copyRows] at done
  cases copied : copyColumns desc oldRow 1 cols (List.replicate desc.rowLen 0) with
  | error fault =>
    rw [copied] at done
    cases done
  | ok outcome =>
    rw [copied] at done
    cases outcome with
    | none => cases done
    | some row =>
      simp only [insertRow] at done
      by_cases keyed : desc.rowLen = 0
      · simp only [if_pos keyed] at done
        cases done
      · rw [if_neg keyed] at done
        by_cases place : desc.rowLen * desc.pageRows % 2 ^ 32 <
            rows.length % desc.pageRows * desc.rowLen + max desc.rowLen 4
        · simp only [if_pos place] at done
          cases done
        · simp only [if_neg place] at done
          exact ⟨row, rfl, Nat.not_lt.mp place, done⟩

theorem copyRows_length {oldRows rows final : List Row}
    (done : copyRows desc cols oldRows rows = .ok (final, true)) :
    final.length = rows.length + oldRows.length := by
  induction oldRows generalizing rows with
  | nil =>
    cases done
    rfl
  | cons oldRow rest ih =>
    obtain ⟨row, _, _, others⟩ := copyRows_cons done
    rw [ih others, List.length_append, List.length_singleton, List.length_cons, Nat.add_assoc,
      Nat.add_comm 1]

/-- Rows that were copied had their places, and the first one its columns. -/
theorem copyRows_inside {oldRows rows final : List Row}
    (done : copyRows desc cols oldRows rows = .ok (final, true)) :
    (∀ index, rows.length ≤ index → index < rows.length + oldRows.length → HasPlace desc index) ∧
      (∀ oldRow ∈ oldRows, ∃ row,
        copyColumns desc oldRow 1 cols (List.replicate desc.rowLen 0) = .ok (some row)) ∧
      ∀ row ∈ final, row ∈ rows ∨ row.length = desc.rowLen := by
  induction oldRows generalizing rows with
  | nil =>
    cases done
    exact ⟨fun index above below => absurd below (Nat.not_lt.mpr above), nofun,
      fun row member => .inl member⟩
  | cons oldRow rest ih =>
    obtain ⟨row, copied, place, done⟩ := copyRows_cons done
    obtain ⟨places, others, lengths⟩ := ih done
    rw [List.length_append, List.length_singleton] at places
    refine ⟨fun index above below => ?_, fun other member => ?_, fun other member => ?_⟩
    · rw [List.length_cons] at below
      rcases Nat.eq_or_lt_of_le above with rfl | further
      · exact place
      · exact places index further (by omega)
    · rcases List.mem_cons.mp member with rfl | member
      · exact ⟨row, copied⟩
      · exact others other member
    · rcases lengths other member with earlier | short
      · rcases List.mem_append.mp earlier with earlier | here
        · exact .inl earlier
        · have whole := (copyColumns_inside copied List.length_replicate).1
          rw [List.mem_singleton.mp here, List.length_take]
          refine .inr (Nat.min_eq_left ?_)
          rw [← whole]
          exact length_overwrite_le ..
      · exact .inr short

end Rows

/-! ### Columns of a script -/

section Script

variable {behind : FieldDesc} {script : Script} {old : TableFile} {desc : TableDesc}

def Script.cols (script : Script) (behind : FieldDesc) (old : TableDesc) : List ChCol :=
  script.columns.map (Column.resolved behind old)

theorem BuiltFor.field (for' : BuiltFor script (script.cols behind old.desc) desc)
    (within : ∀ column ∈ script.columns, column.Within old.desc) {place : Nat} {column : Column}
    (found : script.columns[place]? = some column) :
    ∃ field, desc.fields[place + 1]? = some field ∧ field.length = column.width old.desc := by
  have metrics := congrArg (·[place + 1]?) for'.metrics
  simp only [metricsOf, Script.cols, List.getElem?_map, List.getElem?_cons_succ, found,
    Option.map_some] at metrics
  obtain ⟨field, there, same⟩ := Option.map_eq_some_iff.mp metrics
  refine ⟨field, there, ?_⟩
  have width := @Column.Within.width behind _ _ (within column (List.mem_of_getElem? found))
  rw [← width, ← same]

theorem BuiltFor.key {cols : List ChCol} (for' : BuiltFor script cols desc) :
    ∃ field, desc.fields[0]? = some field ∧ field.length = 4 := by
  have metrics := congrArg (·[0]?) for'.metrics
  simp only [metricsOf, List.getElem?_map, List.getElem?_cons_zero] at metrics
  obtain ⟨field, there, same⟩ := Option.map_eq_some_iff.mp metrics
  exact ⟨field, there, congrArg Prod.snd same⟩

theorem BuiltFor.total (for' : BuiltFor script (script.cols behind old.desc) desc)
    (within : ∀ column ∈ script.columns, column.Within old.desc) :
    totalLength desc.fields = script.rowLen old.desc := by
  have lengths := congrArg (List.map Prod.snd) for'.metrics
  unfold metricsOf Script.cols at lengths
  rw [List.map_map, List.map_cons, List.map_map, List.map_map] at lengths
  have each : script.columns.map ((Prod.snd ∘ ChCol.metrics) ∘ Column.resolved behind old.desc) =
      script.columns.map (Column.width old.desc) :=
    List.map_congr_left fun column member => (within column member).width
  unfold totalLength Script.rowLen
  rw [← each, ← List.sum_cons]
  exact congrArg List.sum lengths

/-- The loop over the fields adds up their lengths. -/
theorem placeFields_total {curOffset : Nat} (start : curOffset < 2 ^ 32) (fields : List FieldDesc) :
    (placeFields curOffset fields).2 = (curOffset + totalLength fields) % 2 ^ 32 := by
  induction fields generalizing curOffset with
  | nil => exact (Nat.mod_eq_of_lt start).symm
  | cons field rest ih =>
    have total : totalLength (field :: rest) = field.length + totalLength rest := List.sum_cons
    have next : (placeFields curOffset (field :: rest)).2 =
        (placeFields ((curOffset + field.length) % 2 ^ 32) rest).2 := rfl
    rw [next, ih (Nat.mod_lt _ (by decide)), total, Nat.mod_add_mod, Nat.add_assoc]

/-- Where the pages of the new table end, by the script. -/
theorem BuiltFor.placed_iff (for' : BuiltFor script (script.cols behind old.desc) desc)
    (within : ∀ column ∈ script.columns, column.Within old.desc) (count : Nat) :
    desc.Placed count ↔ (count / script.rowsPp.toNat + 1) *
      (script.rowLen old.desc * script.rowsPp.toNat % 2 ^ 32) < 2 ^ 31 := by
  obtain ⟨-, source, placed, total⟩ := for'.built.tiled
  have rowLen : desc.rowLen = script.rowLen old.desc % 2 ^ 32 := by
    have sum := placeFields_total (by decide : 0 < 2 ^ 32) source
    rw [placed, Nat.zero_add, total, for'.total within] at sum
    exact sum
  have wraps : desc.rowLen * desc.pageRows % 2 ^ 32 =
      script.rowLen old.desc * script.rowsPp.toNat % 2 ^ 32 := by
    rw [rowLen, for'.pageRows, Nat.mod_mul_mod]
  unfold TableDesc.Placed
  rw [wraps, for'.pageRows]

theorem liveRows_whole : ∀ row ∈ old.liveRows, row.length = old.desc.rowLen := by
  intro row member
  refine old.whole row ?_
  obtain ⟨entry, delivered, rfl⟩ := List.mem_map.mp member
  rw [deliver_plain (List.forall_mem_nil _)] at delivered
  exact List.fst_mem_of_mem_zipIdx (List.mem_of_mem_filter delivered)

theorem cols_resolved {place : Nat} {column : Column} (here : script.columns[place]? = some column) :
    (script.cols behind old.desc)[place]? = some (column.resolved behind old.desc) := by
  unfold Script.cols
  rw [List.getElem?_map, here]
  rfl

/-- A column that is copied lies in the old row. -/
theorem column_fits (for' : BuiltFor script (script.cols behind old.desc) desc)
    (within : ∀ column ∈ script.columns, column.Within old.desc)
    (kept : ∀ column ∈ script.columns, column.Kept old.desc)
    {oldRow : Row} (whole : oldRow.length = old.desc.rowLen) {place : Nat} {col : ChCol}
    (found : (script.cols behind old.desc)[place]? = some col) (copies : col.colOldIndex ≠ 0) :
    ∃ field, desc.fields[1 + place]? = some field ∧
      field.length ≤ (oldRow.drop col.colOldOffset).length := by
  obtain ⟨column, here, rfl⟩ := Option.map_eq_some_iff.mp
    ((List.getElem?_map ..).symm.trans found)
  have member := List.mem_of_getElem? here
  obtain ⟨field, there, width⟩ := for'.field within here
  refine ⟨field, by rw [Nat.add_comm, there], ?_⟩
  cases column with
  | new type length => exact absurd rfl copies
  | old number =>
    have nonzero : number.toNat ≠ 0 := fun zero => copies (by
      rw [resolved_key zero]
      exact zero)
    have known : (old.desc.fields.getD number.toNat behind) =
        old.desc.fields.getD number.toNat ⟨0, 0, 0⟩ := getD_within (within _ member) _ _
    have kept : min _ _ = (Column.old number).width old.desc := kept _ member
    rw [width, ← kept, List.length_drop, whole, resolved_old nonzero, known]
    exact Nat.min_le_right ..

/-- What a field of the new row is made of is the value of its column. -/
theorem copied_value (aligned : desc.Aligned) {column : Column} (within : column.Within old.desc)
    (kept : column.Kept old.desc) {oldRow : Row} (whole : oldRow.length = old.desc.rowLen)
    {place : Nat} {field : FieldDesc} (there : desc.fields[place]? = some field)
    (width : field.length = column.width old.desc) :
    (if (column.resolved behind old.desc).colOldIndex = 0 then
        field.bytes (List.replicate desc.rowLen 0)
      else (oldRow.drop (column.resolved behind old.desc).colOldOffset).take field.length) =
      column.value old.desc oldRow := by
  cases column with
  | new type length =>
    have inside := (consecutive_inside aligned.placed there).2
    have total := aligned.total
    have copies : ((Column.new type length).resolved behind old.desc).colOldIndex = 0 := rfl
    rw [if_pos copies, FieldDesc.bytes, List.drop_replicate, List.take_replicate,
      Nat.min_eq_left (by omega), width]
    rfl
  | old number =>
    have kept : min _ _ = (Column.old number).width old.desc := kept
    rw [← kept] at width
    by_cases zero : number.toNat = 0
    · have none : (Column.old number).width old.desc = 0 := if_pos zero
      have copies : ((Column.old number).resolved behind old.desc).colOldIndex = 0 := by
        rw [resolved_key zero]
        exact zero
      rw [none] at kept
      rw [kept] at width
      have empty : field.bytes (List.replicate desc.rowLen 0) = [] := by
        rw [FieldDesc.bytes, width, List.take_zero]
      have empty' : (Column.old number).value old.desc oldRow = [] := by
        refine List.eq_nil_of_length_eq_zero ?_
        unfold Column.value FieldDesc.bytes
        rw [List.length_take, List.length_drop, whole]
        exact kept
      rw [if_pos copies, empty, empty']
    · have known : (old.desc.fields.getD number.toNat behind) =
          old.desc.fields.getD number.toNat ⟨0, 0, 0⟩ := getD_within within _ _
      have copies : ((Column.old number).resolved behind old.desc).colOldIndex ≠ 0 := by
        rw [resolved_old zero]
        exact zero
      rw [if_neg copies, resolved_old zero, known, width]
      unfold Column.value FieldDesc.bytes
      dsimp only
      rw [List.take_eq_take_iff, List.length_drop, whole]
      omega

theorem first_offset (aligned : desc.Aligned) {first : FieldDesc}
    (front : desc.fields[0]? = some first) : first.offset = 0 := by
  have placed := aligned.placed
  cases fields : desc.fields with
  | nil => simp [fields] at front
  | cons field rest =>
    rw [fields] at placed front
    cases front
    exact placed.1

theorem row_copied (for' : BuiltFor script (script.cols behind old.desc) desc)
    (within : ∀ column ∈ script.columns, column.Within old.desc)
    (kept : ∀ column ∈ script.columns, column.Kept old.desc) (aligned : desc.Aligned)
    {oldRow : Row} (whole : oldRow.length = old.desc.rowLen) :
    ∃ row, copyColumns desc oldRow 1 (script.cols behind old.desc)
        (List.replicate desc.rowLen 0) = .ok (some row) ∧
      ∀ key, RowResized script old.desc desc oldRow ((withKey row key).take desc.rowLen) := by
  have zeros : (List.replicate desc.rowLen (0 : UInt8)).length = desc.rowLen :=
    List.length_replicate
  obtain ⟨copied, done, length, _, columns⟩ :=
    @copyColumns_spec desc oldRow _ aligned 1 (script.cols behind old.desc) zeros
      fun _ _ found copies => column_fits for' within kept whole found copies
  refine ⟨copied, done, fun key place column here => ?_⟩
  have member := List.mem_of_getElem? here
  -- the key is written over the first field alone
  obtain ⟨first, front, four⟩ := for'.key
  have bytes : (bytesOf 4 key).length = first.length := (bytesOf_length 4 key).trans four.symm
  obtain ⟨whole', others⟩ := write_field aligned front bytes length
  rw [first_offset aligned front] at whole' others
  have keyed : (withKey copied key).take desc.rowLen = overwrite copied 0 (bytesOf 4 key) :=
    List.take_of_length_le (Nat.le_of_eq whole')
  obtain ⟨field, there, width⟩ := for'.field within here
  refine ⟨field, there, ?_⟩
  rw [keyed, others _ field there, if_neg (Nat.succ_ne_zero place),
    columns place _ field (cols_resolved here) (by rw [Nat.add_comm, there])]
  exact copied_value aligned (within _ member) (kept _ member) whole there width

theorem bytes_length (field : FieldDesc) (row : Row) :
    (field.bytes row).length = min field.length (row.length - field.offset) := by
  rw [FieldDesc.bytes, List.length_take, List.length_drop]

theorem placed_head {source fields : List FieldDesc} {rowLen : Nat} {first : FieldDesc}
    (placed : placeFields 0 source = (fields, rowLen)) (found : fields[0]? = some first) :
    first.offset = 0 := by
  have same : (placeFields 0 source).1 = fields := congrArg Prod.fst placed
  cases source with
  | nil =>
    rw [← same] at found
    cases found
  | cons field rest =>
    rw [← same] at found
    cases found
    rfl

/-- A row that has its columns shows that each is kept, and that its field lies in the row or is
empty. -/
theorem column_kept (for' : BuiltFor script (script.cols behind old.desc) desc)
    (within : ∀ column ∈ script.columns, column.Within old.desc) {oldRow copied row : Row}
    (done : copyColumns desc oldRow 1 (script.cols behind old.desc)
      (List.replicate desc.rowLen 0) = .ok (some copied))
    (whole : oldRow.length = old.desc.rowLen) (length : row.length = desc.rowLen)
    (resized : RowResized script old.desc desc oldRow row) {place : Nat} {column : Column}
    (here : script.columns[place]? = some column) :
    column.Kept old.desc ∧ ∃ field, desc.fields[place + 1]? = some field ∧
      (field.length = 0 ∨ field.offset + field.length ≤ desc.rowLen) := by
  obtain ⟨field, there, width⟩ := for'.field within here
  obtain ⟨field', there', value⟩ := resized place column here
  rw [there] at there'
  cases there'
  have lengths := congrArg List.length value
  rw [bytes_length, length, width] at lengths
  cases column with
  | new type size =>
    refine ⟨trivial, field, there, ?_⟩
    have full : (Column.new type size).width old.desc =
      ((Column.new type size).value old.desc oldRow).length := List.length_replicate.symm
    omega
  | old number =>
    have taken : ((Column.old number).value old.desc oldRow).length = min
        (old.desc.fields.getD number.toNat ⟨0, 0, 0⟩).length
        (old.desc.rowLen - (old.desc.fields.getD number.toNat ⟨0, 0, 0⟩).offset) := by
      rw [← whole]
      exact bytes_length ..
    by_cases zero : number.toNat = 0
    · have none : (Column.old number).width old.desc = 0 := if_pos zero
      rw [none] at width
      refine ⟨?_, field, there, .inl width⟩
      show min _ _ = _
      omega
    · have copies : ((Column.old number).resolved behind old.desc).colOldIndex ≠ 0 := by
        rw [resolved_old zero]
        exact zero
      obtain ⟨field', there', _, ends⟩ :=
        (copyColumns_inside done List.length_replicate).2 place _ (cols_resolved here) copies
      rw [Nat.add_comm, there] at there'
      cases there'
      refine ⟨?_, field, there, .inr ends⟩
      show min _ _ = _
      omega

theorem row_kept (for' : BuiltFor script (script.cols behind old.desc) desc)
    (within : ∀ column ∈ script.columns, column.Within old.desc) {oldRow copied row : Row}
    (done : copyColumns desc oldRow 1 (script.cols behind old.desc)
      (List.replicate desc.rowLen 0) = .ok (some copied))
    (whole : oldRow.length = old.desc.rowLen) (length : row.length = desc.rowLen)
    (resized : RowResized script old.desc desc oldRow row) :
    (∀ column ∈ script.columns, column.Kept old.desc) ∧ totalLength desc.fields < 2 ^ 32 := by
  obtain ⟨-, source, placed, total⟩ := for'.built.tiled
  have wraps := @placeFields_wraps 0 source (by decide)
  rw [placed] at wraps
  refine ⟨fun column member => ?_, ?_⟩
  · obtain ⟨place, here⟩ := List.mem_iff_getElem?.mp member
    exact (column_kept for' within done whole length resized here).1
  · -- were the fields longer, one of them would begin in the row and end behind it
    by_contra large
    obtain ⟨index, field, found, start, outside⟩ := wraps.2 (by omega)
    have ends : desc.rowLen < 2 ^ 32 := wraps.1
    cases index with
    | zero =>
      obtain ⟨first, front, four⟩ := for'.key
      have zero := placed_head placed front
      have found : desc.fields[0]? = some field := found
      rw [front] at found
      cases found
      omega
    | succ place =>
      have count : desc.fields.length = script.columns.length + 1 := by
        rw [← metricsOf_length, for'.metrics]
        simp [Script.cols]
      have found : desc.fields[place + 1]? = some field := found
      have bound : place < script.columns.length := by
        have here := (List.getElem?_eq_some_iff.mp found).1
        omega
      obtain ⟨_, field', there, inside⟩ := column_kept for' within done whole length resized
        (List.getElem?_eq_getElem bound)
      rw [there] at found
      cases found
      omega

end Script

/-! ### The whole run -/

section Run

variable {overlong : Overlong} {behind : FieldDesc} {disk : Disk} {script : Script}
  {old : TableFile}

theorem move_free (disk : Disk) (source target : String) : disk.move source target source = none :=
  Function.update_self ..

theorem move_target {source target : String} (apart : target ≠ source)
    (free : disk target = none) : disk.move source target target = disk source := by
  unfold Disk.move
  simp only [free, Option.isSome_none, Bool.false_eq_true, ↓reduceIte]
  rw [Function.update_of_ne apart, Function.update_self]

/-- With a copy that is left from before, moving the table drops it. -/
theorem move_leftover {leftover : TableFile} {source target : String}
    (left : disk target = some leftover) (apart : source ≠ target) :
    Disk.move (Function.update (Function.update disk source (some leftover)) target none) source
      target = disk.move source target := by
  funext name
  unfold Disk.move
  simp only [Function.update_self, left, Option.isSome_none, Option.isSome_some,
    Bool.false_eq_true, ↓reduceIte, Function.update_of_ne apart]
  by_cases first : name = source
  · subst first
    rw [Function.update_self, Function.update_self]
  · rw [Function.update_of_ne first, Function.update_of_ne first]
    by_cases second : name = target
    · subst second
      rw [Function.update_self, left]
    · rw [Function.update_of_ne second, Function.update_of_ne second,
        Function.update_of_ne first]

/-- What happens to a table of which no copy is left from before. -/
theorem resize_table (found : disk script.table = some old) (free : disk tmpTabName = none) :
    resize overlong behind disk script =
      if ¬ old.desc.Paged then .error .pages
      else if msgRoom < old.desc.size then .error .message
      else
        match (script.columns.map Column.chCol).mapM (ChCol.resolve behind old.desc) with
        | none => .ok .refused
        | some cols =>
          match newDesc script cols with
          | none => .ok .refused
          | some desc => fillTable overlong (disk.move script.table tmpTabName) script old cols desc := by
  have apart : tmpTabName ≠ script.table := by
    intro same
    rw [← same, free] at found
    cases found
  have moved : disk.move script.table tmpTabName tmpTabName = some old :=
    (move_target apart free).trans found
  unfold resize mountFile
  simp only [found, moved, Option.isNone_some, Bool.false_eq_true, ↓reduceIte]
  by_cases paged : old.desc.Paged
  · rw [if_neg (not_not_intro paged), if_neg (not_not_intro paged)]
    by_cases room : msgRoom < old.desc.size
    · rw [if_pos room, if_pos room]
    · rw [if_neg room]
      exact (if_neg room).symm
  · rw [if_pos paged, if_pos paged]

theorem fillTable_eq {cols : List ChCol} {desc : TableDesc} (gone : disk script.table = none)
    (for' : BuiltFor script cols desc) (count : cols.length = script.columns.length) :
    fillTable overlong disk script old cols desc =
      if ¬ script.Sendable then .error .message
      else if script.lockPages.toNat < 3 then .ok .refused
      else if script.recreateOnly then .ok ⟨some (desc, []), true⟩
      else (copyRows desc cols (overlong.fetched old) []).map fun (rows, finished) =>
        ⟨some (desc, overlong.stored desc rows), finished⟩ := by
  have size : msgRoom < desc.size ↔ ¬ script.Sendable := by
    rw [for'.size, count]
    unfold Script.Sendable
    omega
  have created : createFile disk desc =
      if ¬ script.Sendable then .error .message
      else .ok (decide (3 ≤ script.lockPages.toNat)) := by
    unfold createFile
    rw [for'.name, gone, for'.lockPages]
    simp only [Option.isSome_none, Bool.false_eq_true, ↓reduceIte, size]
  unfold fillTable
  rw [created]
  by_cases sendable : script.Sendable
  · rw [if_neg (not_not_intro sendable), if_neg (not_not_intro sendable)]
    by_cases few : script.lockPages.toNat < 3
    · rw [if_pos few, decide_eq_false (Nat.not_le.mpr few)]
    · rw [if_neg few, decide_eq_true (Nat.le_of_not_lt few)]
  · rw [if_pos sendable, if_pos sendable]

theorem resize_within (found : disk script.table = some old) (free : disk tmpTabName = none)
    (paged : old.desc.Paged) (room : old.desc.size ≤ msgRoom)
    (within : ∀ column ∈ script.columns, ¬ column.Beyond old.desc) :
    ∃ desc, BuiltFor script (script.cols behind old.desc) desc ∧
      resize overlong behind disk script =
        if ¬ script.Sendable then .error .message
        else if script.lockPages.toNat < 3 then .ok .refused
        else if script.recreateOnly then .ok ⟨some (desc, []), true⟩
        else (copyRows desc (script.cols behind old.desc) (overlong.fetched old) []).map
          fun (rows, finished) => ⟨some (desc, overlong.stored desc rows), finished⟩ := by
  have count : (script.cols behind old.desc).length = script.columns.length := List.length_map ..
  obtain ⟨desc, done, for'⟩ := newDesc_built script (count ▸ script.few)
  refine ⟨desc, for', ?_⟩
  rw [resize_table found free, if_neg (not_not_intro paged), if_neg (Nat.not_lt.mpr room),
    resolve_some within]
  dsimp only
  rw [show newDesc script (script.columns.map (Column.resolved behind old.desc)) = some desc
    from done]
  exact fillTable_eq (move_free ..) for' count

theorem resize_beyond (found : disk script.table = some old) (free : disk tmpTabName = none)
    (paged : old.desc.Paged) (room : old.desc.size ≤ msgRoom)
    (beyond : ∃ column ∈ script.columns, column.Beyond old.desc) :
    resize overlong behind disk script = .ok .refused := by
  rw [resize_table found free, if_neg (not_not_intro paged), if_neg (Nat.not_lt.mpr room),
    (resolve_all script.columns).mpr beyond]

/-- Only a table that can be mounted gets anywhere. -/
theorem resize_mounts (found : disk script.table = some old) (free : disk tmpTabName = none)
    {outcome : Resizing} (done : resize overlong behind disk script = .ok outcome) :
    old.desc.Paged ∧ old.desc.size ≤ msgRoom := by
  rw [resize_table found free] at done
  by_cases paged : old.desc.Paged
  · rw [if_neg (not_not_intro paged)] at done
    by_cases room : msgRoom < old.desc.size
    · rw [if_pos room] at done
      cases done
    · exact ⟨paged, Nat.le_of_not_lt room⟩
  · rw [if_pos paged] at done
    cases done

theorem within_of_numbers (numbers : ∀ number, Column.old number ∈ script.columns →
    number.toNat < old.desc.fieldNum) : ∀ column ∈ script.columns, column.Within old.desc := by
  intro column member
  cases column with
  | old number => exact numbers number member
  | new type length => trivial

theorem beyond_iff : (∃ column ∈ script.columns, column.Beyond old.desc) ↔
    ∃ number, Column.old number ∈ script.columns ∧ old.desc.fieldNum < number.toNat := by
  constructor
  · rintro ⟨column, member, beyond⟩
    cases column with
    | old number => exact ⟨number, member, beyond⟩
    | new type length => cases beyond
  · rintro ⟨number, member, beyond⟩
    exact ⟨_, member, beyond⟩

theorem hasPlace_iff {desc : TableDesc} {cols : List ChCol} (for' : BuiltFor script cols desc)
    (keyed : 4 ≤ desc.rowLen) (index : Nat) : HasPlace desc index ↔
      (index % script.rowsPp.toNat + 1) * desc.rowLen ≤
        desc.rowLen * script.rowsPp.toNat % 2 ^ 32 := by
  unfold HasPlace
  rw [for'.pageRows, Nat.max_eq_left keyed, Nat.succ_mul]

theorem Copyable.resized {desc : TableDesc} (copyable : Copyable script old)
    (within : ∀ column ∈ script.columns, column.Within old.desc)
    (for' : BuiltFor script (script.cols behind old.desc) desc) :
    ∃ rows, copyRows desc (script.cols behind old.desc) old.liveRows [] = .ok (rows, true) ∧
      List.Forall₂ (RowResized script old.desc desc) old.liveRows rows := by
  have total := for'.total within
  have aligned := for'.built.aligned (total ▸ copyable.small)
  have rowLen : desc.rowLen = script.rowLen old.desc := aligned.total.trans total
  have keyed : 4 ≤ desc.rowLen := by
    rw [rowLen]
    exact Nat.le_add_right ..
  obtain ⟨rows, done, all⟩ := @copyRows_spec desc (script.cols behind old.desc)
    (RowResized script old.desc desc) (by omega) old.liveRows []
    (fun oldRow member => row_copied for' within copyable.kept aligned (liveRows_whole oldRow member))
    (fun index _ below => by
      rw [hasPlace_iff for' keyed, rowLen]
      exact copyable.inPage index (by simpa using below))
  exact ⟨rows, done, all⟩

theorem Copyable.of_resized {desc : TableDesc} {rows : List Row}
    (within : ∀ column ∈ script.columns, column.Within old.desc)
    (for' : BuiltFor script (script.cols behind old.desc) desc)
    (wanted : script.recreateOnly = false) (some : old.liveRows ≠ [])
    (done : copyRows desc (script.cols behind old.desc) old.liveRows [] = .ok (rows, true))
    (all : List.Forall₂ (RowResized script old.desc desc) old.liveRows rows) :
    Copyable script old := by
  obtain ⟨places, copied, lengths⟩ := copyRows_inside done
  cases live : old.liveRows with
  | nil => exact absurd live some
  | cons oldRow rest =>
    have member : oldRow ∈ old.liveRows := live ▸ List.mem_cons_self
    rw [live] at all
    cases all with
    | @cons _ row _ others right _ =>
      obtain ⟨_, first⟩ := copied oldRow member
      have length : row.length = desc.rowLen :=
        (lengths row List.mem_cons_self).resolve_left List.not_mem_nil
      obtain ⟨kept, small⟩ := row_kept for' within first (liveRows_whole oldRow member) length right
      have total := for'.total within
      have rowLen : desc.rowLen = script.rowLen old.desc :=
        (for'.built.aligned small).total.trans total
      have keyed : 4 ≤ desc.rowLen := by
        rw [rowLen]
        exact Nat.le_add_right ..
      refine ⟨wanted, kept, total ▸ small, fun index below => ?_⟩
      rw [← rowLen, ← hasPlace_iff for' keyed]
      exact places index (Nat.zero_le _) (by simpa using below)

theorem Overlong.fetched_placed {file : TableFile} (placed : file.desc.Placed file.rows.length) :
    overlong.fetched file = file.liveRows :=
  if_pos placed

/-- The rows that were copied are there, when their pages have places. -/
theorem stored_rows {desc : TableDesc} {rows : List Row} (placed : script.Placed old)
    (numbers : ∀ number, Column.old number ∈ script.columns → number.toNat < old.desc.fieldNum)
    (wanted : script.recreateOnly = false)
    (for' : BuiltFor script (script.cols behind old.desc) desc)
    (count : rows.length = old.liveRows.length) : overlong.stored desc rows = rows := by
  have room := (placed numbers wanted).2
  rw [← for'.placed_iff (within_of_numbers numbers), ← count] at room
  exact if_pos room

theorem right_of_resizable (found : disk script.table = some old) (free : disk tmpTabName = none)
    (placed : script.Placed old) (resizable : ResizableTable script old) :
    ResizeRight overlong behind disk script := by
  constructor
  · intro old' found' numbers
    rw [found] at found'
    cases found'
    obtain ⟨sendable, locks, copyable⟩ := resizable.copies numbers
    have within := within_of_numbers numbers
    obtain ⟨desc, for', run⟩ := @resize_within overlong behind _ _ _ found free resizable.paged
      resizable.room fun column member => (within column member).not_beyond
    rw [run, if_neg (not_not_intro sendable), if_neg (Nat.not_lt.mpr locks)]
    by_cases live : old.liveRows = []
    · cases wanted : script.recreateOnly with
      | true => exact ⟨_, if_pos rfl, desc, [], rfl, by rw [live]; exact .nil⟩
      | false =>
        rw [if_neg Bool.false_ne_true, Overlong.fetched_placed (placed numbers wanted).1, live]
        have stored : overlong.stored desc [] = [] :=
          stored_rows placed numbers wanted for' (by rw [live])
        exact ⟨_, rfl, desc, [], congrArg (fun rows => Resizing.mk (some (desc, rows)) true) stored,
          by rw [live]; exact .nil⟩
    · have copyable := copyable live
      obtain ⟨rows, done, all⟩ := copyable.resized within for'
      have stored : overlong.stored desc rows = rows :=
        stored_rows placed numbers copyable.wanted for' all.length_eq.symm
      rw [copyable.wanted, if_neg Bool.false_ne_true,
        Overlong.fetched_placed (placed numbers copyable.wanted).1, done]
      exact ⟨_, rfl, desc, rows, congrArg (fun rows => Resizing.mk (some (desc, rows)) true) stored,
        all⟩
  · rintro ⟨number, member, beyond⟩
    rcases resizable.refuses ⟨number, member, beyond old found⟩ with further | ⟨sendable, locks⟩
    · rw [resize_beyond found free resizable.paged resizable.room (beyond_iff.mpr further)]
      exact ⟨_, rfl, rfl⟩
    · by_cases further : ∃ column ∈ script.columns, column.Beyond old.desc
      · rw [resize_beyond found free resizable.paged resizable.room further]
        exact ⟨_, rfl, rfl⟩
      · obtain ⟨desc, _, run⟩ := @resize_within overlong behind _ _ _ found free resizable.paged
          resizable.room fun column member beyond => further ⟨column, member, beyond⟩
        rw [run, if_neg (not_not_intro sendable), if_pos locks]
        exact ⟨_, rfl, rfl⟩

theorem resizable_of_right (found : disk script.table = some old) (free : disk tmpTabName = none)
    (placed : script.Placed old) (right : ResizeRight overlong behind disk script) :
    ResizableTable script old := by
  have mounts : old.desc.Paged ∧ old.desc.size ≤ msgRoom := by
    by_cases numbers : ∀ number, Column.old number ∈ script.columns →
        number.toNat < old.desc.fieldNum
    · obtain ⟨outcome, done, _⟩ := right.copies old found numbers
      exact resize_mounts found free done
    · push Not at numbers
      obtain ⟨number, member, beyond⟩ := numbers
      obtain ⟨outcome, done, _⟩ := right.refuses ⟨number, member, fun other found' => by
        rw [found] at found'
        cases found'
        exact beyond⟩
      exact resize_mounts found free done
  refine ⟨mounts.1, mounts.2, fun numbers => ?_, ?_⟩
  · have within := within_of_numbers numbers
    obtain ⟨_, done, desc', rows, rfl, all⟩ := right.copies old found numbers
    obtain ⟨desc, for', run⟩ := @resize_within overlong behind _ _ _ found free mounts.1 mounts.2
      fun column member => (within column member).not_beyond
    rw [run] at done
    by_cases sendable : script.Sendable
    · rw [if_neg (not_not_intro sendable)] at done
      by_cases locks : script.lockPages.toNat < 3
      · rw [if_pos locks] at done
        cases done
      · rw [if_neg locks] at done
        refine ⟨sendable, Nat.le_of_not_lt locks, fun live => ?_⟩
        cases recreate : script.recreateOnly with
        | true =>
          rw [recreate, if_pos rfl] at done
          cases done
          exact absurd (List.forall₂_nil_right_iff.mp all) live
        | false =>
          rw [recreate, if_neg Bool.false_ne_true,
            Overlong.fetched_placed (placed numbers recreate).1] at done
          obtain ⟨⟨made, finished⟩, copied, same⟩ := map_eq_ok.mp done
          cases same
          rw [stored_rows placed numbers recreate for' (by simpa using copyRows_length copied)] at all
          exact Copyable.of_resized within for' recreate live copied all
    · rw [if_pos sendable] at done
      cases done
  · rintro ⟨number, member, beyond⟩
    by_contra neither
    push Not at neither
    obtain ⟨within, locks⟩ := neither
    obtain ⟨outcome, done, none⟩ := right.refuses ⟨number, member, fun other found' => by
      rw [found] at found'
      cases found'
      exact beyond⟩
    obtain ⟨desc, for', run⟩ := @resize_within overlong behind _ _ _ found free mounts.1 mounts.2
      fun column member beyond => by
        obtain ⟨number, member, beyond⟩ := beyond_iff.mp ⟨column, member, beyond⟩
        exact Nat.not_lt.mpr (within number member) beyond
    rw [run] at done
    by_cases sendable : script.Sendable
    · rw [if_neg (not_not_intro sendable), if_neg (Nat.not_lt.mpr (locks sendable))] at done
      split at done
      · cases done
        cases none
      · obtain ⟨⟨made, finished⟩, _, rfl⟩ := map_eq_ok.mp done
        cases none
    · rw [if_pos sendable] at done
      cases done

theorem resize_nothing (none : disk script.table = none) :
    resize overlong behind disk script = .error .null := by
  obtain ⟨desc, done, _⟩ := @newDesc_built (script.columns.map Column.chCol) script
    (by rw [List.length_map]; exact script.few)
  unfold resize
  simp only [none, Option.isNone_none, ↓reduceIte, done]

end Run

/-- While the pages of both tables have their places, the tool does what the script says exactly for
the scripts and tables that are resizable. With
a temporary table that is left from before it takes that one for the old table. -/
theorem resize_copies_iff (overlong : Overlong) (behind : FieldDesc) (disk : Disk) (script : Script) :
    (disk tmpTabName = none → (∀ old, disk script.table = some old → script.Placed old) →
      (ResizeRight overlong behind disk script ↔ Resizable disk script)) ∧
    (∀ leftover, disk tmpTabName = some leftover → script.table ≠ tmpTabName →
      (disk script.table).isSome →
      resize overlong behind disk script = resize overlong behind
        (Function.update (Function.update disk script.table (some leftover)) tmpTabName none)
        script) := by
  constructor
  · intro free placed
    unfold Resizable
    cases found : disk script.table with
    | none =>
      constructor
      · intro right number member
        obtain ⟨outcome, done, _⟩ := right.refuses ⟨number, member, fun old found' => by
          rw [found] at found'
          cases found'⟩
        rw [resize_nothing found] at done
        cases done
      · intro absent
        constructor
        · intro old found'
          rw [found] at found'
          cases found'
        · rintro ⟨number, member, _⟩
          exact absurd member (absent number)
    | some old =>
      have placed := placed old found
      exact ⟨resizable_of_right found free placed, right_of_resizable found free placed⟩
  · intro leftover left apart exists'
    have same : Disk.move (Function.update (Function.update disk script.table (some leftover))
        tmpTabName none) script.table tmpTabName = disk.move script.table tmpTabName :=
      move_leftover left apart
    have there : (disk script.table).isNone = false := by
      rw [Option.isNone_eq_false_iff]
      exact exists'
    have there' : (Function.update (Function.update disk script.table (some leftover)) tmpTabName
        none script.table).isNone = false := by
      rw [Function.update_of_ne apart, Function.update_self]
      rfl
    unfold resize
    simp only [same, there, there']

/-- A table of short names, with a row that is deleted. -/
def visitors : TableFile where
  desc := ⟨"visitors", 92, 10, 2, 4, 3, [⟨typeUint, 4, 0⟩, ⟨typeString, 6, 4⟩]⟩
  rows := [[1, 0, 0, 0, 65, 66, 0, 0, 0, 0], [0, 0, 0, 0, 67, 68, 0, 0, 0, 0],
    [3, 0, 0, 0, 69, 70, 0, 0, 0, 0]]
  sized := rfl
  whole := by decide

/-- A script that puts a number in front of a column of the table. -/
def numberedScript (column : UInt32) : Script :=
  ⟨"visitors", 8, 3, false, [.new 2 0, .old column], by decide, List.cons_ne_nil _ _, by simp⟩

def visitorsOnly : Disk := Function.update (fun _ => none) "visitors" (some visitors)

/-- The names get numbers, also when the table is left over under its temporary name. -/
theorem visitors_are_numbered (overlong : Overlong) (behind : FieldDesc) :
    ResizeRight overlong behind visitorsOnly (numberedScript 1) ∧
    resize overlong behind (Function.update visitorsOnly tmpTabName (some visitors)) (numberedScript 1) =
      resize overlong behind (Function.update (Function.update (Function.update visitorsOnly tmpTabName
        (some visitors)) "visitors" (some visitors)) tmpTabName none) (numberedScript 1) := by
  constructor
  · refine ((resize_copies_iff overlong behind visitorsOnly (numberedScript 1)).1 rfl
      fun old found _ _ => ?_).mpr ?_
    · cases found
      exact ⟨by decide, by decide⟩
    show ResizableTable (numberedScript 1) visitors
    refine ⟨by decide, by decide, fun _ => ⟨by decide, by decide, fun _ => ?_⟩, ?_⟩
    · exact ⟨rfl, by decide, by decide, by decide⟩
    · rintro ⟨number, member, beyond⟩
      have named : number = 1 := by simpa [numberedScript] using member
      subst named
      exact absurd beyond (by decide)
  · exact (resize_copies_iff overlong behind (Function.update visitorsOnly tmpTabName (some visitors))
      (numberedScript 1)).2 visitors (Function.update_self ..) (by decide) rfl

/-- A column right behind the last one is not refused. -/
theorem column_behind_last_is_taken :
    ¬ ∀ (overlong : Overlong) (behind : FieldDesc) (disk : Disk) (script : Script),
      ResizeRight overlong behind disk script := by
  intro right
  let overlong : Overlong := ⟨TableFile.rows, fun _ rows => rows⟩
  obtain ⟨outcome, done, none⟩ := (right overlong ⟨typeUint, 4, 0⟩ visitorsOnly
    (numberedScript 2)).refuses ⟨2, by decide, fun old found => by cases found; decide⟩
  have made : (resize overlong ⟨typeUint, 4, 0⟩ visitorsOnly (numberedScript 2)).toOption.map
      (·.created.isSome) = some true := by decide +kernel
  rw [done, Except.toOption, Option.map_some, none] at made
  cases made

end QNXStuff.QXBase
