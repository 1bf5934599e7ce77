import QNXStuff.QXBase.Rows
import QNXStuff.QXBase.FlatTable

/-! The page and row loops of the server do to the rows what one scan over the array
of rows does. -/

namespace QNXStuff.QXBase

open Memory Execution

/-! ### One page -/

def PageBody.rows (page : PageBody) (rowLen start count : Nat) : List Row :=
  (List.range' start count).map (page.row rowLen)

theorem PageBody.rows_succ (page : PageBody) (rowLen start count : Nat) :
    page.rows rowLen start (count + 1) =
      page.row rowLen start :: page.rows rowLen (start + 1) count := by
  simp [PageBody.rows, List.range'_succ]

section PutRow

variable {page : PageBody} {rowLen row : Nat} {bytes : Row}

theorem PageBody.putRow_row (length : bytes.length = rowLen) :
    (page.putRow rowLen row bytes).row rowLen row = bytes := by
  unfold PageBody.row PageBody.putRow
  rw [← length]
  exact readBytes_writeBytes ..

theorem PageBody.putRow_other (length : bytes.length = rowLen) {other : Nat}
    (apart : other ≠ row) :
    (page.putRow rowLen row bytes).row rowLen other = page.row rowLen other := by
  unfold PageBody.row PageBody.putRow
  refine readBytes_writeBytes_outside ?_
  rw [length]
  rcases Nat.lt_or_gt_of_ne apart with less | more
  · have step : (other + 1) * rowLen ≤ row * rowLen := Nat.mul_le_mul_right _ less
    rw [Nat.succ_mul] at step
    exact .inl step
  · have step : (row + 1) * rowLen ≤ other * rowLen := Nat.mul_le_mul_right _ more
    rw [Nat.succ_mul] at step
    exact .inr step

end PutRow

/-- What the scan of a page leaves: the rows from `rIndex` on are `rows`, the others stay. -/
structure PageScanned (rowLen rIndex count : Nat) (page scanned : PageBody) (rows : List Row) :
    Prop where
  touched : Touched page scanned
  rows : scanned.rows rowLen rIndex count = rows
  others : ∀ row, row < rIndex ∨ rIndex + count ≤ row →
    scanned.row rowLen row = page.row rowLen row

theorem PageScanned.same (rowLen rIndex count : Nat) (page : PageBody) :
    PageScanned rowLen rIndex count page page (page.rows rowLen rIndex count) :=
  ⟨Touched.refl page, rfl, fun _ _ => rfl⟩

theorem PageScanned.cons {rowLen rIndex count : Nat} {page scanned : PageBody} {rows : List Row}
    (rest : PageScanned rowLen (rIndex + 1) count page scanned rows) :
    PageScanned rowLen rIndex (count + 1) page scanned (page.row rowLen rIndex :: rows) := by
  refine ⟨rest.touched, ?_, fun row outside => rest.others row (by omega)⟩
  rw [PageBody.rows_succ, rest.rows, rest.others rIndex (by omega)]

theorem PageScanned.put {rowLen rIndex count : Nat} {page scanned : PageBody} {rows : List Row}
    {bytes : Row} (length : bytes.length = rowLen)
    (rest : PageScanned rowLen (rIndex + 1) count (page.putRow rowLen rIndex bytes) scanned rows) :
    PageScanned rowLen rIndex (count + 1) page scanned (bytes :: rows) := by
  refine ⟨rest.touched.putRow, ?_, fun row outside => ?_⟩
  · rw [PageBody.rows_succ, rest.rows, rest.others rIndex (by omega), PageBody.putRow_row length]
  · rw [rest.others row (by omega), PageBody.putRow_other length (by omega)]

theorem PageBody.putRow_rows {page : PageBody} {rowLen rIndex count : Nat} {bytes : Row}
    (length : bytes.length = rowLen) :
    (page.putRow rowLen rIndex bytes).rows rowLen (rIndex + 1) count =
      page.rows rowLen (rIndex + 1) count := by
  refine List.map_congr_left fun row member => PageBody.putRow_other length ?_
  have above := (List.mem_range'_1.mp member).1
  omega

/-- The inner loop is the scan of the rows it passes. -/
theorem changePage_spec (layout : Layout) (filters : List Filter) {change : Change}
    (fits : change.fits layout.toTableDesc = true) (count rIndex tIndex : Nat) (page : PageBody) :
    match changeRows layout.toTableDesc filters change tIndex
        (page.rows layout.rowLen rIndex count) with
    | .error fault =>
      changePage layout.toTableDesc filters change count rIndex tIndex page = .error fault
    | .ok (rows, left) =>
      ∃ scanned,
        changePage layout.toTableDesc filters change count rIndex tIndex page =
          .ok (scanned, left) ∧
        PageScanned layout.rowLen rIndex count page scanned rows := by
  induction count generalizing rIndex tIndex page with
  | zero =>
    have none : page.rows layout.rowLen rIndex 0 = [] := rfl
    rw [none, changeRows_nil]
    exact ⟨page, rfl, PageScanned.same ..⟩
  | succ count ih =>
    have same := PageScanned.same layout.rowLen rIndex (count + 1) page
    rw [PageBody.rows_succ] at same ⊢
    cases tIndex with
    | zero => exact ⟨page, rfl, same⟩
    | succ tIndex =>
      simp only [changeRows, changePage]
      cases dataFilter filters (page.row layout.rowLen rIndex) with
      | broken => exact ⟨page, rfl, same⟩
      | skip =>
        cases change.single with
        | true => exact ⟨page, rfl, same⟩
        | false =>
          have rest := ih (rIndex + 1) tIndex page
          simp only [Bool.false_eq_true, ↓reduceIte]
          cases scan : changeRows layout.toTableDesc filters change tIndex
              (page.rows layout.rowLen (rIndex + 1) count) with
          | error fault =>
            rw [scan] at rest
            exact rest
          | ok result =>
            rw [scan] at rest
            obtain ⟨scanned, done, kept⟩ := rest
            exact ⟨scanned, done, kept.cons⟩
      | pass =>
        cases applied : change.apply layout.toTableDesc (page.row layout.rowLen rIndex) with
        | error fault => rfl
        | ok bytes =>
          have length := change.apply_length layout fits (readBytes_length ..) applied
          have put := PageScanned.same layout.rowLen (rIndex + 1) count
            (page.putRow layout.rowLen rIndex bytes)
          cases change.single with
          | true =>
            rw [PageBody.putRow_rows length] at put
            exact ⟨_, rfl, put.put length⟩
          | false =>
            have rest := ih (rIndex + 1) tIndex (page.putRow layout.rowLen rIndex bytes)
            rw [PageBody.putRow_rows length] at rest
            simp only [Bool.false_eq_true, ↓reduceIte]
            cases scan : changeRows layout.toTableDesc filters change tIndex
                (page.rows layout.rowLen (rIndex + 1) count) with
            | error fault =>
              rw [scan] at rest
              exact rest
            | ok result =>
              rw [scan] at rest
              obtain ⟨scanned, done, kept⟩ := rest
              exact ⟨scanned, done, kept.put length⟩

/-! ### The pages of a table -/

/-- Where a page loop stands: on a row of a page, or behind the last page. -/
def At (table : Table) (pIndex rIndex position : Nat) : Prop :=
  (pIndex ≤ table.lastIndex ∧ rIndex < table.layout.pageRows ∧
    position = pIndex * table.layout.pageRows + rIndex) ∨
  (table.lastIndex < pIndex ∧ table.stored ≤ position)

/-- The page and the row in it that a position is divided into. -/
theorem at_position {table : Table} (ok : table.Ok) (position : Nat) :
    At table (position / table.layout.pageRows) (position % table.layout.pageRows) position := by
  have inv : PoolInv table table.refs := ok
  obtain ⟨index, row, inPage, rfl⟩ := table.position_split position
  have positive := table.layout.sound.pageRows_pos
  rw [Nat.mul_comm index, Nat.mul_add_div positive, Nat.div_eq_of_lt inPage, Nat.add_zero,
    Nat.mul_add_mod, Nat.mod_eq_of_lt inPage, Nat.mul_comm]
  by_cases inside : index ≤ table.lastIndex
  · exact .inl ⟨inside, inPage, rfl⟩
  · have bound := inv.lastRow_le
    have step : (table.lastIndex + 1) * table.layout.pageRows ≤ index * table.layout.pageRows :=
      Nat.mul_le_mul_right _ (by omega)
    rw [Nat.succ_mul] at step
    refine .inr ⟨by omega, ?_⟩
    unfold Table.stored
    omega

/-- Behind a page comes the next one, or the end. -/
theorem at_next {table : Table} {pIndex : Nat} (inside : pIndex ≤ table.lastIndex) :
    At table (pIndex + 1) 0 (pIndex * table.layout.pageRows + table.pageLen pIndex) := by
  have positive := table.layout.sound.pageRows_pos
  rcases Table.pageLen_end inside with ⟨less, ending, _⟩ | ⟨last, ending⟩
  · exact .inl ⟨less, positive, ending.trans (Nat.add_zero _).symm⟩
  · exact .inr ⟨by omega, Nat.le_of_eq ending.symm⟩

theorem At.congr {table other : Table} {pIndex rIndex position : Nat}
    (spot : At table pIndex rIndex position) (layout : other.layout = table.layout)
    (lastIndex : other.lastIndex = table.lastIndex) (stored : other.stored = table.stored) :
    At other pIndex rIndex position := by
  unfold At
  rw [layout, lastIndex, stored]
  exact spot

/-- Two sequences that agree outside a range. -/
theorem map_range_patch {f g : Nat → Row} {total start count : Nat}
    (inside : start + count ≤ total ∨ count = 0)
    (same : ∀ position < total, position < start ∨ start + count ≤ position →
      g position = f position) :
    (List.range' 0 total).map g =
      ((List.range' 0 total).map f).take start ++ (List.range' start count).map g ++
        ((List.range' 0 total).map f).drop (start + count) := by
  rcases inside with inside | rfl
  · obtain ⟨rest, rfl⟩ := Nat.exists_eq_add_of_le inside
    have pieces : List.range' 0 (start + count + rest) =
        List.range' 0 start ++ (List.range' start count ++ List.range' (start + count) rest) := by
      rw [List.range'_append_1, Nat.add_assoc, ← List.range'_append_1 (s := 0), Nat.zero_add]
    have before : (List.range' 0 start).map g = (List.range' 0 start).map f :=
      List.map_congr_left fun position member => by
        have below := (List.mem_range'_1.mp member).2
        exact same position (by omega) (.inl (by omega))
    have behind : (List.range' (start + count) rest).map g =
        (List.range' (start + count) rest).map f :=
      List.map_congr_left fun position member => by
        obtain ⟨above, below⟩ := List.mem_range'_1.mp member
        exact same position below (.inr above)
    rw [pieces]
    simp only [List.map_append]
    rw [List.take_left' (by simp), ← List.append_assoc ((List.range' 0 start).map f),
      List.drop_left' (by simp), before, behind, List.append_assoc]
  · simp only [Nat.add_zero, List.range'_zero, List.map_nil, List.append_nil,
      List.take_append_drop]
    exact List.map_congr_left fun position member => by
      have below := (List.mem_range'_1.mp member).2
      exact same position (by omega) (by omega)

section Page

variable {table : Table} {refs : List PageRef} {rPage : PageRef} {rIndex : Nat}

/-- The rows of a page from `rIndex` on end before the end of the table. -/
theorem PoolInv.piece_inside (rIndex : Nat) (inv : PoolInv table refs) (member : rPage ∈ refs) :
    let start := (table.body rPage).index * table.layout.pageRows + rIndex
    start + ((table.body rPage).lastRow - rIndex) ≤ table.stored ∨
      (table.body rPage).lastRow - rIndex = 0 := by
  have bound := Table.page_end_le (inv.index_le_last member)
  rw [← inv.lastRow_eq member] at bound
  simp only
  omega

/-- The rows of the table are those in front of a page, those of the page and the rest. -/
theorem PoolInv.rows_piece (rIndex : Nat) (inv : PoolInv table refs) (member : rPage ∈ refs) :
    let start := (table.body rPage).index * table.layout.pageRows + rIndex
    let count := (table.body rPage).lastRow - rIndex
    table.rows.drop start =
      (table.body rPage).rows table.layout.rowLen rIndex count ++
        table.rows.drop (start + count) := by
  intro start count
  have patch := map_range_patch (f := table.row) (g := table.row)
    (inv.piece_inside rIndex member) (fun _ _ _ => rfl)
  have piece : (List.range' start count).map table.row =
      (table.body rPage).rows table.layout.rowLen rIndex count := by
    have shift : List.range' start count =
        (List.range' rIndex count).map ((table.body rPage).index * table.layout.pageRows + ·) :=
      (List.map_add_range' ..).symm
    rw [shift, List.map_map]
    refine List.map_congr_left fun row inside => inv.row_cached member ?_
    obtain ⟨above, below⟩ := List.mem_range'_1.mp inside
    have bound := inv.lastRow_le_pageRows member
    omega
  rw [piece] at patch
  have whole := (List.take_append_drop start table.rows).trans patch
  rw [List.append_assoc] at whole
  exact List.append_cancel_left whole

/-- The scan of a page changes the rows of that piece. -/
theorem PoolInv.rows_scanned (inv : PoolInv table refs) (member : rPage ∈ refs)
    {scanned : PageBody} {rows : List Row}
    (kept : PageScanned table.layout.rowLen rIndex ((table.body rPage).lastRow - rIndex)
      (table.body rPage) scanned rows) :
    let start := (table.body rPage).index * table.layout.pageRows + rIndex
    let count := (table.body rPage).lastRow - rIndex
    (table.setBody rPage scanned).rows =
      table.rows.take start ++ rows ++ table.rows.drop (start + count) := by
  intro start count
  have bound := inv.lastRow_le_pageRows member
  have after := inv.touch kept.touched
  have patch := map_range_patch (f := table.row) (g := (table.setBody rPage scanned).row)
    (inv.piece_inside rIndex member) (fun position inside outside => by
      obtain ⟨index, row, inPage, rfl⟩ := table.position_split position
      by_cases here : (table.body rPage).index = index
      · subst here
        rw [after.setBody_row member kept.touched.index inPage, inv.row_cached member inPage]
        exact kept.others row (by omega)
      · exact inv.setBody_other after kept.touched.index here inPage)
  have piece : (List.range' start count).map (table.setBody rPage scanned).row = rows := by
    have shift : List.range' start count =
        (List.range' rIndex count).map ((table.body rPage).index * table.layout.pageRows + ·) :=
      (List.map_add_range' ..).symm
    rw [← kept.rows, shift, List.map_map]
    refine List.map_congr_left fun row inside =>
      after.setBody_row member kept.touched.index ?_
    obtain ⟨above, below⟩ := List.mem_range'_1.mp inside
    omega
  rw [piece] at patch
  unfold Table.rows
  rw [(PoolInv.touch_stored kept.touched).2]
  exact patch

end Page

end QNXStuff.QXBase
