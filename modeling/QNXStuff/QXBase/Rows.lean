import QNXStuff.QXBase.Locking
import QNXStuff.QXBase.Handlers

/-! The rows a table holds, wherever their bytes are, and how the pool operations
change them. -/

namespace QNXStuff.QXBase

open Memory LinkedList

namespace Table

/-- How many rows the pages hold. -/
def stored (table : Table) : Nat :=
  table.lastIndex * table.layout.pageRows + (table.body table.lastPage).lastRow

/-- How many rows of a page count. -/
def pageLen (table : Table) (index : Nat) : Nat :=
  if index < table.lastIndex then table.layout.pageRows else (table.body table.lastPage).lastRow

/-- The row at a position, counted from 0 over all pages. -/
def row (table : Table) (position : Nat) : Row :=
  readBytes (table.pageBytes (position / table.layout.pageRows))
    (position % table.layout.pageRows * table.layout.rowLen) table.layout.rowLen

/-- The rows of the table in order of their positions. -/
def rows (table : Table) : List Row := (List.range' 0 table.stored).map table.row

@[simp] theorem rows_length (table : Table) : table.rows.length = table.stored := by simp [rows]

theorem rows_getElem {table : Table} {position : Nat} (inside : position < table.rows.length) :
    table.rows[position] = table.row position := by simp [rows]

theorem row_length (table : Table) (position : Nat) :
    (table.row position).length = table.layout.rowLen := readBytes_length ..

theorem row_of_page {table : Table} {index row : Nat} (inside : row < table.layout.pageRows) :
    table.row (index * table.layout.pageRows + row) =
      readBytes (table.pageBytes index) (row * table.layout.rowLen) table.layout.rowLen := by
  have positive := table.layout.sound.pageRows_pos
  unfold Table.row
  rw [Nat.mul_comm index, Nat.mul_add_div positive, Nat.div_eq_of_lt inside, Nat.add_zero,
    Nat.mul_add_mod, Nat.mod_eq_of_lt inside]

theorem position_split (table : Table) (position : Nat) :
    ∃ index row, row < table.layout.pageRows ∧
      position = index * table.layout.pageRows + row := by
  refine ⟨position / table.layout.pageRows, position % table.layout.pageRows,
    Nat.mod_lt _ table.layout.sound.pageRows_pos, ?_⟩
  rw [Nat.mul_comm, Nat.div_add_mod]

end Table

namespace PoolInv

variable {table : Table} {refs : List PageRef}

theorem lastRow_eq (inv : PoolInv table refs) {ref : PageRef} (member : ref ∈ refs) :
    (table.body ref).lastRow = table.pageLen (table.body ref).index := by
  unfold Table.pageLen
  by_cases last : ref = table.lastPage
  · subst last
    exact (if_neg (Nat.lt_irrefl _)).symm
  · rw [if_pos (inv.index_lt_last member last), inv.full ref member last]

end PoolInv

/-- The first position behind the rows of a page. -/
theorem Table.pageLen_end {table : Table} {index : Nat} (inside : index ≤ table.lastIndex) :
    (index < table.lastIndex ∧
      index * table.layout.pageRows + table.pageLen index =
        (index + 1) * table.layout.pageRows ∧
      (index + 1) * table.layout.pageRows ≤ table.stored) ∨
    (index = table.lastIndex ∧
      index * table.layout.pageRows + table.pageLen index = table.stored) := by
  unfold Table.pageLen Table.stored
  by_cases less : index < table.lastIndex
  · left
    have step : (index + 1) * table.layout.pageRows ≤ table.lastIndex * table.layout.pageRows :=
      Nat.mul_le_mul_right _ less
    rw [if_pos less, Nat.succ_mul] at *
    omega
  · right
    have last : index = table.lastIndex := by omega
    rw [if_neg less, last]
    exact ⟨rfl, rfl⟩

theorem Table.page_end_le {table : Table} {index : Nat} (inside : index ≤ table.lastIndex) :
    index * table.layout.pageRows + table.pageLen index ≤ table.stored := by
  rcases Table.pageLen_end inside with ⟨_, _, _⟩ | ⟨_, _⟩ <;> omega

/-- A stored position lies on a page of the table and in front of its last row. -/
theorem Table.Ok.page_of {table : Table} (ok : table.Ok) {index row : Nat}
    (inPage : row < table.layout.pageRows)
    (inside : index * table.layout.pageRows + row < table.stored) :
    index ≤ table.lastIndex ∧ row < table.pageLen index := by
  have inv : PoolInv table table.refs := ok
  have bound := inv.lastRow_le
  unfold Table.stored at inside
  unfold Table.pageLen
  rcases Nat.lt_trichotomy index table.lastIndex with less | same | more
  · exact ⟨Nat.le_of_lt less, by rwa [if_pos less]⟩
  · rw [same] at inside ⊢
    exact ⟨Nat.le_refl _, by rw [if_neg (Nat.lt_irrefl _)]; omega⟩
  · have step : (table.lastIndex + 1) * table.layout.pageRows ≤ index * table.layout.pageRows :=
      Nat.mul_le_mul_right _ more
    rw [Nat.succ_mul] at step
    omega

/-- A page that is cached holds the rows of its positions. -/
theorem PoolInv.row_cached {table : Table} {refs : List PageRef} (inv : PoolInv table refs)
    {ref : PageRef} (member : ref ∈ refs) {row : Nat} (inside : row < table.layout.pageRows) :
    table.row ((table.body ref).index * table.layout.pageRows + row) =
      (table.body ref).row table.layout.rowLen row := by
  rw [Table.row_of_page inside, inv.pageBytes_cached member]
  rfl

/-! ### Tables with the same rows -/

/-- As many rows, and the same bytes on every page. -/
structure SameRows (table other : Table) : Prop where
  layout : other.layout = table.layout
  stored : other.stored = table.stored
  bytes : ∀ index ≤ table.lastIndex, ∀ position < table.layout.pageSize,
    other.pageBytes index position = table.pageBytes index position

theorem Layout.position_in_page (layout : Layout) {row position : Nat}
    (inside : row < layout.pageRows) (inRow : position < layout.rowLen) :
    row * layout.rowLen + position < layout.pageSize := by
  have step := layout.row_in_page inside
  rw [Layout.pageSize, Nat.mul_comm layout.rowLen]
  omega

theorem SameRows.row {table other : Table} (same : SameRows table other) {index row : Nat}
    (inside : index ≤ table.lastIndex) (inPage : row < table.layout.pageRows) :
    other.row (index * table.layout.pageRows + row) =
      table.row (index * table.layout.pageRows + row) := by
  have left := @Table.row_of_page _ index _ (by rwa [same.layout])
  rw [same.layout] at left
  rw [left, Table.row_of_page inPage]
  exact readBytes_congr fun position inRow =>
    same.bytes index inside _ (table.layout.position_in_page inPage inRow)

theorem SameRows.rows {table other : Table} (ok : table.Ok) (same : SameRows table other) :
    other.rows = table.rows := by
  unfold Table.rows
  rw [same.stored]
  refine List.map_congr_left fun position member => ?_
  obtain ⟨index, row, inPage, rfl⟩ := table.position_split position
  have inside : index * table.layout.pageRows + row < table.stored := by
    simpa [List.mem_range'_1] using member
  exact same.row (ok.page_of inPage inside).1 inPage

/-! ### Locking -/

/-- A page that locking takes over as it is holds what the file has. -/
def Saved (table : Table) (nPageID : Nat) : Prop :=
  ∀ ref, takenOver table nPageID = some ref → ∀ position < table.layout.pageSize,
    (table.body ref).data position =
      table.dFile.byte ((table.body ref).index * table.layout.pageSize + position)

instance {table : Table} {nPageID : Nat} : Decidable (Saved table nPageID) :=
  inferInstanceAs (Decidable (∀ ref ∈ takenOver table nPageID, ∀ position < _, _ = _))

theorem saved_of_clean {table : Table} (ok : table.Ok) {nPageID : Nat}
    (clean : dirtyTakeover table nPageID = false) : Saved table nPageID := by
  have inv : PoolInv table table.refs := ok
  intro ref takes position inPage
  obtain ⟨member, other, _⟩ := takenOver_larger inv takes
  rw [dirtyTakeover, takes] at clean
  exact (inv.clean_page member other clean inPage).symm

theorem Locked.lastIndex {table locked : Table} {nPageID : Nat} {rPage : PageRef}
    (lock : Locked table nPageID locked rPage) : locked.lastIndex = table.lastIndex := by
  unfold Table.lastIndex
  rw [lock.same.lastPage, lock.lastKept]

theorem Locked.sameRows {table locked : Table} {nPageID : Nat} {rPage : PageRef}
    (ok : table.Ok) (lock : Locked table nPageID locked rPage) (saved : Saved table nPageID) :
    SameRows table locked where
  layout := lock.same.layout
  stored := by
    unfold Table.stored
    rw [lock.same.layout, lock.lastIndex, lock.same.lastPage, lock.lastKept]
  bytes index inside position inPage := by
    have inv : PoolInv table table.refs := ok
    by_cases gone : ∃ ref, takenOver table nPageID = some ref ∧ (table.body ref).index = index
    · obtain ⟨ref, takes, rfl⟩ := gone
      obtain ⟨member, _, _, bytes⟩ := lock.replaced ref takes
      rw [bytes position inPage, inv.pageBytes_cached member]
      exact (saved ref takes position inPage).symm
    · exact lock.bytes index inside (fun ref takes same => gone ⟨ref, takes, same⟩) position inPage

/-! ### Changing a page in place -/

/-- A change of the rows of a page: a page that is not marked dirty is as it was. -/
structure Touched (page changed : PageBody) : Prop where
  index : changed.index = page.index
  size : changed.size = page.size
  lastRow : changed.lastRow = page.lastRow
  marked : changed.needSync = false → changed = page

theorem Touched.refl (page : PageBody) : Touched page page := ⟨rfl, rfl, rfl, fun _ => rfl⟩

theorem Touched.putRow {page changed : PageBody} {rowLen row : Nat} {bytes : Row}
    (rest : Touched (page.putRow rowLen row bytes) changed) : Touched page changed where
  index := rest.index
  size := rest.size
  lastRow := rest.lastRow
  marked clean := by
    have same := rest.marked clean
    rw [same] at clean
    cases clean

section SetBody

variable {table : Table} {refs : List PageRef} {rPage : PageRef} {page : PageBody}

theorem body_touched (touched : Touched (table.body rPage) page) (ref : PageRef) :
    ((table.setBody rPage page).body ref).index = (table.body ref).index ∧
      ((table.setBody rPage page).body ref).size = (table.body ref).size ∧
      ((table.setBody rPage page).body ref).lastRow = (table.body ref).lastRow := by
  rw [Table.setBody_body]
  by_cases here : ref = rPage
  · subst here
    rw [Function.update_self]
    exact ⟨touched.index, touched.size, touched.lastRow⟩
  · rw [Function.update_of_ne here]
    exact ⟨rfl, rfl, rfl⟩

theorem PoolInv.touch (inv : PoolInv table refs) (touched : Touched (table.body rPage) page) :
    PoolInv (table.setBody rPage page) refs := by
  have lastIndex : (table.setBody rPage page).lastIndex = table.lastIndex :=
    (body_touched touched table.lastPage).1
  refine
    { listed := by
        rw [Table.setBody_links]
        exact inv.listed
      live := inv.live
      sorted := inv.sorted.imp fun {first second} less => ?_
      counted := inv.counted
      limited := inv.limited
      sized := fun ref member => (body_touched touched ref).2.1.trans (inv.sized ref member)
      full := fun ref member other =>
        (body_touched touched ref).2.2.trans (inv.full ref member other)
      lastRow_le := (body_touched touched table.lastPage).2.2 ▸ inv.lastRow_le
      onDisk := by
        rw [lastIndex]
        exact inv.onDisk
      bounded := inv.bounded
      clean := fun ref member clean position inside => ?_ }
  · rwa [(body_touched touched first).1, (body_touched touched second).1]
  · have kept : (table.setBody rPage page).body ref = table.body ref := by
      rw [Table.setBody_body] at clean ⊢
      by_cases here : ref = rPage
      · subst here
        rw [Function.update_self] at clean ⊢
        exact touched.marked clean
      · rw [Function.update_of_ne here]
    rw [kept] at clean inside ⊢
    exact inv.clean ref member clean position inside

theorem PoolInv.touch_stored (touched : Touched (table.body rPage) page) :
    (table.setBody rPage page).lastIndex = table.lastIndex ∧
      (table.setBody rPage page).stored = table.stored := by
  obtain ⟨index, _, lastRow⟩ := body_touched touched table.lastPage
  have lastIndex : (table.setBody rPage page).lastIndex = table.lastIndex := index
  refine ⟨lastIndex, ?_⟩
  unfold Table.stored
  rw [lastIndex, show ((table.setBody rPage page).body (table.setBody rPage page).lastPage).lastRow =
    (table.body table.lastPage).lastRow from lastRow]
  rfl

theorem setBody_index (index : page.index = (table.body rPage).index) (ref : PageRef) :
    ((table.setBody rPage page).body ref).index = (table.body ref).index := by
  rw [Table.setBody_body]
  by_cases here : ref = rPage
  · subst here
    rw [Function.update_self, index]
  · rw [Function.update_of_ne here]

/-- The rows of the page are the new ones. -/
theorem PoolInv.setBody_row (after : PoolInv (table.setBody rPage page) refs)
    (member : rPage ∈ refs) (index : page.index = (table.body rPage).index) {row : Nat}
    (inside : row < table.layout.pageRows) :
    (table.setBody rPage page).row
        ((table.body rPage).index * table.layout.pageRows + row) =
      page.row table.layout.rowLen row := by
  have body : (table.setBody rPage page).body rPage = page := by
    rw [Table.setBody_body, Function.update_self]
  have rows := after.row_cached member inside
  rw [body, index] at rows
  exact rows

theorem PoolInv.setBody_other (inv : PoolInv table refs)
    (after : PoolInv (table.setBody rPage page) refs)
    (same : page.index = (table.body rPage).index) {index : Nat}
    (other : (table.body rPage).index ≠ index) {row : Nat} (inside : row < table.layout.pageRows) :
    (table.setBody rPage page).row (index * table.layout.pageRows + row) =
      table.row (index * table.layout.pageRows + row) := by
  have bytes : (table.setBody rPage page).pageBytes index = table.pageBytes index := by
    by_cases present : ∃ ref ∈ refs, (table.body ref).index = index
    · obtain ⟨ref, member, rfl⟩ := present
      have apart : ref ≠ rPage := fun same => other (same ▸ rfl)
      have body : (table.setBody rPage page).body ref = table.body ref := by
        rw [Table.setBody_body, Function.update_of_ne apart]
      have cached := after.pageBytes_cached member
      rw [body] at cached
      rw [cached, inv.pageBytes_cached member]
    · funext position
      have absent : ∀ ref ∈ refs, (table.body ref).index ≠ index := fun ref member same =>
        present ⟨ref, member, same⟩
      rw [after.pageBytes_uncached (fun ref member => by
        rw [setBody_index same]
        exact absent ref member), inv.pageBytes_uncached absent]
      rfl
  have left := @Table.row_of_page (table.setBody rPage page) index _ inside
  rw [bytes] at left
  exact left.trans (Table.row_of_page inside).symm

end SetBody

end QNXStuff.QXBase
