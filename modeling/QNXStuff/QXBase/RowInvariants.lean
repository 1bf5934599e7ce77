import QNXStuff.QXBase.CountedRuns

/-! Properties of every single row, in the pool and in the data file alike, which
survive also when a page with changes is taken over. -/

namespace QNXStuff.QXBase

open Memory Execution

def Table.diskRow (table : Table) (index row : Nat) : Row :=
  readBytes (fun position => table.dFile.byte (index * table.layout.pageSize + position))
    (row * table.layout.rowLen) table.layout.rowLen

/-- The rows of the table, and those of the data file that may come back as such. -/
structure Everywhere (good : Nat → Row → Prop) (table : Table) : Prop where
  rows : ∀ position < table.stored, good position (table.row position)
  disk : ∀ index < table.lastIndex, ∀ row < table.layout.pageRows,
    good (index * table.layout.pageRows + row) (table.diskRow index row)

section Tables

variable {good : Nat → Row → Prop} {table other : Table}

theorem row_of_rows (same : other.rows = table.rows) {position : Nat}
    (inside : position < other.stored) : other.row position = table.row position := by
  have inside' : position < other.rows.length := by rwa [Table.rows_length]
  rw [← Table.rows_getElem inside', ← Table.rows_getElem (same ▸ inside')]
  simp only [same]

theorem stored_of_rows (same : other.rows = table.rows) : other.stored = table.stored := by
  rw [← Table.rows_length, same, Table.rows_length]

/-- A page of another table that has the bytes of one of this table. -/
theorem row_of_bytes {bytes : Block} (layout : other.layout = table.layout) {index row : Nat}
    (inPage : row < table.layout.pageRows)
    (same : ∀ position < table.layout.pageSize, other.pageBytes index position = bytes position) :
    other.row (index * table.layout.pageRows + row) =
      readBytes bytes (row * table.layout.rowLen) table.layout.rowLen := by
  have page := @Table.row_of_page _ index _ (by rwa [layout])
  rw [layout] at page
  rw [page]
  exact readBytes_congr fun position inRow =>
    same _ (table.layout.position_in_page inPage inRow)

theorem diskRow_of_bytes {bytes : Block} (layout : other.layout = table.layout) {index row : Nat}
    (inPage : row < table.layout.pageRows)
    (same : ∀ position < table.layout.pageSize,
      other.dFile.byte (index * table.layout.pageSize + position) = bytes position) :
    other.diskRow index row = readBytes bytes (row * table.layout.rowLen) table.layout.rowLen := by
  unfold Table.diskRow
  rw [layout]
  exact readBytes_congr fun position inRow =>
    same _ (table.layout.position_in_page inPage inRow)

theorem full_page_stored {index row : Nat} (less : index < table.lastIndex)
    (inPage : row < table.layout.pageRows) :
    index * table.layout.pageRows + row < table.stored := by
  have step : (index + 1) * table.layout.pageRows ≤ table.lastIndex * table.layout.pageRows :=
    Nat.mul_le_mul_right _ less
  rw [Nat.succ_mul] at step
  unfold Table.stored
  omega

/-- The row of a cached page that is good as a row of the table. -/
theorem Everywhere.cached (ever : Everywhere good table) (ok : table.Ok) {ref : PageRef}
    (member : ref ∈ table.refs) {row : Nat} (inside : row < (table.body ref).lastRow) :
    good ((table.body ref).index * table.layout.pageRows + row)
      ((table.body ref).row table.layout.rowLen row) := by
  have inv : PoolInv table table.refs := ok
  have bound := Table.page_end_le (inv.index_le_last member)
  rw [← inv.lastRow_eq member] at bound
  rw [← inv.row_cached member (Nat.lt_of_lt_of_le inside (inv.lastRow_le_pageRows member))]
  exact ever.rows _ (by omega)

/-- Where everything is written back the file has the rows of the table. -/
theorem everywhere_of_clean (ok : table.Ok) (clean : table.AllClean)
    (rows : ∀ position < table.stored, good position (table.row position)) :
    Everywhere good table := by
  refine ⟨rows, fun index less row inPage => ?_⟩
  have inside := full_page_stored less inPage
  have same : table.diskRow index row = table.row (index * table.layout.pageRows + row) := by
    rw [Table.row_of_page inPage]
    exact readBytes_congr fun position inRow => (clean_row ok clean inPage inside inRow).2.symm
  rw [same]
  exact rows _ inside

/-- Locking brings rows from the file and takes full pages to it. -/
theorem everywhere_locks : LockKeeps fun _ table => Everywhere good table := by
  intro nPageID table locked rPage ok ever lock
  have inv : PoolInv table table.refs := ok
  have layout : locked.layout = table.layout := lock.same.layout
  constructor
  · intro position inside
    rw [lock.kept.stored] at inside
    obtain ⟨index, row, inPage, rfl⟩ := table.position_split position
    have within := (ok.page_of inPage inside).1
    by_cases gone : ∃ ref, takenOver table nPageID = some ref ∧ (table.body ref).index = index
    · obtain ⟨ref, takes, rfl⟩ := gone
      obtain ⟨member, other, _, bytes⟩ := lock.replaced ref takes
      rw [row_of_bytes layout inPage bytes]
      exact ever.disk _ (inv.index_lt_last member other) row inPage
    · have bytes := lock.bytes index within fun ref takes same => gone ⟨ref, takes, same⟩
      rw [row_of_bytes layout inPage bytes, ← Table.row_of_page inPage]
      exact ever.rows _ inside
  · intro index less row inPage
    rw [lock.lastIndex] at less
    rw [layout] at inPage ⊢
    rcases lock.file index less with same | ⟨ref, member, rfl, other, written⟩
    · rw [diskRow_of_bytes layout inPage same]
      exact ever.disk index less row inPage
    · rw [diskRow_of_bytes layout inPage written]
      exact ever.cached ok member (by rwa [inv.full ref member other])

end Tables

/-! ### Scans -/

section Scans

variable {good : Nat → Row → Prop} {filters : List Filter} {change : Change}

def ChangeKeeps (good : Nat → Row → Prop) (desc : TableDesc) (change : Change) : Prop :=
  ∀ position row result, good position row → row.length = desc.rowLen →
    change.apply desc row = .ok result → good position result

/-- The scan of a page keeps each of its rows good. -/
theorem changePage_good {layout : Layout} {goodRow : Nat → Row → Prop}
    (fits : change.fits layout.toTableDesc = true)
    (keeps : ChangeKeeps goodRow layout.toTableDesc change) {count rIndex tIndex : Nat}
    {page scanned : PageBody} {left : Nat}
    (done : changePage layout.toTableDesc filters change count rIndex tIndex page =
      .ok (scanned, left)) {row : Nat} (before : goodRow row (page.row layout.rowLen row)) :
    goodRow row (scanned.row layout.rowLen row) := by
  induction count generalizing rIndex tIndex page with
  | zero =>
    cases done
    exact before
  | succ count ih =>
    cases tIndex with
    | zero =>
      cases done
      exact before
    | succ tIndex =>
      simp only [changePage] at done
      cases verdict : dataFilter filters (page.row layout.rowLen rIndex) with
      | broken =>
        rw [verdict] at done
        cases done
        exact before
      | skip =>
        simp only [verdict] at done
        split at done
        · cases done
          exact before
        · exact ih done before
      | pass =>
        simp only [verdict] at done
        cases applied : change.apply layout.toTableDesc (page.row layout.rowLen rIndex) with
        | error fault =>
          simp only [applied] at done
          cases done
        | ok bytes =>
          have length := change.apply_length layout fits (readBytes_length ..) applied
          have put : goodRow row
              ((page.putRow layout.rowLen rIndex bytes).row layout.rowLen row) := by
            by_cases here : row = rIndex
            · subst here
              rw [PageBody.putRow_row length]
              exact keeps row _ bytes before (readBytes_length ..) applied
            · rw [PageBody.putRow_other length here]
              exact before
          simp only [applied] at done
          split at done
          · cases done
            exact put
          · exact ih done put

theorem everywhere_scans (layout : Layout) (fits : change.fits layout.toTableDesc = true)
    (keeps : ChangeKeeps good layout.toTableDesc change) :
    ScanKeeps (fun _ table => Everywhere good table) layout.toTableDesc filters change := by
  intro nPageID table rPage rIndex tIndex scanned left ok ever same member _ page
  have inv : PoolInv table table.refs := ok
  have touched := changePage_touched page
  have after := inv.touch touched
  obtain ⟨lastIndex, stored⟩ := PoolInv.touch_stored touched
  rw [← same] at page fits keeps
  refine ⟨fun position inside => ?_, fun index less row inPage => ?_⟩
  · rw [stored] at inside
    obtain ⟨index, row, inPage, rfl⟩ := table.position_split position
    by_cases here : (table.body rPage).index = index
    · subst here
      rw [after.setBody_row member touched.index inPage]
      have shifted : ChangeKeeps
          (fun row => good ((table.body rPage).index * table.layout.pageRows + row))
          table.layout.toTableDesc change := fun row => keeps _
      refine changePage_good
        fits shifted page ?_
      rw [← inv.row_cached member inPage]
      exact ever.rows _ inside
    · rw [inv.setBody_other after touched.index here inPage]
      exact ever.rows _ inside
  · rw [lastIndex] at less
    exact ever.disk index less row inPage

end Scans

/-! ### Inserting -/

section Inserts

variable {good : Nat → Row → Prop} {table ready : Table}

theorem everywhere_ready (ok : table.Ok) (ever : Everywhere good table)
    (fits : Ready table ready) : Everywhere good ready := by
  have inv : PoolInv table table.refs := ok
  refine ⟨fun position inside => ?_, fun index less row inPage => ?_⟩
  · rw [row_of_rows fits.rows inside]
    exact ever.rows position (stored_of_rows fits.rows ▸ inside)
  · rw [fits.layout] at inPage ⊢
    rcases fits.disk index less with ⟨before, same⟩ | ⟨rfl, full, written⟩
    · rw [diskRow_of_bytes fits.layout inPage same]
      exact ever.disk index before row inPage
    · rw [diskRow_of_bytes fits.layout inPage written]
      exact ever.cached ok inv.last_mem (by rwa [full])

/-- Receiving a row leaves the file and the pages in front alone. -/
theorem receiveRow_disk (table : Table) (ocb : Ocb) (data : List UInt8) :
    (receiveRow table ocb data).1.dFile = table.dFile ∧
      (receiveRow table ocb data).1.layout = table.layout ∧
      (receiveRow table ocb data).1.lastIndex = table.lastIndex := by
  unfold receiveRow
  dsimp only
  split
  · refine ⟨rfl, rfl, ?_⟩
    show ((table.setBody table.lastPage _).body table.lastPage).index = _
    rw [Table.setBody_body, Function.update_self]
    rfl
  · refine ⟨rfl, rfl, ?_⟩
    show ((table.setBody table.lastPage _).body table.lastPage).index = _
    rw [Table.setBody_body, Function.update_self]
    rfl

end Inserts

/-! ### Requests -/

section Requests

variable {good : Nat → Row → Prop} {server next : Server} {conn : ConnId} {reply : Reply}

/-- What a request may write into a row. -/
def RequestKeeps (good : Nat → Row → Prop) (server : Server) (conn : ConnId) : Request → Prop
  | .insert _ data => server.table.layout.rowLen ≤ data.length →
      good server.table.stored
        (withKey (data.take server.table.layout.rowLen) (server.table.stored + 1))
  | .change change => (server.ocbs conn).selected = true →
      change.fits server.table.layout.toTableDesc = true →
      ChangeKeeps good server.table.layout.toTableDesc change
  | _ => True

theorem insert_everywhere (counted : server.Counted) (ever : Everywhere good server.table)
    {nbytes : Nat} {data : List UInt8} (received : Received server conn (.insert nbytes data))
    (keeps : RequestKeeps good server conn (.insert nbytes data))
    (answered : server.handle conn (.insert nbytes data) = .ok (next, reply)) :
    Everywhere good next.table := by
  rcases insert_whole counted received answered with
    same | ⟨arrived, ready, fits, same, _, _, rows⟩
  · exact same ▸ ever
  · have before := everywhere_ready counted.pool ever fits
    obtain ⟨dFile, layout, lastIndex⟩ := receiveRow_disk (countRow ready) (server.ocbs conn) data
    rw [← same] at dFile layout lastIndex
    refine ⟨fun position inside => ?_, fun index less row inPage => ?_⟩
    · have length : next.table.stored = server.table.stored + 1 := by
        rw [← Table.rows_length, rows, List.length_append, Table.rows_length,
          List.length_singleton]
      have inside' : position < next.table.rows.length := by rwa [Table.rows_length]
      rw [← Table.rows_getElem inside']
      simp only [rows]
      rcases Nat.lt_or_eq_of_le (Nat.le_of_lt_succ (length ▸ inside)) with less | rfl
      · rw [List.getElem_append_left (by rwa [Table.rows_length]), Table.rows_getElem]
        exact ever.rows position less
      · simp only [List.getElem_concat_length (Table.rows_length _).symm]
        exact keeps arrived
    · have disk : next.table.diskRow index row = ready.diskRow index row := by
        unfold Table.diskRow
        rw [dFile, layout]
        rfl
      rw [disk, layout]
      exact before.disk index (lastIndex ▸ less) row (layout ▸ inPage)

/-- Every request keeps the rows good that it does not spoil itself. -/
theorem handle_everywhere (counted : server.Counted) (ever : Everywhere good server.table)
    {request : Request} (received : Received server conn request)
    (keeps : RequestKeeps good server conn request)
    (answered : server.handle conn request = .ok (next, reply)) :
    Everywhere good next.table := by
  cases request with
  | insert nbytes data => exact insert_everywhere counted ever received keeps answered
  | fetch nbytes =>
    rcases fetch_cases answered with same | ⟨rest, done⟩
    · exact same ▸ ever
    · obtain ⟨_, visited⟩ := (read_keeps counted.pool everywhere_locks (fun _ _ ever => ever)
        ever).1 _ _ done
      exact visited.holds
  | change change =>
    rcases change_cases answered with same | ⟨selected, fits, code, done⟩
    · exact same ▸ ever
    · obtain ⟨_, visited⟩ := (change_keeps counted.pool everywhere_locks
        (everywhere_scans server.table.layout fits (keeps selected fits)) ever).1 _ _ done
      exact visited.holds
  | tblflush =>
    rcases flush_cases answered with same | done
    · exact same ▸ ever
    · rcases tableSync_spec counted.pool with failed | ⟨flushed, done', flush⟩
      · rw [failed] at done
        cases done
      · rw [done'] at done
        cases done
        have rows : next.table.rows = server.table.rows := flush.rows
        refine everywhere_of_clean flush.inv.ok flush.allClean fun position inside => ?_
        rw [row_of_rows rows inside]
        exact ever.rows position (stored_of_rows rows ▸ inside)
  | reload =>
    have done := reload_cases answered
    rcases reload_spec counted.pool counted.counted with ⟨_, failed⟩ | ⟨loaded, done', fresh⟩
    · rw [failed] at done
      cases done
    · rw [done'] at done
      cases done
      refine everywhere_of_clean fresh.ok fresh.clean fun position inside => ?_
      rw [row_of_rows fresh.rows inside]
      exact ever.rows position (stored_of_rows fresh.rows ▸ inside)
  | control request => exact control_cases answered ▸ ever

end Requests

end QNXStuff.QXBase
