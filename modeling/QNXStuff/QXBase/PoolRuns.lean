import QNXStuff.QXBase.CountedRuns

/-! Runs on any disk: the page pool keeps its shape, and a row that was just inserted is fetched. -/

namespace QNXStuff.QXBase

open Memory Execution LinkedList

/-! ### Locking a page -/

def Table.InShape (table : Table) : Prop := PoolShape table table.refs

theorem PoolShape.inShape {table : Table} {refs : List PageRef} (shape : PoolShape table refs) :
    table.InShape := by
  unfold Table.InShape
  rw [shape.refs_eq]
  exact shape

structure PageLocked (table : Table) (nPageID : Nat) (locked : Table) (rPage : PageRef) : Prop where
  shape : locked.InShape
  same : SameTable table locked
  member : rPage ∈ locked.refs
  index : (locked.body rPage).index = nPageID
  last : locked.body table.lastPage = table.body table.lastPage

section Locking

variable {storage : Storage} {table placed : Table} {refs front back : List PageRef}
  {rPage : PageRef} {nPageID : Nat}

/-- Writing back a page changes no more than that it is written. -/
theorem Storage.syncPage_spec (storage : Storage) (table : Table) (ref : PageRef) :
    ∃ file page, page.index = (table.body ref).index ∧ page.lastRow = (table.body ref).lastRow ∧
      page.data = (table.body ref).data ∧
      storage.syncPage table ref = (table.setBody ref page).setFile file := by
  unfold syncPage
  dsimp only
  split
  · exact ⟨_, { table.body ref with needSync := false }, rfl, rfl, rfl, rfl⟩
  · refine ⟨table.dFile, table.body ref, rfl, rfl, rfl, ?_⟩
    unfold Table.setBody Table.setFile Table.body
    simp only [Function.update_eq_self]

/-- The wanted page is read into a descriptor at its spot. -/
theorem Spot.locked (shape : PoolShape table refs)
    (spot : Spot table refs nPageID placed front rPage back) (storage : Storage) :
    PageLocked table nPageID (storage.readPage placed rPage nPageID) rPage := by
  have read : ∃ data file, storage.readPage placed rPage nPageID = (placed.setBody rPage
      { placed.body rPage with
        data := data, index := nPageID, needSync := false
        lastRow := placed.layout.pageRows }).setFile file := ⟨_, _, rfl⟩
  obtain ⟨data, file, read⟩ := read
  have there := (spot.setBody
    { placed.body rPage with
      data := data, index := nPageID, needSync := false
      lastRow := placed.layout.pageRows }).setFile file
  rw [← read] at there
  have body : (storage.readPage placed rPage nPageID).body rPage =
      { placed.body rPage with
        data := data, index := nPageID, needSync := false
        lastRow := placed.layout.pageRows } := by
    rw [read, Table.setFile_body, Table.setBody_body, Function.update_self]
  have completed := there.shape shape (by rw [body]) (by rw [body, spot.same.layout])
  refine ⟨completed.inShape, there.same, ?_, by rw [body], there.kept _ there.lastKept⟩
  rw [completed.refs_eq]
  simp

/-- Every way to get a descriptor ends at the spot of the wanted page. -/
theorem Storage.victimPage_spec (storage : Storage) (shape : PoolShape table refs)
    (split : refs = front ++ rPage :: back) (larger : nPageID < (table.body rPage).index)
    (passed : ∀ ref ∈ front, (table.body ref).index < nPageID) :
    ∃ placed front tmpPage back, storage.victimPage table rPage = .ok (placed, tmpPage) ∧
      Spot table refs nPageID placed front tmpPage back := by
  unfold victimPage
  by_cases crowded : table.layout.lockPages ≤ table.pLocks
  · rw [if_pos crowded]
    by_cases last : rPage = table.lastPage
    · subst last
      have alone : back = [] := shape.behind_last split
      subst alone
      obtain ⟨moved, tmpPage, rest, relinks, -, -, -, -, spot⟩ :=
        spot_relink shape split larger passed crowded
      obtain ⟨file, page, -, -, -, synced⟩ := storage.syncPage_spec moved tmpPage
      refine ⟨_, rest, tmpPage, _, ?_, (spot.setBody page).setFile file⟩
      rw [if_pos rfl, relinks, ← synced]
      rfl
    · rw [if_neg last]
      exact ⟨table, front, rPage, back, rfl, spot_in_place shape split larger passed last⟩
  · rw [if_neg crowded]
    obtain ⟨placed, allocated, -, -, spot⟩ := spot_alloc shape split larger passed crowded
    exact ⟨placed, front, table.fresh, rPage :: back, by rw [allocated], spot⟩

/-- `LockTablePage` delivers every page up to the last one. -/
theorem Storage.lockTablePage_spec (storage : Storage) (shape : table.InShape) (nPageID : Nat) :
    (table.lastIndex < nPageID ∧ storage.lockTablePage table nPageID = .ok (table, none)) ∨
    (nPageID ≤ table.lastIndex ∧ ∃ locked rPage,
      storage.lockTablePage table nPageID = .ok (locked, some rPage) ∧
        PageLocked table nPageID locked rPage) := by
  unfold lockTablePage
  rcases PoolShape.findPage_cases shape nPageID with
    ⟨beyond, found⟩ | ⟨inside, front, rPage, back, split, found, stops, passed⟩
  · exact .inl ⟨beyond, by rw [found]⟩
  · refine .inr ⟨inside, ?_⟩
    rw [found]
    by_cases here : (table.body rPage).index = nPageID
    · refine ⟨table, rPage, if_pos here, shape, SameTable.refl table, ?_, here, rfl⟩
      rw [split]
      simp
    · have larger : nPageID < (table.body rPage).index := by omega
      obtain ⟨placed, front', tmpPage, back', chosen, spot⟩ :=
        storage.victimPage_spec shape split larger passed
      refine ⟨_, tmpPage, ?_, spot.locked shape storage⟩
      simp only [if_neg here, chosen]
      rfl

theorem Storage.lock_last (storage : Storage) (shape : table.InShape) :
    storage.lockTablePage table table.lastIndex = .ok (table, some table.lastPage) := by
  unfold lockTablePage
  rcases PoolShape.findPage_cases shape table.lastIndex with
    ⟨beyond, _⟩ | ⟨_, front, rPage, back, split, found, stops, _⟩
  · exact absurd beyond (Nat.lt_irrefl _)
  · have member : rPage ∈ table.refs := by
      rw [split]
      simp
    have here : rPage = table.lastPage := by
      by_contra other
      have less := PoolShape.index_lt_last shape member other
      omega
    subst here
    rw [found]
    exact if_pos rfl

end Locking

/-! ### What a request leaves -/

/-- A table in shape, with as many rows as another one. -/
structure Steady (start table : Table) : Prop where
  shape : table.InShape
  layout : table.layout = start.layout
  index : table.index = start.index
  lastIndex : table.lastIndex = start.lastIndex
  lastRow : (table.body table.lastPage).lastRow = (start.body start.lastPage).lastRow

section Requests

variable {storage : Storage} {start table : Table}

theorem Steady.refl (shape : table.InShape) : Steady table table := ⟨shape, rfl, rfl, rfl, rfl⟩

theorem Steady.trans {other third : Table} (first : Steady table other)
    (second : Steady other third) : Steady table third :=
  ⟨second.shape, second.layout.trans first.layout, second.index.trans first.index,
    second.lastIndex.trans first.lastIndex, second.lastRow.trans first.lastRow⟩

theorem PageLocked.steady {locked : Table} {rPage : PageRef} {nPageID : Nat}
    (lock : PageLocked table nPageID locked rPage) : Steady table locked := by
  have last : locked.body locked.lastPage = table.body table.lastPage := by
    rw [lock.same.lastPage, lock.last]
  refine ⟨lock.shape, lock.same.layout, lock.same.index, ?_, by rw [last]⟩
  unfold Table.lastIndex
  rw [last]

/-- A page that keeps its index and its number of rows. -/
theorem Steady.touch (steady : Steady start table) {ref : PageRef} {page : PageBody}
    (index : page.index = (table.body ref).index)
    (lastRow : page.lastRow = (table.body ref).lastRow) :
    Steady start (table.setBody ref page) := by
  have shape : PoolShape table table.refs := steady.shape
  have same : ((table.setBody ref page).body table.lastPage).index = table.lastIndex ∧
      ((table.setBody ref page).body table.lastPage).lastRow =
        (table.body table.lastPage).lastRow := by
    rw [Table.setBody_body]
    by_cases here : table.lastPage = ref
    · subst here
      rw [Function.update_self]
      exact ⟨index, lastRow⟩
    · rw [Function.update_of_ne here]
      exact ⟨rfl, rfl⟩
  exact ⟨(shape.touch index lastRow).inShape, steady.layout, steady.index,
    same.1.trans steady.lastIndex, same.2.trans steady.lastRow⟩

theorem PoolShape.setFile {refs : List PageRef} (shape : PoolShape table refs) (file : File) :
    PoolShape (table.setFile file) refs := { shape with }

theorem Steady.setFile (steady : Steady start table) (file : File) :
    Steady start (table.setFile file) := by
  have shape : PoolShape table table.refs := steady.shape
  exact ⟨(shape.setFile file).inShape, steady.layout, steady.index, steady.lastIndex,
    steady.lastRow⟩

theorem Steady.syncPage (steady : Steady start table) (storage : Storage) (ref : PageRef) :
    Steady start (storage.syncPage table ref) := by
  obtain ⟨file, page, index, lastRow, -, synced⟩ := storage.syncPage_spec table ref
  rw [synced]
  exact (steady.touch index lastRow).setFile file

theorem Steady.headSync (steady : Steady start table) (storage : Storage) :
    Steady start (storage.headSync table) := by
  have shape : PoolShape table table.refs := steady.shape
  have same : PoolShape (storage.headSync table) table.refs := { shape with }
  exact ⟨same.inShape, steady.layout, steady.index, steady.lastIndex, steady.lastRow⟩

/-- What a pass of `Qbase_read` does to the table. -/
theorem readPass_steady (storage : Storage) {state : ReadState}
    (steady : Steady start state.table) :
    PassSpec (fun state => Steady start state.table) ReadState.ahead
      (fun result => ∃ table ocb row, result = .ok (table, ocb, row) ∧ Steady start table) state
      (storage.paging.readPass state) := by
  unfold Paging.readPass
  by_cases more : state.ocb.record < state.table.index
  · rw [if_pos more]
    rcases storage.lockTablePage_spec steady.shape state.pIndex with
      ⟨_, missing⟩ | ⟨inside, locked, rPage, found, lock⟩
    · simp only [Storage.paging, missing]
      exact ⟨_, _, _, rfl, steady⟩
    · have arrived := steady.trans lock.steady
      simp only [Storage.paging, found]
      split
      · exact ⟨_, _, _, rfl, arrived⟩
      · exact ⟨_, _, _, rfl, arrived⟩
      · refine ⟨arrived, ?_⟩
        have lastIndex := lock.steady.lastIndex
        unfold ReadState.ahead
        simp only [lastIndex]
        omega
  · rw [if_neg more]
    exact ⟨_, _, _, rfl, steady⟩

theorem read_steady (storage : Storage) (shape : table.InShape) (ocb : Ocb) (nbytes : Nat) :
    ∃ final ocb' row, storage.paging.qbaseRead table ocb nbytes = .ok (final, ocb', row) ∧
      Steady table final := by
  unfold Paging.qbaseRead
  split
  · exact ⟨_, _, _, rfl, .refl shape⟩
  · split
    · exact ⟨_, _, _, rfl, .refl shape⟩
    · exact loop_rule_free (fun state steady => readPass_steady storage steady) (.refl shape)
        (pageFuel_enough _ _)

/-- What a pass of the three scanning requests does to the table. -/
theorem changePass_steady (storage : Storage) (ocb : Ocb) (change : Change) {state : ScanState}
    (steady : Steady start state.table) :
    PassSpec (fun state => Steady start state.table) ScanState.ahead
      (fun result => ∀ table code, result = .ok (table, code) → Steady start table) state
      (storage.paging.changePass ocb change state) := by
  have here : ∀ {table : Table} {code : ErrorCode}, Steady start table →
      ∀ final code', (.ok (table, code) : Except Fault (Table × ErrorCode)) = .ok (final, code') →
        Steady start final := by
    intro table code steady final code' same
    cases same
    exact steady
  unfold Paging.changePass
  split
  · exact here steady
  · rcases storage.lockTablePage_spec steady.shape state.pIndex with
      ⟨_, missing⟩ | ⟨inside, locked, rPage, found, lock⟩
    · simp only [Storage.paging, missing]
      exact here steady
    · have arrived := steady.trans lock.steady
      simp only [Storage.paging, found]
      split
      · exact fun _ _ => nofun
      · rename_i page tIndex done
        have touched := changePage_touched done
        have after := arrived.touch touched.index touched.lastRow
        refine ⟨after, ?_⟩
        have lastIndex := after.lastIndex.trans steady.lastIndex.symm
        unfold ScanState.ahead
        simp only [lastIndex]
        omega

theorem change_steady (storage : Storage) (shape : table.InShape) {ocb : Ocb} {change : Change}
    {final : Table} {code : ErrorCode}
    (done : storage.paging.qbaseChange table ocb change = .ok (final, code)) :
    Steady table final := by
  unfold Paging.qbaseChange at done
  split at done
  · cases done
    exact .refl shape
  · split at done
    · cases done
      exact .refl shape
    · have begins : Steady table (changeStart table ocb change).table := .refl shape
      have ends : ∀ table' code', loop (storage.paging.changePass ocb change) .hang (pageFuel table)
          (changeStart table ocb change) = .ok (table', code') → Steady table table' :=
        loop_rule_free (fun state steady => changePass_steady storage ocb change steady) begins
          (pageFuel_enough _ _)
      exact ends final code done

/-- The loop of `Qbase_TableSync` comes to the end of the list. -/
theorem syncPages_steady (storage : Storage) {rest : List PageRef} {sPage : Option PageRef}
    (steady : Steady start table) (walked : Chain table.next sPage rest) {fuel : Nat}
    (enough : rest.length ≤ fuel) :
    ∃ flushed, storage.syncPages fuel sPage table = .ok flushed ∧ Steady start flushed := by
  induction rest generalizing table sPage fuel with
  | nil =>
    have ending : sPage = none := walked
    subst ending
    exact ⟨table, by cases fuel <;> rfl, steady⟩
  | cons ref rest ih =>
    obtain ⟨rfl, walked⟩ := walked
    cases fuel with
    | zero => simp at enough
    | succ fuel =>
      have next : (storage.syncPage table ref).next = table.next := by
        obtain ⟨file, page, -, -, -, synced⟩ := storage.syncPage_spec table ref
        rw [synced, Table.setFile_next, Table.setBody_next]
      simp only [Storage.syncPages]
      exact ih (steady.syncPage storage ref) (by rw [next]; exact walked) (by simpa using enough)

theorem tableSync_steady (storage : Storage) (shape : table.InShape) :
    ∃ flushed, storage.tableSync table = .ok flushed ∧ Steady table flushed := by
  have listed : PoolShape table table.refs := shape
  exact syncPages_steady storage ((Steady.refl shape).headSync storage) listed.listed.forward
    listed.length_le

end Requests

/-! ### The counter -/

/-- A pool in shape whose last row is the one that was counted last. -/
structure Paged (table : Table) : Prop where
  shape : table.InShape
  counter : table.index =
    table.lastIndex * table.layout.pageRows + (table.body table.lastPage).lastRow

/-- A row was added behind the others. -/
structure Stored (table : Table) (row : Row) (stored : Table) : Prop where
  paged : Paged stored
  layout : stored.layout = table.layout
  index : stored.index = table.index + 1
  row : ∃ last, (stored.body stored.lastPage).lastRow = last + 1 ∧
    (stored.body stored.lastPage).row stored.layout.rowLen last = row

section Counter

variable {storage : Storage} {start table : Table}

theorem Steady.paged (steady : Steady start table) (paged : Paged start) : Paged table where
  shape := steady.shape
  counter := by
    rw [steady.index, steady.lastIndex, steady.lastRow, steady.layout]
    exact paged.counter

theorem setLast_last (table : Table) (page : PageBody) :
    (table.setBody table.lastPage page).body (table.setBody table.lastPage page).lastPage = page := by
  show (table.setBody table.lastPage page).body table.lastPage = page
  rw [Table.setBody_body, Function.update_self]

/-- The last page moves on with the counter. -/
theorem PoolShape.paged (shape : table.InShape) {page : PageBody}
    (later : table.lastIndex ≤ page.index) (lastRow_le : page.lastRow ≤ table.layout.pageRows)
    (counter : table.index = page.index * table.layout.pageRows + page.lastRow) :
    Paged (table.setBody table.lastPage page) where
  shape := (PoolShape.setLast shape later lastRow_le).inShape
  counter := by
    unfold Table.lastIndex
    rw [setLast_last]
    exact counter

/-- A full last page goes on as the next one. -/
theorem rotate_paged (storage : Storage) (paged : Paged table)
    (full : table.layout.pageRows ≤ (table.body table.lastPage).lastRow)
    (fits : table.index + 1 < 2 ^ 32) :
    Paged (storage.rotate table) ∧ (storage.rotate table).layout = table.layout ∧
      (storage.rotate table).index = table.index ∧
      ((storage.rotate table).body (storage.rotate table).lastPage).lastRow = 0 := by
  obtain ⟨flushed, written⟩ :
      ∃ flushed, flushed = storage.headSync (storage.syncPage table table.lastPage) := ⟨_, rfl⟩
  have steady : Steady table flushed := by
    rw [written]
    exact ((Steady.refl paged.shape).syncPage storage table.lastPage).headSync storage
  have turned : storage.rotate table = flushed.setBody flushed.lastPage
      { flushed.body flushed.lastPage with
        index := ((flushed.body flushed.lastPage).index + 1) % 2 ^ 32, lastRow := 0 } := by
    rw [written]
    rfl
  have shape : PoolShape flushed flushed.refs := steady.shape
  have lastRow : (flushed.body flushed.lastPage).lastRow = flushed.layout.pageRows := by
    refine Nat.le_antisymm shape.lastRow_le ?_
    rw [steady.layout, steady.lastRow]
    exact full
  have filled : flushed.index = (flushed.lastIndex + 1) * flushed.layout.pageRows := by
    rw [(steady.paged paged).counter, lastRow, Nat.succ_mul]
  have small : flushed.lastIndex + 1 < 2 ^ 32 := by
    have rows := Nat.le_mul_of_pos_right (flushed.lastIndex + 1) flushed.layout.sound.pageRows_pos
    rw [← filled, steady.index] at rows
    omega
  have next : ((flushed.body flushed.lastPage).index + 1) % 2 ^ 32 = flushed.lastIndex + 1 :=
    Nat.mod_eq_of_lt small
  rw [turned, next]
  refine ⟨PoolShape.paged steady.shape (Nat.le_succ _) (Nat.zero_le _) filled, steady.layout,
    steady.index, ?_⟩
  rw [setLast_last]

/-- The row of a client behind the last one. -/
theorem receive_stored (paged : Paged table)
    (room : (table.body table.lastPage).lastRow < table.layout.pageRows)
    (fits : table.index + 1 < 2 ^ 32) (ocb : Ocb) {data : List UInt8}
    (whole : table.layout.rowLen ≤ data.length) :
    ∃ stored, receiveRow (countRow table) ocb data =
        (stored, { ocb with record := table.index }, table.layout.rowLen) ∧
      Stored table (withKey (data.take table.layout.rowLen) (table.index + 1)) stored := by
  have shape : PoolShape table table.refs := paged.shape
  have counted : PoolShape (countRow table) table.refs := { shape with }
  have index : (table.index + 1) % 2 ^ 32 = table.index + 1 := Nat.mod_eq_of_lt fits
  have record : (table.index + 1 + (2 ^ 32 - 1)) % 2 ^ 32 = table.index := by omega
  have taken : (data.take table.layout.rowLen).length = table.layout.rowLen := by
    rw [List.length_take]
    omega
  have keyed : (withKey (data.take table.layout.rowLen) (table.index + 1)).length =
      table.layout.rowLen := by
    have key := table.layout.sound.keyWord
    unfold withKey
    rw [overwrite_length (by rw [taken, bytesOf_length]; omega), taken]
  have received : receiveRow (countRow table) ocb data =
      ((countRow table).setBody (countRow table).lastPage
        { (table.body table.lastPage).putRow table.layout.rowLen (table.body table.lastPage).lastRow
            (withKey (data.take table.layout.rowLen) (table.index + 1)) with
          lastRow := (table.body table.lastPage).lastRow + 1 },
        { ocb with record := table.index }, table.layout.rowLen) := by
    unfold receiveRow countRow
    simp only [index, record, taken, ne_eq, not_true_eq_false, if_false]
    rfl
  refine ⟨_, received, PoolShape.paged counted.inShape ?_ ?_ ?_, rfl, index, ?_⟩
  · exact Nat.le_refl _
  · exact room
  · show (table.index + 1) % 2 ^ 32 = _
    rw [index, paged.counter]
    rfl
  · refine ⟨(table.body table.lastPage).lastRow, ?_, ?_⟩
    · rw [setLast_last]
    · rw [setLast_last]
      exact PageBody.putRow_row keyed

/-- `Qbase_write` adds the row of a client that may write. -/
theorem write_stored (storage : Storage) (paged : Paged table) (fits : table.index + 1 < 2 ^ 32)
    {ocb : Ocb} {nbytes : Nat} {data : List UInt8} (selected : ocb.selected = true)
    (room : table.layout.rowLen ≤ nbytes) (whole : table.layout.rowLen ≤ data.length) :
    ∃ stored, storage.paging.qbaseWrite table ocb nbytes data =
        .ok (stored, { ocb with record := table.index }, table.layout.rowLen) ∧
      Stored table (withKey (data.take table.layout.rowLen) (table.index + 1)) stored := by
  unfold Paging.qbaseWrite
  rw [if_neg (by simp [selected]), if_neg (Nat.not_lt.mpr room)]
  by_cases full : table.layout.pageRows ≤ (table.body table.lastPage).lastRow
  · obtain ⟨turned, layout, index, lastRow⟩ := rotate_paged storage paged full fits
    obtain ⟨stored, received, added⟩ := receive_stored turned
      (by rw [lastRow, layout]; exact table.layout.sound.pageRows_pos) (by rw [index]; exact fits)
      ocb (by rw [layout]; exact whole)
    rw [layout, index] at received added
    refine ⟨stored, ?_, added.paged, added.layout.trans layout, added.index.trans (by rw [index]),
      added.row⟩
    rw [if_pos full]
    exact congrArg Except.ok received
  · obtain ⟨stored, received, added⟩ :=
      receive_stored paged (Nat.not_le.mp full) fits ocb whole
    refine ⟨stored, ?_, added⟩
    rw [if_neg full, received]

/-- The table of a client that may not write stays as it is. -/
theorem write_refused (storage : Storage) {ocb : Ocb} {nbytes : Nat} (data : List UInt8)
    (refused : ocb.selected = false ∨ nbytes < table.layout.rowLen) :
    ∃ qerrno, storage.paging.qbaseWrite table ocb nbytes data =
      .ok (table, { ocb with qerrno := qerrno }, 0) := by
  unfold Paging.qbaseWrite
  by_cases selected : ocb.selected = false
  · exact ⟨.notblsel, if_pos selected⟩
  · refine ⟨.buf, ?_⟩
    rw [if_neg selected, if_pos (refused.resolve_left selected)]

/-- A table with its last page only, as it comes from the files. -/
theorem single_paged {ref : PageRef} {data : Block} {size index lastRow : Nat}
    (page : table.heap ref = diskPage data size index lastRow) (pages : table.pages = some ref)
    (lastPage : table.lastPage = ref) (live : ref < table.fresh) (pLocks : table.pLocks = 1)
    (lastRow_le : lastRow ≤ table.layout.pageRows)
    (counter : table.index = index * table.layout.pageRows + lastRow) : Paged table := by
  have body : (table.body ref).index = index ∧ (table.body ref).lastRow = lastRow := by
    unfold Table.body
    rw [page]
    exact ⟨rfl, rfl⟩
  have next : table.next ref = none := by
    unfold Table.next
    rw [page]
    rfl
  have prev : table.prev ref = none := by
    unfold Table.prev
    rw [page]
    rfl
  have shape := PoolShape.single pages lastPage next prev live pLocks (body.2 ▸ lastRow_le)
  refine ⟨shape.inShape, ?_⟩
  unfold Table.lastIndex
  rw [lastPage, body.1, body.2]
  exact counter

theorem loadTable_paged (storage : Storage) (table : Table) : Paged (storage.loadTable table) := by
  obtain ⟨data, file, loaded⟩ : ∃ data file, storage.loadTable table =
      (table.withPage (diskPage data (pageSizeOf table.layout.rowLen table.layout.pageRows)
        (table.hFile / table.layout.pageRows)
        (table.hFile % table.layout.pageRows))).setFile file := ⟨_, _, rfl⟩
  rw [loaded]
  exact single_paged (Function.update_self table.fresh _ table.heap) rfl rfl (Nat.lt_succ_self _) rfl
    (Nat.le_of_lt (Nat.mod_lt _ table.layout.sound.pageRows_pos)) (Nat.div_add_mod' _ _).symm

theorem createTable_paged (storage : Storage) {layout : Layout} (empty : layout.index = 0)
    (heap : PageRef → Page) : Paged (storage.createTable layout heap) := by
  unfold Storage.createTable
  exact single_paged (Function.update_self 0 _ heap) rfl rfl Nat.zero_lt_one rfl (Nat.zero_le _)
    (empty.trans (Nat.zero_mul _).symm)

end Counter

/-! ### Requests -/

/-- A row that arrives can be counted. -/
def CounterFits (server : Server) : Request → Prop
  | .insert _ _ => server.table.index + 1 < 2 ^ 32
  | _ => True

instance {server : Server} {request : Request} : Decidable (CounterFits server request) :=
  match request with
  | .insert _ _ => inferInstanceAs (Decidable (_ < _))
  | .fetch _ | .change _ | .tblflush | .reload | .control _ => inferInstanceAs (Decidable True)

def CountedStep (storage : Storage) : Server → Exchange → Server → Prop :=
  Under (StorageStep storage) fun server exchange =>
    Received server exchange.1.1 exchange.1.2 ∧ CounterFits server exchange.1.2

section Handled

variable {storage : Storage} {server next : Server} {conn : ConnId} {reply : Reply}

/-- A request to insert is refused, or its row is stored under the next key. -/
theorem insert_handled {nbytes : Nat} {data : List UInt8} (paged : Paged server.table)
    (received : Received server conn (.insert nbytes data))
    (fits : CounterFits server (.insert nbytes data))
    (answered : storage.paging.handle server conn (.insert nbytes data) = .ok (next, reply)) :
    (next.table = server.table ∧ reply = .written 0) ∨
    (reply = .written server.table.layout.rowLen ∧ (server.ocbs conn).selected = true ∧
      Stored server.table
        (withKey (data.take server.table.layout.rowLen) (server.table.index + 1)) next.table ∧
      next.ocbs conn = { server.ocbs conn with record := server.table.index }) := by
  obtain ⟨⟨table, ocb, count⟩, written, same⟩ := map_eq_ok.mp answered
  cases same
  by_cases refused : (server.ocbs conn).selected = false ∨ nbytes < server.table.layout.rowLen
  · obtain ⟨qerrno, kept⟩ := write_refused storage data refused
    rw [kept] at written
    cases written
    exact .inl ⟨rfl, rfl⟩
  · rw [not_or, Bool.not_eq_false, Nat.not_lt] at refused
    obtain ⟨selected, room⟩ := refused
    obtain ⟨stored, added, storing⟩ :=
      write_stored storage paged fits selected room (received selected room)
    rw [added] at written
    cases written
    exact .inr ⟨rfl, selected, storing, Function.update_self ..⟩

/-- The other requests but for loading the table leave its rows. -/
theorem handle_steady {request : Request} (shape : server.table.InShape)
    (stays : request ≠ .reload) (other : ∀ nbytes data, request ≠ .insert nbytes data)
    (answered : storage.paging.handle server conn request = .ok (next, reply)) :
    Steady server.table next.table := by
  cases request with
  | insert nbytes data => exact absurd rfl (other nbytes data)
  | fetch nbytes =>
    obtain ⟨read, done, same⟩ := map_eq_ok.mp answered
    obtain ⟨final, ocb, row, done', steady⟩ :=
      read_steady storage shape (server.ocbs conn) nbytes
    cases done.symm.trans done'
    cases same
    exact steady
  | change change =>
    obtain ⟨⟨table, code⟩, done, same⟩ := map_eq_ok.mp answered
    cases same
    exact change_steady storage shape done
  | tblflush =>
    unfold Paging.handle at answered
    dsimp only at answered
    split at answered
    · obtain ⟨table, done, same⟩ := map_eq_ok.mp answered
      obtain ⟨flushed, done', steady⟩ := tableSync_steady storage shape
      cases done.symm.trans done'
      cases same
      exact steady
    · cases answered
      exact .refl shape
  | reload => exact absurd rfl stays
  | control request =>
    obtain ⟨answer, done, same⟩ := map_eq_ok.mp answered
    cases same
    exact .refl shape

theorem handle_paged {request : Request} (paged : Paged server.table)
    (received : Received server conn request) (fits : CounterFits server request)
    (answered : storage.paging.handle server conn request = .ok (next, reply)) :
    Paged next.table := by
  by_cases inserting : ∃ nbytes data, request = .insert nbytes data
  · obtain ⟨nbytes, data, rfl⟩ := inserting
    rcases insert_handled paged received fits answered with ⟨same, _⟩ | ⟨_, _, stored, _⟩
    · exact same ▸ paged
    · exact stored.paged
  · by_cases loading : request = .reload
    · subst loading
      obtain ⟨table, done, same⟩ := map_eq_ok.mp answered
      obtain ⟨flushed, _, loaded⟩ := map_eq_ok.mp done
      cases same
      cases loaded
      exact loadTable_paged storage flushed
    · exact (handle_steady paged.shape loading
        (fun nbytes data same => inserting ⟨nbytes, data, same⟩) answered).paged paged

/-- In every run in which the rows arrive and are counted the pool keeps its shape. -/
theorem run_paged {start final : Server} {exchanges : List Exchange} (begun : Begun storage start)
    (run : Run (CountedStep storage) start exchanges final) : Paged final.table := by
  obtain ⟨layout, heap, empty, created⟩ := begun.created
  refine run.invariant (motive := fun server => Paged server.table)
    (created ▸ createTable_paged storage empty heap) ?_
  rintro server ⟨⟨conn, request⟩, reply⟩ next paged ⟨answered, received, fits⟩
  exact handle_paged paged received fits answered

end Handled

/-! ### The pool in every run -/

/-- What the page pool looks like: `refs` are its pages. -/
structure PoolKept (storage : Storage) (table : Table) (refs : List PageRef) : Prop where
  listed : table.links.Represents refs
  sorted : refs.Pairwise fun first second => (table.body first).index < (table.body second).index
  last : refs.getLast? = some table.lastPage
  largest : ∀ ref ∈ refs, (table.body ref).index ≤ table.lastIndex
  counted : refs.length = table.pLocks
  limited : refs.length ≤ table.layout.lockPages
  full : ∀ ref ∈ refs, ref ≠ table.lastPage → (table.body ref).lastRow = table.layout.pageRows
  counter : table.index =
    table.lastIndex * table.layout.pageRows + (table.body table.lastPage).lastRow
  locked : ∀ nPageID ≤ table.lastIndex, ∃ locked rPage,
    storage.lockTablePage table nPageID = .ok (locked, some rPage) ∧ rPage ∈ locked.refs ∧
      (locked.body rPage).index = nPageID ∧ locked.lastPage = table.lastPage ∧
      table.lastPage ∈ locked.refs ∧ locked.body table.lastPage = table.body table.lastPage

theorem Paged.kept (storage : Storage) {table : Table} (paged : Paged table) :
    PoolKept storage table table.refs := by
  have shape : PoolShape table table.refs := paged.shape
  refine ⟨shape.listed, shape.sorted, shape.last_eq, fun ref => shape.index_le_last,
    shape.counted.symm, shape.limited, shape.full, paged.counter, fun nPageID inside => ?_⟩
  rcases storage.lockTablePage_spec paged.shape nPageID with
    ⟨beyond, _⟩ | ⟨_, locked, rPage, found, lock⟩
  · exact absurd inside (Nat.not_le.mpr beyond)
  · have after : PoolShape locked locked.refs := lock.shape
    have stays : table.lastPage ∈ locked.refs := by
      rw [← lock.same.lastPage]
      exact after.last_mem
    exact ⟨locked, rPage, found, lock.member, lock.index, lock.same.lastPage, stays, lock.last⟩

/-- The page pool keeps its shape, whatever the files do. -/
theorem pool_kept {storage : Storage} {start final : Server} {exchanges : List Exchange}
    (begun : Begun storage start) (run : Run (CountedStep storage) start exchanges final) :
    PoolKept storage final.table final.table.refs := (run_paged begun run).kept storage

/-! ### Long runs -/

/-- A disk that keeps what is written to it. -/
def plainStorage : Storage where
  offT := .int64
  write file offset page count := if offset < 0 then file else file.pwrite offset.toNat page count
  read file offset buffer count :=
    if offset < 0 then (buffer, file) else (file.pread offset.toNat buffer count, file)
  head _ index := UInt32.ofNat index

/-- The table of pairs on that disk. -/
def plainServer : Server where
  table := plainStorage.createTable pairs blankHeap
  ocbs := Function.update (fun _ => Ocb.calloc) 0 { Ocb.calloc with selected := true }

/-- The row of a client; its key is the server's to set. -/
def somePair : Row := bytesOf 4 0 ++ bytesOf 4 5

theorem somePair_whole : plainServer.table.layout.rowLen ≤ somePair.length := Nat.le_refl 8

theorem plainServer_begun : Begun plainStorage plainServer := ⟨pairs, blankHeap, rfl, rfl⟩

section Long

variable (storage : Storage) {server : Server} {conn : ConnId} {nbytes : Nat} {data : List UInt8}

/-- A row that arrives is counted, whatever the pool is like. -/
theorem insert_moves (selected : (server.ocbs conn).selected = true)
    (room : server.table.layout.rowLen ≤ nbytes)
    (whole : server.table.layout.rowLen ≤ data.length) :
    ∃ next, storage.paging.handle server conn (.insert nbytes data) =
        .ok (next, .written server.table.layout.rowLen) ∧
      next.table.layout = server.table.layout ∧
      next.table.index = (server.table.index + 1) % 2 ^ 32 ∧
      0 < (next.table.body next.table.lastPage).lastRow ∧ (next.ocbs conn).selected = true ∧
      (next.ocbs conn).filters = (server.ocbs conn).filters := by
  obtain ⟨ready, layout, index, written⟩ : ∃ ready : Table,
      ready.layout = server.table.layout ∧ ready.index = server.table.index ∧
      storage.paging.qbaseWrite server.table (server.ocbs conn) nbytes data =
        .ok (receiveRow (countRow ready) (server.ocbs conn) data) := by
    unfold Paging.qbaseWrite
    rw [if_neg (by simp [selected]), if_neg (Nat.not_lt.mpr room)]
    split
    · refine ⟨storage.rotate server.table, ?_, ?_, rfl⟩
      · obtain ⟨file, page, -, -, -, synced⟩ :=
          storage.syncPage_spec server.table server.table.lastPage
        unfold Storage.rotate
        rw [synced]
        rfl
      · obtain ⟨file, page, -, -, -, synced⟩ :=
          storage.syncPage_spec server.table server.table.lastPage
        unfold Storage.rotate
        rw [synced]
        rfl
    · exact ⟨server.table, rfl, rfl, rfl⟩
  have taken : ¬ (data.take (countRow ready).layout.rowLen).length ≠
      (countRow ready).layout.rowLen := by
    have same : (countRow ready).layout.rowLen = server.table.layout.rowLen :=
      congrArg (fun layout => layout.rowLen) layout
    rw [List.length_take, same]
    omega
  unfold receiveRow at written
  dsimp only at written
  rw [if_neg taken] at written
  have counted : (countRow ready).index = (server.table.index + 1) % 2 ^ 32 := by
    rw [← index]
    rfl
  have rowLen : (countRow ready).layout.rowLen = server.table.layout.rowLen :=
    congrArg (fun layout => layout.rowLen) layout
  refine ⟨_, (map_eq_ok.mpr ⟨_, written, rfl⟩).trans (by rw [rowLen]), layout, counted, ?_, ?_, ?_⟩
  · rw [setLast_last]
    exact Nat.succ_pos _
  · show (Function.update server.ocbs conn _ conn).selected = true
    rw [Function.update_self]
    exact selected
  · show (Function.update server.ocbs conn _ conn).filters = _
    rw [Function.update_self]

/-- A client may insert as often as it likes. -/
theorem inserts_run (selected : (server.ocbs conn).selected = true)
    (room : server.table.layout.rowLen ≤ nbytes)
    (whole : server.table.layout.rowLen ≤ data.length)
    (behind : 0 < (server.table.body server.table.lastPage).lastRow)
    (bounded : server.table.index < 2 ^ 32) (count : Nat) :
    ∃ exchanges final,
      Run (Under (StorageStep storage) fun server exchange =>
        Received server exchange.1.1 exchange.1.2) server exchanges final ∧
      final.table.index = (server.table.index + count) % 2 ^ 32 ∧
      0 < (final.table.body final.table.lastPage).lastRow := by
  induction count generalizing server with
  | zero => exact ⟨[], server, .nil, (Nat.mod_eq_of_lt bounded).symm, behind⟩
  | succ count ih =>
    obtain ⟨next, answered, layout, index, lastRow, selected', -⟩ :=
      insert_moves storage selected room whole
    obtain ⟨exchanges, final, run, counted, ending⟩ := ih selected' (by rw [layout]; exact room)
      (by rw [layout]; exact whole) lastRow (by omega)
    have first : Under (StorageStep storage) (fun server exchange =>
        Received server exchange.1.1 exchange.1.2) server
        ((conn, .insert nbytes data), .written server.table.layout.rowLen) next :=
      ⟨answered, fun _ _ => whole⟩
    refine ⟨_, final, .cons first run, ?_, ending⟩
    rw [counted, index]
    omega

end Long

/-- Pairs are inserted, and the pages of three of them come back into the pool. -/
theorem pool_kept_pair :
    ∃ final : Server, final.table.index = 4 ∧
      final.table.refs.map (fun ref => (final.table.body ref).index) = [1, 2, 3] ∧
      PoolKept plainStorage final.table final.table.refs := by
  obtain ⟨final, run, seen⟩ := replay_run
    (guarded (fun (server : Server) (input : ConnId × Request) =>
        plainStorage.paging.handle server input.1 input.2)
      fun server input => Received server input.1 input.2 ∧ CounterFits server input.2)
    plainServer (fromFirst flushed) flushedReplies
    (fun server => (server.table.index,
      server.table.refs.map fun ref => (server.table.body ref).index)) (4, [1, 2, 3])
    (by decide +kernel)
  have counted : Run (CountedStep plainStorage) plainServer _ final := run_guarded run
  obtain ⟨index, pages⟩ := Prod.mk.inj seen
  exact ⟨final, index, pages, pool_kept plainServer_begun counted⟩

/-- The counter comes round to 0, where the pages do not follow it. -/
theorem round_counter_unkept :
    ∃ storage start final exchanges, Begun storage start ∧
      Run (Under (StorageStep storage) fun server exchange =>
        Received server exchange.1.1 exchange.1.2) start exchanges final ∧
      ∀ refs, ¬ PoolKept storage final.table refs := by
  have selected : (plainServer.ocbs 0).selected = true := rfl
  obtain ⟨next, answered, layout, index, lastRow, selected', -⟩ :=
    insert_moves plainStorage selected (Nat.le_refl 8) somePair_whole
  have counted : next.table.index = 1 := index
  have rowLen : next.table.layout.rowLen = 8 := by
    rw [layout]
    rfl
  have whole : next.table.layout.rowLen ≤ somePair.length := by
    rw [rowLen]
    exact Nat.le_refl 8
  have first : Under (StorageStep plainStorage) (fun server exchange =>
      Received server exchange.1.1 exchange.1.2) plainServer
      ((0, .insert 8 somePair), .written 8) next := ⟨answered, fun _ _ => somePair_whole⟩
  obtain ⟨exchanges, final, run, round, ending⟩ :=
    inserts_run plainStorage selected' (Nat.le_of_eq rowLen) whole lastRow (by omega) (2 ^ 32 - 1)
  refine ⟨plainStorage, plainServer, final, _, plainServer_begun, .cons first run, fun refs kept => ?_⟩
  have zero : final.table.index = 0 := by
    rw [round, counted]
    rfl
  have counter := kept.counter
  omega

/-- The pairs of a client that asks for a table with the counter 5. -/
def countedPairs : Layout where
  toTableDesc := { newTbldesc 1 1 3 "pairs" with index := 5 }
  sound := by refine ⟨?_, ?_, ?_, ?_, ?_, ?_⟩ <;> decide

/-- The first page of such a table is empty. -/
theorem given_counter_unkept (storage : Storage) :
    ∀ refs, ¬ PoolKept storage (storage.createTable countedPairs blankHeap) refs := by
  intro refs kept
  have counter : 5 = 0 * 1 + 0 := kept.counter
  omega

/-- The counter runs away from the pages when it comes round, and when the client sends another one
than 0 with the table. -/
theorem counter_comes_round :
    (∃ storage start final exchanges, Begun storage start ∧
      Run (Under (StorageStep storage) fun server exchange =>
        Received server exchange.1.1 exchange.1.2) start exchanges final ∧
      ∀ refs, ¬ PoolKept storage final.table refs) ∧
    ∃ layout, ClientBuilt { layout.toTableDesc with index := 0 } ∧
      ∀ storage refs, ¬ PoolKept storage (Storage.createTable storage layout blankHeap) refs :=
  ⟨round_counter_unkept, countedPairs, .new 1 1 3 "pairs", given_counter_unkept⟩

end QNXStuff.QXBase
