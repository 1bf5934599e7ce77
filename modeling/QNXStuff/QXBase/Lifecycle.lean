import QNXStuff.QXBase.Writes

/-! A table that is created, and one that is released and loaded again. -/

namespace QNXStuff.QXBase

open Memory LinkedList

/-- A table with one page in the pool, which agrees with the file. -/
theorem single_inv {table : Table} {ref : PageRef} {data : Block} {index lastRow : Nat}
    (pages : table.pages = some ref) (lastPage : table.lastPage = ref)
    (here : table.heap ref = diskPage data table.layout.pageSize index lastRow)
    (live : ref < table.fresh) (pLocks : table.pLocks = 1)
    (lastRow_le : lastRow ≤ table.layout.pageRows)
    (onDisk : index * table.layout.pageSize ≤ table.dFile.size)
    (bounded : table.dFile.size < 2 ^ 31)
    (clean : ∀ position < lastRow * table.layout.rowLen,
      index * table.layout.pageSize + position < table.dFile.size ∧
      data position = table.dFile.byte (index * table.layout.pageSize + position)) :
    PoolInv table [ref] := by
  have body : table.body ref =
      (diskPage data table.layout.pageSize index lastRow).toPageBody :=
    congrArg Page.toPageBody here
  have shape : PoolShape table [ref] := .single pages lastPage (congrArg Page.next here)
    (congrArg Page.prev here) live pLocks (body.symm ▸ lastRow_le)
  refine
    { listed := shape.listed
      live := shape.live
      sorted := shape.sorted
      counted := shape.counted
      limited := shape.limited
      sized := fun other member => ?_
      full := shape.full
      lastRow_le := shape.lastRow_le
      onDisk := ?_
      bounded := bounded
      clean := fun other member _ position inside => ?_ }
  · rw [List.mem_singleton.mp member, body]
    rfl
  · rw [Table.lastIndex, lastPage, body]
    exact onDisk
  · rw [List.mem_singleton.mp member, body] at inside ⊢
    exact clean position inside

/-- A created table has a sound pool, no rows and nothing to write back. -/
structure Created (source : Layout) (table : Table) : Prop where
  inv : PoolInv table [0]
  layout : table.layout = source
  index : table.index = source.index
  lastIndex : table.lastIndex = 0
  stored : table.stored = 0
  clean : (table.body 0).needSync = false

theorem createTable_spec {layout : Layout} {heap : PageRef → Page} {table : Table}
    (created : createTable layout heap = .ok table) : Created layout table := by
  have size : layout.rowLen * layout.pageRows % 2 ^ 32 = layout.pageSize :=
    Nat.mod_eq_of_lt layout.sound.pageSize_lt
  unfold createTable seekWrite at created
  simp only [size, Nat.zero_add] at created
  by_cases fits : layout.pageSize < 2 ^ 31
  · rw [if_pos fits] at created
    have fields : table.layout = layout ∧ table.index = layout.index ∧
        table.heap 0 = diskPage (heap 0).data layout.pageSize 0 0 ∧ table.fresh = 1 ∧
        table.pages = some 0 ∧ table.lastPage = 0 ∧ table.pLocks = 1 ∧
        table.dFile.size = layout.pageSize := by
      cases created
      exact ⟨rfl, rfl, by simp, rfl, rfl, rfl, rfl,
        by simp [File.pwrite]⟩
    obtain ⟨layout_eq, index, here, fresh, pages, lastPage, pLocks, length⟩ := fields
    have body : table.body 0 = (diskPage (heap 0).data layout.pageSize 0 0).toPageBody :=
      congrArg Page.toPageBody here
    have lastIndex : table.lastIndex = 0 := by
      rw [Table.lastIndex, lastPage, body]
      rfl
    refine ⟨single_inv pages lastPage (layout_eq ▸ here) ?_ pLocks
      (Nat.zero_le _) ?_ ?_ ?_, layout_eq, index, lastIndex, ?_, ?_⟩
    · rw [fresh]
      exact Nat.one_pos
    · rw [Nat.zero_mul]
      exact Nat.zero_le _
    · rwa [length]
    · intro position inside
      rw [Nat.zero_mul] at inside
      exact absurd inside (Nat.not_lt_zero _)
    · rw [Table.stored, lastIndex, lastPage, body, Nat.zero_mul]
      rfl
    · rw [body]
      rfl
  · rw [if_neg fits] at created
    cases created

/-! ### Loading -/

/-- A row of a table without unwritten changes is what the file has. -/
theorem clean_row {table : Table} (ok : table.Ok) (clean : table.AllClean) {index row : Nat}
    (inPage : row < table.layout.pageRows)
    (inside : index * table.layout.pageRows + row < table.stored) {position : Nat}
    (inRow : position < table.layout.rowLen) :
    index * table.layout.pageSize + (row * table.layout.rowLen + position) < table.dFile.size ∧
      table.pageBytes index (row * table.layout.rowLen + position) =
        table.dFile.byte
          (index * table.layout.pageSize + (row * table.layout.rowLen + position)) := by
  have inv : PoolInv table table.refs := ok
  obtain ⟨within, below⟩ := ok.page_of inPage inside
  by_cases present : ∃ ref ∈ table.refs, (table.body ref).index = index
  · obtain ⟨ref, member, rfl⟩ := present
    rw [← inv.lastRow_eq member] at below
    have step := table.layout.row_in_page below
    obtain ⟨known, same⟩ := inv.clean ref member (clean ref member)
      (row * table.layout.rowLen + position) (by omega)
    rw [inv.pageBytes_cached member]
    exact ⟨known, same⟩
  · have absent : ∀ ref ∈ table.refs, (table.body ref).index ≠ index := fun ref member same =>
      present ⟨ref, member, same⟩
    have less : index < table.lastIndex :=
      Nat.lt_of_le_of_ne within (absent _ inv.last_mem).symm
    have onDisk := Table.page_on_disk less
    have known := inv.onDisk
    have inBlock := table.layout.position_in_page inPage inRow
    exact ⟨by omega, inv.pageBytes_uncached absent _⟩

/-- A loaded table has the rows of the table that was written back. -/
structure Reloaded (table loaded : Table) : Prop where
  ok : loaded.Ok
  layout : loaded.layout = table.layout
  index : loaded.index = table.index
  stored : loaded.stored = table.stored
  rows : loaded.rows = table.rows
  clean : loaded.AllClean

theorem loadTable_spec {table : Table} (ok : table.Ok) (clean : table.AllClean)
    (counted : table.hFile = table.stored) (index : table.index = table.hFile) :
    ∃ loaded, loadTable table = .ok loaded ∧ Reloaded table loaded := by
  have inv : PoolInv table table.refs := ok
  have positive := table.layout.sound.pageRows_pos
  have size : table.layout.rowLen * table.layout.pageRows % 2 ^ 32 = table.layout.pageSize :=
    Nat.mod_eq_of_lt table.layout.sound.pageSize_lt
  obtain ⟨lastIndex, lastRow, inPage, split⟩ := table.position_split table.stored
  have division : table.stored / table.layout.pageRows = lastIndex := by
    rw [split, Nat.mul_comm lastIndex, Nat.mul_add_div positive, Nat.div_eq_of_lt inPage,
      Nat.add_zero]
  have remainder : table.stored % table.layout.pageRows = lastRow := by
    rw [split, Nat.mul_comm lastIndex, Nat.mul_add_mod, Nat.mod_eq_of_lt inPage]
  have rowEnd : ∀ {index row}, row < table.layout.pageRows →
      index * table.layout.pageRows + row < table.stored →
      index * table.layout.pageSize + (row + 1) * table.layout.rowLen ≤ table.dFile.size := by
    intro index row inPage inside
    have rowLen := table.layout.rowLen_pos
    have known := (clean_row ok clean inPage inside
      (show table.layout.rowLen - 1 < _ by omega)).1
    rw [Nat.succ_mul]
    omega
  -- the page in front of the loaded one is full, so it ends inside the file
  have onDisk : lastIndex * table.layout.pageSize ≤ table.dFile.size := by
    cases lastIndex with
    | zero => simp
    | succ index =>
      have front := @rowEnd index (table.layout.pageRows - 1) (by omega) (by
        rw [split, Nat.succ_mul]
        omega)
      rw [Nat.sub_add_cancel positive, Nat.mul_comm table.layout.pageRows] at front
      rw [Nat.succ_mul]
      exact front
  have position : lastIndex * table.layout.pageSize % 2 ^ 32 =
      lastIndex * table.layout.pageSize := by
    have bounded := inv.bounded
    exact Nat.mod_eq_of_lt (by omega)
  unfold loadTable seekRead
  simp only [size, counted, division, remainder, position,
    if_pos (Nat.lt_of_le_of_lt onDisk inv.bounded)]
  refine ⟨_, rfl, ?_⟩
  generalize arrived : table.dFile.pread (lastIndex * table.layout.pageSize)
    (table.body table.fresh).data table.layout.pageSize = data
  have body : (table.withPage (diskPage data table.layout.pageSize lastIndex lastRow)).body
      table.fresh = (diskPage data table.layout.pageSize lastIndex lastRow).toPageBody :=
    congrArg Page.toPageBody (Function.update_self ..)
  have loadedInv : PoolInv (table.withPage
      (diskPage data table.layout.pageSize lastIndex lastRow)) [table.fresh] := by
    refine single_inv rfl rfl (Function.update_self ..) (Nat.lt_succ_self _) rfl
      (Nat.le_of_lt inPage) onDisk inv.bounded fun position inside => ?_
    have row_lt : position / table.layout.rowLen < lastRow :=
      Nat.div_lt_of_lt_mul (by rwa [Nat.mul_comm])
    have inRow := Nat.mod_lt position table.layout.rowLen_pos
    have known := (@clean_row table ok clean lastIndex _ (Nat.lt_trans row_lt inPage)
      (by omega) _ inRow).1
    rw [Nat.div_add_mod'] at known
    have inBlock : position < table.layout.pageSize :=
      Nat.lt_of_lt_of_le inside (table.layout.rows_le_pageSize (Nat.le_of_lt inPage))
    rw [← arrived]
    exact ⟨known, File.pread_inside inBlock known⟩
  have stored : (table.withPage (diskPage data table.layout.pageSize lastIndex lastRow)).stored =
      table.stored := by
    rw [split]
    unfold Table.stored Table.lastIndex
    rw [show (table.withPage (diskPage data table.layout.pageSize lastIndex lastRow)).lastPage =
      table.fresh from rfl, body]
    rfl
  have loadedClean : (table.withPage
      (diskPage data table.layout.pageSize lastIndex lastRow)).AllClean := by
    intro ref member
    rw [loadedInv.refs_eq] at member
    rw [List.mem_singleton.mp member, body]
    rfl
  refine ⟨loadedInv.ok, rfl, index.symm, stored, ?_, loadedClean⟩
  unfold Table.rows
  rw [stored]
  refine List.map_congr_left fun position member => ?_
  obtain ⟨index', row, inPage', rfl⟩ := table.position_split position
  have inside : index' * table.layout.pageRows + row < table.stored := by
    simpa [List.mem_range'_1] using member
  have left := @Table.row_of_page (table.withPage
    (diskPage data table.layout.pageSize lastIndex lastRow)) index' _ inPage'
  refine left.trans (Eq.trans ?_ (Table.row_of_page inPage').symm)
  refine readBytes_congr fun position inRow => ?_
  rw [(clean_row ok clean inPage' inside inRow).2]
  exact (clean_row loadedInv.ok loadedClean inPage' (by rwa [stored]) inRow).2

theorem Flushed.allClean {table flushed : Table} {refs : List PageRef}
    (flush : Flushed table refs refs flushed) : flushed.AllClean := by
  intro ref member
  rw [flush.inv.refs_eq] at member
  exact flush.clean ref member (.inl member)

/-- Releasing and loading a table whose counter counts its rows changes nothing. -/
theorem reload_spec {table : Table} (ok : table.Ok) (counted : table.index = table.stored) :
    (tableSync table = .error .io ∧ reload table = .error .io) ∨
      ∃ loaded, reload table = .ok loaded ∧ Reloaded table loaded := by
  unfold reload
  rcases tableSync_spec ok with failed | ⟨flushed, done, flush⟩
  · rw [failed]
    exact .inl ⟨rfl, rfl⟩
  · have stored : flushed.stored = table.stored := flush.kept.stored
    have hFile : flushed.hFile = table.index := flush.kept.hFile
    have index : flushed.index = table.index := flush.kept.index
    obtain ⟨loaded, opened, fresh⟩ := loadTable_spec flush.inv.ok flush.allClean
      (by rw [hFile, stored, counted]) (by rw [hFile, index])
    rw [done]
    exact .inr ⟨loaded, opened,
      { ok := fresh.ok
        layout := fresh.layout.trans flush.kept.layout
        index := fresh.index.trans index
        stored := fresh.stored.trans stored
        rows := fresh.rows.trans flush.rows
        clean := fresh.clean }⟩

end QNXStuff.QXBase
