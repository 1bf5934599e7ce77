import QNXStuff.QXBase.Keys

/-! Closing a table and loading it again: the rows, the counter and what the next
request to insert does stay as they were. -/

namespace QNXStuff.QXBase

open Memory Execution LinkedList

section Insert

variable {table : Table}

/-- Inserting asks no more of the file than closing does. -/
theorem qbaseWrite_writable (ok : table.Ok) (last : Writable table table.lastPage) (ocb : Ocb)
    (nbytes : Nat) (data : List UInt8) : qbaseWrite table ocb nbytes data ≠ .error .io := by
  unfold qbaseWrite
  split
  · nofun
  split
  · nofun
  split
  · have moved := rotate_writable ok last
    cases turned : rotate table with
    | error fault =>
      rw [turned] at moved
      intro same
      cases same
      exact moved rfl
    | ok rotated => nofun
  · nofun

theorem Flat.handle_insert {flat inserted : Flat} {conn : ConnId} {ocb : Ocb} {count : Nat}
    {nbytes : Nat} {data : List UInt8}
    (done : flat.insert (flat.ocbs conn) nbytes data = (inserted, ocb, count)) :
    flat.handle conn (.insert nbytes data) =
      .ok ({ inserted with ocbs := Function.update inserted.ocbs conn ocb }, .written count) := by
  unfold Flat.handle
  simp only [done]

/-- Inserting into a table of counted rows is inserting into the array of its rows. -/
theorem qbaseWrite_flat (ok : table.Ok) (counted : table.index = table.stored)
    (last : Writable table table.lastPage) (ocb : Ocb) (nbytes : Nat) (data : List UInt8) :
    ∃ written, qbaseWrite table ocb nbytes data = .ok (written,
        ((Server.mk table fun _ => ocb).flat.insert ocb nbytes data).2) ∧
      written.rows = ((Server.mk table fun _ => ocb).flat.insert ocb nbytes data).1.rows ∧
      written.index = ((Server.mk table fun _ => ocb).flat.insert ocb nbytes data).1.index := by
  have whole : (Server.mk table fun _ => ocb).Ok := ⟨ok, Nat.le_of_eq counted.symm⟩
  have small : (Server.mk table fun _ => ocb).Safe 0 (.insert nbytes data) := by
    show table.index + 1 < 2 ^ 32
    rw [counted]
    exact stored_lt ok
  obtain ⟨flat, ocb', count, inserted⟩ : ∃ flat ocb' count,
      (Server.mk table fun _ => ocb).flat.insert ocb nbytes data = (flat, ocb', count) :=
    ⟨_, _, _, rfl⟩
  have handled : (Server.mk table fun _ => ocb).flat.handle 0 (.insert nbytes data) =
      .ok ({ flat with ocbs := Function.update flat.ocbs 0 ocb' }, .written count) :=
    Flat.handle_insert inserted
  have alike := insert_alike whole nbytes data small
  rw [handled] at alike
  rw [inserted]
  cases done : qbaseWrite table ocb nbytes data with
  | error fault =>
    have answered : (Server.mk table fun _ => ocb).handle 0 (.insert nbytes data) =
        .error fault := congrArg (Except.map _) done
    rw [answered] at alike
    rcases alike with failed | ⟨_, same, _⟩
    · cases failed
      exact absurd done (qbaseWrite_writable ok last ocb nbytes data)
    · cases same
  | ok result =>
    have answered : (Server.mk table fun _ => ocb).handle 0 (.insert nbytes data) =
        .ok (⟨result.1, Function.update (fun _ => ocb) 0 result.2.1⟩, .written result.2.2) :=
      congrArg (Except.map _) done
    rw [answered] at alike
    rcases alike with failed | ⟨server, same, _, abstract⟩
    · cases failed
    · cases same
      have ocbs : Function.update (fun _ => ocb) 0 result.2.1 = Function.update flat.ocbs 0 ocb' :=
        congrArg Flat.ocbs abstract
      have ocb_eq : result.2.1 = ocb' := by simpa using congrFun ocbs 0
      exact ⟨result.1, by rw [← ocb_eq], congrArg Flat.rows abstract,
        congrArg Flat.index abstract⟩

end Insert

/-- A table that was closed and loaded again: the same rows under the same counter, which
counts them, and every request to insert does to it what it does to the table that stayed. -/
structure Reopened (storage : Storage) (table loaded : Table) : Prop where
  layout : loaded.layout = table.layout
  index : loaded.index = table.index
  rows : loaded.rows = table.rows
  counted : table.rows.length = table.index
  inserts : ∀ ocb nbytes data, ∃ kept fresh answer,
    storage.paging.qbaseWrite table ocb nbytes data = .ok (kept, answer) ∧
    storage.paging.qbaseWrite loaded ocb nbytes data = .ok (fresh, answer) ∧
    fresh.rows = kept.rows ∧ fresh.index = kept.index ∧
    (ocb.selected = true → table.layout.rowLen ≤ nbytes → table.layout.rowLen ≤ data.length →
      kept.rows = table.rows ++
        [withKey (data.take table.layout.rowLen) (table.index + 1)])

theorem Reloaded.reopened {storage : Storage} (documented : storage.Documented)
    {table loaded : Table} (ok : table.Ok) (counted : table.index = table.stored)
    (last : Writable table table.lastPage) (fresh : Reloaded table loaded) :
    Reopened storage table loaded where
  layout := fresh.layout
  index := fresh.index
  rows := fresh.rows
  counted := by rw [Table.rows_length, counted]
  inserts ocb nbytes data := by
    have loadedLast : Writable loaded loaded.lastPage := by
      intro dirty
      have inv : PoolInv loaded loaded.refs := fresh.ok
      rw [fresh.clean loaded.lastPage inv.last_mem] at dirty
      cases dirty
    have flat : (Server.mk loaded fun _ => ocb).flat = (Server.mk table fun _ => ocb).flat := by
      simp only [Server.flat, fresh.layout, fresh.index, fresh.rows]
    obtain ⟨kept, done, rows, index⟩ := qbaseWrite_flat ok counted last ocb nbytes data
    obtain ⟨written, done', rows', index'⟩ := qbaseWrite_flat fresh.ok
      (by rw [fresh.index, fresh.stored, counted]) loadedLast ocb nbytes data
    have bound := stored_lt ok
    have small : table.index < 2 ^ 32 := by omega
    rw [← documented.qbaseWrite last small ok] at done
    rw [← documented.qbaseWrite loadedLast (by rwa [fresh.index]) fresh.ok, flat] at done'
    rw [flat] at rows' index'
    refine ⟨kept, written, _, done, done', rows'.trans rows.symm, index'.trans index.symm, ?_⟩
    intro selected room whole
    have next : (table.index + 1) % 2 ^ 32 = table.index + 1 := by
      rw [counted]
      exact Nat.mod_eq_of_lt bound
    have arrived : ¬ (data.take table.layout.rowLen).length ≠ table.layout.rowLen := by
      rw [List.length_take]
      omega
    rw [rows]
    unfold Flat.insert flatWrite
    simp only [Server.flat, selected, Nat.not_lt.mpr room, arrived, next, Bool.true_eq_false,
      ↓reduceIte]

/-- Rows of 64 bytes, 1024 on a page. -/
def wide : Layout where
  toTableDesc := newTbldesc 15 1024 3 "wide"
  sound := by refine ⟨?_, ?_, ?_, ?_, ?_, ?_⟩ <;> decide

/-- A client has it selected as it is created. -/
def wideServer : Server where
  table := smallDisk.createTable wide blankHeap
  ocbs := Function.update (fun _ => Ocb.calloc) 0 { Ocb.calloc with selected := true }

theorem wideServer_begun : Begun smallDisk wideServer := ⟨wide, blankHeap, rfl, rfl⟩

def wideRow : Row := List.replicate 64 0

/-- So many rows are inserted and nothing else was done: the pool has one page, and the file begins
with the first row. -/
structure Filled (count : Nat) (table : Table) : Prop where
  layout : table.layout = wide
  index : table.index = count
  pages : table.pages = some 0
  lastPage : table.lastPage = 0
  fresh : table.fresh = 1
  next : table.next 0 = none
  size : (table.body 0).size = 65536
  counted : (table.body 0).index * 1024 + (table.body 0).lastRow = count
  lastRow_le : (table.body 0).lastRow ≤ 1024
  dirty : 0 < (table.body 0).lastRow → (table.body 0).needSync = true
  newest : 0 < (table.body 0).lastRow →
    keyOf ((table.body 0).row 64 ((table.body 0).lastRow - 1)) = count
  first : (table.body 0).index = 0 → 0 < (table.body 0).lastRow →
    keyOf ((table.body 0).row 64 0) = 1
  room : 65536 ≤ table.dFile.size
  written : 0 < (table.body 0).index → keyOf (readBytes table.dFile.byte 0 64) = 1

section Filled

variable {count : Nat} {table : Table}

theorem filled_start : Filled 0 wideServer.table where
  layout := rfl
  index := rfl
  pages := rfl
  lastPage := rfl
  fresh := rfl
  next := rfl
  size := rfl
  counted := rfl
  lastRow_le := Nat.zero_le _
  dirty := nofun
  newest := nofun
  first := nofun
  room := by decide
  written := nofun

/-- What a file begins with when a page is written to it. -/
theorem first_row_written {file : File} {data : Block} {index size : Nat} (whole : 64 ≤ size)
    (room : 65536 ≤ file.size) :
    readBytes (file.pwrite (65536 * index) data size).byte 0 64 =
      if index = 0 then readBytes data 0 64 else readBytes file.byte 0 64 := by
  by_cases zero : index = 0
  · rw [if_pos zero, zero, Nat.mul_zero]
    refine readBytes_congr fun position inside => ?_
    have here := @File.pwrite_inside file 0 size position data (by omega)
    rwa [Nat.zero_add] at here ⊢
  · rw [if_neg zero]
    exact readBytes_congr fun position inside => File.pwrite_outside (by omega) (.inl (by omega))

/-- The data file with the only page of the pool written to it. -/
def pageWritten (table : Table) : File :=
  table.dFile.pwrite (65536 * (table.body 0).index) (table.body 0).data
    (min 65536 (2 ^ 31 - 1 - 65536 * (table.body 0).index))

theorem Filled.syncs (filled : Filled count table) (full : (table.body 0).lastRow = 1024)
    (fewer : count ≤ 33554432) :
    smallDisk.syncPage table 0 =
      (table.setBody 0 { table.body 0 with needSync := false }).setFile (pageWritten table) := by
  have total := filled.counted
  have offset : syncOffset 65536 (table.body 0).index =
      ((65536 * (table.body 0).index : Nat) : Int) := by
    unfold syncOffset
    rw [Nat.mod_eq_of_lt (by omega), signed_low (by omega)]
  have dirty := filled.dirty (by omega)
  unfold Storage.syncPage
  simp only [dirty, ↓reduceIte]
  rw [filled.size, offset, smallDisk_write, pageWritten]

/-- A full page is written, and is the next one of the table from there on. -/
theorem Filled.turns (filled : Filled count table) (full : (table.body 0).lastRow = 1024)
    (fewer : count ≤ 33554432) :
    smallDisk.rotate table =
      (smallDisk.headSync ((table.setBody 0 { table.body 0 with needSync := false }).setFile
        (pageWritten table))).setBody 0 { table.body 0 with
          needSync := false, index := (table.body 0).index + 1, lastRow := 0 } := by
  have total := filled.counted
  have last : (smallDisk.headSync ((table.setBody 0 { table.body 0 with needSync := false }).setFile
      (pageWritten table))).lastPage = 0 := filled.lastPage
  have body : (smallDisk.headSync ((table.setBody 0
      { table.body 0 with needSync := false }).setFile (pageWritten table))).body 0 =
        { table.body 0 with needSync := false } := by
    show ((table.setBody 0 { table.body 0 with needSync := false }).setFile
      (pageWritten table)).body 0 = _
    rw [Table.setFile_body, Table.setBody_body, Function.update_self]
  unfold Storage.rotate
  rw [filled.lastPage, filled.syncs full fewer]
  dsimp only
  rw [last, body, Nat.mod_eq_of_lt (show (table.body 0).index + 1 < 2 ^ 32 by omega)]

/-- The first row of the file is the first row of the table. -/
theorem Filled.keeps_first (filled : Filled count table) (full : (table.body 0).lastRow = 1024)
    (fewer : count ≤ 33554432) : keyOf (readBytes (pageWritten table).byte 0 64) = 1 := by
  have total := filled.counted
  rw [pageWritten, first_row_written (by omega) filled.room]
  by_cases zero : (table.body 0).index = 0
  · rw [if_pos zero]
    exact filled.first zero (by omega)
  · rw [if_neg zero]
    exact filled.written (Nat.pos_of_ne_zero zero)

/-- The first page is written at the beginning of the file, and the others behind it. -/
theorem Filled.rotate (filled : Filled count table) (full : (table.body 0).lastRow = 1024)
    (fewer : count ≤ 33554432) :
    Filled count (smallDisk.rotate table) ∧ ((smallDisk.rotate table).body 0).lastRow = 0 := by
  have turned := filled.turns full fewer
  have following : ((table.body 0).index + 1) * 1024 + 0 = count := by
    have total := filled.counted
    rw [full] at total
    rw [Nat.succ_mul, Nat.add_zero, total]
  have page : (smallDisk.rotate table).body 0 = { table.body 0 with
      needSync := false, index := (table.body 0).index + 1, lastRow := 0 } := by
    rw [turned, Table.setBody_body, Function.update_self]
  have dFile : (smallDisk.rotate table).dFile = pageWritten table := by
    rw [turned]
    rfl
  have size : 65536 ≤ (pageWritten table).size :=
    Nat.le_trans filled.room (Nat.le_max_left ..)
  refine ⟨?_, by rw [page]⟩
  constructor
  · rw [turned]
    exact filled.layout
  · rw [turned]
    exact filled.index
  · rw [turned]
    exact filled.pages
  · rw [turned]
    exact filled.lastPage
  · rw [turned]
    exact filled.fresh
  · rw [turned, Table.setBody_next]
    show ((table.setBody 0 { table.body 0 with needSync := false }).setFile
      (pageWritten table)).next 0 = none
    rw [Table.setFile_next, Table.setBody_next]
    exact filled.next
  · rw [page]
    exact filled.size
  · rw [page]
    exact following
  · rw [page]
    exact Nat.zero_le 1024
  · rw [page]
    nofun
  · rw [page]
    nofun
  · rw [page]
    nofun
  · rw [dFile]
    exact size
  · intro _
    rw [dFile]
    exact filled.keeps_first full fewer

/-- A row that arrives is the newest one. -/
theorem Filled.receive (filled : Filled count table) (room : (table.body 0).lastRow < 1024)
    (fewer : count ≤ 33554432) (ocb : Ocb) :
    ∃ next answer, receiveRow (countRow table) ocb wideRow = (next, answer, 64) ∧
      answer.selected = ocb.selected ∧ Filled (count + 1) next := by
  have counter : (countRow table).index = count + 1 := by
    show (table.index + 1) % 2 ^ 32 = count + 1
    rw [filled.index, Nat.mod_eq_of_lt (by omega)]
  have rowLen : (countRow table).layout.rowLen = 64 := by
    show table.layout.rowLen = 64
    rw [filled.layout]
    rfl
  obtain ⟨row, keyed⟩ : ∃ row, row = withKey (wideRow.take 64) (count + 1) := ⟨_, rfl⟩
  have length : row.length = 64 := by
    rw [keyed]
    rfl
  have key : keyOf row = count + 1 := by
    rw [keyed]
    exact keyOf_withKey (by omega)
  obtain ⟨page, added⟩ : ∃ page, page =
      { (table.body 0).putRow 64 (table.body 0).lastRow row with
        lastRow := (table.body 0).lastRow + 1 } := ⟨_, rfl⟩
  have received : receiveRow (countRow table) ocb wideRow =
      ((countRow table).setBody 0 page, { ocb with record := (count + 1 + (2 ^ 32 - 1)) % 2 ^ 32 },
        64) := by
    unfold receiveRow
    rw [rowLen, counter, added, keyed, show (countRow table).lastPage = 0 from filled.lastPage]
    rfl
  have body : ((countRow table).setBody 0 page).body 0 = page := by
    rw [Table.setBody_body, Function.update_self]
  have total : (table.body 0).index * 1024 + ((table.body 0).lastRow + 1) = count + 1 := by
    rw [← Nat.add_assoc, filled.counted]
  refine ⟨_, _, received, rfl, ?_⟩
  constructor
  · exact filled.layout
  · exact counter
  · exact filled.pages
  · exact filled.lastPage
  · exact filled.fresh
  · rw [Table.setBody_next]
    exact filled.next
  · rw [body, added]
    exact filled.size
  · rw [body, added]
    exact total
  · rw [body, added]
    exact room
  · rw [body, added]
    intro _
    rfl
  · rw [body, added]
    intro _
    show keyOf (((table.body 0).putRow 64 (table.body 0).lastRow row).row 64 _) = count + 1
    rw [Nat.add_sub_cancel, PageBody.putRow_row length, key]
  · rw [body, added]
    intro zero _
    show keyOf (((table.body 0).putRow 64 (table.body 0).lastRow row).row 64 0) = 1
    by_cases empty : (table.body 0).lastRow = 0
    · have total := filled.counted
      have none : count = 0 := by
        rw [← total, empty, show (table.body 0).index = 0 from zero]
      rw [empty, PageBody.putRow_row length, key, none]
    · rw [PageBody.putRow_other length (Ne.symm empty)]
      exact filled.first zero (Nat.pos_of_ne_zero empty)
  · exact filled.room
  · rw [body, added]
    exact filled.written

theorem Filled.insert (filled : Filled count table) (fewer : count ≤ 33554432) {ocb : Ocb}
    (selected : ocb.selected = true) :
    ∃ next answer, smallDisk.paging.qbaseWrite table ocb 64 wideRow = .ok (next, answer, 64) ∧
      answer.selected = true ∧ Filled (count + 1) next := by
  have rowLen : table.layout.rowLen = 64 := by
    rw [filled.layout]
    rfl
  have pageRows : table.layout.pageRows = 1024 := by
    rw [filled.layout]
    rfl
  unfold Paging.qbaseWrite
  rw [if_neg (by simp [selected]), if_neg (by omega), filled.lastPage, pageRows]
  by_cases full : 1024 ≤ (table.body 0).lastRow
  · have whole := filled.lastRow_le
    obtain ⟨turned, empty⟩ := filled.rotate (by omega) fewer
    obtain ⟨next, answer, received, selected', added⟩ := turned.receive (by omega) fewer ocb
    rw [if_pos full]
    exact ⟨next, answer, congrArg Except.ok received, selected'.trans selected, added⟩
  · obtain ⟨next, answer, received, selected', added⟩ := filled.receive (by omega) fewer ocb
    rw [if_neg full]
    exact ⟨next, answer, congrArg Except.ok received, selected'.trans selected, added⟩

end Filled

theorem filled_run (count : Nat) (fewer : count ≤ 33554433) :
    ∃ exchanges server, Run (Under (StorageStep smallDisk) fun server exchange =>
        Received server exchange.1.1 exchange.1.2) wideServer exchanges server ∧
      (server.ocbs 0).selected = true ∧ Filled count server.table := by
  induction count with
  | zero => exact ⟨[], wideServer, .nil, rfl, filled_start⟩
  | succ count ih =>
    obtain ⟨exchanges, server, run, selected, filled⟩ := ih (Nat.le_of_succ_le fewer)
    obtain ⟨next, answer, written, selected', added⟩ :=
      filled.insert (Nat.le_of_succ_le_succ fewer) selected
    have step : Under (StorageStep smallDisk) (fun server exchange =>
        Received server exchange.1.1 exchange.1.2) server
        ((0, .insert 64 wideRow), .written 64)
        { table := next, ocbs := Function.update server.ocbs 0 answer } := by
      refine ⟨map_eq_ok.mpr ⟨_, written, rfl⟩, fun _ _ => ?_⟩
      rw [filled.layout]
      exact Nat.le_refl 64
    refine ⟨_, _, run.append (.cons step .nil), ?_, added⟩
    show (Function.update server.ocbs 0 answer 0).selected = true
    rw [Function.update_self]
    exact selected'

/-- The rows of the only page in the pool. -/
theorem row_of_only {table : Table} {ref : PageRef} {fuel : Nat} (pages : table.pages = some ref)
    (fresh : table.fresh = fuel + 1) (next : table.next ref = none) {row : Nat}
    (inPage : row < table.layout.pageRows) :
    table.row ((table.body ref).index * table.layout.pageRows + row) =
      (table.body ref).row table.layout.rowLen row := by
  have refs : table.refs = [ref] := by
    unfold Table.refs
    rw [pages, fresh]
    cases fuel <;> simp [walk, next]
  have bytes : table.pageBytes (table.body ref).index = (table.body ref).data := by
    unfold Table.pageBytes Table.cached
    rw [refs, List.find?_cons_of_pos (by simp)]
  rw [Table.row_of_page inPage, bytes]
  rfl

/-- The page that has no place goes to the end of the file. -/
theorem Filled.sync_last (filled : Filled 33554433 table) (index : (table.body 0).index = 32768)
    (lastRow : (table.body 0).lastRow = 1) :
    ∃ synced, smallDisk.tableSync table = .ok synced ∧ synced.layout = wide ∧
      synced.hFile = 33554433 ∧ 65536 ≤ synced.dFile.size ∧
      keyOf (readBytes synced.dFile.byte 0 64) = 1 := by
  have offset : syncOffset 65536 32768 = -2147483648 := by decide
  have dirty : ((smallDisk.headSync table).body 0).needSync = true := filled.dirty (by omega)
  have size : ((smallDisk.headSync table).body 0).size = 65536 := filled.size
  have place : ((smallDisk.headSync table).body 0).index = 32768 := index
  obtain ⟨file, wrote⟩ : ∃ file, file = table.dFile.pwrite table.dFile.size (table.body 0).data
      (min 65536 (2 ^ 31 - 1 - table.dFile.size)) := ⟨_, rfl⟩
  obtain ⟨page, marked⟩ : ∃ page, page =
      { (smallDisk.headSync table).body 0 with needSync := false } := ⟨_, rfl⟩
  have refused : smallDisk.write (smallDisk.headSync table).dFile
      (syncOffset ((smallDisk.headSync table).body 0).size
        ((smallDisk.headSync table).body 0).index) ((smallDisk.headSync table).body 0).data
      ((smallDisk.headSync table).body 0).size = file := by
    rw [size, place, offset, wrote]
    rfl
  have synced : smallDisk.syncPage (smallDisk.headSync table) 0 =
      ((smallDisk.headSync table).setBody 0 page).setFile file := by
    unfold Storage.syncPage
    simp only [dirty, ↓reduceIte]
    rw [refused, marked]
  have known := filled.room
  refine ⟨((smallDisk.headSync table).setBody 0 page).setFile file, ?_, ?_, ?_, ?_, ?_⟩
  · unfold Storage.tableSync
    dsimp only
    rw [show (smallDisk.headSync table).fresh = 1 from filled.fresh,
      show (smallDisk.headSync table).pages = some 0 from filled.pages]
    simp only [Storage.syncPages]
    rw [synced, Table.setFile_next, Table.setBody_next,
      show (smallDisk.headSync table).next 0 = none from filled.next]
    rfl
  · exact filled.layout
  · show (UInt32.ofNat table.index).toNat = 33554433
    rw [filled.index]
    rfl
  · show 65536 ≤ file.size
    rw [wrote]
    exact Nat.le_trans known (Nat.le_max_left ..)
  · show keyOf (readBytes file.byte 0 64) = 1
    rw [← filled.written (by omega), wrote]
    refine congrArg keyOf (readBytes_congr fun position inside => ?_)
    exact File.pwrite_outside (by omega) (.inl (by omega))

/-- Behind the last `int` the page is read from the beginning of the file. -/
theorem Filled.reload_row {loaded : Table} (filled : Filled 33554433 table)
    (done : smallDisk.reload table = .ok loaded) :
    keyOf (table.row 33554432) = 33554433 ∧ keyOf (loaded.row 33554432) = 1 := by
  have total := filled.counted
  have bound := filled.lastRow_le
  have index : (table.body 0).index = 32768 := by omega
  have lastRow : (table.body 0).lastRow = 1 := by omega
  constructor
  · have here := row_of_only filled.pages filled.fresh filled.next
      (show 0 < table.layout.pageRows by rw [filled.layout]; exact Nat.zero_lt_succ _)
    have newest := filled.newest (by omega)
    rw [filled.layout, index] at here
    rw [lastRow] at newest
    rw [show 33554432 = 32768 * wide.pageRows + 0 from rfl, here]
    exact newest
  · obtain ⟨synced, flushed, layout, hFile, room, first⟩ := filled.sync_last index lastRow
    obtain ⟨data, read⟩ : ∃ data, data = synced.dFile.pread 0 (synced.body synced.fresh).data 65536 :=
      ⟨_, rfl⟩
    have reloaded : loaded = synced.withPage (diskPage data 65536 32768 1) := by
      unfold Storage.reload at done
      rw [flushed] at done
      cases done
      unfold Storage.loadTable
      rw [layout, hFile, read]
      rfl
    have page : loaded.heap synced.fresh = diskPage data 65536 32768 1 := by
      rw [reloaded]
      exact Function.update_self ..
    have body : loaded.body synced.fresh = (diskPage data 65536 32768 1).toPageBody :=
      congrArg Page.toPageBody page
    have next : loaded.next synced.fresh = none := congrArg Page.next page
    have layout' : loaded.layout = wide := by
      rw [reloaded]
      exact layout
    have here := row_of_only (show loaded.pages = some synced.fresh by rw [reloaded]; rfl)
      (show loaded.fresh = synced.fresh + 1 by rw [reloaded]; rfl) next
      (show 0 < loaded.layout.pageRows by rw [layout']; exact Nat.zero_lt_succ _)
    rw [layout', body, show (diskPage data 65536 32768 1).index = 32768 from rfl] at here
    rw [show 33554432 = 32768 * wide.pageRows + 0 from rfl, here, ← first]
    refine congrArg keyOf ?_
    show readBytes data 0 64 = readBytes synced.dFile.byte 0 64
    refine readBytes_congr fun position inside => ?_
    have arrived := @File.pread_inside synced.dFile 0 65536 position
      (synced.body synced.fresh).data (by omega) (by omega)
    rw [Nat.zero_add, ← read] at arrived
    rw [Nat.zero_add]
    exact arrived

end QNXStuff.QXBase
