import QNXStuff.QXBase.Keys

/-! `SEEK` to a primary key, and `UPDCUR` of the row that carries it. -/

namespace QNXStuff.QXBase

open Execution Memory

/-- The rule is applied to the live row at a position and to no other row. -/
def UpdatedOnly (table : Table) (position : Nat) (message : List UInt8) (updated : Table) : Prop :=
  position < table.stored ∧ keyOf (table.row position) ≠ 0 ∧
    ∃ result, updateRow table.layout.toTableDesc message (table.row position) = .ok result ∧
      updated.rows = table.rows.set position result

/-- What a client expects of `SEEK` to a key and of the `UPDCUR` behind it. -/
structure SeekUpdates (handle : Handler) (server : Server) (conn : ConnId) (key : Nat) : Prop where
  found : (∃ next,
      handle server conn (.control (.seek (bytesOf 4 key))) = .ok (next, .status .ok)) ↔
    1 ≤ key ∧ key ≤ server.table.stored
  updates : ∀ sought message next code,
    handle server conn (.control (.seek (bytesOf 4 key))) = .ok (sought, .status .ok) →
    handle sought conn (.change (.updcur message)) = .ok (next, .status code) →
    (code = .ok ∧ UpdatedOnly server.table (key - 1) message next.table) ∨
      (code ≠ .ok ∧ next.table.rows = server.table.rows)

section Pages

variable {table locked : Table} {nPageID : Nat} {rPage : PageRef}

theorem page_unique {pageRows index row index' row' : Nat} (inside : row < pageRows)
    (inside' : row' < pageRows)
    (same : index * pageRows + row = index' * pageRows + row') : index = index' ∧ row = row' := by
  have positive : 0 < pageRows := by omega
  have quotient (index : Nat) {row : Nat} (inside : row < pageRows) :
      (index * pageRows + row) / pageRows = index := by
    rw [Nat.mul_comm, Nat.mul_add_div positive, Nat.div_eq_of_lt inside, Nat.add_zero]
  have pages : index = index' := by
    rw [← quotient index inside, same, quotient index' inside']
  subst pages
  exact ⟨rfl, Nat.add_left_cancel same⟩

/-- The rows after one row of a page was put in place. -/
theorem updated_row (ok : table.Ok) (member : rPage ∈ table.refs) {row : Nat}
    (inPage : row < table.layout.pageRows) {bytes : Row}
    (length : bytes.length = table.layout.rowLen) (position : Nat) :
    (table.setBody rPage ((table.body rPage).putRow table.layout.rowLen row bytes)).row position =
      if position = (table.body rPage).index * table.layout.pageRows + row then bytes
      else table.row position := by
  have inv : PoolInv table table.refs := ok
  have touched : Touched (table.body rPage)
      ((table.body rPage).putRow table.layout.rowLen row bytes) := (Touched.refl _).putRow
  have after := inv.touch touched
  obtain ⟨index, other, inOther, rfl⟩ := table.position_split position
  by_cases here : (table.body rPage).index = index
  · subst here
    rw [after.setBody_row member rfl inOther]
    by_cases same : other = row
    · rw [same, if_pos rfl, PageBody.putRow_row length]
    · rw [if_neg (fun equal => same (Nat.add_left_cancel equal)), PageBody.putRow_other length same,
        inv.row_cached member inOther]
  · rw [inv.setBody_other after rfl here inOther,
      if_neg fun equal => here (page_unique inOther inPage equal).1.symm]

/-- The page that was locked holds the rows of the table. -/
theorem Locked.row (ok : table.Ok) (lock : Locked table nPageID locked rPage) {row : Nat}
    (inPage : row < table.layout.pageRows) :
    (locked.body rPage).row table.layout.rowLen row =
      table.row (nPageID * table.layout.pageRows + row) := by
  have inv : PoolInv locked locked.refs := lock.ok
  have layout : locked.layout = table.layout := lock.same.layout
  have within : nPageID ≤ table.lastIndex := by
    rw [← lock.lastIndex, ← lock.index]
    exact inv.index_le_last lock.member
  have cached := inv.row_cached lock.member (by rwa [layout])
  rw [lock.index, layout] at cached
  rw [← cached, row_of_bytes layout inPage (lock.bytes nPageID within fun ref takes =>
    Nat.ne_of_gt (takenOver_larger ok takes).2.2), ← Table.row_of_page inPage]

theorem Locked.lastRow (lock : Locked table nPageID locked rPage) :
    (locked.body rPage).lastRow = table.pageLen nPageID := by
  have inv : PoolInv locked locked.refs := lock.ok
  rw [inv.lastRow_eq lock.member, lock.index]
  unfold Table.pageLen
  rw [lock.same.layout, lock.lastIndex, lock.same.lastPage, lock.lastKept]

/-- The rows after a row of the page that was locked was put in place. -/
theorem Locked.set_rows {position : Nat}
    (lock : Locked table (position / table.layout.pageRows) locked rPage) {bytes : Row}
    (length : bytes.length = table.layout.rowLen) :
    (locked.setBody rPage ((locked.body rPage).putRow table.layout.rowLen
      (position % table.layout.pageRows) bytes)).rows = locked.rows.set position bytes := by
  have layout : locked.layout = table.layout := lock.same.layout
  have inPage : position % table.layout.pageRows < table.layout.pageRows :=
    Nat.mod_lt _ table.layout.sound.pageRows_pos
  have row := updated_row lock.ok lock.member (by rwa [layout]) (by rwa [layout])
  simp only [lock.index, layout, Nat.div_add_mod'] at row
  have stored : (locked.setBody rPage ((locked.body rPage).putRow table.layout.rowLen
      (position % table.layout.pageRows) bytes)).stored = locked.stored :=
    (PoolInv.touch_stored (Touched.refl _).putRow).2
  refine List.ext_getElem ?_ fun other here there => ?_
  · rw [List.length_set, Table.rows_length, stored, Table.rows_length]
  · rw [Table.rows_getElem, List.getElem_set, Table.rows_getElem, row]
    simp only [eq_comm]

/-- When all rows are as they were, locking has lost nothing. -/
theorem saved_of_rows (ok : table.Ok) (lock : Locked table nPageID locked rPage) {page : PageBody}
    (touched : Touched (locked.body rPage) page)
    (rows : (locked.setBody rPage page).rows = table.rows) : Saved table nPageID := by
  have inv : PoolInv table table.refs := ok
  have inv' : PoolInv locked locked.refs := lock.ok
  have layout : locked.layout = table.layout := lock.same.layout
  intro ref takes position inBlock
  obtain ⟨member, other, larger, bytes⟩ := lock.replaced ref takes
  have inPage : position / table.layout.rowLen < table.layout.pageRows :=
    Nat.div_lt_of_lt_mul inBlock
  have inRow := Nat.mod_lt position table.layout.rowLen_pos
  have stored := full_page_stored (inv.index_lt_last member other) inPage
  have kept := row_of_rows rows (stored_of_rows rows ▸ stored)
  have apart : (locked.body rPage).index ≠ (table.body ref).index := by
    rw [lock.index]
    exact Nat.ne_of_lt larger
  have unchanged := inv'.setBody_other (inv'.touch touched) touched.index apart (by rwa [layout])
  rw [layout] at unchanged
  rw [unchanged, row_of_bytes layout inPage bytes, inv.row_cached member inPage] at kept
  have byte := congrArg (fun row : Row => row.getD (position % table.layout.rowLen) 0) kept
  simp only [PageBody.row, readBytes_getD _ inRow, Nat.div_add_mod'] at byte
  exact byte.symm

end Pages

/-! ### One pass of the scan -/

section Update

variable {table : Table} {ocb : Ocb} {message : List UInt8}

/-- `UPDCUR` of a stored row locks its page, looks at this row and ends. -/
theorem updcur_answer (ocb : Ocb) (ok : table.Ok) (counted : table.index ≠ 0)
    (selected : ocb.selected = true)
    (fits : (Change.updcur message).fits table.layout.toTableDesc = true)
    (inside : ocb.record < table.stored) :
    ∃ locked rPage, Locked table (ocb.record / table.layout.pageRows) locked rPage ∧
      qbaseChange table ocb (.updcur message) =
        (if dataFilter ocb.filters (table.row ocb.record) = .pass then
          (updateRow table.layout.toTableDesc message (table.row ocb.record)).map
            ((locked.body rPage).putRow table.layout.rowLen
              (ocb.record % table.layout.pageRows))
          else .ok (locked.body rPage)).map
          fun page => (locked.setBody rPage page, .ok) := by
  have inPage : ocb.record % table.layout.pageRows < table.layout.pageRows :=
    Nat.mod_lt _ table.layout.sound.pageRows_pos
  have split : ocb.record / table.layout.pageRows * table.layout.pageRows +
      ocb.record % table.layout.pageRows = ocb.record := Nat.div_add_mod' ..
  obtain ⟨within, below⟩ := ok.page_of inPage (split.symm ▸ inside)
  rcases lockTablePage_spec ok (ocb.record / table.layout.pageRows) with
    ⟨beyond, _⟩ | ⟨_, locked, rPage, found, lock⟩
  · omega
  · refine ⟨locked, rPage, lock, ?_⟩
    have inv : PoolInv locked locked.refs := lock.ok
    have layout : locked.layout = table.layout := lock.same.layout
    have row := lock.row ok inPage
    rw [split] at row
    have lastRow : (locked.body rPage).lastRow = table.pageLen (ocb.record / table.layout.pageRows) :=
      lock.lastRow
    obtain ⟨count, rows⟩ : ∃ count, (locked.body rPage).lastRow -
        ocb.record % table.layout.pageRows = count + 1 := ⟨_, (Nat.succ_pred (by omega)).symm⟩
    obtain ⟨tIndex, many⟩ : ∃ tIndex, table.index = tIndex + 1 :=
      ⟨_, (Nat.succ_pred counted).symm⟩
    -- the only row that is looked at
    have scanned : changePage table.layout.toTableDesc ocb.filters (.updcur message) (count + 1)
        (ocb.record % table.layout.pageRows) (tIndex + 1) (locked.body rPage) =
        (if dataFilter ocb.filters (table.row ocb.record) = .pass then
          (updateRow table.layout.toTableDesc message (table.row ocb.record)).map
            ((locked.body rPage).putRow table.layout.rowLen
              (ocb.record % table.layout.pageRows))
          else .ok (locked.body rPage)).map fun page => (page, 0) := by
      simp only [changePage, row, Change.apply]
      cases dataFilter ocb.filters (table.row ocb.record) with
      | skip => rfl
      | broken => rfl
      | pass => cases updateRow table.layout.toTableDesc message (table.row ocb.record) <;> rfl
    have changed : qbaseChange table ocb (.updcur message) = _ :=
      (if_neg (by simp [selected])).trans (if_neg (by simp [fits]))
    rw [changed]
    unfold pageFuel
    simp only [loop, changePass, changeStart, Change.start, Change.single, ↓reduceIte,
      found, rows, layout, many, scanned]
    cases (if dataFilter ocb.filters (table.row ocb.record) = .pass then
      (updateRow table.layout.toTableDesc message (table.row ocb.record)).map
        ((locked.body rPage).putRow table.layout.rowLen
          (ocb.record % table.layout.pageRows))
      else Except.ok (locked.body rPage)) <;> rfl

/-- A live row is updated, and when no changes get lost no other row is. -/
theorem updcur_updates (ocb : Ocb) (ok : table.Ok) (counted : table.index = table.stored)
    (selected : ocb.selected = true) (none : ocb.filters = [])
    (fits : (Change.updcur message).fits table.layout.toTableDesc = true)
    (inside : ocb.record < table.stored) (live : keyOf (table.row ocb.record) ≠ 0)
    (saved : Saved table (ocb.record / table.layout.pageRows)) {updated : Table}
    {code : ErrorCode} (done : qbaseChange table ocb (.updcur message) = .ok (updated, code)) :
    code = .ok ∧ UpdatedOnly table ocb.record message updated := by
  obtain ⟨locked, rPage, lock, answer⟩ :=
    updcur_answer _ ok (by omega) selected fits inside
  have passes : dataFilter ocb.filters (table.row ocb.record) = .pass := by
    rw [none]
    exact if_neg live
  rw [if_pos passes, done] at answer
  cases result : updateRow table.layout.toTableDesc message (table.row ocb.record) with
  | error fault =>
    rw [result] at answer
    cases answer
  | ok bytes =>
    rw [result] at answer
    cases answer
    have length : bytes.length = table.layout.rowLen :=
      updateRow_length table.layout (of_decide_eq_true fits) (table.row_length _) result
    refine ⟨rfl, inside, live, bytes, result, ?_⟩
    rw [lock.set_rows length, (lock.sameRows ok saved).rows ok]

/-- A rule without actions changes no row. -/
theorem updateRow_none (desc : TableDesc) (size : Nat) (row : Row) :
    updateRow desc (List.replicate size 0) row = .ok row := by
  refine foldlM_fixed fun entry _ => if_pos ?_
  rw [List.getD_eq_getElem?_getD, List.getElem?_replicate]
  split <;> rfl

end Update

/-! ### `SEEK` and `UPDCUR` -/

section Seek

variable {server : Server} {conn : ConnId} {key : Nat}

/-- The connection after a `SEEK` that was answered with success. -/
def Ocb.sought (ocb : Ocb) (key : Nat) : Ocb := { ocb with record := key - 1, qerrno := .ok }

def Server.sought (server : Server) (conn : ConnId) (key : Nat) : Server :=
  { server with ocbs := Function.update server.ocbs conn ((server.ocbs conn).sought key) }

theorem Server.sought_ocb (server : Server) (conn : ConnId) (key : Nat) :
    (server.sought conn key).ocbs conn = (server.ocbs conn).sought key :=
  Function.update_self ..

/-- `SEEK` accepts the keys up to the first one that is not there. -/
theorem seek_ok_iff (counted : server.Counted) (selected : (server.ocbs conn).selected = true)
    (small : key < 2 ^ 32) (sought : Server) :
    server.handle conn (.control (.seek (bytesOf 4 key))) = .ok (sought, .status .ok) ↔
      (1 ≤ key ∧ key ≤ server.table.stored + 1) ∧ sought = server.sought conn key := by
  have bound := stored_lt counted.pool
  rw [seek_answer _ selected small, counted.counted]
  dsimp only
  by_cases beyond : server.table.stored < (key + (2 ^ 32 - 1)) % 2 ^ 32
  · rw [if_pos beyond]
    refine ⟨nofun, fun ⟨⟨positive, most⟩, _⟩ => ?_⟩
    rw [record_of_key positive small] at beyond
    omega
  · rw [if_neg beyond]
    have positive : 1 ≤ key := by
      rcases Nat.eq_zero_or_pos key with rfl | positive
      · omega
      · exact positive
    rw [record_of_key positive small] at beyond ⊢
    constructor
    · intro same
      refine ⟨⟨positive, by omega⟩, ?_⟩
      cases same
      rfl
    · rintro ⟨_, rfl⟩
      rfl

/-- `UPDCUR` behind such a `SEEK`. -/
theorem handle_updcur (message : List UInt8) :
    (server.sought conn key).handle conn (.change (.updcur message)) =
      (qbaseChange server.table ((server.ocbs conn).sought key) (.updcur message)).map
        fun (table, retval) =>
          let answer := ((server.ocbs conn).sought key).done retval
          ({ table := table
             ocbs := Function.update (server.sought conn key).ocbs conn answer.1 }, answer.2) := by
  unfold Server.handle
  rw [Server.sought_ocb]
  rfl

variable (counted : server.Counted) (selected : (server.ocbs conn).selected = true)
  (none : (server.ocbs conn).filters = []) (small : key < 2 ^ 32)
include counted selected none small

theorem seek_updates (last : key ≠ server.table.stored + 1)
    (row : 1 ≤ key → key ≤ server.table.stored →
      keyOf (server.table.row (key - 1)) ≠ 0 ∧
        Saved server.table ((key - 1) / server.table.layout.pageRows)) :
    SeekUpdates Server.handle server conn key := by
  constructor
  · simp only [seek_ok_iff counted selected small, exists_and_left, exists_eq, and_true]
    omega
  · intro sought message next code found answered
    obtain ⟨⟨positive, most⟩, rfl⟩ := (seek_ok_iff counted selected small sought).mp found
    obtain ⟨live, saved⟩ := row positive (by omega)
    rw [handle_updcur] at answered
    by_cases fits : (Change.updcur message).fits server.table.layout.toTableDesc = true
    · cases done : qbaseChange server.table ((server.ocbs conn).sought key)
          (.updcur message) with
      | error fault =>
        rw [done] at answered
        cases answered
      | ok result =>
        obtain ⟨fine, only⟩ := updcur_updates ((server.ocbs conn).sought key)
          counted.pool counted.counted selected none fits (show key - 1 < _ by omega) live saved done
        rw [done] at answered
        cases answered
        exact .inl ⟨fine, only⟩
    · have short : qbaseChange server.table ((server.ocbs conn).sought key)
          (.updcur message) = .ok (server.table, .buf) :=
        (if_neg (by simp [Ocb.sought, selected])).trans (if_pos (by simpa using fits))
      rw [short] at answered
      cases answered
      exact .inr ⟨nofun, rfl⟩

omit none in
theorem seek_updates_only (updates : SeekUpdates Server.handle server conn key) :
    key ≠ server.table.stored + 1 ∧ (1 ≤ key → key ≤ server.table.stored →
      keyOf (server.table.row (key - 1)) ≠ 0 ∧
        Saved server.table ((key - 1) / server.table.layout.pageRows)) := by
  constructor
  · intro last
    have found := updates.found.mp
      ⟨_, (seek_ok_iff counted selected small _).mpr ⟨by omega, rfl⟩⟩
    omega
  · intro positive most
    -- a rule that leaves every row alone shows what locking the page has lost
    let size := 4 + server.table.layout.fieldNum + server.table.layout.rowLen
    let message : List UInt8 := List.replicate size 0
    have fits : (Change.updcur message).fits server.table.layout.toTableDesc = true :=
      decide_eq_true (by simp [message, size])
    obtain ⟨locked, rPage, lock, answer⟩ := updcur_answer ((server.ocbs conn).sought key)
      counted.pool (by have := counted.counted; omega) selected fits (show key - 1 < _ by omega)
    rw [updateRow_none] at answer
    obtain ⟨page, touched, done⟩ : ∃ page, Touched (locked.body rPage) page ∧
        qbaseChange server.table ((server.ocbs conn).sought key) (.updcur message) =
          .ok (locked.setBody rPage page, .ok) := by
      rw [answer]
      split
      · exact ⟨_, (Touched.refl _).putRow, rfl⟩
      · exact ⟨_, Touched.refl _, rfl⟩
    obtain ⟨next, answered, table⟩ : ∃ next,
        (server.sought conn key).handle conn (.change (.updcur message)) =
          .ok (next, .status .ok) ∧ next.table = locked.setBody rPage page := by
      rw [handle_updcur, done]
      exact ⟨_, rfl, rfl⟩
    rcases updates.updates _ message next .ok
        ((seek_ok_iff counted selected small _).mpr ⟨by omega, rfl⟩) answered with
      ⟨_, inside, live, result, updated, rows⟩ | ⟨failed, _⟩
    · rw [updateRow_none] at updated
      cases updated
      have inside' : key - 1 < server.table.rows.length := by rwa [Table.rows_length]
      rw [← Table.rows_getElem inside', List.set_getElem_self, table] at rows
      exact ⟨live, saved_of_rows counted.pool lock touched rows⟩
    · exact absurd rfl failed

omit selected none small in
theorem seekUpdates_iff {storage : Storage} (documented : storage.Documented)
    (fits : server.table.Addressable) :
    SeekUpdates storage.paging.handle server conn key ↔
      SeekUpdates Server.handle server conn key := by
  have seek : storage.paging.handle server conn (.control (.seek (bytesOf 4 key))) =
      server.handle conn (.control (.seek (bytesOf 4 key))) := rfl
  -- `SEEK` leaves the table, so the request behind it meets the same pages
  have behind {sought : Server} {reply : Reply} (message : List UInt8)
      (found : server.handle conn (.control (.seek (bytesOf 4 key))) = .ok (sought, reply)) :
      storage.paging.handle sought conn (.change (.updcur message)) =
        sought.handle conn (.change (.updcur message)) := by
    have same := control_cases found
    exact documented.handle_eq ⟨same ▸ counted.pool, same ▸ counted.counted⟩ (same ▸ fits) _ _
  constructor
  · rintro ⟨found, updates⟩
    refine ⟨found, fun sought message next code sought' answered => ?_⟩
    exact updates sought message next code sought' ((behind message sought').trans answered)
  · rintro ⟨found, updates⟩
    refine ⟨found, fun sought message next code sought' answered => ?_⟩
    exact updates sought message next code sought' ((behind message sought').symm.trans answered)

end Seek

/-! ### Runs -/

end QNXStuff.QXBase
