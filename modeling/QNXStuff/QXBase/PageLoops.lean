import QNXStuff.QXBase.Scan
import Mathlib.Data.List.GetD

/-! The outer loops of `Qbase_read` and of the scanning devctls: which pages they
lock, and that they end with the result of one scan over all rows. -/

namespace QNXStuff.QXBase

open Memory Execution

/-- Two states of a table between which no row was inserted. -/
structure Kept (table other : Table) : Prop extends SameTable table other where
  lastIndex : other.lastIndex = table.lastIndex
  lastRow : (other.body table.lastPage).lastRow = (table.body table.lastPage).lastRow

theorem Kept.refl (table : Table) : Kept table table := ⟨SameTable.refl table, rfl, rfl⟩

theorem Kept.trans {table other third : Table} (first : Kept table other)
    (second : Kept other third) : Kept table third where
  toSameTable := first.toSameTable.trans second.toSameTable
  lastIndex := second.lastIndex.trans first.lastIndex
  lastRow := by
    rw [← first.lastRow, ← first.lastPage]
    exact second.lastRow

theorem Kept.stored {table other : Table} (kept : Kept table other) :
    other.stored = table.stored := by
  unfold Table.stored
  rw [kept.layout, kept.lastIndex, kept.lastPage, kept.lastRow]

theorem Locked.kept {table locked : Table} {nPageID : Nat} {rPage : PageRef}
    (lock : Locked table nPageID locked rPage) : Kept table locked where
  toSameTable := lock.same
  lastIndex := lock.lastIndex
  lastRow := by rw [lock.lastKept]

theorem Touched.kept {table : Table} {rPage : PageRef} {page : PageBody}
    (touched : Touched (table.body rPage) page) : Kept table (table.setBody rPage page) where
  layout := rfl
  index := rfl
  lastPage := rfl
  hFile := rfl
  lastIndex := (PoolInv.touch_stored touched).1
  lastRow := (body_touched touched table.lastPage).2.2

/-! ### `UPDATE`, `UPDCUR` and `DELETE` -/

section Change

variable {start : Table} {ocb : Ocb} {change : Change}

/-- The flat scan that the loop carries out. -/
def changeScan (start : Table) (ocb : Ocb) (change : Change) : Except Fault (List Row × Nat) :=
  changeFrom start.layout.toTableDesc ocb.filters change start.index (change.start ocb) start.rows

/-- What is left to do in a state of the loop leads to the result of the whole scan. -/
structure ScanInv (start : Table) (ocb : Ocb) (change : Change) (state : ScanState) : Prop where
  ok : state.table.Ok
  kept : Kept start state.table
  ahead : ∃ position, At state.table state.pIndex state.rIndex position ∧
    changeFrom start.layout.toTableDesc ocb.filters change state.tIndex position
      state.table.rows = changeScan start ocb change

/-- The pages a loop has not passed yet. -/
def ScanState.ahead (state : ScanState) : Nat := state.table.lastIndex + 1 - state.pIndex

def ScanEnd (start : Table) (ocb : Ocb) (change : Change)
    (result : Except Fault (Table × ErrorCode)) : Prop :=
  match changeScan start ocb change with
  | .error fault => result = .error fault
  | .ok (rows, left) =>
    ∃ table, result = .ok (table, if left = 0 then .ok else ocb.qerrno) ∧
      table.Ok ∧ Kept start table ∧ table.rows = rows

theorem changeFrom_done {desc : TableDesc} {filters : List Filter} (position : Nat)
    (rows : List Row) :
    changeFrom desc filters change 0 position rows = .ok (rows, 0) := by
  simp [changeFrom, Except.map, List.take_append_drop]

theorem changeFrom_end {desc : TableDesc} {filters : List Filter} {tIndex position : Nat}
    {rows : List Row} (behind : rows.length ≤ position) :
    changeFrom desc filters change tIndex position rows = .ok (rows, tIndex) := by
  simp [changeFrom, Except.map, List.drop_eq_nil_of_le behind, List.take_of_length_le behind]

/-- After a page was scanned the scan goes on behind it. -/
theorem changeFrom_patch {desc : TableDesc} {filters : List Filter} {left start count : Nat}
    {rows piece : List Row} (length : piece.length = count)
    (inside : start + count ≤ rows.length ∨ count = 0) :
    changeFrom desc filters change left (start + count)
        (rows.take start ++ piece ++ rows.drop (start + count)) =
      (changeRows desc filters change left (rows.drop (start + count))).map fun scan =>
        (rows.take start ++ (piece ++ scan.1), scan.2) := by
  unfold changeFrom
  by_cases short : start ≤ rows.length
  · have front : (rows.take start ++ piece).length = start + count := by
      rw [List.length_append, List.length_take, length, Nat.min_eq_left short]
    rw [List.drop_left' front, List.take_left' front]
    simp only [List.append_assoc]
  · have none : count = 0 := by omega
    have empty : piece = [] := List.length_eq_zero_iff.mp (length.trans none)
    have behind : rows.length ≤ start := by omega
    subst none empty
    simp [List.drop_eq_nil_of_le behind, List.take_of_length_le behind]

/-- Behind the rows of a page that are still to be scanned. -/
theorem at_behind {table : Table} {pIndex rIndex : Nat}
    (inside : pIndex ≤ table.lastIndex) (inPage : rIndex < table.layout.pageRows) :
    At table (pIndex + 1) 0
      (pIndex * table.layout.pageRows + rIndex + (table.pageLen pIndex - rIndex)) := by
  by_cases short : rIndex ≤ table.pageLen pIndex
  · rw [Nat.add_assoc, Nat.add_sub_cancel' short]
    exact at_next inside
  · rcases Table.pageLen_end inside with ⟨_, ending, _⟩ | ⟨last, ending⟩
    · rw [Nat.succ_mul] at ending
      omega
    · exact .inr ⟨by omega, by omega⟩

theorem changePass_spec (fits : change.fits start.layout.toTableDesc = true) {state : ScanState}
    (inv : ScanInv start ocb change state)
    (saved : state.tIndex ≠ 0 → Saved state.table state.pIndex) :
    PassSpec (ScanInv start ocb change) ScanState.ahead (ScanEnd start ocb change) state
      (changePass ocb change state) := by
  obtain ⟨position, spot, ahead⟩ := inv.ahead
  unfold changePass
  by_cases done : state.tIndex = 0
  · rw [done, changeFrom_done] at ahead
    rw [if_pos done]
    simp only [PassSpec, ScanEnd, ← ahead]
    exact ⟨state.table, rfl, inv.ok, inv.kept, rfl⟩
  · rw [if_neg done]
    rcases lockTablePage_spec inv.ok state.pIndex with
      ⟨beyond, missing⟩ | ⟨inside, locked, rPage, found, lock⟩
    · rcases spot with ⟨within, _⟩ | ⟨_, behind⟩
      · omega
      · rw [changeFrom_end (by simpa using behind)] at ahead
        simp only [missing, PassSpec, ScanEnd, ← ahead, if_neg done]
        exact ⟨state.table, rfl, inv.ok, inv.kept, rfl⟩
    · rcases spot with ⟨_, inPage, rfl⟩ | ⟨beyond, _⟩
      · have after : PoolInv locked locked.refs := lock.ok
        have rows := (lock.sameRows inv.ok (saved done)).rows inv.ok
        have kept := inv.kept.trans lock.kept
        have layout : locked.layout = start.layout := kept.layout
        have piece := after.rows_piece state.rIndex lock.member
        have page := changePage_spec locked.layout ocb.filters (layout ▸ fits)
          ((locked.body rPage).lastRow - state.rIndex) state.rIndex state.tIndex (locked.body rPage)
        simp only [lock.index, lock.same.layout] at piece
        rw [changeFrom, ← rows, piece, changeRows_append] at ahead
        rw [lock.same.layout, inv.kept.layout] at page
        simp only [found, lock.same.layout, inv.kept.layout]
        rw [inv.kept.layout] at ahead
        cases scan : changeRows start.layout.toTableDesc ocb.filters change state.tIndex
            ((locked.body rPage).rows start.layout.rowLen state.rIndex
              ((locked.body rPage).lastRow - state.rIndex)) with
        | error fault =>
          rw [scan] at ahead page
          simp only at page
          simp only [page, PassSpec, ScanEnd, ← ahead]
          rfl
        | ok result =>
          obtain ⟨pageRows, left⟩ := result
          rw [scan] at ahead page
          obtain ⟨scanned, changed, kept'⟩ := page
          simp only [changed, PassSpec]
          have tabled := kept.trans kept'.touched.kept
          have lastRow : (locked.body rPage).lastRow = locked.pageLen state.pIndex := by
            rw [after.lastRow_eq lock.member, lock.index]
          have inside' : state.pIndex ≤ locked.lastIndex := by rwa [lock.lastIndex]
          have inPage' : state.rIndex < locked.layout.pageRows := by rwa [lock.same.layout]
          refine ⟨⟨(after.touch kept'.touched).ok, tabled,
            state.pIndex * locked.layout.pageRows + state.rIndex +
              ((locked.body rPage).lastRow - state.rIndex), ?_, ?_⟩, ?_⟩
          · rw [lastRow]
            exact (at_behind inside' inPage').congr rfl
              (PoolInv.touch_stored kept'.touched).1 (PoolInv.touch_stored kept'.touched).2
          · have scannedRows := after.rows_scanned lock.member
              (layout ▸ kept')
            have length := changeRows_length scan
            rw [lock.index] at scannedRows
            rw [scannedRows, changeFrom_patch (by simpa [PageBody.rows] using length)]
            · rw [layout, ← ahead, rows]
              simp only
              cases changeRows start.layout.toTableDesc ocb.filters change left
                (state.table.rows.drop _) <;> rfl
            · rw [Table.rows_length, ← lock.index]
              exact after.piece_inside _ lock.member
          · unfold ScanState.ahead
            simp only [(PoolInv.touch_stored kept'.touched).1, lock.lastIndex]
            omega
      · omega

/-- The calls of `LockTablePage` in a scan lose no changes. -/
def ChangeSaved (table : Table) (ocb : Ocb) (change : Change) : Prop :=
  ∀ entered ∈ passes (changePass ocb change) (pageFuel table) (changeStart table ocb change),
    entered.tIndex ≠ 0 → Saved entered.table entered.pIndex

instance {table : Table} {ocb : Ocb} {change : Change} : Decidable (ChangeSaved table ocb change) :=
  inferInstanceAs (Decidable (∀ entered ∈ passes _ _ _, _ → Saved _ _))

theorem scanInv_start (ok : start.Ok) :
    ScanInv start ocb change (changeStart start ocb change) :=
  ⟨ok, Kept.refl start, change.start ocb, at_position ok _, rfl⟩

theorem pageFuel_enough (table : Table) (pIndex : Nat) :
    table.lastIndex + 1 - pIndex < pageFuel table := by
  unfold pageFuel
  omega

/-- The loop ends, with the result of the scan over all rows. -/
theorem change_loop (ok : start.Ok) (fits : change.fits start.layout.toTableDesc = true)
    (saved : ChangeSaved start ocb change) :
    ScanEnd start ocb change
      (loop (changePass ocb change) .hang (pageFuel start) (changeStart start ocb change)) :=
  loop_rule (fun _ inv guard => changePass_spec fits inv guard) (scanInv_start ok)
    (pageFuel_enough ..) saved

end Change

/-! ### `Qbase_read` -/

section Read

variable {start : Table} {ocb : Ocb}

/-- What is left to read in a state of the loop is what there was to read. -/
structure ReadInv (start : Table) (ocb : Ocb) (state : ReadState) : Prop where
  ok : state.table.Ok
  kept : Kept start state.table
  rows : state.table.rows = start.rows
  spot : At state.table state.pIndex state.rIndex state.ocb.record
  ahead : flatRead start.rows start.index state.ocb = flatRead start.rows start.index ocb

def ReadState.ahead (state : ReadState) : Nat := state.table.lastIndex + 1 - state.pIndex

def ReadEnd (start : Table) (ocb : Ocb) (result : Except Fault (Table × Ocb × Option Row)) : Prop :=
  ∃ table, result = .ok (table, flatRead start.rows start.index ocb) ∧
    table.Ok ∧ Kept start table ∧ table.rows = start.rows

theorem PoolInv.scan_piece {table : Table} {refs : List PageRef} (rIndex : Nat) (inv : PoolInv table refs)
    {rPage : PageRef} (member : rPage ∈ refs) (filters : List Filter) :
    let base := (table.body rPage).index * table.layout.pageRows
    let count := (table.body rPage).lastRow - rIndex
    scanRows filters (table.rows.getD · []) count (base + rIndex) =
      (base + (scanRows filters ((table.body rPage).row table.layout.rowLen) count rIndex).1,
        (scanRows filters ((table.body rPage).row table.layout.rowLen) count rIndex).2) := by
  intro base count
  have inside := inv.piece_inside rIndex member
  have bound := inv.lastRow_le_pageRows member
  refine scanRows_shift fun row above below => ?_
  have stored : base + row < table.rows.length := by
    rw [Table.rows_length]
    omega
  rw [List.getD_eq_getElem _ _ stored, Table.rows_getElem, inv.row_cached member (by omega)]

theorem readPass_spec (counted : start.stored ≤ start.index) {state : ReadState}
    (inv : ReadInv start ocb state)
    (saved : state.ocb.record < state.table.index → Saved state.table state.pIndex) :
    PassSpec (ReadInv start ocb) ReadState.ahead (ReadEnd start ocb) state (readPass state) := by
  have index : state.table.index = start.index := inv.kept.index
  have ahead := inv.ahead
  unfold readPass
  by_cases more : state.ocb.record < state.table.index
  · rw [if_pos more]
    rcases lockTablePage_spec inv.ok state.pIndex with
      ⟨beyond, missing⟩ | ⟨inside, locked, rPage, found, lock⟩
    · rcases inv.spot with ⟨within, _⟩ | ⟨_, behind⟩
      · omega
      · have none : start.rows.length - state.ocb.record = 0 := by
          rw [Table.rows_length, ← inv.kept.stored]
          omega
        rw [flatRead, if_pos (index ▸ more), none] at ahead
        simp only [scanRows, readOutcome, if_pos (show state.ocb.record < start.index from index ▸ more)]
          at ahead
        simp only [missing, PassSpec, ReadEnd, ← ahead]
        exact ⟨state.table, rfl, inv.ok, inv.kept, inv.rows⟩
    · rcases inv.spot with ⟨_, inPage, position⟩ | ⟨beyond, _⟩
      · have after : PoolInv locked locked.refs := lock.ok
        have rows : locked.rows = start.rows :=
          ((lock.sameRows inv.ok (saved more)).rows inv.ok).trans inv.rows
        have kept := inv.kept.trans lock.kept
        have layout : locked.layout = start.layout := kept.layout
        have inside' : state.pIndex ≤ locked.lastIndex := by rwa [lock.lastIndex]
        have inPage' : state.rIndex < locked.layout.pageRows := by rwa [lock.same.layout]
        have piece := after.scan_piece state.rIndex lock.member state.ocb.filters
        have pieceInside := after.piece_inside state.rIndex lock.member
        have lastRow : (locked.body rPage).lastRow = locked.pageLen state.pIndex := by
          rw [after.lastRow_eq lock.member, lock.index]
        simp only [lock.index, lock.same.layout, ← position, rows] at piece pieceInside
        rw [kept.stored, ← Table.rows_length] at pieceInside
        rw [flatRead_piece (index ▸ more) (by rwa [Table.rows_length]) pieceInside, piece] at ahead
        obtain ⟨above, _, skipped, stopped⟩ := scanRows_bounds
          ((locked.body rPage).lastRow - state.rIndex) state.rIndex
        simp only [found, lock.same.layout]
        cases scan : scanRows state.ocb.filters
            ((locked.body rPage).row state.table.layout.rowLen)
            ((locked.body rPage).lastRow - state.rIndex) state.rIndex with
        | mk row verdict =>
          rw [scan] at ahead above skipped stopped
          have record : state.ocb.record + (row - state.rIndex) =
              state.pIndex * state.table.layout.pageRows + row := by
            simp only at above
            omega
          cases verdict with
          | pass =>
            have below : row < state.rIndex + ((locked.body rPage).lastRow - state.rIndex) :=
              stopped (by simp)
            have bound := after.lastRow_le_pageRows lock.member
            have here : start.rows.getD
                (state.pIndex * state.table.layout.pageRows + row) [] =
                (locked.body rPage).row state.table.layout.rowLen row := by
              have stored : state.pIndex * state.table.layout.pageRows + row <
                  locked.rows.length := by
                rw [rows]
                omega
              rw [← rows, List.getD_eq_getElem _ _ stored, Table.rows_getElem]
              have cached := after.row_cached lock.member (show row < _ by omega)
              rwa [lock.index, lock.same.layout] at cached
            simp only [PassSpec, ReadEnd, ← ahead, readOutcome, record, here]
            exact ⟨locked, rfl, lock.ok, kept, rows⟩
          | broken =>
            simp only [PassSpec, ReadEnd, ← ahead, readOutcome, record]
            exact ⟨locked, rfl, lock.ok, kept, rows⟩
          | skip =>
            have row_eq : row = state.rIndex + ((locked.body rPage).lastRow - state.rIndex) :=
              skipped rfl
            have spot : At locked (state.pIndex + 1) 0
                (state.pIndex * state.table.layout.pageRows + row) := by
              have behind := at_behind inside' inPage'
              rw [lock.same.layout, ← lastRow, Nat.add_assoc, ← row_eq] at behind
              exact behind
            refine ⟨⟨lock.ok, kept, rows, ?_, ?_⟩, ?_⟩
            · simp only [record]
              exact spot
            · simp only [record]
              exact ahead
            · unfold ReadState.ahead
              simp only [lock.lastIndex]
              omega
      · omega
  · rw [if_neg more]
    rw [flatRead, if_neg (index ▸ more)] at ahead
    simp only [PassSpec, ReadEnd, ← ahead]
    exact ⟨state.table, rfl, inv.ok, inv.kept, inv.rows⟩

/-- The calls of `LockTablePage` in a read lose no changes. -/
def ReadSaved (table : Table) (ocb : Ocb) : Prop :=
  ∀ entered ∈ passes readPass (pageFuel table) (readStart table ocb),
    entered.ocb.record < entered.table.index → Saved entered.table entered.pIndex

instance {table : Table} {ocb : Ocb} : Decidable (ReadSaved table ocb) :=
  inferInstanceAs (Decidable (∀ entered ∈ passes _ _ _, _ → Saved _ _))

/-- The loop ends, with the next row that the filters let through. -/
theorem read_loop (ok : start.Ok) (counted : start.stored ≤ start.index)
    (saved : ReadSaved start ocb) :
    ReadEnd start ocb (loop readPass .hang (pageFuel start) (readStart start ocb)) :=
  loop_rule (fun _ inv guard => readPass_spec counted inv guard)
    ⟨ok, Kept.refl start, rfl, at_position ok _, rfl⟩ (pageFuel_enough ..) saved

end Read

end QNXStuff.QXBase
