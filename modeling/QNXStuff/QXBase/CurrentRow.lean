import QNXStuff.QXBase.Seek

/-! Which row `UPDCUR` changes: the one at the position of the connection, when it is there
and the filters let it through. -/

namespace QNXStuff.QXBase

open Execution Memory

/-- The position of the row that the rule is applied to. -/
def currentRow (table : Table) (ocb : Ocb) (message : List UInt8) : Option Nat :=
  if ocb.selected = true ∧ (Change.updcur message).fits table.layout.toTableDesc = true ∧
      table.index ≠ 0 ∧ ocb.record < table.stored ∧
      dataFilter ocb.filters (table.row ocb.record) = .pass then some ocb.record
  else none

def LocksOnce (table locked : Table) : Prop :=
  locked = table ∨ ∃ nPageID rPage, Locked table nPageID locked rPage

/-- The rule is applied to the row at this position, and to no other row. -/
inductive AppliedTo (table : Table) (message : List UInt8) : Option Nat → Table → Prop where
  | nowhere {locked updated : Table} (locks : LocksOnce table locked)
      (rows : updated.rows = locked.rows) : AppliedTo table message none updated
  | row {locked updated : Table} {position : Nat} {result : Row} (locks : LocksOnce table locked)
      (inside : position < locked.rows.length)
      (read : locked.row position = table.row position)
      (ruled : updateRow table.layout.toTableDesc message (table.row position) = .ok result)
      (rows : updated.rows = locked.rows.set position result) :
      AppliedTo table message (some position) updated

section Update

variable {table : Table} {ocb : Ocb} {message : List UInt8}

theorem currentRow_eq_some {position : Nat} :
    currentRow table ocb message = some position ↔
      (ocb.selected = true ∧ (Change.updcur message).fits table.layout.toTableDesc = true ∧
        table.index ≠ 0 ∧ position < table.stored ∧
        dataFilter ocb.filters (table.row position) = .pass) ∧ ocb.record = position := by
  unfold currentRow
  constructor
  · intro found
    split at found
    · next meets =>
      cases found
      exact ⟨meets, rfl⟩
    · cases found
  · rintro ⟨meets, rfl⟩
    exact if_pos meets

theorem setBody_same (table : Table) (rPage : PageRef) :
    table.setBody rPage (table.body rPage) = table := by
  unfold Table.setBody Table.body
  rw [Function.update_eq_self]

/-- The rows after the rule was applied to a row of the page that was locked. -/
theorem Locked.applied {locked : Table} {rPage : PageRef} {position : Nat} {result : Row}
    (lock : Locked table (position / table.layout.pageRows) locked rPage) (ok : table.Ok)
    (inside : position < table.stored)
    (ruled : updateRow table.layout.toTableDesc message (table.row position) = .ok result)
    (fits : 4 + table.layout.fieldNum + table.layout.rowLen ≤ message.length) :
    AppliedTo table message (some position)
      (locked.setBody rPage ((locked.body rPage).putRow table.layout.rowLen
        (position % table.layout.pageRows) result)) := by
  have layout : locked.layout = table.layout := lock.same.layout
  have inPage : position % table.layout.pageRows < table.layout.pageRows :=
    Nat.mod_lt _ table.layout.sound.pageRows_pos
  have kept : locked.stored = table.stored := lock.kept.stored
  have read : locked.row position = table.row position := by
    have inv : PoolInv locked locked.refs := lock.ok
    have here := lock.row ok inPage
    have cached := inv.row_cached lock.member (by rwa [layout])
    rw [Nat.div_add_mod'] at here
    rw [lock.index, layout, Nat.div_add_mod'] at cached
    rw [← here, ← cached]
  exact .row (.inr ⟨_, rPage, lock⟩) (by rwa [Table.rows_length, kept]) read ruled
    (lock.set_rows (updateRow_length table.layout fits (table.row_length _) ruled))

/-- Behind the last row there is no page, or nothing left of the last one. -/
theorem updcur_behind (ok : table.Ok) (counted : table.index ≠ 0)
    (selected : ocb.selected = true)
    (fits : (Change.updcur message).fits table.layout.toTableDesc = true)
    (behind : table.stored ≤ ocb.record) :
    ∃ updated, LocksOnce table updated ∧
      qbaseChange table ocb (.updcur message) = .ok (updated, ocb.qerrno) := by
  have inPage : ocb.record % table.layout.pageRows < table.layout.pageRows :=
    Nat.mod_lt _ table.layout.sound.pageRows_pos
  have split : ocb.record / table.layout.pageRows * table.layout.pageRows +
      ocb.record % table.layout.pageRows = ocb.record := Nat.div_add_mod' ..
  have changed : qbaseChange table ocb (.updcur message) = _ :=
    (if_neg (by simp [selected])).trans (if_neg (by simp [fits]))
  rw [changed]
  unfold pageFuel
  rcases lockTablePage_spec ok (ocb.record / table.layout.pageRows) with
    ⟨_, missing⟩ | ⟨within, locked, rPage, found, lock⟩
  · refine ⟨table, .inl rfl, ?_⟩
    simp only [loop, changePass, changeStart, Change.start, Change.single, ↓reduceIte, counted,
      missing]
  · refine ⟨locked, .inr ⟨_, rPage, lock⟩, ?_⟩
    have lastRow := lock.lastRow
    -- every page but the last one is full
    obtain ⟨last, none⟩ : ocb.record / table.layout.pageRows = table.lastIndex ∧
        (locked.body rPage).lastRow - ocb.record % table.layout.pageRows = 0 := by
      rcases Table.pageLen_end within with ⟨_, _, full⟩ | ⟨last, ending⟩
      · rw [Nat.succ_mul] at full
        omega
      · exact ⟨last, by omega⟩
    have missing : lockTablePage locked (ocb.record / table.layout.pageRows + 1) =
        .ok (locked, Option.none) := by
      have ended := lock.lastIndex
      rcases lockTablePage_spec lock.ok (ocb.record / table.layout.pageRows + 1) with
        ⟨_, missing⟩ | ⟨inside, _⟩
      · exact missing
      · omega
    simp only [loop, changePass, changeStart, Change.start, Change.single, ↓reduceIte, counted,
      found, none, changePage, setBody_same, missing]

/-- An answered `UPDCUR` applies the rule to the current row, or to none. -/
theorem updcur_applied (ok : table.Ok) {updated : Table} {code : ErrorCode}
    (done : qbaseChange table ocb (.updcur message) = .ok (updated, code)) :
    AppliedTo table message (currentRow table ocb message) updated := by
  unfold currentRow
  by_cases selected : ocb.selected = true
  · by_cases fits : (Change.updcur message).fits table.layout.toTableDesc = true
    · by_cases counted : table.index = 0
      · have nothing : qbaseChange table ocb (.updcur message) = _ :=
          (if_neg (by simp [selected])).trans (if_neg (by simp [fits]))
        unfold pageFuel at nothing
        simp only [loop, changePass, changeStart, counted, ↓reduceIte] at nothing
        rw [nothing] at done
        cases done
        rw [if_neg fun found => found.2.2.1 counted]
        exact .nowhere (.inl rfl) rfl
      · by_cases inside : ocb.record < table.stored
        · obtain ⟨locked, rPage, lock, answer⟩ := updcur_answer ocb ok counted selected fits inside
          rw [done] at answer
          by_cases passes : dataFilter ocb.filters (table.row ocb.record) = .pass
          · rw [if_pos ⟨selected, fits, counted, inside, passes⟩]
            rw [if_pos passes] at answer
            cases ruled : updateRow table.layout.toTableDesc message (table.row ocb.record) with
            | error fault =>
              rw [ruled] at answer
              cases answer
            | ok result =>
              rw [ruled] at answer
              cases answer
              exact lock.applied ok inside ruled (of_decide_eq_true fits)
          · rw [if_neg fun found => passes found.2.2.2.2]
            rw [if_neg passes] at answer
            cases answer
            refine .nowhere (.inr ⟨_, _, lock⟩) ?_
            rw [setBody_same]
        · obtain ⟨locked, locks, answer⟩ :=
            updcur_behind ok counted selected fits (Nat.le_of_not_lt inside)
          rw [answer] at done
          cases done
          rw [if_neg fun found => inside found.2.2.2.1]
          exact .nowhere locks rfl
    · have refused : qbaseChange table ocb (.updcur message) = .ok (table, .buf) :=
        (if_neg (by simp [selected])).trans (if_pos (by simpa using fits))
      rw [refused] at done
      cases done
      rw [if_neg fun found => fits found.2.1]
      exact .nowhere (.inl rfl) rfl
  · have refused : qbaseChange table ocb (.updcur message) = .ok (table, .notblsel) :=
      if_pos (by simpa using selected)
    rw [refused] at done
    cases done
    rw [if_neg fun found => selected found.1]
    exact .nowhere (.inl rfl) rfl

end Update

/-! ### Runs between two times that a table is loaded -/

/-- The requests of a run in which no table with missing rows is released. -/
def LoadedStep : Server → Exchange → Server → Prop :=
  Under ServerStep fun server exchange =>
    exchange.1.2 = .reload → server.table.index = server.table.stored

section Runs

variable {server next : Server} {conn : ConnId} {reply : Reply}

theorem handle_ok (ok : server.table.Ok) {request : Request}
    (loaded : request = .reload → server.table.index = server.table.stored)
    (answered : server.handle conn request = .ok (next, reply)) : next.table.Ok := by
  cases request with
  | insert nbytes data =>
    rcases insert_cases ok answered with same | ⟨_, _, ready, fits, same⟩
    · rwa [same]
    · have inv : PoolInv ready ready.refs := fits.ok
      obtain ⟨inserted, _, done, _, insert⟩ :=
        receiveRow_spec inv.countRow.ok (server.ocbs conn) data fits.room
      rw [same, done]
      exact insert.ok
  | fetch nbytes =>
    rcases fetch_cases answered with same | ⟨rest, done⟩
    · rwa [same]
    · exact (read_kept ok done).1
  | change change =>
    rcases change_cases answered with same | ⟨_, _, code, done⟩
    · rwa [same]
    · exact (change_kept ok done).1
  | tblflush =>
    rcases flush_cases answered with same | done
    · rwa [same]
    · rcases tableSync_spec ok with failed | ⟨flushed, done', flush⟩
      · rw [failed] at done
        cases done
      · rw [done'] at done
        cases done
        exact flush.inv.ok
  | reload =>
    rcases reload_spec ok (loaded rfl) with ⟨_, failed⟩ | ⟨_, done, fresh⟩
    · have done := reload_cases answered
      rw [failed] at done
      cases done
    · have done' := reload_cases answered
      rw [done] at done'
      cases done'
      exact fresh.ok
  | control request =>
    rw [control_cases answered]
    exact ok

end Runs

end QNXStuff.QXBase
