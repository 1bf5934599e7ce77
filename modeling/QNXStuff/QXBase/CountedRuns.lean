import QNXStuff.QXBase.AnyDisk
import QNXStuff.QXBase.FailedInsert
import QNXStuff.QXBase.PassInvariants

/-! Runs in which the data of every row arrives: the counter is the number of rows. -/

namespace QNXStuff.QXBase

open Execution Memory

/-- The client of a request to insert that passes the checks sends the row it announces. -/
def Received (server : Server) (conn : ConnId) : Request → Prop
  | .insert nbytes data => (server.ocbs conn).selected = true →
      server.table.layout.rowLen ≤ nbytes → server.table.layout.rowLen ≤ data.length
  | _ => True

instance {server : Server} {conn : ConnId} {request : Request} :
    Decidable (Received server conn request) :=
  match request with
  | .insert _ _ => inferInstanceAs (Decidable (_ → _ → _))
  | .fetch _ | .change _ | .tblflush | .reload | .control _ => inferInstanceAs (Decidable True)

/-- The steps in which no row gets lost on its way. -/
def ReceivedStep : Server → Exchange → Server → Prop :=
  Under ServerStep fun server exchange => Received server exchange.1.1 exchange.1.2

structure Server.Counted (server : Server) : Prop where
  pool : server.table.Ok
  counted : server.table.index = server.table.stored

/-- File positions of 31 bits leave the counter far from its end. -/
theorem stored_lt {table : Table} (ok : table.Ok) : table.stored + 1 < 2 ^ 32 := by
  have inv : PoolInv table table.refs := ok
  have key := table.layout.sound.keyWord
  have bound := inv.last_on_disk
  have lastRow := inv.lastRow_le
  have size := table.layout.sound.pageSize_lt
  have rows : 4 * table.layout.pageRows ≤ table.layout.pageSize :=
    Nat.mul_le_mul_right _ key
  have pages : table.lastIndex * (4 * table.layout.pageRows) ≤
      table.lastIndex * table.layout.pageSize := Nat.mul_le_mul_left _ rows
  rw [Nat.mul_left_comm] at pages
  have size : table.layout.pageSize < 2 ^ 32 := size
  unfold Table.stored
  omega

section Counted

variable {server next : Server} {conn : ConnId} {reply : Reply}

theorem counted_of_kept {table other : Table} (counted : table.index = table.stored)
    (kept : Kept table other) : other.index = other.stored := by
  rw [kept.index, kept.stored, counted]

/-- A table whose last page has room for the next row. -/
structure Ready (table ready : Table) : Prop where
  ok : ready.Ok
  layout : ready.layout = table.layout
  index : ready.index = table.index
  rows : ready.rows = table.rows
  room : (ready.body ready.lastPage).lastRow < ready.layout.pageRows
  disk : DiskAfter table ready

theorem Ready.refl {table : Table} (ok : table.Ok)
    (room : (table.body table.lastPage).lastRow < table.layout.pageRows) : Ready table table :=
  ⟨ok, rfl, rfl, rfl, room, fun _ inside => .inl ⟨inside, fun _ _ => rfl⟩⟩

/-- What a request to insert does to the table. -/
theorem insert_cases (ok : server.table.Ok) {nbytes : Nat} {data : List UInt8}
    (answered : server.handle conn (.insert nbytes data) = .ok (next, reply)) :
    next.table = server.table ∨
    ((server.ocbs conn).selected = true ∧ server.table.layout.rowLen ≤ nbytes ∧
      ∃ ready, Ready server.table ready ∧
        next.table = (receiveRow (countRow ready) (server.ocbs conn) data).1) := by
  have written : (qbaseWrite server.table (server.ocbs conn) nbytes data).map
      (fun result =>
        (({ table := result.1, ocbs := Function.update server.ocbs conn result.2.1 } : Server),
          Reply.written result.2.2)) = .ok (next, reply) := answered
  by_cases unselected : (server.ocbs conn).selected = false
  · have done : qbaseWrite server.table (server.ocbs conn) nbytes data = .ok _ :=
      if_pos unselected
    rw [done] at written
    cases written
    exact .inl rfl
  · by_cases short : nbytes < server.table.layout.rowLen
    · have done : qbaseWrite server.table (server.ocbs conn) nbytes data = .ok _ :=
        (if_neg unselected).trans (if_pos short)
      rw [done] at written
      cases written
      exact .inl rfl
    · right
      refine ⟨by simpa using unselected, Nat.not_lt.mp short, ?_⟩
      cases done : qbaseWrite server.table (server.ocbs conn) nbytes data with
      | error fault =>
        rw [done] at written
        cases written
      | ok result =>
        rw [done] at written
        cases written
        rcases qbaseWrite_cases (by simpa using unselected) (Nat.not_lt.mp short) done with
          ⟨full, rotated, moved, same⟩ | ⟨room, same⟩
        · rcases rotate_spec ok full with failed | ⟨_, moved', fresh⟩
          · rw [failed] at moved
            cases moved
          · rw [moved'] at moved
            cases moved
            exact ⟨rotated,
              ⟨fresh.ok, fresh.layout, fresh.index, fresh.rows, fresh.room, fresh.disk⟩,
              congrArg Prod.fst same⟩
        · exact ⟨server.table, Ready.refl ok room, congrArg Prod.fst same⟩

/-- The whole row is there: it is added under the key the counter says. -/
theorem receiveRow_whole {table : Table} (ocb : Ocb) (ok : table.Ok) {data : List UInt8}
    (room : (table.body table.lastPage).lastRow < table.layout.pageRows)
    (whole : table.layout.rowLen ≤ data.length) :
    Inserted table [withKey (data.take table.layout.rowLen) table.index]
      (receiveRow table ocb data).1 := by
  obtain ⟨inserted, added, done, rows, insert⟩ := receiveRow_spec ok ocb data room
  have arrived : ¬ (data.take table.layout.rowLen).length ≠ table.layout.rowLen := by
    rw [List.length_take]
    omega
  rw [flatWrite, if_neg arrived] at rows
  rw [List.append_cancel_left rows, done]
  exact insert

/-- A step that keeps the counter right and loses no rows. -/
structure Grown (server next : Server) : Prop where
  counted : next.Counted
  stored : server.table.stored ≤ next.table.stored

theorem Grown.same (counted : server.Counted) (same : next.table = server.table) :
    Grown server next :=
  ⟨⟨same ▸ counted.pool, same ▸ counted.counted⟩, Nat.le_of_eq (congrArg Table.stored same).symm⟩

theorem Grown.kept (counted : server.Counted) (ok : next.table.Ok)
    (kept : Kept server.table next.table) : Grown server next :=
  ⟨⟨ok, counted_of_kept counted.counted kept⟩, Nat.le_of_eq kept.stored.symm⟩

/-- A row that arrives is counted and stored under its number. -/
theorem insert_whole (counted : server.Counted) {nbytes : Nat} {data : List UInt8}
    (received : Received server conn (.insert nbytes data))
    (answered : server.handle conn (.insert nbytes data) = .ok (next, reply)) :
    next.table = server.table ∨
      (server.table.layout.rowLen ≤ data.length ∧ ∃ ready, Ready server.table ready ∧
        next.table = (receiveRow (countRow ready) (server.ocbs conn) data).1 ∧
        next.table.Ok ∧ next.table.index = server.table.stored + 1 ∧
        next.table.rows = server.table.rows ++
          [withKey (data.take server.table.layout.rowLen) (server.table.stored + 1)]) := by
  rcases insert_cases counted.pool answered with
    same | ⟨selected, room, ready, fits, same⟩
  · exact .inl same
  · have inv : PoolInv ready ready.refs := fits.ok
    have arrived := received selected room
    have whole : (countRow ready).layout.rowLen ≤ data.length := by
      show ready.layout.rowLen ≤ _
      rwa [fits.layout]
    have insert := receiveRow_whole (server.ocbs conn) inv.countRow.ok fits.room whole
    have bound := stored_lt counted.pool
    have counter : (countRow ready).index = server.table.stored + 1 := by
      rw [countRow, fits.index, counted.counted]
      exact Nat.mod_eq_of_lt bound
    have layout : (countRow ready).layout = server.table.layout := fits.layout
    have rows := insert.rows
    rw [← same, countRow_rows, fits.rows, counter, layout] at rows
    exact .inr ⟨arrived, ready, fits, same, same ▸ insert.ok,
      by rw [same, insert.index, counter], rows⟩

theorem insert_counted (counted : server.Counted) {nbytes : Nat} {data : List UInt8}
    (received : Received server conn (.insert nbytes data))
    (answered : server.handle conn (.insert nbytes data) = .ok (next, reply)) :
    Grown server next := by
  rcases insert_whole counted received answered with same | ⟨_, _, _, _, ok, index, rows⟩
  · exact .same counted same
  · have stored : next.table.stored = server.table.stored + 1 := by
      rw [← Table.rows_length, rows, List.length_append, Table.rows_length, List.length_singleton]
    exact ⟨⟨ok, by rw [index, stored]⟩, by omega⟩

/-- The table after a request that reads a row. -/
theorem fetch_cases {nbytes : Nat}
    (answered : server.handle conn (.fetch nbytes) = .ok (next, reply)) :
    next.table = server.table ∨
      ∃ rest, loop readPass .hang (pageFuel server.table)
        (readStart server.table (server.ocbs conn)) = .ok (next.table, rest) := by
  have read : (qbaseRead server.table (server.ocbs conn) nbytes).map
      (fun result =>
        (({ table := result.1, ocbs := Function.update server.ocbs conn result.2.1 } : Server),
          Reply.row result.2.2)) = .ok (next, reply) := answered
  unfold qbaseRead at read
  by_cases unselected : (server.ocbs conn).selected = false
  · rw [if_pos unselected] at read
    cases read
    exact .inl rfl
  · rw [if_neg unselected] at read
    by_cases short : nbytes < server.table.layout.rowLen
    · rw [if_pos short] at read
      cases read
      exact .inl rfl
    · rw [if_neg short] at read
      right
      cases done : loop readPass .hang (pageFuel server.table)
          (readStart server.table (server.ocbs conn)) with
      | error fault =>
        rw [done] at read
        cases read
      | ok result =>
        rw [done] at read
        cases read
        exact ⟨result.2, rfl⟩

/-- The table after a request that scans it. -/
theorem change_cases {change : Change}
    (answered : server.handle conn (.change change) = .ok (next, reply)) :
    next.table = server.table ∨
      ((server.ocbs conn).selected = true ∧
        change.fits server.table.layout.toTableDesc = true ∧
        ∃ code, loop (changePass (server.ocbs conn) change) .hang (pageFuel server.table)
          (changeStart server.table (server.ocbs conn) change) = .ok (next.table, code)) := by
  have changed : (qbaseChange server.table (server.ocbs conn) change).map
      (fun result =>
        (({ table := result.1
            ocbs := Function.update server.ocbs conn ((server.ocbs conn).done result.2).1 } :
          Server), ((server.ocbs conn).done result.2).2)) = .ok (next, reply) := answered
  unfold qbaseChange at changed
  by_cases unselected : (server.ocbs conn).selected = false
  · rw [if_pos unselected] at changed
    cases changed
    exact .inl rfl
  · rw [if_neg unselected] at changed
    by_cases short : change.fits server.table.layout.toTableDesc = false
    · rw [if_pos short] at changed
      cases changed
      exact .inl rfl
    · rw [if_neg short] at changed
      right
      refine ⟨by simpa using unselected, by simpa using short, ?_⟩
      cases done : loop (changePass (server.ocbs conn) change) .hang (pageFuel server.table)
          (changeStart server.table (server.ocbs conn) change) with
      | error fault =>
        rw [done] at changed
        cases changed
      | ok result =>
        rw [done] at changed
        cases changed
        exact ⟨result.2, rfl⟩

theorem flush_cases (answered : server.handle conn .tblflush = .ok (next, reply)) :
    next.table = server.table ∨ tableSync server.table = .ok next.table := by
  unfold Server.handle at answered
  dsimp only at answered
  split at answered
  · cases done : tableSync server.table with
    | error fault =>
      rw [done] at answered
      cases answered
    | ok flushed =>
      rw [done] at answered
      cases answered
      exact .inr rfl
  · cases answered
    exact .inl rfl

theorem reload_cases (answered : server.handle conn .reload = .ok (next, reply)) :
    reload server.table = .ok next.table := by
  unfold Server.handle at answered
  cases done : reload server.table with
  | error fault =>
    simp only [done] at answered
    cases answered
  | ok loaded =>
    simp only [done] at answered
    cases answered
    rfl

theorem control_cases {request : Control}
    (answered : server.handle conn (.control request) = .ok (next, reply)) :
    next.table = server.table := by
  unfold Server.handle at answered
  cases done : control server.table.desc (server.ocbs conn) request with
  | error fault =>
    simp only [done] at answered
    cases answered
  | ok answer =>
    simp only [done] at answered
    cases answered
    rfl

/-- The same for the server that ends where a file position does not fit. -/
theorem handle_ocb {other : ConnId} {request : Request} (apart : other ≠ conn)
    (answered : server.handle other request = .ok (next, reply)) :
    next.ocbs conn = if request = .reload then
      { server.ocbs conn with selected := false, filters := [] } else server.ocbs conn :=
  Paging.checked.handle_ocb apart
    ((Paging.checked_handle server other request).trans answered)

/-- The visits of the loops keep the counter and the number of rows. -/
theorem read_kept {table : Table} {ocb : Ocb} {result : Table × Ocb × Option Row} (ok : table.Ok)
    (done : loop readPass .hang (pageFuel table) (readStart table ocb) = .ok result) :
    result.1.Ok ∧ Kept table result.1 := by
  obtain ⟨_, visited⟩ := (read_keeps ok (fun _ _ _ => trivial)
    (fun _ _ _ => trivial) trivial).1 result.1 result.2 done
  exact ⟨visited.ok, visited.kept⟩

theorem change_kept {table : Table} {ocb : Ocb} {change : Change} {result : Table × ErrorCode}
    (ok : table.Ok)
    (done : loop (changePass ocb change) .hang (pageFuel table) (changeStart table ocb change) =
      .ok result) :
    result.1.Ok ∧ Kept table result.1 := by
  obtain ⟨_, visited⟩ := (change_keeps ok (fun _ _ _ => trivial)
    (fun _ _ _ _ _ _ => trivial) trivial).1 result.1 result.2 done
  exact ⟨visited.ok, visited.kept⟩

theorem handle_counted (counted : server.Counted) {request : Request}
    (received : Received server conn request)
    (answered : server.handle conn request = .ok (next, reply)) : Grown server next := by
  cases request with
  | insert nbytes data => exact insert_counted counted received answered
  | fetch nbytes =>
    rcases fetch_cases answered with same | ⟨rest, done⟩
    · exact .same counted same
    · obtain ⟨ok, kept⟩ := read_kept counted.pool done
      exact .kept counted ok kept
  | change change =>
    rcases change_cases answered with same | ⟨_, _, code, done⟩
    · exact .same counted same
    · obtain ⟨ok, kept⟩ := change_kept counted.pool done
      exact .kept counted ok kept
  | tblflush =>
    rcases flush_cases answered with same | done
    · exact .same counted same
    · rcases tableSync_spec counted.pool with failed | ⟨flushed, done', flush⟩
      · rw [failed] at done
        cases done
      · rw [done'] at done
        cases done
        have stored : next.table.stored = server.table.stored := flush.kept.stored
        have index : next.table.index = server.table.index := flush.kept.index
        exact ⟨⟨flush.inv.ok, by rw [index, stored, counted.counted]⟩, Nat.le_of_eq stored.symm⟩
  | reload =>
    have done := reload_cases answered
    rcases reload_spec counted.pool counted.counted with ⟨_, failed⟩ | ⟨loaded, done', fresh⟩
    · rw [failed] at done
      cases done
    · rw [done'] at done
      cases done
      exact ⟨⟨fresh.ok, by rw [fresh.index, fresh.stored, counted.counted]⟩,
        Nat.le_of_eq fresh.stored.symm⟩
  | control request => exact .same counted (control_cases answered)

theorem Initial.counted {start : Server} (initial : Initial start)
    (zero : start.table.index = 0) : start.Counted := by
  obtain ⟨layout, heap, created⟩ := initial.created
  have empty := createTable_spec created
  exact ⟨empty.inv.ok, by rw [zero, empty.stored]⟩

/-- In a run in which every row arrives the counter is the number of rows. -/
theorem run_counted {start final : Server} {exchanges : List Exchange} (initial : Initial start)
    (zero : start.table.index = 0) (run : Run ReceivedStep start exchanges final) :
    final.Counted := by
  refine run.invariant (initial.counted zero) ?_
  rintro server ⟨⟨conn, request⟩, reply⟩ next counted ⟨answered, received⟩
  exact (handle_counted counted received answered).counted

end Counted

end QNXStuff.QXBase
