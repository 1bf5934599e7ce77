import QNXStuff.QXBase.Refinement

/-! A row whose data does not arrive is counted all the same. -/

namespace QNXStuff.QXBase

open Execution Memory

/-! ### The counter -/

/-- What a failed request to insert should leave: the table as it was. -/
structure InsertUndone (before after : Table) : Prop where
  index : after.index = before.index
  lastRow : (after.body after.lastPage).lastRow = (before.body before.lastPage).lastRow
  rows : after.rows = before.rows
  nextKey : (countRow after).index = (countRow before).index
  counted : before.index = before.stored → after.index = after.stored

theorem syncPage_header {table synced : Table} {ref : PageRef}
    (done : syncPage table ref = .ok synced) :
    synced.index = table.index ∧ synced.layout = table.layout := by
  unfold syncPage at done
  cases written : pageSync (table.body ref) table.dFile with
  | error fault =>
    rw [written] at done
    cases done
  | ok result =>
    rw [written] at done
    cases done
    exact ⟨rfl, rfl⟩

theorem rotate_header {table rotated : Table} (done : rotate table = .ok rotated) :
    rotated.index = table.index ∧ rotated.layout = table.layout := by
  unfold rotate at done
  cases written : syncPage table table.lastPage with
  | error fault =>
    rw [written] at done
    cases done
  | ok synced =>
    rw [written] at done
    cases done
    exact (syncPage_header written :)

/-- A request that passes the checks, with or without a page that is full. -/
theorem qbaseWrite_cases {table : Table} {ocb : Ocb} {nbytes : Nat} {data : List UInt8}
    {result : Table × Ocb × Nat} (selected : ocb.selected = true)
    (room : table.layout.rowLen ≤ nbytes) (done : qbaseWrite table ocb nbytes data = .ok result) :
    (table.layout.pageRows ≤ (table.body table.lastPage).lastRow ∧
      ∃ rotated, rotate table = .ok rotated ∧ result = receiveRow (countRow rotated) ocb data) ∨
    ((table.body table.lastPage).lastRow < table.layout.pageRows ∧
      result = receiveRow (countRow table) ocb data) := by
  unfold qbaseWrite at done
  rw [if_neg (by simp [selected]), if_neg (Nat.not_lt.mpr room)] at done
  by_cases full : table.layout.pageRows ≤ (table.body table.lastPage).lastRow
  · rw [if_pos full] at done
    cases moved : rotate table with
    | error fault =>
      rw [moved] at done
      cases done
    | ok rotated =>
      rw [moved] at done
      cases done
      exact .inl ⟨full, rotated, rfl, rfl⟩
  · rw [if_neg full] at done
    cases done
    exact .inr ⟨Nat.not_le.mp full, rfl⟩

theorem receiveRow_short {table : Table} {ocb : Ocb} {data : List UInt8}
    (short : data.length < table.layout.rowLen) :
    ∃ received, receiveRow table ocb data = (received, { ocb with qerrno := .ins }, 0) ∧
      received.index = table.index := by
  have missing : (data.take table.layout.rowLen).length ≠ table.layout.rowLen := by
    rw [List.length_take]
    omega
  exact ⟨_, if_pos missing, rfl⟩

/-- Whatever the table, a row whose data does not arrive leaves the counter one too far. -/
theorem failed_insert_counts {server next : Server} {conn : ConnId} {nbytes : Nat}
    {data : List UInt8} {reply : Reply} (selected : (server.ocbs conn).selected = true)
    (room : server.table.layout.rowLen ≤ nbytes)
    (short : data.length < server.table.layout.rowLen)
    (answered : server.handle conn (.insert nbytes data) = .ok (next, reply)) :
    (next.ocbs conn).qerrno = .ins ∧ reply = .written 0 ∧
      ¬ InsertUndone server.table next.table := by
  have written : (qbaseWrite server.table (server.ocbs conn) nbytes data).map
      (fun result =>
        (({ table := result.1, ocbs := Function.update server.ocbs conn result.2.1 } : Server),
          Reply.written result.2.2)) = .ok (next, reply) := answered
  have finish {ready : Table} (index : ready.index = server.table.index)
      (layout : ready.layout = server.table.layout)
      (done : qbaseWrite server.table (server.ocbs conn) nbytes data =
        .ok (receiveRow (countRow ready) (server.ocbs conn) data)) :
      (next.ocbs conn).qerrno = .ins ∧ reply = .written 0 ∧
        ¬ InsertUndone server.table next.table := by
    have layout' : (countRow ready).layout = server.table.layout := layout
    obtain ⟨received, arrived, counted⟩ := receiveRow_short (by rwa [layout'])
    rw [done, arrived] at written
    cases written
    refine ⟨?_, rfl, fun undone => ?_⟩
    · simp only [Function.update_self]
    · have counter : (countRow ready).index = (server.table.index + 1) % 2 ^ 32 := by
        rw [countRow, index]
      have same := undone.index
      simp only [counted, counter] at same
      omega
  cases done : qbaseWrite server.table (server.ocbs conn) nbytes data with
  | error fault =>
    rw [done] at written
    cases written
  | ok result =>
    rcases qbaseWrite_cases selected room done with ⟨_, rotated, moved, rfl⟩ | ⟨_, rfl⟩
    · obtain ⟨index, layout⟩ := rotate_header moved
      exact finish index layout done
    · exact finish rfl rfl done

def pairsSelected : Server :=
  { pairsServer with
    ocbs := Function.update pairsServer.ocbs 0 { Ocb.calloc with selected := true } }

/-- A client announces a pair and sends no data. -/
theorem failed_insert_counts_pairs :
    ∃ next, pairsSelected.handle 0 (.insert 8 []) = .ok (next, .written 0) ∧
      ¬ InsertUndone pairsSelected.table next.table := by
  obtain ⟨next, reply, answered⟩ :
      ∃ next reply, pairsSelected.handle 0 (.insert 8 []) = .ok (next, reply) := ⟨_, _, rfl⟩
  obtain ⟨_, rfl, damaged⟩ := failed_insert_counts rfl (by decide) (by decide) answered
  exact ⟨next, answered, damaged⟩

/-- The counter of a table without rows counts one after such a request. -/
theorem pair_without_data_is_counted :
    ∃ server next, Run ServerStep pairsServer [((0, .control .select), .status .ok)] server ∧
      server.handle 0 (.insert 8 []) = .ok (next, .written 0) ∧
      server.table.index = 0 ∧ next.table.index = 1 ∧
      ¬ InsertUndone server.table next.table := by
  refine ⟨_, _, .cons rfl .nil, rfl, rfl, rfl, fun undone => ?_⟩
  exact absurd undone.index (by decide)

end QNXStuff.QXBase
