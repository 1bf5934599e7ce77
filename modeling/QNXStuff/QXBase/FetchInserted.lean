import QNXStuff.QXBase.Keys
import QNXStuff.QXBase.PoolRuns

/-! The rows are numbered as they are inserted, and a client fetches the row it has just inserted. -/

namespace QNXStuff.QXBase

open Memory Execution

/-- A request to insert that was not turned down. -/
def Exchange.inserts : Exchange → Bool
  | ((_, .insert _ _), .written count) => count != 0
  | _ => false

/-- How many rows were inserted. -/
def inserted (exchanges : List Exchange) : Nat := exchanges.countP Exchange.inserts

/-- The steps between which the table stays loaded and every row arrives. -/
def FillingStep (storage : Storage) : Server → Exchange → Server → Prop :=
  Under (StorageStep storage) fun server exchange =>
    Received server exchange.1.1 exchange.1.2 ∧ exchange.1.2 ≠ .reload

section Numbers

variable {storage : Storage} {server next : Server} {conn : ConnId}

theorem inserted_append (past : List Exchange) (exchange : Exchange) :
    inserted (past ++ [exchange]) = inserted past + if exchange.inserts then 1 else 0 := by
  unfold inserted
  rw [List.countP_append, List.countP_singleton]

/-- A row whose data did not come is not reported as written. -/
theorem success_received {nbytes count : Nat} {data : List UInt8}
    (answered : storage.paging.handle server conn (.insert nbytes data) =
      .ok (next, .written count)) (success : count ≠ 0) :
    Received server conn (.insert nbytes data) := by
  intro selected room
  by_contra short
  obtain ⟨⟨table, ocb, count'⟩, written, same⟩ := map_eq_ok.mp answered
  have lost : ∀ ready : Table, ready.layout = server.table.layout →
      (receiveRow (countRow ready) (server.ocbs conn) data).2.2 = 0 := by
    intro ready layout
    have rowLen : (countRow ready).layout.rowLen = server.table.layout.rowLen :=
      congrArg (fun layout => layout.rowLen) layout
    unfold receiveRow
    dsimp only
    rw [if_pos]
    rw [List.length_take, rowLen]
    omega
  have zero : count' = 0 := by
    unfold Paging.qbaseWrite at written
    rw [if_neg (by simp [selected]), if_neg (Nat.not_lt.mpr room)] at written
    split at written
    · have none := lost (storage.rotate server.table) (by
        obtain ⟨file, page, -, -, -, synced⟩ :=
          storage.syncPage_spec server.table server.table.lastPage
        unfold Storage.rotate
        rw [synced]
        rfl)
      have written : receiveRow (countRow (storage.rotate server.table)) (server.ocbs conn) data =
          (table, ocb, count') := Except.ok.inj written
      rwa [written] at none
    · have none := lost server.table rfl
      rwa [Except.ok.inj written] at none
  cases same
  exact success zero

/-- A request adds one to the counter when it inserts, and nothing when it does not. -/
theorem handle_counts {request : Request} {reply : Reply} (paged : Paged server.table)
    (received : Received server conn request) (stays : request ≠ .reload)
    (fits : server.table.index + 1 < 2 ^ 32)
    (answered : storage.paging.handle server conn request = .ok (next, reply)) :
    Paged next.table ∧ next.table.index =
      server.table.index + if Exchange.inserts ((conn, request), reply) then 1 else 0 := by
  by_cases inserting : ∃ nbytes data, request = .insert nbytes data
  · obtain ⟨nbytes, data, rfl⟩ := inserting
    rcases insert_handled paged received fits answered with
      ⟨same, rfl⟩ | ⟨rfl, _, stored, _⟩
    · exact ⟨same ▸ paged, congrArg Table.index same⟩
    · have taken : Exchange.inserts
          ((conn, .insert nbytes data), .written server.table.layout.rowLen) = true := by
        have positive := server.table.layout.rowLen_pos
        simp only [Exchange.inserts, bne_iff_ne]
        omega
      rw [if_pos taken]
      exact ⟨stored.paged, stored.index⟩
  · have other : ∀ nbytes data, request ≠ .insert nbytes data := fun nbytes data same =>
      inserting ⟨nbytes, data, same⟩
    have steady := handle_steady paged.shape stays other answered
    have none : Exchange.inserts ((conn, request), reply) = false := by
      unfold Exchange.inserts
      split
      · rename_i nbytes data count same
        cases same
        exact absurd rfl (other nbytes data)
      · rfl
    rw [none]
    exact ⟨steady.paged paged, steady.index⟩

/-- The counter is the number of rows that were inserted. -/
theorem run_counts {start : Server} {past : List Exchange} (begun : Begun storage start)
    (run : Run (FillingStep storage) start past server) (fewer : inserted past + 1 < 2 ^ 32) :
    Paged server.table ∧ server.table.index = inserted past := by
  obtain ⟨layout, heap, empty, created⟩ := begun.created
  have first : Paged start.table ∧ start.table.index = inserted [] := by
    rw [created]
    exact ⟨createTable_paged storage empty heap, empty⟩
  have last : inserted ([] ++ past) + 1 < 2 ^ 32 →
      Paged server.table ∧ server.table.index = inserted ([] ++ past) := by
    refine run.history (motive := fun past server => inserted past + 1 < 2 ^ 32 →
      Paged server.table ∧ server.table.index = inserted past) (fun _ => first) ?_
    rintro past server ⟨⟨conn, request⟩, reply⟩ next before ⟨answered, received, stays⟩ fewer
    rw [inserted_append] at fewer ⊢
    obtain ⟨paged, index⟩ := before (by omega)
    obtain ⟨paged', index'⟩ := handle_counts paged received stays (by omega) answered
    exact ⟨paged', by rw [index', index]⟩
  exact last fewer

end Numbers

section Fetched

variable {storage : Storage} {table stored : Table} {row : Row}

/-- A client that has just inserted a row is at the page and the row where it is. -/
theorem fetch_stored (storage : Storage) (added : Stored table row stored) (live : keyOf row ≠ 0)
    {ocb : Ocb} {nbytes : Nat} (selected : ocb.selected = true) (plain : ocb.filters = [])
    (record : ocb.record = table.index) (room : stored.layout.rowLen ≤ nbytes) :
    ∃ ocb', storage.paging.qbaseRead stored ocb nbytes = .ok (stored, ocb', some row) := by
  obtain ⟨last, lastRow, here⟩ := added.row
  have shape : PoolShape stored stored.refs := added.paged.shape
  have inPage : last < stored.layout.pageRows := by
    have bound := shape.lastRow_le
    omega
  have position : ocb.record = stored.layout.pageRows * stored.lastIndex + last := by
    have counter := added.paged.counter
    have index := added.index
    rw [lastRow, Nat.mul_comm] at counter
    omega
  have page : ocb.record / stored.layout.pageRows = stored.lastIndex := by
    rw [position, Nat.mul_add_div stored.layout.sound.pageRows_pos, Nat.div_eq_of_lt inPage]
    rfl
  have inside : ocb.record % stored.layout.pageRows = last := by
    rw [position, Nat.mul_add_mod, Nat.mod_eq_of_lt inPage]
  have more : ocb.record < stored.index := by
    rw [record, added.index]
    exact Nat.lt_succ_self _
  have one : last + 1 - last = 1 := by omega
  have passes : dataFilter [] row = .pass := by
    unfold dataFilter
    rw [if_neg live]
    rfl
  have pass : storage.paging.readPass (readStart stored ocb) =
      .ok (.stop (stored, { ocb with record := ocb.record + 0 + 1, qerrno := .ok }, some row)) := by
    unfold Paging.readPass
    simp only [readStart, page, inside, if_pos more, Storage.paging,
      storage.lock_last added.paged.shape, lastRow, one, plain, scanRows, here, passes, Nat.sub_self]
  refine ⟨{ ocb with record := ocb.record + 0 + 1, qerrno := .ok }, ?_⟩
  unfold Paging.qbaseRead pageFuel
  rw [if_neg (by simp [selected]), if_neg (Nat.not_lt.mpr room)]
  simp only [loop, pass]

/-- The `n`-th row that is inserted has the key `n`, and the client fetches it next. -/
theorem inserted_row_is_fetched {start server next : Server} {past : List Exchange} {conn : ConnId}
    {nbytes count : Nat} {data : List UInt8} (begun : Begun storage start)
    (run : Run (FillingStep storage) start past server) (fewer : inserted past + 1 < 2 ^ 32)
    (answered : storage.paging.handle server conn (.insert nbytes data) =
      .ok (next, .written count))
    (success : count ≠ 0) :
    Stored server.table
        (withKey (data.take server.table.layout.rowLen) (inserted past + 1)) next.table ∧
      keyOf (withKey (data.take server.table.layout.rowLen) (inserted past + 1)) =
        inserted past + 1 ∧
      ((next.ocbs conn).filters = [] → ∀ room, server.table.layout.rowLen ≤ room →
        ∃ after, storage.paging.handle next conn (.fetch room) = .ok (after,
          .row (some (withKey (data.take server.table.layout.rowLen) (inserted past + 1))))) := by
  obtain ⟨paged, index⟩ := run_counts begun run fewer
  have received := success_received answered success
  have key : keyOf (withKey (data.take server.table.layout.rowLen) (inserted past + 1)) =
      inserted past + 1 := keyOf_withKey fewer
  rcases insert_handled paged received (by rw [CounterFits, index]; exact fewer) answered with
    ⟨_, none⟩ | ⟨_, selected, added, ocb⟩
  · cases none
    exact absurd rfl success
  · rw [index] at added ocb
    refine ⟨added, key, fun plain room fits => ?_⟩
    have selected : (next.ocbs conn).selected = true := by
      rw [ocb]
      exact selected
    have record : (next.ocbs conn).record = server.table.index := by rw [ocb, index]
    have fits : next.table.layout.rowLen ≤ room := by
      rw [added.layout]
      exact fits
    obtain ⟨ocb', read⟩ := fetch_stored storage added (by omega) selected plain record fits
    exact ⟨_, map_eq_ok.mpr ⟨_, read, rfl⟩⟩

end Fetched

/-- The second of two pairs starts a new page. -/
theorem second_pair_is_fetched :
    ∃ server next after : Server, server.table.index = 1 ∧
      plainStorage.paging.handle server 0 (.insert 8 somePair) = .ok (next, .written 8) ∧
      plainStorage.paging.handle next 0 (.fetch 8) =
        .ok (after, .row (some (withKey (somePair.take 8) 2))) := by
  have selected : (plainServer.ocbs 0).selected = true := rfl
  obtain ⟨server, first, layout, index, -, selected', filters⟩ :=
    insert_moves plainStorage selected (Nat.le_refl 8) somePair_whole
  have step : FillingStep plainStorage plainServer ((0, .insert 8 somePair), .written 8) server :=
    ⟨first, fun _ _ => somePair_whole, nofun⟩
  have rowLen : server.table.layout.rowLen = 8 := by
    rw [layout]
    rfl
  have whole : server.table.layout.rowLen ≤ somePair.length := by
    rw [rowLen]
    exact Nat.le_refl 8
  obtain ⟨next, answered, -, -, -, -, filters'⟩ :=
    insert_moves plainStorage selected' (Nat.le_of_eq rowLen) whole
  have plain : (next.ocbs 0).filters = [] := filters'.trans filters
  rw [rowLen] at answered
  obtain ⟨_, _, fetched⟩ := inserted_row_is_fetched plainServer_begun (.cons step .nil)
    (by decide) answered (by decide)
  obtain ⟨after, read⟩ := fetched plain 8 (Nat.le_of_eq rowLen)
  rw [rowLen] at read
  exact ⟨server, next, after, index, answered, read⟩

end QNXStuff.QXBase
