import QNXStuff.QXBase.Lifecycle

/-! The server refines the array of rows: whatever pages the pool takes in and gives
up, the requests are answered as if there were no pages. -/

namespace QNXStuff.QXBase

open Execution Memory

/-- The array of rows that the pages and the data file stand for. -/
def Server.flat (server : Server) : Flat where
  layout := server.table.layout
  index := server.table.index
  rows := server.table.rows
  ocbs := server.ocbs

/-- A well-formed pool, and a counter that has counted every row. -/
structure Server.Ok (server : Server) : Prop where
  pool : server.table.Ok
  counted : server.table.stored ≤ server.table.index

/-- Before a request: it takes over no page in place whose changes the file does not
have, the counter can count one more row, and a table that is loaded again has as many
rows as its counter says. -/
def Server.Safe (server : Server) (conn : ConnId) : Request → Prop
  | .insert _ _ => server.table.index + 1 < 2 ^ 32
  | .fetch nbytes => (server.ocbs conn).selected = true → server.table.layout.rowLen ≤ nbytes →
      ReadSaved server.table (server.ocbs conn)
  | .change change => (server.ocbs conn).selected = true →
      change.fits server.table.layout.toTableDesc = true →
      ChangeSaved server.table (server.ocbs conn) change
  | .reload => server.table.index = server.table.stored
  | _ => True

instance {server : Server} {conn : ConnId} {request : Request} :
    Decidable (server.Safe conn request) :=
  match request with
  | .insert _ _ => inferInstanceAs (Decidable (_ < _))
  | .fetch _ => inferInstanceAs (Decidable (_ → _ → ReadSaved _ _))
  | .change _ => inferInstanceAs (Decidable (_ → _ → ChangeSaved _ _ _))
  | .reload => inferInstanceAs (Decidable (_ = _))
  | .tblflush | .control _ => inferInstanceAs (Decidable True)

/-- The server fails to do its file I/O, or it does what the array does. -/
def HandledAlike (concrete : Except Fault (Server × Reply))
    (abstract : Except Fault (Flat × Reply)) : Prop :=
  concrete = .error .io ∨
    match abstract with
    | .error fault => concrete = .error fault
    | .ok (flat, reply) =>
      ∃ server, concrete = .ok (server, reply) ∧ server.Ok ∧ server.flat = flat

section Steps

variable {server : Server} {conn : ConnId}

/-- A request that changes the connection only. -/
theorem Server.Ok.answer (ok : server.Ok) (conn : ConnId) (ocb : Ocb) :
    ({ server with ocbs := Function.update server.ocbs conn ocb } : Server).Ok :=
  ⟨ok.pool, ok.counted⟩

/-- The rows of a request that inserts nothing. -/
structure Rewritten (table : Table) (rows : List Row) (rewritten : Table) : Prop where
  ok : rewritten.Ok
  layout : rewritten.layout = table.layout
  index : rewritten.index = table.index
  stored : rewritten.stored = table.stored
  rows : rewritten.rows = rows

theorem Kept.rewritten {table other : Table} (kept : Kept table other) (pool : other.Ok) :
    Rewritten table other.rows other :=
  ⟨pool, kept.layout, kept.index, kept.stored, rfl⟩

theorem Rewritten.alike (ok : server.Ok) {table : Table} {rows : List Row}
    (written : Rewritten server.table rows table) (ocbs : ConnId → Ocb) :
    ({ table := table, ocbs := ocbs } : Server).Ok ∧
      ({ table := table, ocbs := ocbs } : Server).flat =
        { server.flat with rows := rows, ocbs := ocbs } := by
  refine ⟨⟨written.ok, ?_⟩, ?_⟩
  · rw [written.stored, written.index]
    exact ok.counted
  · simp only [Server.flat, written.layout, written.index, written.rows]

/-- Once the last page has room the row is added, or its data has not arrived. -/
theorem receive_alike (ok : server.Ok) {ready : Table} (pool : ready.Ok)
    (layout : ready.layout = server.table.layout) (index : ready.index = server.table.index)
    (rows : ready.rows = server.table.rows)
    (room : (ready.body ready.lastPage).lastRow < ready.layout.pageRows)
    (small : server.table.index + 1 < 2 ^ 32) (ocb : Ocb) (data : List UInt8) :
    ∃ received added, receiveRow (countRow ready) ocb data =
        (received, (flatWrite server.table.layout server.table.rows
          ((server.table.index + 1) % 2 ^ 32) ocb data).2) ∧
      (flatWrite server.table.layout server.table.rows
          ((server.table.index + 1) % 2 ^ 32) ocb data).1 = server.table.rows ++ added ∧
      received.layout = server.table.layout ∧
      received.index = (server.table.index + 1) % 2 ^ 32 ∧
      received.rows = server.table.rows ++ added ∧
      received.Ok ∧ received.stored ≤ received.index := by
  have inv : PoolInv ready ready.refs := pool
  have counter : (countRow ready).index = (server.table.index + 1) % 2 ^ 32 := by
    rw [countRow, index]
  obtain ⟨received, added, done, addedRows, insert⟩ :=
    receiveRow_spec inv.countRow.ok ocb data room
  have layout' : (countRow ready).layout = server.table.layout := layout
  have rows' : (countRow ready).rows = server.table.rows := rows
  rw [layout', rows', counter] at done addedRows
  have rowsNow : received.rows = server.table.rows ++ added := insert.rows.trans (by rw [rows'])
  have indexNow := insert.index.trans counter
  refine ⟨received, added, done, addedRows, insert.layout.trans layout', indexNow, rowsNow,
    insert.ok, ?_⟩
  have grown : added.length ≤ 1 := by
    have total := congrArg List.length addedRows
    unfold flatWrite at total
    split at total
    · have none : server.table.rows.length = (server.table.rows ++ added).length := total
      rw [List.length_append] at none
      omega
    · have one : (server.table.rows ++ [_]).length = (server.table.rows ++ added).length := total
      rw [List.length_append, List.length_append, List.length_singleton] at one
      omega
  have counted := ok.counted
  rw [← Table.rows_length, rowsNow, indexNow, Nat.mod_eq_of_lt small, List.length_append,
    Table.rows_length]
  omega

theorem insert_alike (ok : server.Ok) (nbytes : Nat) (data : List UInt8)
    (safe : server.Safe conn (.insert nbytes data)) :
    HandledAlike (server.handle conn (.insert nbytes data))
      (server.flat.handle conn (.insert nbytes data)) := by
  unfold Server.handle Flat.handle
  by_cases unselected : (server.ocbs conn).selected = false
  · have written : qbaseWrite server.table (server.ocbs conn) nbytes data = .ok _ :=
      if_pos unselected
    have inserted : server.flat.insert (server.flat.ocbs conn) nbytes data = _ :=
      if_pos unselected
    simp only [written, inserted]
    exact .inr ⟨_, rfl, ok.answer conn _, rfl⟩
  · by_cases short : nbytes < server.table.layout.rowLen
    · have written : qbaseWrite server.table (server.ocbs conn) nbytes data = .ok _ :=
        (if_neg unselected).trans (if_pos short)
      have inserted : server.flat.insert (server.flat.ocbs conn) nbytes data = _ :=
        (if_neg unselected).trans (if_pos short)
      simp only [written, inserted]
      exact .inr ⟨_, rfl, ok.answer conn _, rfl⟩
    · have inserted : server.flat.insert (server.flat.ocbs conn) nbytes data =
          let written := flatWrite server.table.layout server.table.rows
            ((server.table.index + 1) % 2 ^ 32) (server.ocbs conn) data
          ({ server.flat with
              rows := written.1, index := (server.table.index + 1) % 2 ^ 32 }, written.2) :=
        (if_neg unselected).trans (if_neg short)
      have finish {ready : Table} (pool : ready.Ok)
          (layout : ready.layout = server.table.layout) (index : ready.index = server.table.index)
          (rows : ready.rows = server.table.rows)
          (room : (ready.body ready.lastPage).lastRow < ready.layout.pageRows)
          (written : qbaseWrite server.table (server.ocbs conn) nbytes data =
            .ok (receiveRow (countRow ready) (server.ocbs conn) data)) :
          HandledAlike
            ((qbaseWrite server.table (server.ocbs conn) nbytes data).map
              fun result =>
                ({ table := result.1, ocbs := Function.update server.ocbs conn result.2.1 },
                  .written result.2.2))
            (let result := server.flat.insert (server.flat.ocbs conn) nbytes data
             .ok ({ result.1 with ocbs := Function.update result.1.ocbs conn result.2.1 },
                .written result.2.2)) := by
        obtain ⟨received, added, done, addedRows, layout', index', rows', pool', counted⟩ :=
          receive_alike ok pool layout index rows room safe (server.ocbs conn) data
        rw [written, done, inserted]
        dsimp only
        rw [addedRows]
        refine .inr ⟨_, rfl, ⟨pool', counted⟩, ?_⟩
        simp only [Server.flat, layout', index', rows']
      have written : qbaseWrite server.table (server.ocbs conn) nbytes data = _ :=
        (if_neg unselected).trans (if_neg short)
      dsimp only
      by_cases full : server.table.layout.pageRows ≤
          (server.table.body server.table.lastPage).lastRow
      · rcases rotate_spec ok.pool full with failed | ⟨rotated, done, moved⟩
        · rw [if_pos full, failed] at written
          rw [written]
          exact .inl rfl
        · exact finish moved.ok moved.layout moved.index moved.rows moved.room
            (by rw [written, if_pos full, done])
      · exact finish ok.pool rfl rfl rfl (Nat.not_le.mp full) (by rw [written, if_neg full])

theorem fetch_alike (ok : server.Ok) (nbytes : Nat) (safe : server.Safe conn (.fetch nbytes)) :
    HandledAlike (server.handle conn (.fetch nbytes))
      (server.flat.handle conn (.fetch nbytes)) := by
  unfold Server.handle Flat.handle
  by_cases unselected : (server.ocbs conn).selected = false
  · have read : qbaseRead server.table (server.ocbs conn) nbytes = .ok _ := if_pos unselected
    have fetched : server.flat.fetch (server.flat.ocbs conn) nbytes = _ := if_pos unselected
    simp only [read, fetched]
    exact .inr ⟨_, rfl, ok.answer conn _, rfl⟩
  · by_cases short : nbytes < server.table.layout.rowLen
    · have read : qbaseRead server.table (server.ocbs conn) nbytes = .ok _ :=
        (if_neg unselected).trans (if_pos short)
      have fetched : server.flat.fetch (server.flat.ocbs conn) nbytes = _ :=
        (if_neg unselected).trans (if_pos short)
      simp only [read, fetched]
      exact .inr ⟨_, rfl, ok.answer conn _, rfl⟩
    · have read : qbaseRead server.table (server.ocbs conn) nbytes = _ :=
        (if_neg unselected).trans (if_neg short)
      have fetched : server.flat.fetch (server.flat.ocbs conn) nbytes = _ :=
        (if_neg unselected).trans (if_neg short)
      obtain ⟨table, done, pool, kept, rows⟩ := read_loop ok.pool ok.counted
        (safe (by simpa using unselected) (Nat.not_lt.mp short))
      dsimp only
      rw [read, fetched, done]
      exact .inr ⟨_, rfl, (rows ▸ kept.rewritten pool).alike ok _⟩

theorem change_alike (ok : server.Ok) (change : Change)
    (safe : server.Safe conn (.change change)) :
    HandledAlike (server.handle conn (.change change))
      (server.flat.handle conn (.change change)) := by
  unfold Server.handle Flat.handle
  by_cases unselected : (server.ocbs conn).selected = false
  · have changed : qbaseChange server.table (server.ocbs conn) change = .ok _ :=
      if_pos unselected
    have flat : server.flat.change (server.flat.ocbs conn) change = .ok _ := if_pos unselected
    simp only [changed, flat]
    exact .inr ⟨_, rfl, ok.answer conn _, rfl⟩
  · by_cases short : change.fits server.table.layout.toTableDesc = false
    · have changed : qbaseChange server.table (server.ocbs conn) change = .ok _ :=
        (if_neg unselected).trans (if_pos short)
      have flat : server.flat.change (server.flat.ocbs conn) change = .ok _ :=
        (if_neg unselected).trans (if_pos short)
      simp only [changed, flat]
      exact .inr ⟨_, rfl, ok.answer conn _, rfl⟩
    · have changed : qbaseChange server.table (server.ocbs conn) change = _ :=
        (if_neg unselected).trans (if_neg short)
      have flat : server.flat.change (server.flat.ocbs conn) change = _ :=
        (if_neg unselected).trans (if_neg short)
      have fits : change.fits server.table.layout.toTableDesc = true := by simpa using short
      have ending := change_loop ok.pool fits (safe (by simpa using unselected) fits)
      unfold ScanEnd changeScan at ending
      dsimp only
      rw [changed, flat]
      simp only [Server.flat]
      cases scan : changeFrom server.table.layout.toTableDesc (server.ocbs conn).filters change
          server.table.index (change.start (server.ocbs conn)) server.table.rows with
      | error fault =>
        rw [scan] at ending
        have ending : loop _ _ _ _ = .error fault := ending
        rw [ending]
        exact .inr rfl
      | ok result =>
        rw [scan] at ending
        obtain ⟨table, done, pool, kept, rows⟩ := ending
        rw [done]
        exact .inr ⟨_, rfl, (rows ▸ kept.rewritten pool).alike ok _⟩

theorem flush_alike (ok : server.Ok) :
    HandledAlike (server.handle conn .tblflush) (server.flat.handle conn .tblflush) := by
  unfold Server.handle Flat.handle
  cases selected : (server.ocbs conn).selected with
  | false =>
    simp only [Server.flat, selected, Bool.false_eq_true, ↓reduceIte]
    exact .inr ⟨_, rfl, ok.answer conn _, rfl⟩
  | true =>
    simp only [Server.flat, selected, ↓reduceIte]
    rcases tableSync_spec ok.pool with failed | ⟨flushed, done, flush⟩
    · rw [failed]
      exact .inl rfl
    · rw [done]
      have written : Rewritten server.table server.table.rows flushed :=
        ⟨flush.inv.ok, flush.kept.layout, flush.kept.index, flush.kept.stored, flush.rows⟩
      exact .inr ⟨_, rfl, written.alike ok _⟩

theorem reload_alike (ok : server.Ok) (safe : server.Safe conn .reload) :
    HandledAlike (server.handle conn .reload) (server.flat.handle conn .reload) := by
  unfold Server.handle Flat.handle
  rcases reload_spec ok.pool safe with ⟨_, failed⟩ | ⟨loaded, done, fresh⟩
  · simp only [failed]
    exact .inl rfl
  · simp only [done]
    refine .inr ⟨_, rfl, ⟨fresh.ok, ?_⟩, ?_⟩
    · rw [fresh.stored, fresh.index]
      exact ok.counted
    · simp only [Server.flat, fresh.layout, fresh.index, fresh.rows]

theorem control_alike (ok : server.Ok) (request : Control) :
    HandledAlike (server.handle conn (.control request))
      (server.flat.handle conn (.control request)) := by
  unfold Server.handle Flat.handle
  have desc : server.flat.desc = server.table.desc := rfl
  rw [desc]
  simp only [Server.flat]
  cases control server.table.desc (server.ocbs conn) request with
  | error fault => exact .inr rfl
  | ok answer => exact .inr ⟨_, rfl, ok.answer conn _, rfl⟩

/-- Every request that loses no changes is answered as by the array of rows. -/
theorem handle_alike (ok : server.Ok) (request : Request) (safe : server.Safe conn request) :
    HandledAlike (server.handle conn request) (server.flat.handle conn request) := by
  cases request with
  | insert nbytes data => exact insert_alike ok nbytes data safe
  | fetch nbytes => exact fetch_alike ok nbytes safe
  | change change => exact change_alike ok change safe
  | tblflush => exact flush_alike ok
  | reload => exact reload_alike ok safe
  | control request => exact control_alike ok request

end Steps

/-! ### Runs -/

theorem Initial.ok {server : Server} (initial : Initial server) :
    server.Ok ∧ server.flat.rows = [] := by
  obtain ⟨layout, heap, created⟩ := initial.created
  have empty := createTable_spec created
  refine ⟨⟨empty.inv.ok, ?_⟩, ?_⟩
  · rw [empty.stored]
    exact Nat.zero_le _
  · show server.table.rows = []
    rw [Table.rows, empty.stored]
    rfl

/-- The steps of the server before which nothing can be lost. -/
def SafeStep : Server → Exchange → Server → Prop :=
  Under ServerStep fun server exchange => server.Safe exchange.1.1 exchange.1.2

theorem safe_run_refines {server final : Server} {exchanges : List Exchange} (ok : server.Ok)
    (run : Run SafeStep server exchanges final) :
    Run FlatStep server.flat exchanges final.flat ∧ final.Ok := by
  obtain ⟨flat, flatRun, ended, same⟩ :=
    @Run.simulate _ _ _ _ FlatStep (fun server flat => server.Ok ∧ server.flat = flat) _ _ _ _ run
      ⟨ok, rfl⟩ (by
        rintro server ⟨⟨conn, request⟩, reply⟩ next flat ⟨ok, rfl⟩ ⟨answered, safe⟩
        have answered : server.handle conn request = .ok (next, reply) := answered
        have alike := handle_alike ok request safe
        rw [answered] at alike
        rcases alike with failed | alike
        · cases failed
        · cases abstract : server.flat.handle conn request with
          | error fault =>
            rw [abstract] at alike
            cases alike
          | ok answer =>
            rw [abstract] at alike
            obtain ⟨_, same, ok', flat⟩ := alike
            cases same
            exact ⟨answer.1, abstract, ok', flat⟩)
  subst same
  exact ⟨flatRun, ended⟩

/-- Every run of the server that loses no changes is a run of the array of rows with the
same replies, and there the next request is answered as by the array, too. -/
theorem server_refines_rows {server final : Server} {exchanges : List Exchange}
    (initial : Initial server) (run : Run SafeStep server exchanges final) :
    server.flat.rows = [] ∧ Run FlatStep server.flat exchanges final.flat ∧
      ∀ conn request, final.Safe conn request →
        HandledAlike (final.handle conn request) (final.flat.handle conn request) := by
  obtain ⟨flatRun, ok⟩ := safe_run_refines initial.ok.1 run
  exact ⟨initial.ok.2, flatRun, fun conn request safe => handle_alike ok request safe⟩

/-! ### Pairs of numbers, one to a page -/

/-- Rows of a key and a number, one row to a page and three pages in the pool. -/
def pairs : Layout where
  toTableDesc := newTbldesc 1 1 3 "pairs"
  sound := by refine ⟨?_, ?_, ?_, ?_, ?_, ?_⟩ <;> decide

def blankHeap : PageRef → Page := fun _ => diskPage (fun _ => 0) 0 0 0

/-- The table as it is created, and connections that have not selected it yet. -/
def pairsServer : Server where
  table :=
    { layout := pairs, index := 0
      heap := Function.update blankHeap 0 (diskPage (fun _ => 0) 8 0 0)
      fresh := 1, pages := some 0, lastPage := 0, pLocks := 1, hFile := 0
      dFile := File.pwrite { size := 0, byte := fun _ => 0 } 0 (fun _ => 0) 8 }
  ocbs := fun _ => Ocb.calloc

theorem pairsServer_initial : Initial pairsServer := ⟨pairs, blankHeap, rfl⟩

/-- `INSERT` of a pair; the key is the server's to set. -/
def insertPair (number : Nat) : Request := .insert 8 (bytesOf 4 0 ++ bytesOf 4 number)

/-- `UPDCUR` that sets the number of the current pair. -/
def setNumber (number : Nat) : Request :=
  .change (.updcur (bytesOf 4 0 ++ [0, 1] ++ bytesOf 4 0 ++ bytesOf 4 number))

def seekPair (key : Nat) : Request := .control (.seek (bytesOf 4 key))

/-- The pair 3 is changed while it is in the middle of the pool; reading the pairs 1 and
2 fills the pool and takes over its page. -/
def overtaken : List Request :=
  [.control .select, insertPair 0, insertPair 0, insertPair 0, insertPair 0, seekPair 3,
    setNumber 7, seekPair 1, .fetch 8, .fetch 8, .fetch 8]

def pair (key number : Nat) : Row := bytesOf 4 key ++ bytesOf 4 number

def overtakenReplies (third : Row) : List Reply :=
  [.status .ok, .written 8, .written 8, .written 8, .written 8, .status .ok, .status .ok,
    .status .ok, .row (some (pair 1 0)), .row (some (pair 2 0)), .row (some third)]

/-- The requests of one connection. -/
def fromFirst (requests : List Request) : List (ConnId × Request) := requests.map (0, ·)

/-- A run of the server that no array of rows has. -/
theorem overtaken_page_loses_update :
    ¬ ∀ server exchanges final, Initial server → Run ServerStep server exchanges final →
      ∃ flat, Run FlatStep server.flat exchanges flat := by
  intro refines
  obtain ⟨final, run, _⟩ := replay_run
    (fun (server : Server) (input : ConnId × Request) => server.handle input.1 input.2)
    pairsServer (fromFirst overtaken)
    (overtakenReplies (pair 3 0)) (fun _ => ()) () (by decide +kernel)
  obtain ⟨flat, flatRun⟩ := refines pairsServer _ final pairsServer_initial run
  have expected : (replay (fun (flat : Flat) (input : ConnId × Request) =>
      flat.handle input.1 input.2) pairsServer.flat (fromFirst overtaken)).map Prod.snd =
      .ok (overtakenReplies (pair 3 7)) := by decide +kernel
  have answered := run_iff_replay.mp flatRun
  rw [List.map_fst_zip (by decide), List.map_snd_zip (by decide)] at answered
  rw [answered] at expected
  have same : overtakenReplies (pair 3 0) = overtakenReplies (pair 3 7) :=
    Except.ok.inj expected
  exact absurd same (by decide)

/-- The same, with the change written back before the page is taken over. -/
def flushed : List Request :=
  [.control .select, insertPair 0, insertPair 0, insertPair 0, insertPair 0, seekPair 3,
    setNumber 7, .tblflush, seekPair 1, .fetch 8, .fetch 8, .fetch 8]

def flushedReplies : List Reply :=
  [.status .ok, .written 8, .written 8, .written 8, .written 8, .status .ok, .status .ok, .status .ok,
    .status .ok, .row (some (pair 1 0)), .row (some (pair 2 0)), .row (some (pair 3 7))]

/-- The pages of the pairs 1, 2 and 3 come into the pool one after the other, the third one in the
place of the first. -/
theorem server_refines_rows_pairs :
    ∃ exchanges, ∃ server : Server, exchanges.map Prod.snd = flushedReplies ∧
      server.table.refs.map (fun ref => (server.table.body ref).index) = [1, 2, 3] ∧
      Run FlatStep pairsServer.flat exchanges server.flat := by
  obtain ⟨server, run, pages⟩ := replay_run
    (guarded (fun (server : Server) (input : ConnId × Request) => server.handle input.1 input.2)
      fun server input => server.Safe input.1 input.2)
    pairsServer (fromFirst flushed) flushedReplies
    (fun server => server.table.refs.map fun ref => (server.table.body ref).index) [1, 2, 3]
    (by decide +kernel)
  have safe : Run SafeStep pairsServer _ server := run_guarded run
  have answered : ((fromFirst flushed).zip flushedReplies).map Prod.snd = flushedReplies :=
    List.map_snd_zip (by decide)
  exact ⟨_, server, answered, pages, (server_refines_rows pairsServer_initial safe).2.1⟩

end QNXStuff.QXBase
