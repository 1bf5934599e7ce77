import QNXStuff.QXBase.DiskRuns

/-! What `Qbase_insert` and `Qbase_fetch` report to the client: a number of bytes, or the
code that a second request asks for. -/

namespace QNXStuff.QXBase

open Execution Memory

/-- The end of both calls: when the number of bytes is not `Size`, `Qbase_errno`. -/
def callResult (handle : Handler) (server : Server) (conn : ConnId) (size nbytes : Nat) :
    Except Fault (Server × Reply) :=
  if nbytes ≠ size then handle server conn (.control .error) else .ok (server, .status .ok)

/-- The requests of the other connections, which come in between. -/
def OthersStep (handle : Handler) (conn : ConnId) : Server → Exchange → Server → Prop :=
  Under (Answers fun server input => handle server input.1 input.2) fun _ exchange =>
    exchange.1.1 ≠ conn

/-- `Qbase_insert`: the server after the write request, and the code that is returned. `row`
is what the client has at the address it passes, `none` for NULL. -/
inductive InsertCall (handle : Handler) (server : Server) (conn : ConnId) (size : Nat) :
    Option (List UInt8) → Server → ErrorCode → Prop where
  | refused {row : Option (List UInt8)} (empty : row = none ∨ size = 0) :
      InsertCall handle server conn size row server .buf
  | written {row : List UInt8} {after later next : Server} {nbytes : Nat}
      {exchanges : List Exchange} {code : ErrorCode} (given : size ≠ 0)
      (answered : handle server conn (.insert size row) = .ok (after, .written nbytes))
      (meanwhile : Run (OthersStep handle conn) after exchanges later)
      (ended : callResult handle later conn size nbytes = .ok (next, .status code)) :
      InsertCall handle server conn size (some row) after code

/-- `Qbase_fetch`: the row that was placed into the buffer of the client, if it has one, and
the code that is returned. -/
inductive FetchCall (handle : Handler) (server : Server) (conn : ConnId) (size : Nat) :
    Bool → Option Row → ErrorCode → Prop where
  | refused {buffer : Bool} (empty : buffer = false ∨ size = 0) :
      FetchCall handle server conn size buffer none .buf
  | read {row : Option Row} {after later next : Server} {exchanges : List Exchange}
      {code : ErrorCode} (given : size ≠ 0)
      (answered : handle server conn (.fetch size) = .ok (after, .row row))
      (meanwhile : Run (OthersStep handle conn) after exchanges later)
      (ended : callResult handle later conn size (row.elim 0 List.length) =
        .ok (next, .status code)) :
      FetchCall handle server conn size true row code

/-- The connection as it would be had the earlier requests left another code. -/
def Server.withCode (server : Server) (conn : ConnId) (code : ErrorCode) : Server :=
  { server with
    ocbs := Function.update server.ocbs conn { server.ocbs conn with qerrno := code } }

/-- The code for a request to insert, whatever the requests before it have left. -/
def insertCode (server : Server) (conn : ConnId) (size : Nat) (row : Option (List UInt8)) :
    ErrorCode :=
  match row with
  | none => .buf
  | some bytes =>
    if size = 0 then .buf
    else if (server.ocbs conn).selected = false then .notblsel
    else if size < server.table.layout.rowLen then .buf
    else if bytes.length < server.table.layout.rowLen then .ins
    else .ok

/-- The code for a request to fetch that brings this row or none. -/
def fetchCode (server : Server) (conn : ConnId) (size : Nat) (buffer : Bool) (row : Option Row) :
    ErrorCode :=
  if buffer = false ∨ size = 0 then .buf
  else if (server.ocbs conn).selected = false then .notblsel
  else if size < server.table.layout.rowLen then .mem
  else if row.isSome then .ok
  else .lastrow

/-- The client learns from `Qbase_insert` whether a row was added, and gets a code of this
call. -/
structure InsertTold (handle : Handler) (server : Server) (conn : ConnId) (size : Nat)
    (row : Option (List UInt8)) : Prop where
  right : ∀ after code, InsertCall handle server conn size row after code →
    (code = .ok ↔ ∃ bytes, after.table.rows = server.table.rows ++ [bytes])
  own : ∀ earlier after code,
    InsertCall handle (server.withCode conn earlier) conn size row after code →
      code = insertCode server conn size row

/-- The client learns from `Qbase_fetch` whether it has got a row that the filters let
through, and gets a code of this call. -/
structure FetchTold (handle : Handler) (server : Server) (conn : ConnId) (size : Nat)
    (buffer : Bool) : Prop where
  right : ∀ row code, FetchCall handle server conn size buffer row code →
    (code = .ok ↔ ∃ bytes, row = some bytes ∧
      dataFilter (server.ocbs conn).filters bytes = .pass)
  own : ∀ earlier row code,
    FetchCall handle (server.withCode conn earlier) conn size buffer row code →
      code = fetchCode server conn size buffer row

section Requests

variable {paging : Paging} {server next later : Server} {conn : ConnId} {reply : Reply}

/-- A request of another connection leaves the code. -/
theorem handle_other {other : ConnId} {request : Request} (apart : other ≠ conn)
    (answered : paging.handle server other request = .ok (next, reply)) :
    (next.ocbs conn).qerrno = (server.ocbs conn).qerrno := by
  rw [paging.handle_ocb apart answered]
  split
  · rfl
  · rfl

theorem others_keep {exchanges : List Exchange}
    (run : Run (OthersStep paging.handle conn) server exchanges later) :
    (later.ocbs conn).qerrno = (server.ocbs conn).qerrno := by
  refine run.invariant (motive := fun state =>
    (state.ocbs conn).qerrno = (server.ocbs conn).qerrno) rfl ?_
  rintro state ⟨⟨other, request⟩, reply⟩ after kept ⟨answered, apart⟩
  exact (handle_other apart answered).trans kept

theorem callResult_code {size nbytes : Nat} {code : ErrorCode}
    (ended : callResult paging.handle server conn size nbytes = .ok (next, .status code)) :
    code = if nbytes ≠ size then (server.ocbs conn).qerrno else .ok := by
  unfold callResult at ended
  by_cases differs : nbytes ≠ size
  · rw [if_pos differs] at ended ⊢
    have asked : (Except.ok ((server.ocbs conn).done (server.ocbs conn).qerrno) :
        Except Fault (Ocb × Reply)).map (fun answer => (({ server with
          ocbs := Function.update server.ocbs conn answer.1 } : Server), answer.2)) =
        .ok (next, .status code) := ended
    cases asked
    rfl
  · rw [if_neg differs] at ended ⊢
    cases ended
    rfl

/-- What a request to insert does to the rows, to the code and to the number of bytes. -/
theorem insert_outcome (counted : server.Counted) {size nbytes : Nat} {bytes : List UInt8}
    (answered : server.handle conn (.insert size bytes) = .ok (next, .written nbytes)) :
    next.table.rows = (server.flat.insert (server.ocbs conn) size bytes).1.rows ∧
      next.ocbs conn = (server.flat.insert (server.ocbs conn) size bytes).2.1 ∧
      nbytes = (server.flat.insert (server.ocbs conn) size bytes).2.2 := by
  have small : server.Safe conn (.insert size bytes) := by
    show server.table.index + 1 < 2 ^ 32
    rw [counted.counted]
    exact stored_lt counted.pool
  have alike := insert_alike ⟨counted.pool, Nat.le_of_eq counted.counted.symm⟩ size bytes small
  rw [answered] at alike
  rcases alike with failed | ⟨server', same, _, flat⟩
  · cases failed
  · cases same
    have ocbs : next.ocbs = Function.update _ conn _ := congrArg Flat.ocbs flat
    refine ⟨congrArg Flat.rows flat, ?_, rfl⟩
    rw [ocbs, Function.update_self]
    rfl

theorem flatWrite_short {layout : Layout} {rows : List Row} {index : Nat} {ocb : Ocb}
    {bytes : List UInt8} (missing : bytes.length < layout.rowLen) :
    flatWrite layout rows index ocb bytes = (rows, { ocb with qerrno := .ins }, 0) := by
  unfold flatWrite
  rw [if_pos]
  rw [List.length_take]
  omega

theorem flatWrite_whole {layout : Layout} {rows : List Row} {index : Nat} {ocb : Ocb}
    {bytes : List UInt8} (whole : ¬ bytes.length < layout.rowLen) :
    ∃ row record, flatWrite layout rows index ocb bytes =
      (rows ++ [row], { ocb with record := record }, layout.rowLen) := by
  unfold flatWrite
  rw [if_neg]
  · exact ⟨_, _, rfl⟩
  · rw [List.length_take]
    omega

/-- A row that is not added leaves a code of its own; one that is added leaves the code as it
was. -/
theorem insert_result {size : Nat} (given : size ≠ 0) (bytes : List UInt8) :
    (∃ flat ocb, server.flat.insert (server.ocbs conn) size bytes = (flat, ocb, 0) ∧
      flat.rows = server.table.rows ∧ insertCode server conn size (some bytes) ≠ .ok ∧
      ocb.qerrno = insertCode server conn size (some bytes)) ∨
    (∃ flat ocb row, server.flat.insert (server.ocbs conn) size bytes =
        (flat, ocb, server.table.layout.rowLen) ∧
      flat.rows = server.table.rows ++ [row] ∧ insertCode server conn size (some bytes) = .ok ∧
      ocb.qerrno = (server.ocbs conn).qerrno ∧ server.table.layout.rowLen ≤ size) := by
  have asked : insertCode server conn size (some bytes) = _ := if_neg given
  by_cases unselected : (server.ocbs conn).selected = false
  · rw [asked, if_pos unselected]
    exact .inl ⟨_, _, if_pos unselected, rfl, nofun, rfl⟩
  · by_cases short : size < server.table.layout.rowLen
    · rw [asked, if_neg unselected, if_pos short]
      exact .inl ⟨_, _, (if_neg unselected).trans (if_pos short), rfl, nofun, rfl⟩
    · have inserted : ∃ index, server.flat.insert (server.ocbs conn) size bytes =
          ({ server.flat with
              rows := (flatWrite server.table.layout server.table.rows index
                (server.ocbs conn) bytes).1
              index := index },
            (flatWrite server.table.layout server.table.rows index (server.ocbs conn) bytes).2) :=
        ⟨_, (if_neg unselected).trans (if_neg short)⟩
      obtain ⟨index, inserted⟩ := inserted
      rw [asked, if_neg unselected, if_neg short]
      by_cases missing : bytes.length < server.table.layout.rowLen
      · rw [flatWrite_short missing] at inserted
        rw [if_pos missing]
        exact .inl ⟨_, _, inserted, rfl, nofun, rfl⟩
      · obtain ⟨row, record, done⟩ := @flatWrite_whole server.table.layout server.table.rows index
          (server.ocbs conn) bytes missing
        rw [done] at inserted
        rw [if_neg missing]
        exact .inr ⟨_, _, row, inserted, rfl, rfl, rfl, Nat.not_lt.mp short⟩

/-- A call that the server answers tells the client what has become of the row, unless the
row was added and the client has passed more bytes than it has. -/
theorem insert_told {storage : Storage} (documented : storage.Documented)
    (counted : server.Counted) (place : server.table.Addressable) {size : Nat}
    {row : Option (List UInt8)} {after : Server} {code : ErrorCode}
    (call : InsertCall storage.paging.handle server conn size row after code) :
    (insertCode server conn size row = .ok ↔
      ∃ bytes, after.table.rows = server.table.rows ++ [bytes]) ∧
    code = if insertCode server conn size row = .ok ∧ server.table.layout.rowLen < size then
      (server.ocbs conn).qerrno else insertCode server conn size row := by
  have nothing : ∀ bytes, server.table.rows ≠ server.table.rows ++ [bytes] := by
    intro bytes same
    have length := congrArg List.length same
    simp at length
  cases call with
  | refused empty =>
    have code : insertCode server conn size row = .buf := by
      unfold insertCode
      split
      · rfl
      · exact if_pos (empty.resolve_left (by nofun))
    rw [code, if_neg (by nofun)]
    exact ⟨⟨nofun, fun ⟨bytes, same⟩ => absurd same (nothing bytes)⟩, rfl⟩
  | @written row _ later _ nbytes _ _ given answered meanwhile ended =>
    rw [documented.handle_eq counted place] at answered
    obtain ⟨rows, ocb, count⟩ := insert_outcome counted answered
    have told := callResult_code ended
    rw [others_keep meanwhile, ocb, count] at told
    rcases @insert_result server conn size given row with
      ⟨flat, ocb', done, kept, failed, own⟩ | ⟨flat, ocb', bytes, done, added, fine, left, room⟩
    · rw [done] at rows told
      rw [if_pos given.symm, own] at told
      rw [if_neg fun both => failed both.1, rows, kept]
      exact ⟨⟨fun fine => absurd fine failed, fun ⟨bytes, same⟩ => absurd same (nothing bytes)⟩,
        told⟩
    · rw [done] at rows told
      rw [left] at told
      rw [fine, rows, added, told]
      refine ⟨⟨fun _ => ⟨bytes, rfl⟩, fun _ => rfl⟩, ?_⟩
      by_cases larger : server.table.layout.rowLen < size
      · rw [if_pos (Nat.ne_of_lt larger), if_pos ⟨rfl, larger⟩]
      · have equal : ¬ server.table.layout.rowLen ≠ size := by omega
        rw [if_neg equal, if_neg fun both => larger both.2]

end Requests

/-! ### Reading -/

section Read

variable {start : Table} {ocb : Ocb}

/-- A row that the scan stops at is let through. -/
theorem scanRows_pass {filters : List Filter} {rowAt : Nat → Row} {count row found : Nat}
    (scan : scanRows filters rowAt count row = (found, .pass)) :
    dataFilter filters (rowAt found) = .pass := by
  induction count generalizing row with
  | zero => cases scan
  | succ count ih =>
    simp only [scanRows] at scan
    cases verdict : dataFilter filters (rowAt row) with
    | skip =>
      rw [verdict] at scan
      exact ih scan
    | pass =>
      rw [verdict] at scan
      cases scan
      exact verdict
    | broken =>
      rw [verdict] at scan
      cases scan

/-- Where the loop stands, when the counter is the number of rows. -/
structure ReadSpot (start : Table) (ocb : Ocb) (state : ReadState) : Prop where
  ok : state.table.Ok
  kept : Kept start state.table
  spot : At state.table state.pIndex state.rIndex state.ocb.record
  filters : state.ocb.filters = ocb.filters

/-- The loop ends with a row that the filters let through, or with `QBASE_E_LASTROW`. -/
def ReadTold (ocb : Ocb) (result : Except Fault (Table × Ocb × Option Row)) : Prop :=
  ∀ table after row, result = .ok (table, after, row) →
    match row with
    | some bytes => after.qerrno = .ok ∧ dataFilter ocb.filters bytes = .pass
    | none => after.qerrno = .lastrow

theorem readPass_told (counted : start.index = start.stored) {state : ReadState}
    (inv : ReadSpot start ocb state) :
    PassSpec (ReadSpot start ocb) ReadState.ahead (ReadTold ocb) state (readPass state) := by
  unfold readPass
  by_cases more : state.ocb.record < state.table.index
  · rw [if_pos more]
    rcases lockTablePage_spec inv.ok state.pIndex with
      ⟨beyond, missing⟩ | ⟨inside, locked, rPage, found, lock⟩
    · -- behind the last page the position is not in front of the counter
      rcases inv.spot with ⟨within, _⟩ | ⟨_, behind⟩
      · omega
      · rw [inv.kept.stored, ← counted, ← inv.kept.index] at behind
        omega
    · rcases inv.spot with ⟨_, inPage, position⟩ | ⟨beyond, _⟩
      · have after : PoolInv locked locked.refs := lock.ok
        have lastRow : (locked.body rPage).lastRow = locked.pageLen state.pIndex := by
          rw [after.lastRow_eq lock.member, lock.index]
        obtain ⟨above, _, skipped, _⟩ := @scanRows_bounds state.ocb.filters
          ((locked.body rPage).row locked.layout.rowLen)
          ((locked.body rPage).lastRow - state.rIndex) state.rIndex
        simp only [found]
        cases scan : scanRows state.ocb.filters ((locked.body rPage).row locked.layout.rowLen)
            ((locked.body rPage).lastRow - state.rIndex) state.rIndex with
        | mk row verdict =>
          rw [scan] at above skipped
          cases verdict with
          | pass =>
            intro table ocb' bytes done
            cases done
            exact ⟨rfl, inv.filters ▸ scanRows_pass scan⟩
          | broken =>
            intro table ocb' bytes done
            cases done
            rfl
          | skip =>
            have row_eq : row = state.rIndex + ((locked.body rPage).lastRow - state.rIndex) :=
              skipped rfl
            have behind := at_behind (by rwa [lock.lastIndex] : state.pIndex ≤ locked.lastIndex)
              (by rwa [lock.same.layout] : state.rIndex < locked.layout.pageRows)
            have record : state.ocb.record + (row - state.rIndex) =
                state.pIndex * locked.layout.pageRows + state.rIndex +
                  (locked.pageLen state.pIndex - state.rIndex) := by
              rw [position, lock.same.layout, ← lastRow]
              omega
            refine ⟨⟨lock.ok, inv.kept.trans lock.kept, ?_, inv.filters⟩, ?_⟩
            · simp only [record]
              exact behind
            · unfold ReadState.ahead
              simp only [lock.lastIndex]
              omega
      · omega
  · rw [if_neg more]
    intro table ocb' bytes done
    cases done
    rfl

theorem read_told (ok : start.Ok) (counted : start.index = start.stored) :
    ReadTold ocb (loop readPass .hang (pageFuel start) (readStart start ocb)) :=
  loop_rule_free (fun _ inv => readPass_told counted inv)
    ⟨ok, Kept.refl start, at_position ok _, rfl⟩ (pageFuel_enough ..)

end Read

section Fetch

variable {server : Server} {conn : ConnId}

/-- The code that a request to fetch leaves is one of its own. -/
theorem fetch_outcome (counted : server.Counted) {size : Nat} (given : size ≠ 0)
    {after : Server} {row : Option Row}
    (answered : server.handle conn (.fetch size) = .ok (after, .row row)) :
    (after.ocbs conn).qerrno = fetchCode server conn size true row ∧
      ∀ bytes, row = some bytes → (after.ocbs conn).qerrno = .ok ∧
        dataFilter (server.ocbs conn).filters bytes = .pass := by
  have asked : fetchCode server conn size true row = _ :=
    if_neg fun empty => given (empty.resolve_left nofun)
  obtain ⟨⟨table, ocb, found⟩, read, same⟩ := map_eq_ok.mp
    (show (qbaseRead server.table (server.ocbs conn) size).map _ = _ from answered)
  cases same
  simp only [Function.update_self]
  unfold qbaseRead at read
  by_cases unselected : (server.ocbs conn).selected = false
  · rw [if_pos unselected] at read
    rw [asked, if_pos unselected]
    cases read
    exact ⟨rfl, nofun⟩
  · rw [if_neg unselected] at read
    by_cases short : size < server.table.layout.rowLen
    · rw [if_pos short] at read
      rw [asked, if_neg unselected, if_pos short]
      cases read
      exact ⟨rfl, nofun⟩
    · rw [if_neg short] at read
      rw [asked, if_neg unselected, if_neg short]
      have told := read_told counted.pool counted.counted table ocb row read
      cases row with
      | none => exact ⟨told, nofun⟩
      | some bytes =>
        refine ⟨told.1, fun other same => ?_⟩
        cases same
        exact told

/-- Without a row there is a code that says why. -/
theorem fetchCode_none {size : Nat} {buffer : Bool} :
    fetchCode server conn size buffer none ≠ .ok := by
  unfold fetchCode
  split
  · nofun
  split
  · nofun
  split <;> nofun

theorem fetch_told {storage : Storage} (documented : storage.Documented)
    (counted : server.Counted) (place : server.table.Addressable) {size : Nat} {buffer : Bool}
    {row : Option Row} {code : ErrorCode}
    (call : FetchCall storage.paging.handle server conn size buffer row code) :
    code = fetchCode server conn size buffer row ∧ (code = .ok ↔ ∃ bytes, row = some bytes ∧
      dataFilter (server.ocbs conn).filters bytes = .pass) := by
  cases call with
  | refused empty =>
    refine ⟨(if_pos empty).symm, nofun, ?_⟩
    rintro ⟨_, none, _⟩
    cases none
  | @read _ _ later _ _ _ given answered meanwhile ended =>
    rw [documented.handle_eq counted place] at answered
    obtain ⟨own, placed⟩ := fetch_outcome counted given answered
    have told := callResult_code ended
    rw [others_keep meanwhile] at told
    cases row with
    | none =>
      have asked := (told.trans (if_pos given.symm)).trans own
      refine ⟨asked, fun fine => ?_, ?_⟩
      · exact absurd (asked.symm.trans fine) fetchCode_none
      · rintro ⟨_, none, _⟩
        cases none
    | some bytes =>
      obtain ⟨fine, passes⟩ := placed bytes rfl
      rw [fine] at own told
      have code : code = .ok := told.trans (ite_self _)
      exact ⟨code.trans own, fun _ => ⟨bytes, rfl, passes⟩, fun _ => code⟩

end Fetch

theorem Server.Counted.withCode {server : Server} (counted : server.Counted) (conn : ConnId)
    (code : ErrorCode) : (server.withCode conn code).Counted :=
  ⟨counted.pool, counted.counted⟩

theorem insertCode_withCode (server : Server) (conn : ConnId) (size : Nat)
    (row : Option (List UInt8)) (earlier : ErrorCode) :
    insertCode (server.withCode conn earlier) conn size row = insertCode server conn size row := by
  unfold insertCode Server.withCode
  simp only [Function.update_self]

theorem fetchCode_withCode (server : Server) (conn : ConnId) (size : Nat) (buffer : Bool)
    (row : Option Row) (earlier : ErrorCode) :
    fetchCode (server.withCode conn earlier) conn size buffer row =
      fetchCode server conn size buffer row := by
  unfold fetchCode Server.withCode
  simp only [Function.update_self]

/-- The client passes no more bytes than a row of its table has. -/
def FitsRow (server : Server) (conn : ConnId) (size : Nat) : Prop :=
  (server.ocbs conn).selected = true → size ≤ server.table.layout.rowLen

/-- A row is added to a table that is selected. -/
theorem insertCode_selected {server : Server} {conn : ConnId} {size : Nat}
    {row : Option (List UInt8)} (fine : insertCode server conn size row = .ok) :
    (server.ocbs conn).selected = true := by
  unfold insertCode at fine
  split at fine
  · cases fine
  split at fine
  · cases fine
  split at fine
  · cases fine
  · next selected => simpa using selected

/-- A call that passes no more bytes than a row has gets a code of its own. -/
theorem insert_fits {storage : Storage} (documented : storage.Documented) {server : Server}
    {conn : ConnId} {size : Nat} (counted : server.Counted) (place : server.table.Addressable)
    (fits : FitsRow server conn size) {row : Option (List UInt8)} {after : Server}
    {code : ErrorCode} (call : InsertCall storage.paging.handle server conn size row after code) :
    code = insertCode server conn size row := by
  obtain ⟨_, told⟩ := insert_told documented counted place call
  rw [told, if_neg]
  rintro ⟨fine, larger⟩
  have small := fits (insertCode_selected fine)
  omega

/-- In a run in which every row arrives and every page has its place, `Qbase_fetch` tells the client
what it has got, and `Qbase_insert` tells it what has become of its row when it passes no more bytes
than a row has. When it passes more, and the row is added, it is told what the requests before have
left. -/
theorem calls_tell_client {storage : Storage} {start server : Server} {exchanges : List Exchange}
    (documented : storage.Documented) (reached : AddressedRun storage start exchanges server)
    (conn : ConnId) (size : Nat) :
    (∀ buffer, FetchTold storage.paging.handle server conn size buffer) ∧
    (FitsRow server conn size → ∀ row, InsertTold storage.paging.handle server conn size row) ∧
    (¬ FitsRow server conn size → ∀ row after code,
      InsertCall storage.paging.handle server conn size row after code →
      (∃ bytes, after.table.rows = server.table.rows ++ [bytes]) →
      code = (server.ocbs conn).qerrno) := by
  have counted := (reached.checked documented).2
  have place := reached.fits
  refine ⟨fun buffer => ⟨fun row code call => (fetch_told documented counted place call).2, ?_⟩,
    fun fits row => ⟨fun after code call => ?_, ?_⟩, fun larger row after code call added => ?_⟩
  · intro earlier row code call
    rw [← fetchCode_withCode server conn size buffer row earlier]
    exact (fetch_told documented (counted.withCode conn earlier) place call).1
  · rw [insert_fits documented counted place fits call]
    exact (insert_told documented counted place call).1
  · intro earlier after code call
    have fits' : FitsRow (server.withCode conn earlier) conn size := by
      unfold FitsRow Server.withCode
      simp only [Function.update_self]
      exact fits
    rw [insert_fits documented (counted.withCode conn earlier) place fits' call,
      insertCode_withCode]
  · obtain ⟨result, told⟩ := insert_told documented counted place call
    rw [told, if_pos]
    unfold FitsRow at larger
    exact ⟨result.mpr added, by omega⟩

/-! ### Pairs -/

/-- A client fetches the pairs up to the last one, and inserts a pair from a buffer of nine
bytes: it is told that there was no row left. -/
theorem added_pair_reported_missing :
    ∃ server after, AddressedRun smallDisk pairsServer
        [((0, .control .select), .status .ok), ((0, insertPair 5), .written 8),
          ((0, .fetch 8), .row (some (pair 1 5))), ((0, .fetch 8), .row none)] server ∧
      InsertCall smallDisk.paging.handle server 0 9 (some (bytesOf 4 0 ++ bytesOf 4 6 ++ [0]))
        after .lastrow ∧
      after.table.rows = server.table.rows ++ [pair 2 6] ∧
      ¬ InsertTold smallDisk.paging.handle server 0 9
        (some (bytesOf 4 0 ++ bytesOf 4 6 ++ [0])) := by
  obtain ⟨server, run, seen⟩ := replay_run addressed pairsServer
    (fromFirst [.control .select, insertPair 5, .fetch 8, .fetch 8])
    [.status .ok, .written 8, .row (some (pair 1 5)), .row none]
    (fun server => decide (((smallDisk.paging.handle server 0
      (.insert 9 (bytesOf 4 0 ++ bytesOf 4 6 ++ [0]))).map
      fun answer => (answer.2, (answer.1.ocbs 0).qerrno, answer.1.table.rows)) =
        .ok (.written 8, .lastrow, [pair 1 5, pair 2 6]) ∧ server.table.rows = [pair 1 5] ∧
      server.table.Addressable))
    true (by decide +kernel)
  obtain ⟨answered, before, fits⟩ := of_decide_eq_true seen
  obtain ⟨⟨after, reply⟩, done, found⟩ := map_eq_ok.mp answered
  obtain ⟨written, left, rows⟩ :
      reply = .written 8 ∧ (after.ocbs 0).qerrno = .lastrow ∧
        after.table.rows = [pair 1 5, pair 2 6] := by
    simpa only [Prod.mk.injEq] using found
  subst written
  have call : InsertCall smallDisk.paging.handle server 0 9
      (some (bytesOf 4 0 ++ bytesOf 4 6 ++ [0])) after .lastrow := by
    have ended : callResult smallDisk.paging.handle after 0 9 8 =
        .ok (_, .status (after.ocbs 0).qerrno) := rfl
    rw [left] at ended
    exact .written (by decide) done .nil ended
  have added : after.table.rows = server.table.rows ++ [pair 2 6] := by
    rw [rows, before]
    rfl
  refine ⟨server, after, ⟨pairsServer_begun, run_guarded run, fits⟩, call, added, fun told => ?_⟩
  have fine := (told.right after .lastrow call).mpr ⟨_, added⟩
  cases fine

/-- A pair of eight bytes is inserted and reported. -/
theorem added_pair_reported :
    ∃ server after, InsertCall smallDisk.paging.handle server 0 8
        (some (bytesOf 4 0 ++ bytesOf 4 5)) after .ok ∧
      ∃ bytes, after.table.rows = server.table.rows ++ [bytes] := by
  obtain ⟨server, run, seen⟩ := replay_run addressed pairsServer
    (fromFirst [.control .select]) [.status .ok]
    (fun server => decide (server.table.layout.rowLen = 8 ∧ server.table.Addressable ∧
      ((smallDisk.paging.handle server 0 (insertPair 5)).map fun answer => answer.2) =
        .ok (.written 8)))
    true (by decide +kernel)
  obtain ⟨rowLen, place, answered⟩ := of_decide_eq_true seen
  obtain ⟨⟨after, reply⟩, done, written⟩ := map_eq_ok.mp answered
  have written : reply = .written 8 := written
  subst written
  have call : InsertCall smallDisk.paging.handle server 0 8 (some (bytesOf 4 0 ++ bytesOf 4 5))
      after .ok := .written (by decide) done .nil rfl
  have fits : FitsRow server 0 8 := fun _ => Nat.le_of_eq rowLen.symm
  have told := (calls_tell_client smallDisk_documented
    ⟨pairsServer_begun, run_guarded run, place⟩ 0 8).2.1 fits (some (bytesOf 4 0 ++ bytesOf 4 5))
  exact ⟨server, after, call, (told.right after .ok call).mp rfl⟩

end QNXStuff.QXBase
