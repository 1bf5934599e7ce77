import QNXStuff.QXBase.DiskRuns

/-! `FETCHRST` and then `FETCH` until no row arrives. -/

namespace QNXStuff.QXBase

open Execution Memory

/-- The rows that the filters let through, with their positions, up to the first that
breaks a strict rule. -/
def deliver (filters : List Filter) : List Row → Nat → List (Row × Nat)
  | [], _ => []
  | row :: rest, position =>
    match dataFilter filters row with
    | .pass => (row, position) :: deliver filters rest (position + 1)
    | .skip => deliver filters rest (position + 1)
    | .broken => []

/-- `FETCH` until no row arrives: the rows, and the positions they were read from. -/
def fetchAll (handle : Handler) (conn : ConnId) (nbytes : Nat) :
    Nat → Server → Except Fault (Server × List (Row × Nat))
  | 0, _ => .error .hang
  | fuel + 1, server =>
    match handle server conn (.fetch nbytes) with
    | .error fault => .error fault
    | .ok (server, .row (some row)) =>
      (fetchAll handle conn nbytes fuel server).map fun rest =>
        (rest.1, (row, (server.ocbs conn).record - 1) :: rest.2)
    | .ok (server, _) => .ok (server, [])

section Deliver

variable {filters : List Filter}

theorem scanRows_deliver {rows : List Row} {start : Nat} :
    match scanRows filters (rows.getD · []) (rows.length - start) start with
    | (row, .pass) => row < rows.length ∧
        deliver filters (rows.drop start) start =
          (rows.getD row [], row) :: deliver filters (rows.drop (row + 1)) (row + 1)
    | _ => deliver filters (rows.drop start) start = [] := by
  generalize length : rows.length - start = count
  induction count generalizing start with
  | zero =>
    have none : rows.drop start = [] := List.drop_eq_nil_of_le (by omega)
    simp only [scanRows, none, deliver]
  | succ count ih =>
    have inside : start < rows.length := by omega
    have first : rows.getD start [] = rows[start] := List.getD_eq_getElem _ _ inside
    have further := @ih (start + 1) (by omega)
    rw [List.drop_eq_getElem_cons inside]
    simp only [scanRows, deliver, first]
    cases dataFilter filters rows[start] with
    | pass => exact ⟨inside, by rw [first]⟩
    | broken => rfl
    | skip => exact further

/-- One `FETCH` delivers the next row, or reports that there is none. -/
theorem flatRead_deliver {rows : List Row} {ocb : Ocb} (inside : ocb.record ≤ rows.length) :
    (∃ position, ocb.record ≤ position ∧ position < rows.length ∧
      deliver ocb.filters (rows.drop ocb.record) ocb.record =
        (rows.getD position [], position) ::
          deliver ocb.filters (rows.drop (position + 1)) (position + 1) ∧
      flatRead rows rows.length ocb =
        ({ ocb with record := position + 1, qerrno := .ok }, some (rows.getD position []))) ∨
    (deliver ocb.filters (rows.drop ocb.record) ocb.record = [] ∧
      ∃ record, flatRead rows rows.length ocb =
        ({ ocb with record := record, qerrno := .lastrow }, none)) := by
  have next := @scanRows_deliver ocb.filters rows ocb.record
  obtain ⟨above, _, skipped, _⟩ := scanRows_bounds (rows.length - ocb.record) ocb.record
  unfold flatRead
  by_cases more : ocb.record < rows.length
  · rw [if_pos more]
    cases scan : scanRows ocb.filters (rows.getD · []) (rows.length - ocb.record) ocb.record with
    | mk row verdict =>
      rw [scan] at next above skipped
      cases verdict with
      | pass => exact .inl ⟨row, above, next.1, next.2, rfl⟩
      | broken => exact .inr ⟨next, row, rfl⟩
      | skip =>
        have ending : row = ocb.record + (rows.length - ocb.record) := skipped rfl
        refine .inr ⟨next, row, ?_⟩
        rw [readOutcome, if_neg (by omega)]
  · rw [if_neg more]
    have none : rows.drop ocb.record = [] := List.drop_eq_nil_of_le (by omega)
    rw [none]
    exact .inr ⟨rfl, ocb.record, rfl⟩

theorem applyFilters_plain (plain : ∀ condition ∈ filters, condition.strict = false) (row : Row) :
    applyFilters row filters =
      if filters.all fun condition => condition.accepts row then .pass else .skip := by
  induction filters with
  | nil => rfl
  | cons condition rest ih =>
    have relaxed := plain condition List.mem_cons_self
    have further := ih fun other member => plain other (List.mem_cons_of_mem _ member)
    cases accepts : condition.accepts row with
    | true => simp [applyFilters, accepts, further]
    | false => simp [applyFilters, accepts, relaxed]

/-- A row that is delivered: its key is not zero and every rule accepts it. -/
def wanted (filters : List Filter) (row : Row) : Bool :=
  decide (keyOf row ≠ 0) && filters.all fun condition => condition.accepts row

theorem dataFilter_plain (plain : ∀ condition ∈ filters, condition.strict = false) (row : Row) :
    dataFilter filters row = if wanted filters row then .pass else .skip := by
  unfold dataFilter wanted
  by_cases dead : keyOf row = 0
  · simp [dead]
  · simp [dead, applyFilters_plain plain]

/-- Without strict rules every row is looked at. -/
theorem deliver_plain (plain : ∀ condition ∈ filters, condition.strict = false) (rows : List Row)
    (start : Nat) :
    deliver filters rows start =
      (rows.zipIdx start).filter fun entry => wanted filters entry.1 := by
  induction rows generalizing start with
  | nil => rfl
  | cons row rest ih =>
    rw [List.zipIdx_cons, List.filter_cons, deliver, dataFilter_plain plain]
    cases wanted filters row with
    | true => simp [ih]
    | false => simp [ih]

theorem wanted_perm {filters other : List Filter} (same : filters.Perm other) (row : Row) :
    wanted filters row = wanted other row := by
  unfold wanted
  rw [same.all_eq]

end Deliver

/-! ### The loop of the client -/

/-- A server with a clean pool whose counter is the number of rows, and a connection
that may read. -/
structure Readable (server : Server) (conn : ConnId) : Prop where
  counted : server.Counted
  clean : server.table.AllClean
  selected : (server.ocbs conn).selected = true

section FetchAll

variable {server : Server} {conn : ConnId} {nbytes : Nat}

/-- One `FETCH` of a clean table. -/
theorem fetch_clean (ready : Readable server conn) (room : server.table.layout.rowLen ≤ nbytes) :
    ∃ table, table.Ok ∧ Kept server.table table ∧ table.rows = server.table.rows ∧
      table.AllClean ∧
      server.handle conn (.fetch nbytes) =
        .ok
          ({ table := table
             ocbs := Function.update server.ocbs conn
              (flatRead server.table.rows server.table.rows.length (server.ocbs conn)).1 },
            .row (flatRead server.table.rows server.table.rows.length (server.ocbs conn)).2) := by
  have index : server.table.index = server.table.rows.length := by
    rw [ready.counted.counted, Table.rows_length]
  obtain ⟨saved, clean⟩ := read_clean ready.counted.pool ready.clean
  obtain ⟨table, done, ok, kept, rows⟩ :=
    read_loop ready.counted.pool (Nat.le_of_eq ready.counted.counted.symm) saved
  obtain ⟨_, visited⟩ := clean _ _ done
  have read : qbaseRead server.table (server.ocbs conn) nbytes = _ :=
    (if_neg (by simp [ready.selected])).trans (if_neg (Nat.not_lt.mpr room))
  refine ⟨table, ok, kept, rows, visited.holds, ?_⟩
  unfold Server.handle
  dsimp only
  rw [read, done, index]
  rfl

/-- The loop delivers the rows from the position of the connection on, and ends with
`QBASE_E_LASTROW`. -/
theorem fetchAll_spec (fuel : Nat) (ready : Readable server conn)
    (room : server.table.layout.rowLen ≤ nbytes)
    (inside : (server.ocbs conn).record ≤ server.table.rows.length)
    (enough : server.table.rows.length - (server.ocbs conn).record < fuel) :
    ∃ final, fetchAll Server.handle conn nbytes fuel server =
        .ok (final, deliver (server.ocbs conn).filters
          (server.table.rows.drop (server.ocbs conn).record) (server.ocbs conn).record) ∧
      (final.ocbs conn).qerrno = .lastrow ∧ Readable final conn ∧
      final.table.rows = server.table.rows := by
  induction fuel generalizing server with
  | zero => omega
  | succ fuel ih =>
    obtain ⟨table, ok, kept, rows, clean, answered⟩ := fetch_clean ready room
    have readable {ocb : Ocb} (selected : ocb.selected = true) :
        Readable { table := table, ocbs := Function.update server.ocbs conn ocb } conn :=
      ⟨⟨ok, counted_of_kept ready.counted.counted kept⟩, clean, by
        simp only [Function.update_self, selected]⟩
    simp only [fetchAll, answered]
    rcases flatRead_deliver inside with
      ⟨position, above, below, delivered, read⟩ | ⟨none, record, read⟩
    · rw [read, delivered]
      have moved : Readable
          { table := table
            ocbs := Function.update server.ocbs conn
              { server.ocbs conn with record := position + 1, qerrno := .ok } } conn :=
        readable ready.selected
      obtain ⟨final, done, ending, ready', rows'⟩ := ih moved (by rwa [kept.layout])
        (by simp only [Function.update_self, rows]; omega)
        (by simp only [Function.update_self, rows]; omega)
      simp only [Function.update_self, rows] at done ending rows'
      refine ⟨final, ?_, ending, ready', rows'⟩
      simp only [done, Function.update_self]
      rfl
    · rw [read, none]
      exact ⟨_, rfl, by simp only [Function.update_self], readable ready.selected, rows⟩

/-- `FETCHRST` and `FETCH` until no row arrives. -/
def fetchReset (handle : Handler) (conn : ConnId) (nbytes : Nat) (server : Server) :
    Except Fault (Server × List (Row × Nat)) :=
  match handle server conn (.control .fetchrst) with
  | .error fault => .error fault
  | .ok (server, _) => fetchAll handle conn nbytes (server.table.stored + 1) server

/-- From any position all rows that the filters let through are delivered. -/
theorem fetchReset_spec (nbytes : Nat) (ready : Readable server conn)
    (room : server.table.layout.rowLen ≤ nbytes) :
    ∃ final, fetchReset Server.handle conn nbytes server =
        .ok (final, deliver (server.ocbs conn).filters server.table.rows 0) ∧
      (final.ocbs conn).qerrno = .lastrow ∧ Readable final conn ∧
      final.table.rows = server.table.rows := by
  have reset : server.handle conn (.control .fetchrst) =
      .ok ({ server with
        ocbs := Function.update server.ocbs conn
          { server.ocbs conn with record := 0, qerrno := .ok } }, .status .ok) := by
    unfold Server.handle control
    simp only [ready.selected, ↓reduceIte]
    rfl
  have ready' : Readable { server with
      ocbs := Function.update server.ocbs conn
        { server.ocbs conn with record := 0, qerrno := .ok } } conn :=
    ⟨⟨ready.counted.pool, ready.counted.counted⟩, ready.clean, by
      simp only [Function.update_self, ready.selected]⟩
  have fetched := fetchAll_spec (server.table.stored + 1) ready' room
    (by simp only [Function.update_self]; exact Nat.zero_le _)
    (by simp only [Function.update_self, Table.rows_length]; omega)
  simp only [Function.update_self, List.drop_zero] at fetched
  unfold fetchReset
  rw [reset]
  exact fetched

variable {storage : Storage} (documented : storage.Documented) (counted : server.Counted)
  (fits : server.table.Addressable)
include documented counted fits

theorem fetchAll_eq (fuel : Nat) : fetchAll storage.paging.handle conn nbytes fuel server =
    fetchAll Server.handle conn nbytes fuel server := by
  induction fuel generalizing server with
  | zero => rfl
  | succ fuel ih =>
    unfold fetchAll
    rw [documented.handle_eq counted fits]
    cases answered : server.handle conn (.fetch nbytes) with
    | error fault => rfl
    | ok answer =>
      obtain ⟨next, reply⟩ := answer
      have received : Received server conn (.fetch nbytes) := trivial
      have further := ih (handle_counted counted received answered).counted
        (handle_addressable counted fits answered nofun nofun)
      cases reply with
      | row row =>
        cases row with
        | none => rfl
        | some row => simp only [further]
      | _ => rfl

/-- On a disk the same rows are fetched as long as all pages have their places. -/
theorem fetchReset_eq : fetchReset storage.paging.handle conn nbytes server =
    fetchReset Server.handle conn nbytes server := by
  unfold fetchReset
  rw [documented.handle_eq counted fits]
  cases answered : server.handle conn (.control .fetchrst) with
  | error fault => rfl
  | ok answer =>
    obtain ⟨next, reply⟩ := answer
    have received : Received server conn (.control .fetchrst) := trivial
    exact fetchAll_eq documented (handle_counted counted received answered).counted
      (handle_addressable counted fits answered nofun nofun) _

end FetchAll

/-! ### Runs -/

/-- The client gets the rows it asks for, in order, and is told that there are no more. -/
def FetchesWanted (handle : Handler) (server : Server) (conn : ConnId) (nbytes : Nat) : Prop :=
  ∃ final, fetchReset handle conn nbytes server =
      .ok (final, (server.table.rows.zipIdx).filter fun entry =>
        wanted (server.ocbs conn).filters entry.1) ∧
    (final.ocbs conn).qerrno = .lastrow

/-- Two connections with the same rules, pushed in any order, get the same rows. -/
def FetchesAlike (handle : Handler) (server : Server) (conn other : ConnId) (nbytes : Nat) : Prop :=
  (fetchReset handle conn nbytes server).map Prod.snd =
    (fetchReset handle other nbytes server).map Prod.snd

/-- In a run in which every row arrives and every page has its place, a table without unwritten
changes is read as a whole, whatever the order of the rules. -/
theorem fetch_delivers_wanted_rows {storage : Storage} {start server : Server}
    {exchanges : List Exchange} {conn : ConnId} {nbytes : Nat} (documented : storage.Documented)
    (reached : AddressedRun storage start exchanges server) (clean : server.table.AllClean)
    (selected : (server.ocbs conn).selected = true) (room : server.table.layout.rowLen ≤ nbytes)
    (plain : ∀ condition ∈ (server.ocbs conn).filters, condition.strict = false) :
    FetchesWanted storage.paging.handle server conn nbytes ∧
      ∀ other, (server.ocbs other).selected = true →
        (server.ocbs conn).filters.Perm (server.ocbs other).filters →
        FetchesAlike storage.paging.handle server conn other nbytes := by
  have counted := (reached.checked documented).2
  have fetched (conn : ConnId) := @fetchReset_eq server conn nbytes _ documented counted reached.fits
  unfold FetchesWanted FetchesAlike
  simp only [fetched]
  obtain ⟨final, done, ending, _⟩ := fetchReset_spec _ ⟨counted, clean, selected⟩ room
  rw [deliver_plain plain] at done
  refine ⟨⟨final, done, ending⟩, fun other selected' same => ?_⟩
  obtain ⟨final', done', _⟩ := fetchReset_spec _ ⟨counted, clean, selected'⟩ room
  have plain' : ∀ condition ∈ (server.ocbs other).filters, condition.strict = false :=
    fun condition member => plain condition (same.mem_iff.mpr member)
  rw [deliver_plain plain'] at done'
  simp only [done, done', wanted_perm same]
  rfl

def onePair : List Request := [.control .select, insertPair 5, .insert 8 [], .tblflush]

/-- The client gets the pair and is never told that there are no more. -/
theorem one_pair_fetched :
    ∃ server exchanges, Run (StorageStep smallDisk) pairsServer exchanges server ∧
      server.table.AllClean ∧ server.ocbs 0 = { Ocb.calloc with selected := true } ∧
      server.table.Addressable ∧
      (fetchReset smallDisk.paging.handle 0 8 server).map
        (fun ending => (ending.1.ocbs 0).qerrno) = .ok .ok := by
  obtain ⟨server, run, seen⟩ := replay_run
    (fun (server : Server) (input : ConnId × Request) =>
      smallDisk.paging.handle server input.1 input.2)
    pairsServer (fromFirst onePair)
    [.status .ok, .written 8, .written 0, .status .ok]
    (fun server => ((server.table.refs.all fun ref => !(server.table.body ref).needSync) &&
      decide server.table.Addressable, server.ocbs 0,
      (fetchReset smallDisk.paging.handle 0 8 server).map fun ending => (ending.1.ocbs 0).qerrno))
    (true, { Ocb.calloc with selected := true }, .ok .ok) (by decide +kernel)
  simp only [Prod.mk.injEq, Bool.and_eq_true, decide_eq_true_eq, List.all_eq_true,
    Bool.not_eq_true'] at seen
  obtain ⟨⟨clean, fits⟩, ocb, fetched⟩ := seen
  exact ⟨server, _, run, clean, ocb, fits, fetched⟩

/-- A client that fetches until it is told that there are no more rows fetches on. -/
theorem fetch_ends_without_lastrow :
    ∃ server exchanges, Begun smallDisk pairsServer ∧
      Run (StorageStep smallDisk) pairsServer exchanges server ∧ server.table.AllClean ∧
      server.table.Addressable ∧ (server.ocbs 0).selected = true ∧
      (server.ocbs 0).filters = [] ∧ ¬ FetchesWanted smallDisk.paging.handle server 0 8 := by
  obtain ⟨server, exchanges, run, clean, ocb, fits, fetched⟩ := one_pair_fetched
  refine ⟨server, exchanges, pairsServer_begun, run, clean, fits, by rw [ocb], by rw [ocb]; rfl, ?_⟩
  rintro ⟨final, done, ending⟩
  rw [done] at fetched
  have stale : (final.ocbs 0).qerrno = .ok := Except.ok.inj fetched
  rw [stale] at ending
  cases ending

/-- A pair is inserted, written back and read. -/
theorem fetch_delivers_a_pair :
    ∃ server, server.table.stored = 1 ∧ FetchesWanted smallDisk.paging.handle server 0 8 := by
  obtain ⟨exchanges, server, reached, clean, ocb, rowLen, stored, _⟩ := stored_pair
  exact ⟨server, stored, (fetch_delivers_wanted_rows smallDisk_documented reached clean
    (by rw [ocb]) (by rw [rowLen]) (by rw [ocb]; nofun)).1⟩

end QNXStuff.QXBase
