import QNXStuff.QXBase.Handlers
import QNXStuff.Library.LinkedList

/-! The list of loaded tables: `TBLCREATE`, `TBLSELECT`, the end of a connection, and
what the error exits of the first two leave of the list. -/

namespace QNXStuff.QXBase

open Execution LinkedList

abbrev TableRef := Nat

/-- A pointer field: NULL, what it points to, or what `malloc` left in a fresh block. -/
inductive Pointer (α : Type) where
  | null
  | to (target : α)
  | wild

/-- `Qbase_table_t` with the fields that the list of tables and the release of a table
use. `hFile` is the name of the open header file, `none` for the values 0 and -1. -/
structure TableEntry where
  table : Pointer TableDesc
  pages : Pointer Unit
  next : Option TableRef
  prev : Option TableRef
  locks : Nat
  hFile : Option String

structure HeaderFile where
  size : Nat
  desc : TableDesc

/-- `struct Qbase_ocb` -/
structure Connection where
  table : Option TableRef
  qerrno : ErrorCode
  record : Nat
  filters : List Filter
  deriving DecidableEq

/-- `Qbase_OCB_calloc` -/
def Connection.calloc : Connection where
  table := none
  qerrno := .ok
  record := 0
  filters := []

/-- The global list `Tables`, the entries it is made of, the header files and the
connections. `fresh` is the entry `malloc` hands out next, with arbitrary contents. -/
structure TableServer where
  heap : TableRef → TableEntry
  fresh : TableRef
  tables : Option TableRef
  files : String → Option HeaderFile
  conns : ConnId → Connection

namespace TableServer

def setEntry (server : TableServer) (ref : TableRef) (entry : TableEntry) : TableServer :=
  { server with heap := Function.update server.heap ref entry }

def setConn (server : TableServer) (conn : ConnId) (ocb : Connection) : TableServer :=
  { server with conns := Function.update server.conns conn ocb }

def setLocks (server : TableServer) (ref : TableRef) (locks : Nat) : TableServer :=
  server.setEntry ref { server.heap ref with locks := locks }

/-- The loaded tables in list order. -/
def loaded (server : TableServer) : List TableRef :=
  walk (fun ref => (server.heap ref).next) (server.fresh + 1) server.tables

end TableServer

/-! ### Releasing a table -/

/-- `Qbase_TableSync` as far as it concerns the header file. -/
def syncHeader (server : TableServer) (entry : TableEntry) : Except Fault TableServer :=
  match entry.table, entry.hFile with
  | .null, _ => .ok server
  | _, none => .ok server
  | .wild, some _ => .error .wild
  | .to desc, some name =>
    let size := ((server.files name).map HeaderFile.size).getD 0
    let header : HeaderFile := { size := max size desc.size, desc := desc }
    .ok { server with files := Function.update server.files name (some header) }

/-- `if( before != NULL ) before->Next = target; else Tables = target;` -/
def TableServer.redirectNext (server : TableServer) (before target : Option TableRef) :
    TableServer :=
  match before with
  | some ref => server.setEntry ref { server.heap ref with next := target }
  | none => { server with tables := target }

/-- `if( after != NULL ) after->Prev = target;` -/
def TableServer.redirectPrev (server : TableServer) (after target : Option TableRef) :
    TableServer :=
  match after with
  | some ref => server.setEntry ref { server.heap ref with prev := target }
  | none => server

/-- "fix global tables list" -/
def fixTables (server : TableServer) (ref : TableRef) : TableServer :=
  let entry := server.heap ref
  let server := server.redirectNext entry.prev entry.next
  let entry := server.heap ref
  server.redirectPrev entry.next entry.prev

def tableRelease (server : TableServer) (ref : TableRef) : Except Fault TableServer :=
  let entry := server.heap ref
  match syncHeader server entry with
  | .error fault => .error fault
  | .ok server =>
    match entry.table, entry.pages with
    | .wild, _ => .error .wild
    | _, .wild => .error .wild
    | _, _ => .ok (fixTables server ref)

/-- `atomic_sub` of the locks of the table a connection has selected, and its release when
that was the last connection. -/
def leaveTable (server : TableServer) (conn : ConnId) : Except Fault TableServer :=
  match (server.conns conn).table with
  | none => .ok server
  | some old =>
    let locks := ((server.heap old).locks + (2 ^ 32 - 1)) % 2 ^ 32
    let server := server.setLocks old locks
    if locks = 0 then tableRelease server old else .ok server

/-- "add table to tables list" -/
def addTable (server : TableServer) (ref : TableRef) : TableServer :=
  let head := server.tables
  let server := server.setEntry ref { server.heap ref with next := head }
  { server.redirectPrev head (some ref) with tables := some ref }

/-! ### The requests -/

/-- How the calls of a request that may fail end: opening a header file that is there, the
four `malloc`s, and creating a header file. -/
structure Outcomes where
  opens : Bool
  entry : Bool
  desc : Bool
  page : Bool
  data : Bool
  creates : Bool

/-- A failed request gives the table entry back. -/
def releaseFailed (server : TableServer) (ref : TableRef) (code : ErrorCode) :
    Except Fault (TableServer × ErrorCode) :=
  (tableRelease server ref).map (·, code)

/-- The loop over the loaded tables. -/
def findTable (server : TableServer) (name : String) :
    Nat → Option TableRef → Except Fault (Option TableRef)
  | _, none => .ok none
  | 0, some _ => .error .hang
  | fuel + 1, some ref =>
    match (server.heap ref).table with
    | .to desc =>
      if desc.name = name then .ok (some ref)
      else findTable server name fuel (server.heap ref).next
    | _ => .error .wild

/-- `QBASE_CMD_TBLSELECT` of a loaded table. A connection that comes from another table
loses its filters. -/
def selectLoaded (server : TableServer) (conn : ConnId) (curTbl : TableRef) :
    Except Fault (TableServer × ErrorCode) :=
  let ocb := server.conns conn
  if ocb.table = some curTbl then .ok (server, .ok)
  else
    match leaveTable server conn with
    | .error fault => .error fault
    | .ok server =>
      let filters := if ocb.table = none then ocb.filters else []
      let server := server.setConn conn { ocb with table := some curTbl, filters := filters }
      .ok (server.setLocks curTbl (((server.heap curTbl).locks + 1) % 2 ^ 32), .ok)

/-- The end of the two requests that bring a new table. -/
def enterTable (server : TableServer) (conn : ConnId) (curTbl : TableRef) : TableServer :=
  server.setConn conn { server.conns conn with table := some curTbl, record := 0, filters := [] }

/-- `QBASE_CMD_TBLSELECT` from the header file. The new entry keeps what `malloc` left in its
fields until they are set. -/
def selectFile (server : TableServer) (conn : ConnId) (outcomes : Outcomes) (name : String)
    (header : HeaderFile) : Except Fault (TableServer × ErrorCode) :=
  let curTbl := server.fresh
  let entry : TableEntry :=
    { server.heap curTbl with next := none, prev := none, locks := 1, hFile := some name }
  let server := { server with fresh := server.fresh + 1 }
  if header.size = 0 then releaseFailed (server.setEntry curTbl entry) curTbl .mem
  else if outcomes.desc = false then
    releaseFailed (server.setEntry curTbl { entry with table := .null }) curTbl .mem
  else
    let entry := { entry with table := .to header.desc }
    if outcomes.page = false then
      releaseFailed (server.setEntry curTbl { entry with pages := .null }) curTbl .mem
    else
      let server := server.setEntry curTbl { entry with pages := .to () }
      if outcomes.data = false then releaseFailed server curTbl .mem
      else if header.desc.pageRows = 0 then .error .trap
      else
        (leaveTable (addTable server curTbl) conn).map
          fun server => (enterTable server conn curTbl, .ok)

/-- `QBASE_CMD_TBLSELECT`; 32 is `QBASE_TAB_NAMELEN`. -/
def tblselect (server : TableServer) (conn : ConnId) (outcomes : Outcomes) (nbytes : Nat)
    (name : String) : Except Fault (TableServer × ErrorCode) :=
  if 32 < nbytes then .ok (server, .buf)
  else
    match findTable server name (server.fresh + 1) server.tables with
    | .error fault => .error fault
    | .ok (some curTbl) => selectLoaded server conn curTbl
    | .ok none =>
      match server.files name with
      | none => .ok (server, .notblexist)
      | some header =>
        if outcomes.opens = false then .ok (server, .notblexist)
        else if outcomes.entry = false then .ok (server, .mem)
        else selectFile server conn outcomes name header

/-- `QBASE_CMD_TBLCREATE` of a table that does not exist. -/
def createNew (server : TableServer) (conn : ConnId) (outcomes : Outcomes) (desc : TableDesc) :
    Except Fault (TableServer × ErrorCode) :=
  let curTbl := server.fresh
  let entry : TableEntry :=
    { server.heap curTbl with next := none, prev := none, locks := 1, hFile := none }
  let server := { server with fresh := server.fresh + 1 }
  if outcomes.desc = false then
    releaseFailed (server.setEntry curTbl { entry with table := .null }) curTbl .mem
  else
    let entry := { entry with table := .to desc }
    if desc.lockPages < 3 then releaseFailed (server.setEntry curTbl entry) curTbl .fewplocks
    else if outcomes.page = false then
      releaseFailed (server.setEntry curTbl { entry with pages := .null }) curTbl .mem
    else
      let entry := { entry with pages := .to () }
      if outcomes.data = false then releaseFailed (server.setEntry curTbl entry) curTbl .mem
      else
        let header : HeaderFile := { size := desc.size, desc := desc }
        let created :=
          if outcomes.creates then
            { server with files := Function.update server.files desc.name (some header) }
          else server
        let hFile := if outcomes.creates then some desc.name else none
        (leaveTable (created.setEntry curTbl { entry with hFile := hFile }) conn).map
          fun server => (enterTable (addTable server curTbl) conn curTbl, .ok)

/-- `QBASE_CMD_TBLCREATE`; 80 is `sizeof(Qbase_table_desc_t)`. -/
def tblcreate (server : TableServer) (conn : ConnId) (outcomes : Outcomes) (nbytes : Nat)
    (desc : TableDesc) : Except Fault (TableServer × ErrorCode) :=
  if nbytes < 80 then .ok (server, .buf)
  else if (server.files desc.name).isSome ∧ outcomes.opens = true then .ok (server, .already)
  else if outcomes.entry = false then .ok (server, .mem)
  else createNew server conn outcomes desc

inductive TableRequest where
  | tblselect (nbytes : Nat) (name : String)
  | tblcreate (nbytes : Nat) (desc : TableDesc)
  | close

/-- `Qbase_OCB_free`, and a new connection with the same number. -/
def closeConn (server : TableServer) (conn : ConnId) : Except Fault (TableServer × ErrorCode) :=
  (leaveTable server conn).map fun server => (server.setConn conn Connection.calloc, .ok)

/-- One request with its outcomes; the end of `Qbase_devctl` keeps the code in `Qerrno`. -/
def TableServer.handle (server : TableServer) (conn : ConnId) (outcomes : Outcomes) :
    TableRequest → Except Fault (TableServer × ErrorCode)
  | .tblselect nbytes name => (tblselect server conn outcomes nbytes name).map keep
  | .tblcreate nbytes desc => (tblcreate server conn outcomes nbytes desc).map keep
  | .close => closeConn server conn
where
  keep : TableServer × ErrorCode → TableServer × ErrorCode := fun (server, code) =>
    (server.setConn conn { server.conns conn with qerrno := code }, code)

/-! ### The requests about rows -/

/-- `Qbase_write` as far as it concerns the descriptor and the connection. -/
def countInserted (server : TableServer) (conn : ConnId) (nbytes : Nat) (arrived : Bool) :
    Except Fault (TableServer × ErrorCode) :=
  let ocb := server.conns conn
  match ocb.table with
  | none => .ok (server.setConn conn { ocb with qerrno := .notblsel }, .notblsel)
  | some ref =>
    match (server.heap ref).table with
    | .to desc =>
      if nbytes < desc.rowLen then .ok (server.setConn conn { ocb with qerrno := .buf }, .buf)
      else
        let index := (desc.index + 1) % 2 ^ 32
        let server := server.setEntry ref
          { server.heap ref with table := .to { desc with index := index } }
        if arrived then
          .ok (server.setConn conn { ocb with record := (index + (2 ^ 32 - 1)) % 2 ^ 32 }, .ok)
        else .ok (server.setConn conn { ocb with qerrno := .ins }, .ins)
    | _ => .error .wild

/-- The connection as the handlers of one table know it. -/
def Connection.ocb (ocb : Connection) : Ocb :=
  ⟨ocb.table.isSome, ocb.qerrno, ocb.record, ocb.filters⟩

/-- A command that leaves the connection its table. -/
def Control.keepsTable : Control → Bool
  | .select | .leave _ => false
  | _ => true

/-- The commands that read nothing of the table but its descriptor, and nothing at all of it when no
table is selected. -/
def controlRows (server : TableServer) (conn : ConnId) (request : Control) :
    Except Fault (TableServer × ErrorCode) :=
  let ocb := server.conns conn
  let answer (desc : TableDesc) : Except Fault (TableServer × ErrorCode) :=
    (control desc ocb.ocb request).map fun (next, _) =>
      (server.setConn conn
        { ocb with qerrno := next.qerrno, record := next.record, filters := next.filters },
        next.qerrno)
  match ocb.table with
  | none => answer (newTbldesc 0 0 0 "")
  | some ref =>
    match (server.heap ref).table with
    | .to desc => answer desc
    | _ => .error .wild

/-- What a request that goes over the rows leaves of the connection: where a `FETCH` has stopped, and
the code that it, an `UPDATE`, an `UPDCUR` or a `DELETE` ends with. -/
def scanEnd (server : TableServer) (conn : ConnId) (record : Nat) (code : ErrorCode) :
    TableServer × ErrorCode :=
  let ocb := server.conns conn
  match ocb.table with
  | none => (server.setConn conn { ocb with qerrno := .notblsel }, .notblsel)
  | some _ => (server.setConn conn { ocb with record := record, qerrno := code }, code)

/-- `QBASE_CMD_TBLFLUSH` as far as it concerns the header file. -/
def flushHeader (server : TableServer) (conn : ConnId) : Except Fault (TableServer × ErrorCode) :=
  let ocb := server.conns conn
  match ocb.table with
  | none => .ok (server.setConn conn { ocb with qerrno := .notblsel }, .notblsel)
  | some ref =>
    (syncHeader server (server.heap ref)).map fun server =>
      (server.setConn conn { ocb with qerrno := .ok }, .ok)

/-- What clients do: the requests that concern the list of tables, `INSERT`, whose row arrives or
not, and the other requests about rows. -/
inductive TableEvent where
  | request (outcomes : Outcomes) (request : TableRequest)
  | insert (nbytes : Nat) (arrived : Bool)
  | control (request : Control) (kept : request.keepsTable = true)
  | scan (record : Nat) (code : ErrorCode)
  | flush

def TableServer.serve (server : TableServer) (conn : ConnId) :
    TableEvent → Except Fault (TableServer × ErrorCode)
  | .request outcomes request => server.handle conn outcomes request
  | .insert nbytes arrived => countInserted server conn nbytes arrived
  | .control request _ => controlRows server conn request
  | .scan record code => .ok (scanEnd server conn record code)
  | .flush => flushHeader server conn

def ServeStep : TableServer → (ConnId × TableEvent) × ErrorCode → TableServer → Prop :=
  Answers fun server input => server.serve input.1 input.2

/-- No table is loaded and no connection has one selected. -/
structure TableServer.Start (server : TableServer) : Prop where
  tables : server.tables = none
  conns : server.conns = fun _ => Connection.calloc

/-! ### Error exits -/

/-- The request fails after it has got a new table entry. -/
def HalfBuilt (server : TableServer) (outcomes : Outcomes) : TableRequest → Prop
  | .tblselect nbytes name => nbytes ≤ 32 ∧
      findTable server name (server.fresh + 1) server.tables = .ok none ∧
      (server.files name).isSome ∧ outcomes.opens = true ∧ outcomes.entry = true
  | .tblcreate nbytes desc => 80 ≤ nbytes ∧
      ¬ ((server.files desc.name).isSome ∧ outcomes.opens = true) ∧ outcomes.entry = true
  | .close => False

/-- What a failed request should leave of the server. -/
structure Undone (server next : TableServer) (conn : ConnId) : Prop where
  loaded : next.loaded = server.loaded
  locks : ∀ ref ∈ server.loaded, (next.heap ref).locks = (server.heap ref).locks
  table : (next.conns conn).table = (server.conns conn).table
  record : (next.conns conn).record = (server.conns conn).record
  filters : (next.conns conn).filters = (server.conns conn).filters

section Errors

variable {server next : TableServer} {conn : ConnId} {outcomes : Outcomes} {code : ErrorCode}

/-- Releasing an entry that is not in the list ends the list. -/
theorem tableRelease_unlinked {ref : TableRef} (server : TableServer)
    (unlinkedNext : (server.heap ref).next = none)
    (unlinkedPrev : (server.heap ref).prev = none)
    (released : tableRelease server ref = .ok next) :
    next.tables = none ∧ next.conns = server.conns := by
  have fixed : ∀ synced : TableServer, synced.heap = server.heap →
      (fixTables synced ref).tables = none ∧ (fixTables synced ref).conns = synced.conns := by
    intro synced same
    constructor
    · simp only [fixTables, TableServer.redirectNext, TableServer.redirectPrev, same,
        unlinkedPrev, unlinkedNext]
    · simp only [fixTables, TableServer.redirectNext, TableServer.redirectPrev, same,
        unlinkedPrev, unlinkedNext]
  have synced : ∀ synced, syncHeader server (server.heap ref) = .ok synced →
      synced.heap = server.heap ∧ synced.conns = server.conns := by
    intro synced done
    unfold syncHeader at done
    split at done <;> cases done <;> exact ⟨rfl, rfl⟩
  unfold tableRelease at released
  dsimp only at released
  cases done : syncHeader server (server.heap ref) with
  | error fault =>
    rw [done] at released
    cases released
  | ok after =>
    obtain ⟨heap, conns⟩ := synced after done
    rw [done] at released
    simp only at released
    split at released
    · cases released
    · cases released
    · cases released
      obtain ⟨tables, same⟩ := fixed after heap
      exact ⟨tables, same.trans conns⟩

/-- What every exit that releases the new entry leaves. -/
theorem releaseFailed_spec {ref : TableRef} {entry : TableEntry} {exit : ErrorCode}
    (server : TableServer) (unlinkedNext : entry.next = none) (unlinkedPrev : entry.prev = none)
    (done : releaseFailed (server.setEntry ref entry) ref exit = .ok (next, code)) :
    next.tables = none ∧ next.conns = server.conns := by
  unfold releaseFailed at done
  cases released : tableRelease (server.setEntry ref entry) ref with
  | error fault =>
    rw [released] at done
    cases done
  | ok after =>
    rw [released] at done
    cases done
    have here : (server.setEntry ref entry).heap ref = entry := Function.update_self ..
    exact tableRelease_unlinked (server.setEntry ref entry) (by rw [here, unlinkedNext])
      (by rw [here, unlinkedPrev]) released

theorem selectLoaded_ok {curTbl : TableRef}
    (done : selectLoaded server conn curTbl = .ok (next, code)) : code = .ok := by
  unfold selectLoaded at done
  dsimp only at done
  split at done
  · cases done
    rfl
  · split at done
    · cases done
    · cases done
      rfl

theorem selectFile_error {name : String} {header : HeaderFile} (failed : code ≠ .ok)
    (done : selectFile server conn outcomes name header = .ok (next, code)) :
    next.tables = none ∧ next.conns = server.conns := by
  unfold selectFile at done
  dsimp only at done
  split at done
  · exact releaseFailed_spec { server with fresh := server.fresh + 1 } rfl rfl done
  · split at done
    · exact releaseFailed_spec { server with fresh := server.fresh + 1 } rfl rfl done
    · split at done
      · exact releaseFailed_spec { server with fresh := server.fresh + 1 } rfl rfl done
      · split at done
        · exact releaseFailed_spec { server with fresh := server.fresh + 1 } rfl rfl done
        · split at done
          · cases done
          · cases left : leaveTable (addTable _ server.fresh) conn with
            | error fault =>
              rw [left] at done
              cases done
            | ok after =>
              rw [left] at done
              cases done
              exact absurd rfl failed

theorem createNew_error {desc : TableDesc} (failed : code ≠ .ok)
    (done : createNew server conn outcomes desc = .ok (next, code)) :
    next.tables = none ∧ next.conns = server.conns := by
  unfold createNew at done
  dsimp only at done
  split at done
  · exact releaseFailed_spec { server with fresh := server.fresh + 1 } rfl rfl done
  · split at done
    · exact releaseFailed_spec { server with fresh := server.fresh + 1 } rfl rfl done
    · split at done
      · exact releaseFailed_spec { server with fresh := server.fresh + 1 } rfl rfl done
      · split at done
        · exact releaseFailed_spec { server with fresh := server.fresh + 1 } rfl rfl done
        · cases left : leaveTable (TableServer.setEntry _ server.fresh _) conn with
          | error fault =>
            rw [left] at done
            cases done
          | ok after =>
            rw [left] at done
            cases done
            exact absurd rfl failed

/-- An error exit has done nothing, or it has released the new entry. -/
theorem tblselect_error {nbytes : Nat} {name : String} (failed : code ≠ .ok)
    (done : tblselect server conn outcomes nbytes name = .ok (next, code)) :
    (¬ HalfBuilt server outcomes (.tblselect nbytes name) ∧ next = server) ∨
    (HalfBuilt server outcomes (.tblselect nbytes name) ∧ next.tables = none ∧
      next.conns = server.conns) := by
  unfold tblselect at done
  unfold HalfBuilt
  split at done
  · next long =>
    cases done
    exact .inl ⟨fun half => absurd half.1 (Nat.not_le.mpr long), rfl⟩
  · next short =>
    split at done
    · cases done
    · exact absurd (selectLoaded_ok done) failed
    · next absent =>
      split at done
      · next missing =>
        cases done
        refine .inl ⟨fun half => ?_, rfl⟩
        have found := half.2.2.1
        rw [missing] at found
        cases found
      · next header present =>
        split at done
        · next closed =>
          cases done
          refine .inl ⟨fun half => ?_, rfl⟩
          rw [half.2.2.2.1] at closed
          cases closed
        · next opened =>
          split at done
          · next none =>
            cases done
            refine .inl ⟨fun half => ?_, rfl⟩
            rw [half.2.2.2.2] at none
            cases none
          · next got =>
            refine .inr ⟨⟨Nat.not_lt.mp short, absent, ?_, by simpa using opened,
              by simpa using got⟩, selectFile_error failed done⟩
            rw [present]
            rfl

theorem tblcreate_error {nbytes : Nat} {desc : TableDesc} (failed : code ≠ .ok)
    (done : tblcreate server conn outcomes nbytes desc = .ok (next, code)) :
    (¬ HalfBuilt server outcomes (.tblcreate nbytes desc) ∧ next = server) ∨
    (HalfBuilt server outcomes (.tblcreate nbytes desc) ∧ next.tables = none ∧
      next.conns = server.conns) := by
  unfold tblcreate at done
  unfold HalfBuilt
  split at done
  · next short =>
    cases done
    exact .inl ⟨fun half => absurd half.1 (Nat.not_le.mpr short), rfl⟩
  · next long =>
    split at done
    · next exists_ =>
      cases done
      exact .inl ⟨fun half => half.2.1 exists_, rfl⟩
    · next absent =>
      split at done
      · next none =>
        cases done
        refine .inl ⟨fun half => ?_, rfl⟩
        rw [half.2.2] at none
        cases none
      · next got =>
        exact .inr ⟨⟨Nat.not_lt.mp long, absent, by simpa using got⟩,
          createNew_error failed done⟩

theorem loaded_ne_nil {head : TableRef} (some : server.tables = some head) :
    server.loaded ≠ [] := by
  unfold TableServer.loaded
  rw [some]
  nofun

theorem loaded_nil (none : server.tables = none) : server.loaded = [] := by
  unfold TableServer.loaded
  rw [none]
  rfl

/-- A request of either kind, its error exits told apart. -/
theorem undone_iff {after : TableServer} {half : Prop}
    (exits : (¬ half ∧ after = server) ∨
      (half ∧ after.tables = none ∧ after.conns = server.conns)) :
    Undone server
        (after.setConn conn { after.conns conn with qerrno := code }) conn ↔
      (half → server.tables = none) := by
  have kept : (after.setConn conn { after.conns conn with qerrno := code }).conns conn =
      { after.conns conn with qerrno := code } := Function.update_self ..
  rcases exits with ⟨whole, rfl⟩ | ⟨half, tables, conns⟩
  · exact ⟨fun _ half => absurd half whole,
      fun _ => ⟨rfl, fun _ _ => rfl, by rw [kept], by rw [kept], by rw [kept]⟩⟩
  · have empty : (after.setConn conn { after.conns conn with qerrno := code }).loaded = [] :=
      loaded_nil tables
    constructor
    · intro undone _
      cases head : server.tables with
      | none => rfl
      | some ref => exact absurd (undone.loaded.symm.trans empty) (loaded_ne_nil head)
    · intro none
      have empty' := loaded_nil (none half)
      refine ⟨empty.trans empty'.symm, fun ref member => ?_, ?_, ?_, ?_⟩
      · rw [empty'] at member
        cases member
      · rw [kept, conns]
      · rw [kept, conns]
      · rw [kept, conns]

/-- A failed request leaves the server as it was exactly when it has not got a new table
entry, or when there are no tables to be lost. -/
theorem failed_request_undone_iff {request : TableRequest} (failed : code ≠ .ok)
    (answered : server.handle conn outcomes request = .ok (next, code)) :
    Undone server next conn ↔ (HalfBuilt server outcomes request → server.tables = none) := by
  cases request with
  | tblselect nbytes name =>
    have answered : (tblselect server conn outcomes nbytes name).map
      (TableServer.handle.keep conn) = .ok (next, code) := answered
    cases done : tblselect server conn outcomes nbytes name with
    | error fault =>
      rw [done] at answered
      cases answered
    | ok result =>
      rw [done] at answered
      cases answered
      exact undone_iff (tblselect_error failed done)
  | tblcreate nbytes desc =>
    have answered : (tblcreate server conn outcomes nbytes desc).map
      (TableServer.handle.keep conn) = .ok (next, code) := answered
    cases done : tblcreate server conn outcomes nbytes desc with
    | error fault =>
      rw [done] at answered
      cases answered
    | ok result =>
      rw [done] at answered
      cases answered
      exact undone_iff (tblcreate_error failed done)
  | close =>
    have answered : (leaveTable server conn).map
      (fun server => (server.setConn conn Connection.calloc, ErrorCode.ok)) =
        .ok (next, code) := answered
    cases left : leaveTable server conn with
    | error fault =>
      rw [left] at answered
      cases answered
    | ok after =>
      rw [left] at answered
      cases answered
      exact absurd rfl failed

end Errors

end QNXStuff.QXBase
