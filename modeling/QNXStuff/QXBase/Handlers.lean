import QNXStuff.QXBase.PagePool

/-! The requests of the connections that have one table selected. -/

namespace QNXStuff.QXBase

open Memory Execution

/-- The `QBASE_E_*` codes that the server reports. -/
inductive ErrorCode where
  | ok
  | buf
  | mem
  | notsupp
  | notblsel
  | notblexist
  | already
  | fewplocks
  | fltr
  | ins
  | lastrow
  | paging
  | pkey
  deriving DecidableEq

/-- `struct Qbase_ocb`; `selected` says that `Table` is the table. -/
structure Ocb where
  selected : Bool
  qerrno : ErrorCode
  record : Nat
  filters : List Filter
  deriving DecidableEq

/-- `Qbase_OCB_calloc` -/
def Ocb.calloc : Ocb where
  selected := false
  qerrno := .ok
  record := 0
  filters := []

/-- What a client gets back: the bytes of a read, the count of a write, the result of
a devctl and its data. -/
inductive Reply where
  | row (row : Option Row)
  | written (nbytes : Nat)
  | status (retval : ErrorCode)
  | length (size : Nat)
  | caption (desc : TableDesc)
  | info
  | nosys
  deriving DecidableEq

/-! ### Rows of a page -/

/-- The row at `Data + row*RowLen`. -/
def PageBody.row (page : PageBody) (rowLen row : Nat) : Row :=
  readBytes page.data (row * rowLen) rowLen

def PageBody.putRow (page : PageBody) (rowLen row : Nat) (bytes : Row) : PageBody :=
  { page with data := writeBytes page.data (row * rowLen) bytes, needSync := true }

/-! ### `Qbase_read` -/

/-- The inner loop of `Qbase_read`: the first of `count` rows that the filters do not
just skip, and what they say about it. -/
def scanRows (filters : List Filter) (rowAt : Nat → Row) : Nat → Nat → Nat × Verdict
  | 0, row => (row, .skip)
  | count + 1, row =>
    match dataFilter filters (rowAt row) with
    | .skip => scanRows filters rowAt count (row + 1)
    | verdict => (row, verdict)

/-- The variables of the outer loop. -/
structure ReadState where
  table : Table
  ocb : Ocb
  pIndex : Nat
  rIndex : Nat

def readPass (state : ReadState) :
    Except Fault (Pass ReadState (Table × Ocb × Option Row)) :=
  if state.ocb.record < state.table.index then
    match lockTablePage state.table state.pIndex with
    | .error fault => .error fault
    | .ok (table, none) => .ok (.stop (table, state.ocb, none))
    | .ok (table, some rPage) =>
      let page := table.body rPage
      let rowAt := page.row table.layout.rowLen
      let (row, verdict) :=
        scanRows state.ocb.filters rowAt (page.lastRow - state.rIndex) state.rIndex
      let record := state.ocb.record + (row - state.rIndex)
      match verdict with
      | .pass =>
        .ok (.stop (table, { state.ocb with record := record + 1, qerrno := .ok },
          some (rowAt row)))
      | .broken =>
        .ok (.stop (table, { state.ocb with record := record, qerrno := .lastrow }, none))
      | .skip =>
        .ok (.again
          { table := table, ocb := { state.ocb with record := record }
            pIndex := state.pIndex + 1, rIndex := 0 })
  else .ok (.stop (state.table, { state.ocb with qerrno := .lastrow }, none))

/-- The state in which the outer loop starts. -/
def readStart (table : Table) (ocb : Ocb) : ReadState where
  table := table
  ocb := ocb
  pIndex := ocb.record / table.layout.pageRows
  rIndex := ocb.record % table.layout.pageRows

/-- The outer loop passes over each page at most once. -/
def pageFuel (table : Table) : Nat := table.lastIndex + 2

def qbaseRead (table : Table) (ocb : Ocb) (nbytes : Nat) :
    Except Fault (Table × Ocb × Option Row) :=
  if ocb.selected = false then .ok (table, { ocb with qerrno := .notblsel }, none)
  else if nbytes < table.layout.rowLen then .ok (table, { ocb with qerrno := .mem }, none)
  else loop readPass .hang (pageFuel table) (readStart table ocb)

/-! ### `Qbase_write` -/

/-- The last page is full: write it back and go on with it as the next page. -/
def rotate (table : Table) : Except Fault Table :=
  match syncPage table table.lastPage with
  | .error fault => .error fault
  | .ok table =>
    let table := headSync table
    let wPage := table.body table.lastPage
    .ok (table.setBody table.lastPage { wPage with index := wPage.index + 1, lastRow := 0 })

/-- `Table->Index++` -/
def countRow (table : Table) : Table := { table with index := (table.index + 1) % 2 ^ 32 }

/-- The row with its first word set to the primary key. -/
def withKey (row : Row) (prKey : Nat) : Row := overwrite row 0 (bytesOf 4 prKey)

/-- `resmgr_msgread` into the last page and what follows it. `data` is what the message
of the client holds behind its header. -/
def receiveRow (table : Table) (ocb : Ocb) (data : List UInt8) : Table × Ocb × Nat :=
  let wPage := table.body table.lastPage
  let rowLen := table.layout.rowLen
  let bytes := data.take rowLen
  if bytes.length ≠ rowLen then
    (table.setBody table.lastPage
      { wPage with data := writeBytes wPage.data (wPage.lastRow * rowLen) bytes },
      { ocb with qerrno := .ins }, 0)
  else
    (table.setBody table.lastPage
      { wPage.putRow rowLen wPage.lastRow (withKey bytes table.index) with
        lastRow := wPage.lastRow + 1 },
      { ocb with record := (table.index + (2 ^ 32 - 1)) % 2 ^ 32 }, rowLen)

def qbaseWrite (table : Table) (ocb : Ocb) (nbytes : Nat) (data : List UInt8) :
    Except Fault (Table × Ocb × Nat) :=
  if ocb.selected = false then .ok (table, { ocb with qerrno := .notblsel }, 0)
  else if nbytes < table.layout.rowLen then .ok (table, { ocb with qerrno := .buf }, 0)
  else if table.layout.pageRows ≤ (table.body table.lastPage).lastRow then
    match rotate table with
    | .error fault => .error fault
    | .ok table => .ok (receiveRow (countRow table) ocb data)
  else .ok (receiveRow (countRow table) ocb data)

/-! ### `QBASE_CMD_UPDATE`, `QBASE_CMD_UPDCUR` and `QBASE_CMD_DELETE` -/

/-- The inner loop over the rows of a page: the page and the rest of `TIndex`. -/
def changePage (desc : TableDesc) (filters : List Filter) (change : Change) :
    Nat → Nat → Nat → PageBody → Except Fault (PageBody × Nat)
  | 0, _, tIndex, page => .ok (page, tIndex)
  | _ + 1, _, 0, page => .ok (page, 0)
  | count + 1, rIndex, tIndex + 1, page =>
    let row := page.row desc.rowLen rIndex
    match dataFilter filters row with
    | .broken => .ok (page, 0)
    | .skip =>
      if change.single then .ok (page, 0)
      else changePage desc filters change count (rIndex + 1) tIndex page
    | .pass =>
      match change.apply desc row with
      | .error fault => .error fault
      | .ok result =>
        let page := page.putRow desc.rowLen rIndex result
        if change.single then .ok (page, 0)
        else changePage desc filters change count (rIndex + 1) tIndex page

/-- The variables of the outer loop. -/
structure ScanState where
  table : Table
  pIndex : Nat
  rIndex : Nat
  tIndex : Nat

def changePass (ocb : Ocb) (change : Change) (state : ScanState) :
    Except Fault (Pass ScanState (Table × ErrorCode)) :=
  if state.tIndex = 0 then .ok (.stop (state.table, .ok))
  else
    match lockTablePage state.table state.pIndex with
    | .error fault => .error fault
    | .ok (table, none) => .ok (.stop (table, ocb.qerrno))
    | .ok (table, some rPage) =>
      let page := table.body rPage
      match changePage table.layout.toTableDesc ocb.filters change
          (page.lastRow - state.rIndex) state.rIndex state.tIndex page with
      | .error fault => .error fault
      | .ok (page, tIndex) =>
        .ok (.again
          { table := table.setBody rPage page
            pIndex := state.pIndex + 1, rIndex := 0, tIndex := tIndex })

/-- Where the scan starts: only `QBASE_CMD_UPDCUR` goes to the current record. -/
def Change.start (change : Change) (ocb : Ocb) : Nat := if change.single then ocb.record else 0

/-- The state in which the outer loop starts. -/
def changeStart (table : Table) (ocb : Ocb) (change : Change) : ScanState where
  table := table
  pIndex := change.start ocb / table.layout.pageRows
  rIndex := change.start ocb % table.layout.pageRows
  tIndex := table.index

/-- The three scanning cases of `Qbase_devctl`. -/
def qbaseChange (table : Table) (ocb : Ocb) (change : Change) :
    Except Fault (Table × ErrorCode) :=
  if ocb.selected = false then .ok (table, .notblsel)
  else if change.fits table.layout.toTableDesc = false then .ok (table, .buf)
  else loop (changePass ocb change) .hang (pageFuel table) (changeStart table ocb change)

/-! ### The requests that concern the connection only -/

/-- The other commands of `Qbase_devctl`. `select` is `QBASE_CMD_TBLSELECT` of the table
when it is loaded, `leave` the same request for another table, on which the connection
moves its position before it comes back. -/
inductive Control where
  | select
  | leave (record : Nat)
  | error
  | info (room : Nat)
  | fetchrst
  | tblcapslen
  | tblcaps
  | fltrdelete
  | fltrpop
  | fltrdefine (data : List UInt8)
  | seek (data : List UInt8)
  | unknown
  deriving DecidableEq

/-- `sizeof(Qbase_filter_t)` and the offset of `Value` in it. -/
abbrev filterSize : Nat := 32
abbrev filterValue : Nat := 28

/-- The end of `Qbase_devctl`. -/
def Ocb.done (ocb : Ocb) (retval : ErrorCode) : Ocb × Reply :=
  ({ ocb with qerrno := retval }, .status retval)

/-- `QBASE_CMD_FLTRDEFINE`. A type without an entry in `FFUNCS` yields a wild function. -/
def fltrdefine (desc : TableDesc) (ocb : Ocb) (data : List UInt8) :
    Except Fault (Ocb × Reply) :=
  if ocb.selected = false then .ok (ocb.done .notblsel)
  else if data.length < filterSize then .ok (ocb.done .buf)
  else
    let fNum := wordOf ((data.drop 4).take 4)
    match desc.fields[fNum]? with
    | none => .ok (ocb.done .fltr)
    | some field =>
      match ffuncs[field.type]? with
      | none => .error .wild
      | some cmpFunc =>
        let nFilter : Filter :=
          { flags := wordOf (data.take 4), fNum := fNum
            field := field.offset, fSize := field.length
            vSize := wordOf ((data.drop 16).take 4), cmpFunc := cmpFunc
            value := data.drop filterValue }
        .ok (Ocb.done { ocb with filters := nFilter :: ocb.filters, record := 0 } .ok)

/-- `QBASE_CMD_SEEK`; without a table it locks through a null pointer. -/
def seek (desc : TableDesc) (ocb : Ocb) (data : List UInt8) : Except Fault (Ocb × Reply) :=
  if ocb.selected = false then .error .wild
  else if data.length = 4 then
    let record := (wordOf data + (2 ^ 32 - 1)) % 2 ^ 32
    if desc.index < record then .ok (Ocb.done { ocb with record := 0 } .pkey)
    else .ok (Ocb.done { ocb with record := record } .ok)
  else .ok (ocb.done .buf)

/-- The commands that read nothing of the table but its descriptor. -/
def control (desc : TableDesc) (ocb : Ocb) : Control → Except Fault (Ocb × Reply)
  | .select =>
    if ocb.selected then .ok (ocb.done .ok)
    else .ok (Ocb.done { ocb with selected := true, filters := [] } .ok)
  | .leave record =>
    .ok (Ocb.done { ocb with selected := false, filters := [], record := record } .ok)
  | .error => .ok (ocb.done ocb.qerrno)
  | .info room =>
    if room < 16 then .ok (ocb.done .buf) else .ok ({ ocb with qerrno := .ok }, .info)
  | .fetchrst =>
    if ocb.selected then .ok (Ocb.done { ocb with record := 0 } .ok)
    else .ok (ocb.done .notblsel)
  | .tblcapslen =>
    if ocb.selected then .ok ({ ocb with qerrno := .ok }, .length desc.size)
    else .ok (ocb.done .notblsel)
  | .tblcaps =>
    if ocb.selected then .ok ({ ocb with qerrno := .ok }, .caption desc)
    else .ok (ocb.done .notblsel)
  | .fltrdelete => .ok (Ocb.done { ocb with filters := [], record := 0 } .ok)
  | .fltrpop => .ok (Ocb.done { ocb with filters := ocb.filters.tail } .ok)
  | .fltrdefine data => fltrdefine desc ocb data
  | .seek data => seek desc ocb data
  | .unknown => .ok ({ ocb with qerrno := .notsupp }, .nosys)

/-! ### The server -/

def Table.desc (table : Table) : TableDesc :=
  { table.layout.toTableDesc with index := table.index }

/-- A page that agrees with the file and is alone in its list. -/
def diskPage (data : Block) (size index lastRow : Nat) : Page where
  data := data
  size := size
  index := index
  lastRow := lastRow
  needSync := false
  prev := none
  next := none

/-- `QBASE_CMD_TBLCREATE` after its checks: a file with one page of arbitrary bytes. -/
def createTable (layout : Layout) (heap : PageRef → Page) : Except Fault Table :=
  let size := layout.rowLen * layout.pageRows % 2 ^ 32
  match seekWrite { size := 0, byte := fun _ => 0 } 0 (heap 0).data size with
  | .error fault => .error fault
  | .ok dFile =>
    .ok
      { layout := layout, index := layout.index
        heap := Function.update heap 0 (diskPage (heap 0).data size 0 0)
        fresh := 1, pages := some 0, lastPage := 0, pLocks := 1
        hFile := layout.index, dFile := dFile }

/-- The table from its header file, with one page in the pool. -/
def Table.withPage (table : Table) (page : Page) : Table :=
  { table with
    index := table.hFile, heap := Function.update table.heap table.fresh page
    fresh := table.fresh + 1, pages := some table.fresh, lastPage := table.fresh, pLocks := 1 }

/-- `QBASE_CMD_TBLSELECT` of a table that is not loaded: only the last page is read. -/
def loadTable (table : Table) : Except Fault Table :=
  let size := table.layout.rowLen * table.layout.pageRows % 2 ^ 32
  let index := table.hFile / table.layout.pageRows
  let lastRow := table.hFile % table.layout.pageRows
  match seekRead table.dFile (index * size % 2 ^ 32) (table.body table.fresh).data size with
  | .error fault => .error fault
  | .ok data => .ok (table.withPage (diskPage data size index lastRow))

/-- `Qbase_TableRelease` when the last connection leaves, and loading the table again. -/
def reload (table : Table) : Except Fault Table :=
  match tableSync table with
  | .error fault => .error fault
  | .ok table => loadTable table

inductive Request where
  | insert (nbytes : Nat) (data : List UInt8)
  | fetch (nbytes : Nat)
  | change (change : Change)
  | tblflush
  | reload
  | control (request : Control)
  deriving DecidableEq

abbrev ConnId := Nat

/-- The table and the connections that work with it. -/
structure Server where
  table : Table
  ocbs : ConnId → Ocb

/-- The connections after the table was released and one of them loaded it again. -/
def reloadOcbs (ocbs : ConnId → Ocb) (conn : ConnId) : ConnId → Ocb := fun other =>
  if other = conn then { ocbs conn with selected := true, record := 0, filters := [], qerrno := .ok }
  else { ocbs other with selected := false, filters := [] }

/-- One request, from receipt to reply. -/
def Server.handle (server : Server) (conn : ConnId) : Request → Except Fault (Server × Reply)
  | .insert nbytes data =>
    (qbaseWrite server.table (server.ocbs conn) nbytes data).map fun (table, ocb, count) =>
      ({ table := table, ocbs := Function.update server.ocbs conn ocb }, .written count)
  | .fetch nbytes =>
    (qbaseRead server.table (server.ocbs conn) nbytes).map fun (table, ocb, row) =>
      ({ table := table, ocbs := Function.update server.ocbs conn ocb }, .row row)
  | .change change =>
    (qbaseChange server.table (server.ocbs conn) change).map fun (table, retval) =>
      let answer := (server.ocbs conn).done retval
      ({ table := table, ocbs := Function.update server.ocbs conn answer.1 }, answer.2)
  | .tblflush =>
    if (server.ocbs conn).selected then
      (tableSync server.table).map fun table =>
        let answer := (server.ocbs conn).done .ok
        ({ table := table, ocbs := Function.update server.ocbs conn answer.1 }, answer.2)
    else
      let answer := (server.ocbs conn).done .notblsel
      .ok ({ server with ocbs := Function.update server.ocbs conn answer.1 }, answer.2)
  | .reload =>
    (reload server.table).map fun table =>
      ({ table := table, ocbs := reloadOcbs server.ocbs conn }, .status .ok)
  | .control request =>
    (control server.table.desc (server.ocbs conn) request).map fun (ocb, reply) =>
      ({ server with ocbs := Function.update server.ocbs conn ocb }, reply)

/-- How a server answers the requests on its connections. -/
abbrev Handler := Server → ConnId → Request → Except Fault (Server × Reply)

/-- A request on a connection and its reply. -/
abbrev Exchange := (ConnId × Request) × Reply

def ServerStep : Server → Exchange → Server → Prop :=
  Answers fun server input => server.handle input.1 input.2

/-- A created table; connections come to it from anywhere. -/
structure Initial (server : Server) : Prop where
  created : ∃ layout heap, createTable layout heap = .ok server.table

end QNXStuff.QXBase
