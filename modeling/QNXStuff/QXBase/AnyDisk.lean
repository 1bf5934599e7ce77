import QNXStuff.QXBase.Handlers
import QNXStuff.QXBase.Offsets

/-! The server on any disk: it does not look at what the calls on its files return, and goes on with
what they left. -/

namespace QNXStuff.QXBase

open Memory Execution LinkedList

/-! ### The handlers, over the operations that go to the files -/

/-- How the handlers get at the files of a table. -/
structure Paging where
  lockTablePage : Table → Nat → Except Fault (Table × Option PageRef)
  rotate : Table → Except Fault Table
  tableSync : Table → Except Fault Table
  reload : Table → Except Fault Table

namespace Paging

variable (paging : Paging)

/-- One pass of the outer loop of `Qbase_read`. -/
def readPass (state : ReadState) :
    Except Fault (Pass ReadState (Table × Ocb × Option Row)) :=
  if state.ocb.record < state.table.index then
    match paging.lockTablePage state.table state.pIndex with
    | .error fault => .error fault
    | .ok (table, none) => .ok (.stop (table, state.ocb, none))
    | .ok (table, some rPage) =>
      let page := table.body rPage
      let rowAt := page.row table.layout.rowLen
      let (row, verdict) :=
        scanRows state.ocb.filters rowAt (page.lastRow - state.rIndex) state.rIndex
      let record := state.ocb.record + (row - state.rIndex)
      match verdict with
      | .pass =>
        .ok (.stop (table, { state.ocb with record := record + 1, qerrno := .ok },
          some (rowAt row)))
      | .broken =>
        .ok (.stop (table, { state.ocb with record := record, qerrno := .lastrow }, none))
      | .skip =>
        .ok (.again
          { table := table, ocb := { state.ocb with record := record }
            pIndex := state.pIndex + 1, rIndex := 0 })
  else .ok (.stop (state.table, { state.ocb with qerrno := .lastrow }, none))

def qbaseRead (table : Table) (ocb : Ocb) (nbytes : Nat) :
    Except Fault (Table × Ocb × Option Row) :=
  if ocb.selected = false then .ok (table, { ocb with qerrno := .notblsel }, none)
  else if nbytes < table.layout.rowLen then .ok (table, { ocb with qerrno := .mem }, none)
  else loop paging.readPass .hang (pageFuel table) (readStart table ocb)

def qbaseWrite (table : Table) (ocb : Ocb) (nbytes : Nat) (data : List UInt8) :
    Except Fault (Table × Ocb × Nat) :=
  if ocb.selected = false then .ok (table, { ocb with qerrno := .notblsel }, 0)
  else if nbytes < table.layout.rowLen then .ok (table, { ocb with qerrno := .buf }, 0)
  else if table.layout.pageRows ≤ (table.body table.lastPage).lastRow then
    match paging.rotate table with
    | .error fault => .error fault
    | .ok table => .ok (receiveRow (countRow table) ocb data)
  else .ok (receiveRow (countRow table) ocb data)

/-- One pass of the outer loop of `QBASE_CMD_UPDATE`, `QBASE_CMD_UPDCUR` and `QBASE_CMD_DELETE`. -/
def changePass (ocb : Ocb) (change : Change) (state : ScanState) :
    Except Fault (Pass ScanState (Table × ErrorCode)) :=
  if state.tIndex = 0 then .ok (.stop (state.table, .ok))
  else
    match paging.lockTablePage state.table state.pIndex with
    | .error fault => .error fault
    | .ok (table, none) => .ok (.stop (table, ocb.qerrno))
    | .ok (table, some rPage) =>
      let page := table.body rPage
      match changePage table.layout.toTableDesc ocb.filters change
          (page.lastRow - state.rIndex) state.rIndex state.tIndex page with
      | .error fault => .error fault
      | .ok (page, tIndex) =>
        .ok (.again
          { table := table.setBody rPage page
            pIndex := state.pIndex + 1, rIndex := 0, tIndex := tIndex })

/-- The three scanning cases of `Qbase_devctl`. -/
def qbaseChange (table : Table) (ocb : Ocb) (change : Change) :
    Except Fault (Table × ErrorCode) :=
  if ocb.selected = false then .ok (table, .notblsel)
  else if change.fits table.layout.toTableDesc = false then .ok (table, .buf)
  else loop (paging.changePass ocb change) .hang (pageFuel table) (changeStart table ocb change)

/-- One request, from receipt to reply. -/
def handle (server : Server) (conn : ConnId) : Request → Except Fault (Server × Reply)
  | .insert nbytes data =>
    (paging.qbaseWrite server.table (server.ocbs conn) nbytes data).map fun (table, ocb, count) =>
      ({ table := table, ocbs := Function.update server.ocbs conn ocb }, .written count)
  | .fetch nbytes =>
    (paging.qbaseRead server.table (server.ocbs conn) nbytes).map fun (table, ocb, row) =>
      ({ table := table, ocbs := Function.update server.ocbs conn ocb }, .row row)
  | .change change =>
    (paging.qbaseChange server.table (server.ocbs conn) change).map fun (table, retval) =>
      let answer := (server.ocbs conn).done retval
      ({ table := table, ocbs := Function.update server.ocbs conn answer.1 }, answer.2)
  | .tblflush =>
    if (server.ocbs conn).selected then
      (paging.tableSync server.table).map fun table =>
        let answer := (server.ocbs conn).done .ok
        ({ table := table, ocbs := Function.update server.ocbs conn answer.1 }, answer.2)
    else
      let answer := (server.ocbs conn).done .notblsel
      .ok ({ server with ocbs := Function.update server.ocbs conn answer.1 }, answer.2)
  | .reload =>
    (paging.reload server.table).map fun table =>
      ({ table := table, ocbs := reloadOcbs server.ocbs conn }, .status .ok)
  | .control request =>
    (control server.table.desc (server.ocbs conn) request).map fun (ocb, reply) =>
      ({ server with ocbs := Function.update server.ocbs conn ocb }, reply)

/-- A request leaves the other connections, unless they had left a table that it loads. -/
theorem handle_ocb {server next : Server} {conn other : ConnId} {request : Request} {reply : Reply}
    (apart : other ≠ conn) (answered : paging.handle server other request = .ok (next, reply)) :
    next.ocbs conn = if request = .reload then
      { server.ocbs conn with selected := false, filters := [] } else server.ocbs conn := by
  have kept : ∀ ocb, Function.update server.ocbs other ocb conn = server.ocbs conn := fun _ =>
    Function.update_of_ne apart.symm ..
  unfold Paging.handle at answered
  cases request with
  | insert nbytes data =>
    obtain ⟨_, _, same⟩ := map_eq_ok.mp answered
    cases same
    exact kept _
  | fetch nbytes =>
    obtain ⟨_, _, same⟩ := map_eq_ok.mp answered
    cases same
    exact kept _
  | change change =>
    obtain ⟨_, _, same⟩ := map_eq_ok.mp answered
    cases same
    exact kept _
  | tblflush =>
    dsimp only at answered
    split at answered
    · obtain ⟨_, _, same⟩ := map_eq_ok.mp answered
      cases same
      exact kept _
    · cases answered
      exact kept _
  | reload =>
    obtain ⟨_, _, same⟩ := map_eq_ok.mp answered
    cases same
    exact if_neg apart.symm
  | control request =>
    obtain ⟨_, _, same⟩ := map_eq_ok.mp answered
    cases same
    exact kept _

/-- The operations of a server that ends where a file position does not fit. -/
def checked : Paging := ⟨QXBase.lockTablePage, QXBase.rotate, QXBase.tableSync, QXBase.reload⟩

theorem checked_handle (server : Server) (conn : ConnId) (request : Request) :
    checked.handle server conn request = server.handle conn request := by
  cases request <;> rfl

end Paging

/-! ### The operations on a disk of which nothing is known -/

/-- What `lseek` and `write`, and `lseek` and `read`, do to the data file and to a buffer, and what
the counter in the header file is behind `Qbase_HeadSync`. -/
structure Storage where
  offT : OffT
  write : File → Int → Block → Nat → File
  read : File → Int → Block → Nat → Block × File
  head : Nat → Nat → UInt32

namespace Storage

variable (storage : Storage)

/-- `Qbase_PageSync` of a page of the table. -/
def syncPage (table : Table) (ref : PageRef) : Table :=
  let page := table.body ref
  if page.needSync then
    (table.setBody ref { page with needSync := false }).setFile
      (storage.write table.dFile (syncOffset page.size page.index) page.data page.size)
  else table

def headSync (table : Table) : Table :=
  { table with hFile := (storage.head table.hFile table.index).toNat }

/-- The loop of `Qbase_TableSync` over the cached pages. -/
def syncPages : Nat → Option PageRef → Table → Except Fault Table
  | _, none, table => .ok table
  | 0, some _, _ => .error .hang
  | fuel + 1, some sPage, table =>
    let table := storage.syncPage table sPage
    syncPages fuel (table.next sPage) table

/-- `Qbase_TableSync` of a table whose two files are open. -/
def tableSync (table : Table) : Except Fault Table :=
  let table := storage.headSync table
  storage.syncPages table.fresh table.pages table

/-- "we may read the page into memory" -/
def readPage (table : Table) (rPage : PageRef) (nPageID : Nat) : Table :=
  let body := table.body rPage
  let (data, file) :=
    storage.read table.dFile (lockOffset storage.offT nPageID body.size) body.data body.size
  (table.setBody rPage
    { body with
      data := data, index := nPageID, needSync := false
      lastRow := table.layout.pageRows }).setFile file

/-- The page that will hold the wanted one. -/
def victimPage (table : Table) (rPage : PageRef) : Except Fault (Table × PageRef) :=
  if table.layout.lockPages ≤ table.pLocks then
    if rPage = table.lastPage then
      (relinkFirst table rPage).map fun moved => (storage.syncPage moved.1 moved.2, moved.2)
    else .ok (table, rPage)
  else .ok (allocPage table rPage)

def lockTablePage (table : Table) (nPageID : Nat) : Except Fault (Table × Option PageRef) :=
  match findPage table nPageID with
  | none => .error .hang
  | some none => .ok (table, none)
  | some (some rPage) =>
    if (table.body rPage).index = nPageID then .ok (table, some rPage)
    else
      (storage.victimPage table rPage).map fun placed =>
        (storage.readPage placed.1 placed.2 nPageID, some placed.2)

/-- The last page is full: write it back and go on with it as the next page. -/
def rotate (table : Table) : Table :=
  let table := storage.headSync (storage.syncPage table table.lastPage)
  let wPage := table.body table.lastPage
  table.setBody table.lastPage { wPage with index := (wPage.index + 1) % 2 ^ 32, lastRow := 0 }

/-- `QBASE_CMD_TBLSELECT` of a table that is not loaded: only the last page is read. -/
def loadTable (table : Table) : Table :=
  let size := pageSizeOf table.layout.rowLen table.layout.pageRows
  let index := table.hFile / table.layout.pageRows
  let lastRow := table.hFile % table.layout.pageRows
  let (data, file) := storage.read table.dFile (selectOffset storage.offT index size)
    (table.body table.fresh).data size
  (table.withPage (diskPage data size index lastRow)).setFile file

/-- `Qbase_TableRelease` when the last connection leaves, and loading the table again. -/
def reload (table : Table) : Except Fault Table := (storage.tableSync table).map storage.loadTable

def paging : Paging where
  lockTablePage := storage.lockTablePage
  rotate table := .ok (storage.rotate table)
  tableSync := storage.tableSync
  reload := storage.reload

/-- `QBASE_CMD_TBLCREATE` after its checks: a page of arbitrary bytes. -/
def createTable (layout : Layout) (heap : PageRef → Page) : Table :=
  let size := pageSizeOf layout.rowLen layout.pageRows
  { layout := layout, index := layout.index
    heap := Function.update heap 0 (diskPage (heap 0).data size 0 0)
    fresh := 1, pages := some 0, lastPage := 0, pLocks := 1
    hFile := (storage.head 0 layout.index).toNat
    dFile := storage.write { size := 0, byte := fun _ => 0 } 0 (heap 0).data size }

end Storage

abbrev StorageStep (storage : Storage) : Server → Exchange → Server → Prop :=
  Answers fun server (input : ConnId × Request) => storage.paging.handle server input.1 input.2

/-- A table that was created without rows; connections come to it from anywhere. -/
structure Begun (storage : Storage) (server : Server) : Prop where
  created : ∃ layout heap, layout.index = 0 ∧ server.table = storage.createTable layout heap

end QNXStuff.QXBase
