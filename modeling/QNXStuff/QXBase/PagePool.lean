import QNXStuff.QXBase.Row
import QNXStuff.Library.LinkedList

/-! The page pool of a table: a sorted doubly linked list of cached pages in
front of the data file. -/

namespace QNXStuff.QXBase

open Memory LinkedList

abbrev PageRef := Nat

/-- The fields of `Qbase_page_t` that describe its data. -/
structure PageBody where
  data : Block
  size : Nat
  index : Nat
  lastRow : Nat
  needSync : Bool

/-- `Qbase_page_t` -/
structure Page extends PageBody where
  prev : Option PageRef
  next : Option PageRef

/-- `Qbase_table_t` with the counter `Index` of its descriptor. `heap` holds the page
descriptors, `fresh` is the next one `malloc` hands out, with arbitrary contents.
`hFile` is the counter as the header file has it. -/
structure Table where
  layout : Layout
  index : Nat
  heap : PageRef → Page
  fresh : PageRef
  pages : Option PageRef
  lastPage : PageRef
  pLocks : Nat
  hFile : Nat
  dFile : File

namespace Table

def body (table : Table) (ref : PageRef) : PageBody := (table.heap ref).toPageBody

def next (table : Table) (ref : PageRef) : Option PageRef := (table.heap ref).next

def prev (table : Table) (ref : PageRef) : Option PageRef := (table.heap ref).prev

def links (table : Table) : Links PageRef where
  head := table.pages
  tail := some table.lastPage
  next := table.next
  prev := table.prev

/-- The pages of the pool in list order. -/
def refs (table : Table) : List PageRef := walk table.next table.fresh table.pages

def lastIndex (table : Table) : Nat := (table.body table.lastPage).index

def setNext (table : Table) (ref : PageRef) (target : Option PageRef) : Table :=
  { table with heap := Function.update table.heap ref { table.heap ref with next := target } }

def setPrev (table : Table) (ref : PageRef) (target : Option PageRef) : Table :=
  { table with heap := Function.update table.heap ref { table.heap ref with prev := target } }

def setBody (table : Table) (ref : PageRef) (body : PageBody) : Table :=
  { table with
    heap := Function.update table.heap ref { table.heap ref with toPageBody := body } }

def setPages (table : Table) (head : Option PageRef) : Table := { table with pages := head }

def setFile (table : Table) (file : File) : Table := { table with dFile := file }

/-- A new page descriptor from `malloc`, counted in `PLocks`. -/
def grow (table : Table) : Table :=
  { table with fresh := table.fresh + 1, pLocks := table.pLocks + 1 }

/-- The links of `tmpPage` and the back link of `rPage` when the one is put in front of
the other. -/
def linkBefore (table : Table) (tmpPage rPage : PageRef) : Table :=
  let table := table.setNext tmpPage (some rPage)
  let table := table.setPrev tmpPage (table.prev rPage)
  table.setPrev rPage (some tmpPage)

end Table

/-! ### Files -/

/-- `lseek` and `write` with 32-bit file positions. A position from 2^31 on is negative, and no file
grows past the largest position; the server goes on then, and this one ends. `Storage` has the disk
of one that goes on, and both are the same as long as every page has a place. -/
def seekWrite (file : File) (start : Nat) (bytes : Block) (count : Nat) : Except Fault File :=
  if start + count < 2 ^ 31 then .ok (file.pwrite start bytes count) else .error .io

/-- `lseek` and `read` with 32-bit file positions, and an end where the position is refused. -/
def seekRead (file : File) (start : Nat) (buffer : Block) (count : Nat) : Except Fault Block :=
  if start < 2 ^ 31 then .ok (file.pread start buffer count) else .error .io

def pageSync (page : PageBody) (file : File) : Except Fault (PageBody × File) :=
  if page.needSync then do
    let pOffset := page.size * page.index % 2 ^ 32
    let file ← seekWrite file pOffset page.data page.size
    .ok ({ page with needSync := false }, file)
  else .ok (page, file)

/-- `Qbase_PageSync` of a page of the table. -/
def syncPage (table : Table) (ref : PageRef) : Except Fault Table := do
  let synced ← pageSync (table.body ref) table.dFile
  .ok ((table.setBody ref synced.1).setFile synced.2)

/-- `Qbase_HeadSync`: of the descriptor only the counter ever changes. -/
def headSync (table : Table) : Table := { table with hFile := table.index }

/-- The loop of `Qbase_TableSync` over the cached pages. -/
def syncPages : Nat → Option PageRef → Table → Except Fault Table
  | _, none, table => .ok table
  | 0, some _, _ => .error .hang
  | fuel + 1, some sPage, table => do
    let table ← syncPage table sPage
    syncPages fuel (table.next sPage) table

/-- `Qbase_TableSync` of a table whose two files are open. -/
def tableSync (table : Table) : Except Fault Table :=
  let table := headSync table
  syncPages table.fresh table.pages table

/-! ### Locking a page -/

/-- The loop of `LockTablePage`: the first page with the wanted index or a larger one. -/
def findPage (table : Table) (nPageID : Nat) : Option (Option PageRef) :=
  findFrom table.next (fun rPage => decide (nPageID ≤ (table.body rPage).index))
    table.fresh table.pages

/-- The full pool when the search stopped at the last page: take the first page of the
list, link it in front of the last one and write it back. -/
def reuseFirst (table : Table) (rPage : PageRef) : Except Fault (Table × PageRef) :=
  match table.pages with
  | none => .error .wild
  | some tmpPage =>
    match table.next tmpPage with
    | none => .error .wild
    | some second =>
      let table := (table.setPrev second none).setPages (some second)
      let table := table.linkBefore tmpPage rPage
      let table :=
        match table.prev tmpPage with
        | some before => table.setNext before (some tmpPage)
        | none => table
      (syncPage table tmpPage).map (·, tmpPage)

/-- A pool with room: a new descriptor in front of the page where the search stopped. -/
def allocPage (table : Table) (rPage : PageRef) : Table × PageRef :=
  let tmpPage := table.fresh
  let table := table.grow.setBody tmpPage
    { table.body tmpPage with size := table.layout.rowLen * table.layout.pageRows % 2 ^ 32 }
  let table := table.linkBefore tmpPage rPage
  match table.prev tmpPage with
  | some before => (table.setNext before (some tmpPage), tmpPage)
  | none => (table.setPages (some tmpPage), tmpPage)

/-- "we may read the page into memory" -/
def readPage (table : Table) (rPage : PageRef) (nPageID : Nat) : Except Fault Table := do
  let body := table.body rPage
  let data ← seekRead table.dFile (nPageID * body.size % 2 ^ 32) body.data body.size
  .ok (table.setBody rPage
    { body with
      data := data, index := nPageID, needSync := false, lastRow := table.layout.pageRows })

/-- The page that will hold the wanted one, when it is not in the pool and the search
stopped at `rPage`. A page in the middle of a full list is replaced as it is. -/
def victimPage (table : Table) (rPage : PageRef) : Except Fault (Table × PageRef) :=
  if table.layout.lockPages ≤ table.pLocks then
    if rPage = table.lastPage then reuseFirst table rPage else .ok (table, rPage)
  else .ok (allocPage table rPage)

def lockTablePage (table : Table) (nPageID : Nat) : Except Fault (Table × Option PageRef) :=
  match findPage table nPageID with
  | none => .error .hang
  | some none => .ok (table, none)
  | some (some rPage) =>
    if (table.body rPage).index = nPageID then .ok (table, some rPage)
    else do
      let (table, rPage) ← victimPage table rPage
      let table ← readPage table rPage nPageID
      .ok (table, some rPage)

/-- The page in the middle of a full list that locking the page replaces as it is. -/
def takenOver (table : Table) (nPageID : Nat) : Option PageRef :=
  match findPage table nPageID with
  | some (some rPage) =>
    if (table.body rPage).index ≠ nPageID ∧ table.layout.lockPages ≤ table.pLocks ∧
        rPage ≠ table.lastPage then some rPage
    else none
  | _ => none

/-- The page that is replaced as it is holds changes the file does not have. -/
def dirtyTakeover (table : Table) (nPageID : Nat) : Bool :=
  match takenOver table nPageID with
  | some rPage => (table.body rPage).needSync
  | none => false

end QNXStuff.QXBase
