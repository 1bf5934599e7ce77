import QNXStuff.QXBase.TableList
import QNXStuff.QXBase.UpdateRules
import QNXStuff.Library.Faults

/-! The requests as bytes: which offsets the server takes from a descriptor, a filter or a
message, what it has checked before it uses them, and what it divides by. -/

namespace QNXStuff.QXBase.Requests

open Memory Execution

/-- What a handler can do that it must not: an undefined division, a table that is not selected,
bytes outside of the message, a name without its end, bytes outside of the descriptor, a function
outside of `FFUNCS`, bytes outside of the row, of the value of a filter or of the page. -/
inductive Breach where
  | divide
  | noTable
  | message
  | name
  | descriptor
  | comparator
  | field
  | value
  | page
  deriving DecidableEq

/-! ### Messages and descriptors -/

/-- `nbytes` is what the client says in the header, `data` what it sends behind it. -/
structure Message where
  nbytes : UInt32
  data : List UInt8

/-- What of the data is in the buffer of the server. -/
def Message.received (message : Message) : List UInt8 := message.data.take msgRoom

/-- The word at an offset. -/
def peek (block : List UInt8) (offset : Nat) : Nat := wordOf ((block.drop offset).take 4)

def Message.word (message : Message) (offset : Nat) : Except Breach Nat := do
  check (offset + 4 ≤ message.received.length) .message
  return peek message.received offset

def wordAt (block : List UInt8) (offset : Nat) : Except Breach Nat := do
  check (offset + 4 ≤ block.length) .descriptor
  return peek block offset

/-- The offsets in `Qbase_table_desc_t`. -/
abbrev sizeAt : Nat := 4
abbrev nameAt : Nat := 8
abbrev fieldNumAt : Nat := 44
abbrev rowLenAt : Nat := 48
abbrev indexAt : Nat := 56
abbrev pageRowsAt : Nat := 60
abbrev lockPagesAt : Nat := 64
abbrev fieldsAt : Nat := 68

/-- `sizeof(Qbase_table_desc_t)` -/
abbrev descSize : Nat := 80

def peekField (block : List UInt8) (number : Nat) : FieldDesc where
  type := peek block (fieldsAt + 12 * number)
  length := peek block (fieldsAt + 12 * number + 4)
  offset := peek block (fieldsAt + 12 * number + 8)

/-- `Table->Fields[number]` -/
def fieldAt (block : List UInt8) (number : Nat) : Except Breach FieldDesc := do
  check (fieldsAt + 12 * number + 12 ≤ block.length) .descriptor
  return peekField block number

/-- The string that begins with these bytes, if it ends in them. -/
def cString (bytes : List UInt8) : Option (List UInt8) :=
  if 0 ∈ bytes then some (bytes.takeWhile (· ≠ 0)) else none

/-- `Name` and the first byte of `NameTerm` as a string. -/
def peekName (block : List UInt8) : Option (List UInt8) := cString ((block.drop nameAt).take 33)

/-- What `memcpy( FName, Table->Name, QBASE_TAB_NAMELEN+1 )` leaves for `strcat`. The 40 bytes of
`FName` hold such a name with `QBASE_TBL_H` or `QBASE_TBL_D`. -/
def fName (block : List UInt8) : Except Breach (List UInt8) :=
  match peekName block with
  | some name => .ok name
  | none => .error .name

/-! ### The server -/

/-- `Qbase_table_t`: the block of the descriptor, and the name of the header file if it is open. -/
structure MemTable where
  desc : List UInt8
  hFile : Option (List UInt8)

/-- The tables that were ever loaded in the order of their entries, the header files by their
names without the ending, and the connections. -/
structure Manager where
  tables : List MemTable
  files : List UInt8 → Option (List UInt8)
  conns : ConnId → Connection

def Manager.setConn (manager : Manager) (conn : ConnId) (ocb : Connection) : Manager :=
  { manager with conns := Function.update manager.conns conn ocb }

/-- Follow `ocb->Table`. -/
def Manager.table (manager : Manager) (ref : TableRef) : Except Breach MemTable :=
  match manager.tables[ref]? with
  | some table => .ok table
  | none => .error .noTable

/-- `LastRow` and the data of a page. -/
structure PageView where
  lastRow : Nat
  data : Block

/-- What a request meets besides its message: the entry at which the loop over the loaded tables
stops, whether the connection is the last one of the table that it leaves, how opening and creating
a header file end, `LastRow` of the last page, whether the data of a row arrives, and the pages
that `LockTablePage` returns one after another until it returns NULL. -/
structure Circumstances where
  found : Option TableRef
  last : Bool
  opens : Bool
  creates : Bool
  lastRow : Nat
  arrives : Bool
  pages : List PageView

def headSync (manager : Manager) (table : MemTable) : Except Breach Manager := do
  let size ← wordAt table.desc sizeAt
  check (size ≤ table.desc.length) .descriptor
  match table.hFile with
  | none => return manager
  | some name =>
    let behind := ((manager.files name).getD []).drop size
    return { manager with
      files := Function.update manager.files name (some (table.desc.take size ++ behind)) }

/-- `atomic_sub` of the locks of the selected table; the last connection releases it. -/
def leaveTable (manager : Manager) (conn : ConnId) (circumstances : Circumstances) :
    Except Breach Manager :=
  match (manager.conns conn).table with
  | none => .ok manager
  | some old =>
    if circumstances.last then do
      let table ← manager.table old
      headSync manager table
    else .ok manager

/-! ### Filters -/

/-- How many bytes of the field and of the value a comparison reads. -/
def reads (condition : Filter) : Nat :=
  match condition.cmpFunc with
  | .uint | .int => 4
  | .uint16 | .int16 => 2
  | .double => 8
  | .timestamp => if condition.has cmpEq || condition.has cmpG || condition.has cmpL then 4 else 0
  | .binary => if condition.fSize = condition.vSize ∧ condition.has cmpEq then condition.fSize else 0
  | .string =>
    if condition.fSize = condition.vSize ∧ (condition.has cmpEq ∨ condition.has cmpCeq) then
      condition.fSize
    else if condition.has cmpG || condition.has cmpCg || condition.has cmpL || condition.has cmpCl then
      min condition.fSize condition.vSize
    else 0

/-- The loop over the filter stack. -/
def applyFiltersAt (rowLen : Nat) (row : Row) : List Filter → Except Breach Verdict
  | [] => .ok .pass
  | condition :: rest => do
    check (condition.field + reads condition ≤ rowLen) .field
    check (reads condition ≤ condition.value.length) .value
    if condition.accepts row then applyFiltersAt rowLen row rest
    else if condition.strict then return .broken
    else return .skip

/-- `Qbase_data_filter` -/
def dataFilterAt (rowLen : Nat) (filters : List Filter) (row : Row) : Except Breach Verdict := do
  check (4 ≤ rowLen) .field
  if keyOf row = 0 then return .skip else applyFiltersAt rowLen row filters

/-- `where = RPage->Data + RIndex*rowlen` in a page of `RowLen * PageRows` bytes. -/
def PageView.row (page : PageView) (rowLen pageRows rIndex : Nat) : Except Breach Row := do
  check ((rIndex + 1) * rowLen ≤ rowLen * pageRows % 2 ^ 32) .page
  return readBytes page.data (rIndex * rowLen) rowLen

/-- `LastRow` of a page is at most `PageRows`. -/
def PageView.count (page : PageView) (pageRows rIndex : Nat) : Nat :=
  min page.lastRow pageRows - rIndex

/-! ### `Qbase_read` -/

/-- The record to which a scan comes, its code and its row. -/
abbrev ReadEnd := Nat × ErrorCode × Option Row

/-- The inner loop over the rows of a page. -/
def readRows (rowLen pageRows : Nat) (filters : List Filter) (page : PageView) :
    Nat → Nat → Nat → Except Breach (Pass Nat ReadEnd)
  | 0, _, record => .ok (.again record)
  | count + 1, rIndex, record => do
    let row ← page.row rowLen pageRows rIndex
    let verdict ← dataFilterAt rowLen filters row
    match verdict with
    | .pass => return .stop ((record + 1) % 2 ^ 32, .ok, some row)
    | .broken => return .stop (record, .lastrow, none)
    | .skip => readRows rowLen pageRows filters page count (rIndex + 1) ((record + 1) % 2 ^ 32)

/-- The outer loop; without a page the code is what it was before. -/
def readPages (rowLen pageRows index : Nat) (filters : List Filter) (qerrno : ErrorCode) :
    List PageView → Nat → Nat → Except Breach ReadEnd
  | [], _, record => .ok (record, if record < index then qerrno else .lastrow, none)
  | page :: rest, rIndex, record =>
    if record < index then do
      let pass ← readRows rowLen pageRows filters page (page.count pageRows rIndex) rIndex record
      match pass with
      | .stop ending => return ending
      | .again record => readPages rowLen pageRows index filters qerrno rest 0 record
    else .ok (record, .lastrow, none)

/-- The answers to `_IO_READ`, `_IO_WRITE` and `_IO_DEVCTL`. -/
inductive Answer where
  | row (row : Option Row)
  | wrote (nbytes : Nat)
  | status (code : ErrorCode) (data : List UInt8)
  | nosys

def qbaseRead (manager : Manager) (conn : ConnId) (circumstances : Circumstances)
    (nbytes : UInt32) : Except Breach (Manager × Answer) :=
  let ocb := manager.conns conn
  match ocb.table with
  | none => .ok (manager.setConn conn { ocb with qerrno := .notblsel }, .row none)
  | some ref => do
    let table ← manager.table ref
    let rowLen ← wordAt table.desc rowLenAt
    if nbytes.toNat < rowLen then
      return (manager.setConn conn { ocb with qerrno := .mem }, .row none)
    else
      let pageRows ← wordAt table.desc pageRowsAt
      check (pageRows ≠ 0) .divide
      let index ← wordAt table.desc indexAt
      let ending ← readPages rowLen pageRows index ocb.filters ocb.qerrno circumstances.pages
        (ocb.record % pageRows) ocb.record
      return (manager.setConn conn { ocb with record := ending.1, qerrno := ending.2.1 },
        .row ending.2.2)

/-! ### `Qbase_write` -/

/-- `Table->Index++` -/
def countRow (desc : List UInt8) (index : Nat) : List UInt8 :=
  overwrite desc indexAt (bytesOf 4 (index + 1))

/-- A last page that is full is written back with the header. -/
def syncFull (manager : Manager) (table : MemTable) (pageRows lastRow : Nat) :
    Except Breach Manager :=
  if pageRows ≤ lastRow then headSync manager table else .ok manager

def qbaseWrite (manager : Manager) (conn : ConnId) (circumstances : Circumstances)
    (nbytes : UInt32) : Except Breach (Manager × Answer) :=
  let ocb := manager.conns conn
  match ocb.table with
  | none => .ok (manager.setConn conn { ocb with qerrno := .notblsel }, .wrote 0)
  | some ref => do
    let table ← manager.table ref
    let rowLen ← wordAt table.desc rowLenAt
    if nbytes.toNat < rowLen then
      return (manager.setConn conn { ocb with qerrno := .buf }, .wrote 0)
    else
      let pageRows ← wordAt table.desc pageRowsAt
      let manager ← syncFull manager table pageRows circumstances.lastRow
      let lastRow := if pageRows ≤ circumstances.lastRow then 0 else circumstances.lastRow
      let index ← wordAt table.desc indexAt
      let manager := { manager with
        tables := manager.tables.set ref { table with desc := countRow table.desc index } }
      check (4 ≤ rowLen) .field -- `*((uint32_t*)where) = PrKey`
      check ((lastRow + 1) * rowLen ≤ rowLen * pageRows % 2 ^ 32) .page
      if circumstances.arrives then
        return (manager.setConn conn { ocb with record := index }, .wrote rowLen)
      else return (manager.setConn conn { ocb with qerrno := .ins }, .wrote 0)

/-! ### `QBASE_CMD_UPDATE`, `QBASE_CMD_UPDCUR` and `QBASE_CMD_DELETE` -/

/-- Whether the branch of the type does something for the action. -/
def acts (field : FieldDesc) (action : Nat) : Bool :=
  if field.type < typeTimestamp then decide (actSet ≤ action ∧ action ≤ actDiv)
  else action = actSet

/-- Where the value of a field stands in a rule. -/
def valueAt (fieldNum : Nat) (field : FieldDesc) : Nat := 4 + fieldNum + field.offset

/-- One pass of the loop over the fields. -/
def updateFieldAt (block : List UInt8) (fieldNum rowLen : Nat) (message : Message) (row : Row)
    (number : Nat) : Except Breach Row := do
  check (4 + number < message.received.length) .message
  let action := (message.received.getD (4 + number) 0).toNat
  if action = actNone then return row
  else
    let field ← fieldAt block number
    if acts field action then
      check (field.offset + field.width ≤ rowLen) .field
      check (valueAt fieldNum field + field.width ≤ message.received.length) .message
      let value := (message.received.drop (valueAt fieldNum field)).take field.width
      match updateField field action ((row.drop field.offset).take field.width) value with
      | .error _ => .error .divide
      | .ok bytes => return overwrite row field.offset bytes
    else return row

/-- The loop over the fields. -/
def updateRowAt (block : List UInt8) (fieldNum rowLen : Nat) (message : Message) (row : Row) :
    Except Breach Row :=
  (List.range fieldNum).foldlM (updateFieldAt block fieldNum rowLen message) row

/-- The three requests that scan the table. -/
inductive Scan where
  | update (message : Message)
  | updcur (message : Message)
  | delete

def Scan.single : Scan → Bool
  | .updcur _ => true
  | _ => false

/-- `sizeof(uint32_t) + FieldNum + rowlen` -/
def uSize (fieldNum rowLen : Nat) : Nat := (4 + fieldNum + rowLen) % 2 ^ 32

/-- "check that the size of update header is correct" -/
def Scan.fits (fieldNum rowLen : Nat) : Scan → Bool
  | .update message | .updcur message => decide (uSize fieldNum rowLen ≤ message.nbytes.toNat)
  | .delete => true

/-- What is done with a row: whether the scan ends there. What it writes to the row is not read
again by the request. -/
def scanRow (block : List UInt8) (fieldNum rowLen : Nat) (filters : List Filter) (scan : Scan)
    (row : Row) : Except Breach Bool := do
  let verdict ← dataFilterAt rowLen filters row
  match verdict with
  | .broken => return true
  | .skip => return scan.single
  | .pass =>
    match scan with
    | .update message | .updcur message =>
      (updateRowAt block fieldNum rowLen message row).map fun _ => scan.single
    | .delete => return scan.single

/-- The inner loop over the rows of a page: what is left of `TIndex`. -/
def scanRows (visit : Row → Except Breach Bool) (rowLen pageRows : Nat) (page : PageView) :
    Nat → Nat → Nat → Except Breach Nat
  | 0, _, tIndex => .ok tIndex
  | _ + 1, _, 0 => .ok 0
  | count + 1, rIndex, tIndex + 1 => do
    let row ← page.row rowLen pageRows rIndex
    let ends ← visit row
    if ends then return 0
    else scanRows visit rowLen pageRows page count (rIndex + 1) tIndex

/-- The outer loop. -/
def scanPages (visit : Row → Except Breach Bool) (rowLen pageRows : Nat) (qerrno : ErrorCode) :
    List PageView → Nat → Nat → Except Breach ErrorCode
  | _, _, 0 => .ok .ok
  | [], _, _ + 1 => .ok qerrno
  | page :: rest, rIndex, tIndex + 1 => do
    let left ← scanRows visit rowLen pageRows page (page.count pageRows rIndex) rIndex (tIndex + 1)
    scanPages visit rowLen pageRows qerrno rest 0 left

/-- `QBASE_CMD_UPDATE`, `QBASE_CMD_UPDCUR` and `QBASE_CMD_DELETE`. -/
def qbaseScan (manager : Manager) (conn : ConnId) (circumstances : Circumstances) (scan : Scan) :
    Except Breach ErrorCode :=
  let ocb := manager.conns conn
  match ocb.table with
  | none => .ok .notblsel
  | some ref => do
    let table ← manager.table ref
    let rowLen ← wordAt table.desc rowLenAt
    let fieldNum ← wordAt table.desc fieldNumAt
    if scan.fits fieldNum rowLen then
      let pageRows ← wordAt table.desc pageRowsAt
      check (scan.single = true → pageRows ≠ 0) .divide
      let rIndex := if scan.single then ocb.record % pageRows else 0
      let tIndex ← wordAt table.desc indexAt
      scanPages (scanRow table.desc fieldNum rowLen ocb.filters scan) rowLen pageRows ocb.qerrno
        circumstances.pages rIndex tIndex
    else return .buf

/-! ### The other commands -/

/-- The filter that a request defines for a field. -/
def makeFilter (message : Message) (field : FieldDesc) (cmpFunc : CmpFunc) : Filter :=
  let nFilter := message.received.take message.nbytes.toNat
  { flags := peek nFilter 0, fNum := peek nFilter 4, field := field.offset
    fSize := field.length, vSize := peek nFilter 16, cmpFunc := cmpFunc
    value := nFilter.drop filterValue }

/-- `QBASE_CMD_FLTRDEFINE` -/
def fltrdefine (manager : Manager) (conn : ConnId) (message : Message) :
    Except Breach (Manager × ErrorCode) :=
  let ocb := manager.conns conn
  match ocb.table with
  | none => .ok (manager, .notblsel)
  | some ref =>
    if message.nbytes.toNat < filterSize then .ok (manager, .buf)
    else do
      check (message.nbytes.toNat ≤ message.received.length) .message
      let table ← manager.table ref
      let fieldNum ← wordAt table.desc fieldNumAt
      let fNum := peek message.received 4
      if fieldNum ≤ fNum then return (manager, .fltr)
      else
        let field ← fieldAt table.desc fNum
        match ffuncs[field.type]? with
        | none => .error .comparator
        | some cmpFunc =>
          let nFilter := makeFilter message field cmpFunc
          return (manager.setConn conn { ocb with filters := nFilter :: ocb.filters, record := 0 },
            .ok)

/-- `ocb->Record` is compared with the counter of rows. -/
def seekTo (manager : Manager) (conn : ConnId) (index record : Nat) : Manager × ErrorCode :=
  let ocb := manager.conns conn
  if index < record then (manager.setConn conn { ocb with record := 0 }, .pkey)
  else (manager.setConn conn { ocb with record := record }, .ok)

/-- `QBASE_CMD_SEEK` locks the table before it asks whether there is one. -/
def seek (manager : Manager) (conn : ConnId) (message : Message) :
    Except Breach (Manager × ErrorCode) :=
  match (manager.conns conn).table with
  | none => .error .noTable
  | some ref => do
    let table ← manager.table ref
    if message.nbytes.toNat = 4 then
      let key ← message.word 0
      let index ← wordAt table.desc indexAt
      return seekTo manager conn index ((key + (2 ^ 32 - 1)) % 2 ^ 32)
    else return (manager, .buf)

/-- The end of the two requests that bring a new table. -/
def enterTable (manager : Manager) (conn : ConnId) (table : MemTable) : Manager :=
  let ocb := manager.conns conn
  { manager with tables := manager.tables ++ [table] }.setConn conn
    { ocb with table := some manager.tables.length, record := 0, filters := [] }

/-- `QBASE_CMD_TBLSELECT` of a loaded table. -/
def selectLoaded (manager : Manager) (conn : ConnId) (circumstances : Circumstances)
    (curTbl : TableRef) : Except Breach (Manager × ErrorCode) :=
  let ocb := manager.conns conn
  if ocb.table = some curTbl then .ok (manager, .ok)
  else do
    let manager ← leaveTable manager conn circumstances
    let filters := if ocb.table = none then ocb.filters else []
    return (manager.setConn conn { ocb with table := some curTbl, filters := filters }, .ok)

/-- `QBASE_CMD_TBLSELECT` from the header file. -/
def selectFile (manager : Manager) (conn : ConnId) (circumstances : Circumstances)
    (name header : List UInt8) : Except Breach (Manager × ErrorCode) :=
  if header = [] then .ok (manager, .mem)
  else do
    check (nameAt + 33 ≤ header.length) .descriptor
    let _ ← fName header
    let _ ← wordAt header rowLenAt
    let pageRows ← wordAt header pageRowsAt
    let _ ← wordAt header indexAt
    check (pageRows ≠ 0) .divide
    let manager ← leaveTable manager conn circumstances
    return (enterTable manager conn ⟨header, some name⟩, .ok)

/-- The loop over the loaded tables: an entry with this name, if it stops at one. -/
def Manager.find (manager : Manager) (circumstances : Circumstances) (name : List UInt8) :
    Option TableRef :=
  circumstances.found.filter fun ref =>
    match manager.tables[ref]? with
    | some table => peekName table.desc = some name
    | none => false

/-- `QBASE_CMD_TBLSELECT`. `strcmp` reads a name that does not end in what was received behind it,
`memcpy` copies the name to the 40 bytes of `FName`, and `strcat` looks for its end there. -/
def tblselect (manager : Manager) (conn : ConnId) (circumstances : Circumstances)
    (message : Message) : Except Breach (Manager × ErrorCode) :=
  let nbytes := message.nbytes.toNat
  if 32 < nbytes ∧ nbytes < 2 ^ 31 then .ok (manager, .buf)
  else
    match cString message.received with
    | none => .error .message
    | some name =>
      match manager.find circumstances name with
      | some curTbl => selectLoaded manager conn circumstances curTbl
      | none => do
        check (nbytes ≤ 32 ∧ name.length < nbytes) .name
        check (nbytes ≤ message.received.length) .message
        match manager.files name with
        | none => return (manager, .notblexist)
        | some header =>
          if circumstances.opens then selectFile manager conn circumstances name header
          else return (manager, .notblexist)

/-- Whether a file keeps `QBASE_CMD_TBLCREATE` from creating one of the name. -/
def Manager.exists (manager : Manager) (circumstances : Circumstances) (name : List UInt8) : Bool :=
  (manager.files name).isSome && circumstances.opens

/-- `QBASE_CMD_TBLCREATE`. With too few pages the new entry is given back. -/
def tblcreate (manager : Manager) (conn : ConnId) (circumstances : Circumstances)
    (message : Message) : Except Breach (Manager × ErrorCode) :=
  if message.nbytes.toNat < descSize then .ok (manager, .buf)
  else do
    check (nameAt + 33 ≤ message.received.length) .message
    let name ← fName message.received
    if manager.exists circumstances name then return (manager, .already)
    else
      let size := peek message.received sizeAt
      check (size ≤ message.received.length) .message
      let desc := message.received.take size
      let lockPages ← wordAt desc lockPagesAt
      if lockPages < 3 then return (manager, .fewplocks)
      else
        let files := if circumstances.creates then
            Function.update manager.files name (some desc)
          else manager.files
        let manager ← leaveTable { manager with files := files } conn circumstances
        return (enterTable manager conn ⟨desc, if circumstances.creates then some name else none⟩,
          .ok)

/-- The commands of `Qbase_devctl`. -/
inductive Command where
  | tblselect
  | tblcreate
  | error
  | tblflush
  | info
  | fetchrst
  | tblcapslen
  | tblcaps
  | fltrdelete
  | fltrpop
  | fltrdefine
  | update
  | updcur
  | delete
  | seek
  | unknown
  deriving DecidableEq

/-- `QBASE_CMD_TBLFLUSH` as far as it concerns the header. -/
def tblflush (manager : Manager) (conn : ConnId) : Except Breach (Manager × ErrorCode) :=
  match (manager.conns conn).table with
  | none => .ok (manager, .notblsel)
  | some ref => do
    let table ← manager.table ref
    let manager ← headSync manager table
    return (manager, .ok)

/-- `QBASE_CMD_TBLCAPSLEN` -/
def tblcapslen (manager : Manager) (conn : ConnId) : Except Breach (ErrorCode × List UInt8) :=
  match (manager.conns conn).table with
  | none => .ok (.notblsel, [])
  | some ref => do
    let table ← manager.table ref
    let size ← wordAt table.desc sizeAt
    return (.ok, bytesOf 4 size)

/-- `QBASE_CMD_TBLCAPS`: the caption is copied to the buffer of the message. -/
def tblcaps (manager : Manager) (conn : ConnId) : Except Breach (ErrorCode × List UInt8) :=
  match (manager.conns conn).table with
  | none => .ok (.notblsel, [])
  | some ref => do
    let table ← manager.table ref
    let size ← wordAt table.desc sizeAt
    check (size ≤ table.desc.length) .descriptor
    check (size ≤ msgRoom) .message
    return (.ok, table.desc.take size)

/-- The cases of `Qbase_devctl`: the server, the return value and the data of the reply. -/
def command (manager : Manager) (conn : ConnId) (circumstances : Circumstances)
    (message : Message) : Command → Except Breach (Manager × ErrorCode × List UInt8)
  | .tblselect => plain (tblselect manager conn circumstances message)
  | .tblcreate => plain (tblcreate manager conn circumstances message)
  | .error => .ok (manager, (manager.conns conn).qerrno, [])
  | .tblflush => plain (tblflush manager conn)
  | .info =>
    if message.nbytes.toNat < 16 then .ok (manager, .buf, [])
    else .ok (manager, .ok, List.replicate 16 0)
  | .fetchrst =>
    if (manager.conns conn).table = none then .ok (manager, .notblsel, [])
    else .ok (manager.setConn conn { manager.conns conn with record := 0 }, .ok, [])
  | .tblcapslen => (tblcapslen manager conn).map fun reply => (manager, reply)
  | .tblcaps => (tblcaps manager conn).map fun reply => (manager, reply)
  | .fltrdelete =>
    .ok (manager.setConn conn { manager.conns conn with filters := [], record := 0 }, .ok, [])
  | .fltrpop =>
    let ocb := manager.conns conn
    .ok (manager.setConn conn { ocb with filters := ocb.filters.tail }, .ok, [])
  | .fltrdefine => plain (fltrdefine manager conn message)
  | .update => scan (.update message)
  | .updcur => scan (.updcur message)
  | .delete => scan .delete
  | .seek => plain (seek manager conn message)
  | .unknown => .ok (manager, .notsupp, [])
where
  plain : Except Breach (Manager × ErrorCode) → Except Breach (Manager × ErrorCode × List UInt8) :=
    Except.map fun (manager, code) => (manager, code, [])
  scan (scan : Scan) : Except Breach (Manager × ErrorCode × List UInt8) :=
    (qbaseScan manager conn circumstances scan).map fun code => (manager, code, [])

/-- The end of `Qbase_devctl`. -/
def finish (conn : ConnId) (known : Bool) :
    Manager × ErrorCode × List UInt8 → Manager × Answer := fun (manager, code, data) =>
  (manager.setConn conn { manager.conns conn with qerrno := code },
    if known then .status code data else .nosys)

def qbaseDevctl (manager : Manager) (conn : ConnId) (circumstances : Circumstances)
    (message : Message) (dcmd : Command) : Except Breach (Manager × Answer) :=
  (command manager conn circumstances message dcmd).map (finish conn (dcmd ≠ .unknown))

/-- `Qbase_OCB_free`, and a new connection with the same number. -/
def qbaseOcbFree (manager : Manager) (conn : ConnId) (circumstances : Circumstances) :
    Except Breach (Manager × Answer) := do
  let manager ← leaveTable manager conn circumstances
  return (manager.setConn conn Connection.calloc, .wrote 0)

inductive Request where
  | read (nbytes : UInt32)
  | write (nbytes : UInt32)
  | devctl (dcmd : Command) (message : Message)
  | close

/-- A request of a connection, and what it meets. -/
structure Input where
  conn : ConnId
  circumstances : Circumstances
  request : Request

def Manager.handle (manager : Manager) (input : Input) : Except Breach (Manager × Answer) :=
  match input.request with
  | .read nbytes => qbaseRead manager input.conn input.circumstances nbytes
  | .write nbytes => qbaseWrite manager input.conn input.circumstances nbytes
  | .devctl dcmd message => qbaseDevctl manager input.conn input.circumstances message dcmd
  | .close => qbaseOcbFree manager input.conn input.circumstances

def ManagerStep : Manager → Input × Answer → Manager → Prop := Answers Manager.handle

/-- No table is loaded and no connection has one selected. -/
structure Manager.Start (manager : Manager) : Prop where
  tables : manager.tables = []
  conns : manager.conns = fun _ => Connection.calloc

end QNXStuff.QXBase.Requests
