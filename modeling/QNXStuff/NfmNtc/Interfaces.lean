import QNXStuff.Library.Registry
import QNXStuff.Library.SharedLock
import QNXStuff.NfmNtc.Decisions
import QNXStuff.QXMail.Text

/-! The list of interfaces: the drivers' adverts and death notices come in by the threads of the
network, next to the packets that are looked up in it, and the resource manager's thread is told which
interfaces are of interest. -/

namespace QNXStuff.NfmNtc

open Execution Registry SharedLock
open QXMail (stricmp tolower)

/-- The three numbers by which `io-net` calls an interface. -/
structure IfNumbers where
  cell : UInt16
  endpoint : UInt16
  iface : UInt16
  deriving DecidableEq

/-- `if_info_t`, with the string in `ifname`. -/
structure IfRecord extends IfInfo where
  ifname : List UInt8
  dead : Bool

def ifNamSiz : Nat := 16

/-- `sizeof(if_info_t)` -/
def ifInfoSize : Nat := 28

/-- `io_net_msg_dl_advert_t`: `name` is the string in `dl.sdl_data`. -/
structure Advert where
  name : List UInt8
  numbers : IfNumbers
  deriving DecidableEq

/-- The record of a new interface: "all new interfaces are not of interest". -/
def Advert.record (ad : Advert) : IfRecord where
  cell := ad.numbers.cell
  endpoint := ad.numbers.endpoint
  iface := ad.numbers.iface
  ofinterest := false
  ifname := ad.name.take (ifNamSiz - 1)
  dead := false

/-- What the loops over a record go through, one access after the other: the numbers, and then `dead`
to be set or `ofinterest` to be read. -/
inductive Field where
  | cell
  | endpoint
  | iface
  | flag
  deriving DecidableEq

def Field.next : Field → Option Field
  | .cell => some .endpoint
  | .endpoint => some .iface
  | .iface => some .flag
  | .flag => none

def Field.store (numbers : IfNumbers) (field : Field) (ifs : IfRecord) : IfRecord :=
  match field with
  | .cell => { ifs with cell := numbers.cell }
  | .endpoint => { ifs with endpoint := numbers.endpoint }
  | .iface => { ifs with iface := numbers.iface }
  | .flag => { ifs with dead := false }

/-- A comparison of `(ifs->cell == cell) && (ifs->endpoint == endpoint) && (ifs->iface == iface)`. -/
def Field.agrees (numbers : IfNumbers) (ifs : IfRecord) : Field → Bool
  | .cell => ifs.cell == numbers.cell
  | .endpoint => ifs.endpoint == numbers.endpoint
  | .iface => ifs.iface == numbers.iface
  | .flag => true

def IfRecord.numbers (ifs : IfRecord) : IfNumbers := ⟨ifs.cell, ifs.endpoint, ifs.iface⟩

/-- Where a thread of the network is in `ntc_rx_up` or `ntc_rx_down`. A pointer to a record is the
number of records from there on, so that 0 is `NULL`. -/
inductive NetThread where
  | idle
  /-- an advert, before the lock, with the lock and a record of its name, and before the lock again -/
  | searching (ad : Advert) (head : Nat)
  | updating (ad : Advert) (place : Nat) (field : Field)
  | adding (ad : Advert)
  /-- a death notice, before the lock -/
  | dying (numbers : IfNumbers) (head : Nat)
  /-- a packet, before the lock and with it -/
  | arriving (numbers : IfNumbers) (head : Nat)
  | comparing (numbers : IfNumbers) (ifs : Nat) (field : Field)
  deriving DecidableEq

/-- `if_rwlock`: a section with the lock for writing is one step. -/
def NetThread.hold : NetThread → Hold
  | .updating .. | .comparing .. => .shared
  | _ => .free

inductive Arrival where
  | advert (ad : Advert)
  | dying (numbers : IfNumbers)
  | packet (numbers : IfNumbers)

/-- `if_info_t * ifs = ntc_ifs;` comes before the lock. -/
def Arrival.thread (head : Nat) : Arrival → NetThread
  | .advert ad => .searching ad head
  | .dying numbers => .dying numbers head
  | .packet numbers => .arriving numbers head

/-- The commands of `ntc_rm_devctl` about interfaces. -/
inductive IfCommand where
  | ifPresent (nbytes : Nat)
  | addIf (name : List UInt8)
  | delIf (name : List UInt8)
  deriving DecidableEq

/-- The records behind `ntc_ifs`, the oldest first, the threads of the network, and the command that
the resource manager's thread is at. -/
structure Interfaces (Thread : Type) where
  ntcIfs : List IfRecord
  threads : Thread → NetThread
  manager : Option (IfCommand × Nat)

inductive IfInput (Thread : Type) where
  | comes (thread : Thread) (arrival : Arrival)
  | goOn (thread : Thread)
  | asks (command : IfCommand)
  | serves

inductive IfEvent (Thread : Type) where
  | silent
  | advertised (thread : Thread) (ad : Advert)
  | died (thread : Thread) (numbers : IfNumbers)
  | judged (thread : Thread) (ofinterest : Bool)
  /-- `ret_val`, and the names and the interest of the records that are copied -/
  | answered (command : IfCommand) (retval : Nat) (present : List (List UInt8 × Bool))
  deriving DecidableEq

/-- A record is accessed that is not there, or an input that does not come. -/
inductive IfFault where
  | wild
  | absent
  deriving DecidableEq

abbrev IfLabel (Thread : Type) := IfInput Thread × IfEvent Thread

namespace Interfaces

variable {Thread : Type}

abbrev Stepped (Thread : Type) := Except IfFault (Interfaces Thread × IfEvent Thread)

def change (state : Interfaces Thread) (place : Nat) (record : IfRecord → IfRecord) :
    Interfaces Thread :=
  { state with ntcIfs := state.ntcIfs.modify place record }

/-- The search of the list for a name: the records keep theirs. -/
def search (state : Interfaces Thread) (name : List UInt8) (head : Nat) : Option Nat :=
  findBelow (fun ifs => stricmp ifs.ifname name) state.ntcIfs head

/-- NTC_ADDIF and NTC_DELIF -/
def setInterest (state : Interfaces Thread) (head : Nat) (command : IfCommand) (name : List UInt8)
    (interest : Bool) : Stepped Thread :=
  match state.search name head with
  | some place =>
    .ok ({ state.change place (fun ifs => { ifs with ofinterest := interest }) with manager := none },
      .answered command 1 [])
  | none => .ok ({ state with manager := none }, .answered command 0 [])

/-- What the resource manager answers. For NTC_IFPRESENT `num_ifs` counts from the pointer that was read
before the lock, and the copies start at the one that is read with it. -/
def serve (state : Interfaces Thread) (head : Nat) : IfCommand → Stepped Thread
  | .ifPresent nbytes =>
    let count := min head (nbytes / ifInfoSize)
    if state.ntcIfs.length < count then .error .wild
    else
      .ok ({ state with manager := none }, .answered (.ifPresent nbytes) head
        ((state.ntcIfs.reverse.take count).map fun ifs => (ifs.ifname, ifs.ofinterest)))
  | .addIf name => state.setInterest head (.addIf name) name true
  | .delIf name => state.setInterest head (.delIf name) name false

variable [DecidableEq Thread]

def move (state : Interfaces Thread) (thread : Thread) (now : NetThread) : Interfaces Thread :=
  { state with threads := Function.update state.threads thread now }

@[simp] theorem move_self (state : Interfaces Thread) (thread : Thread) (now : NetThread) :
    (state.move thread now).threads thread = now := Function.update_self ..

theorem move_of_ne (state : Interfaces Thread) {thread other : Thread} (apart : other ≠ thread)
    (now : NetThread) : (state.move thread now).threads other = state.threads other :=
  Function.update_of_ne apart ..

/-- The next store of an advert into the record of its name. -/
def update (state : Interfaces Thread) (thread : Thread) (ad : Advert) (place : Nat) (field : Field) :
    Stepped Thread :=
  if state.ntcIfs.length ≤ place then .error .wild
  else
    let stored := state.change place (field.store ad.numbers)
    match field.next with
    | some next => .ok (stored.move thread (.updating ad place next), .silent)
    | none => .ok (stored.move thread .idle, .advertised thread ad)

def compare (state : Interfaces Thread) (thread : Thread) (numbers : IfNumbers) (field : Field) :
    Nat → Stepped Thread
  | 0 => .ok (state.move thread .idle, .judged thread true)
  | place + 1 =>
    match state.ntcIfs[place]? with
    | none => .error .wild
    | some ifs =>
      if field.agrees numbers ifs then
        match field.next with
        | some next => .ok (state.move thread (.comparing numbers (place + 1) next), .silent)
        | none => .ok (state.move thread .idle, .judged thread ifs.ofinterest)
      else .ok (state.move thread (.comparing numbers place .cell), .silent)

variable [Fintype Thread]

def goOn (state : Interfaces Thread) (thread : Thread) : Stepped Thread :=
  match state.threads thread with
  | .idle => .error .absent
  | .searching ad head =>
    match state.search ad.name head with
    | some place => .ok (state.move thread (.updating ad place .cell), .silent)
    | none => .ok (state.move thread (.adding ad), .silent)
  | .updating ad place field => state.update thread ad place field
  | .adding ad =>
    if MayTake NetThread.hold state.threads .exclusive then
      .ok ({ state with ntcIfs := state.ntcIfs ++ [ad.record] }.move thread .idle,
        .advertised thread ad)
    else .error .absent
  | .dying numbers head =>
    if MayTake NetThread.hold state.threads .exclusive then
      match findBelow (fun ifs => ifs.numbers == numbers) state.ntcIfs head with
      | some place =>
        .ok ((state.change place fun ifs => { ifs with dead := true }).move thread .idle,
          .died thread numbers)
      | none => .ok (state.move thread .idle, .died thread numbers)
    else .error .absent
  | .arriving numbers head => .ok (state.move thread (.comparing numbers head .cell), .silent)
  | .comparing numbers ifs field => state.compare thread numbers field ifs

def handle (state : Interfaces Thread) : IfInput Thread → Stepped Thread
  | .comes thread arrival =>
    if state.threads thread = .idle then
      .ok (state.move thread (arrival.thread state.ntcIfs.length), .silent)
    else .error .absent
  | .goOn thread => state.goOn thread
  | .asks command =>
    match state.manager with
    | some _ => .error .absent
    | none => .ok ({ state with manager := some (command, state.ntcIfs.length) }, .silent)
  | .serves =>
    match state.manager with
    | some (command, head) => state.serve head command
    | none => .error .absent

end Interfaces

end QNXStuff.NfmNtc
