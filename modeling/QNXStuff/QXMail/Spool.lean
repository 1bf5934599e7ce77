import QNXStuff.Library.Execution
import QNXStuff.Library.SharedLock
import QNXStuff.QXMail.Smtp

/-! The spool: messages that sessions put on `spool_msgs` and that the spooler threads take off, have
scanned, deliver to the mailboxes and release. -/

namespace QNXStuff.QXMail

open Execution

structure FileName where
  dir : List UInt8
  entry : List UInt8
  deriving DecidableEq

abbrev Disk := FileName → Option (List UInt8)

/-- `link`: it fails without the old name and where the new one exists. -/
def Disk.link (disk : Disk) (old new : FileName) : Option Disk :=
  match disk old, disk new with
  | some text, none => some (Function.update disk new (some text))
  | _, _ => none

def Disk.remove (disk : Disk) (name : FileName) : Disk := Function.update disk name none

/-- `smtpmsg_t` on the queue, with what can be read through `spoolfd`. -/
structure SpoolMsg where
  msg : SmtpMsg
  spoolfd : Nat
  spoolfn : List UInt8
  text : List UInt8
  deriving DecidableEq

def SpoolMsg.name (msg : SpoolMsg) : FileName := ⟨ascii "spool", msg.spoolfn⟩

/-- What Qavird answers. -/
inductive AvResult where
  | clean
  | virus
  | internal
  deriving DecidableEq

/-- Where a thread is in `Spooler`: before the mutex, in `pthread_cond_wait`, behind it without the
mutex, or with `msg`. -/
inductive SpoolerThread where
  | idle
  | asleep
  | woken
  | taken (msg : SpoolMsg)
  | scanning (msg : SpoolMsg)
  | infected (msg : SpoolMsg)
  | delivering (msg : SpoolMsg) (rcpts crcpt : List (List UInt8))
  | external (msg : SpoolMsg) (crcpt : List (List UInt8))
  | done (msg : SpoolMsg)
  deriving DecidableEq

/-- `spool_msgs`, `AVEnable`, the files, the descriptors of the spool, and the threads. -/
structure Spool (Thread : Type) where
  spoolMsgs : List SpoolMsg
  avEnable : Bool
  disk : Disk
  fds : List Nat
  threads : Thread → SpoolerThread

/-- A session puts a message on the queue and signals, or a thread goes on. -/
inductive SpoolInput (Thread : Type) where
  | spool (msg : SpoolMsg) (signalled : Option Thread)
  /-- The thread gets the mutex, at first or after a wait. -/
  | take (thread : Thread)
  /-- `pthread_cond_wait` returns without a signal. -/
  | wake (thread : Thread)
  | check (thread : Thread)
  /-- `devctl`; `none` is its failure. -/
  | scanned (thread : Thread) (result : Option AvResult)
  | save (thread : Thread) (time rand : Nat)
  | deliver (thread : Thread) (time rand : Nat)
  /-- The rounds of external delivery, which read the file; `again` are the numbers of sockets that
  they close a second time, whatever has the number by then. -/
  | external (thread : Thread) (again : List Nat)
  | release (thread : Thread)
  deriving DecidableEq

inductive SpoolEvent where
  | quiet
  | spooled (msg : SpoolMsg)
  | taken (msg : SpoolMsg)
  /-- The message goes on to its recipients. -/
  | passed (msg : SpoolMsg)
  /-- The scanner stops it. -/
  | stopped (msg : SpoolMsg)
  | saved (saved : Bool)
  | delivered (name : FileName) (text : List UInt8)
  /-- `link` has failed, which is not checked. -/
  | lost (user text : List UInt8)
  | released (msg : SpoolMsg)
  deriving DecidableEq

/-- An input that does not come. -/
inductive SpoolingFault where
  | absent
  deriving DecidableEq

/-- What the spooler threads use of the server, and `pthread_self`. -/
structure Spooling (Thread : Type) where
  server : MailServer
  mytid : Thread → Nat

namespace Spool

variable {Thread : Type} [DecidableEq Thread]

def move (state : Spool Thread) (thread : Thread) (now : SpoolerThread) : Spool Thread :=
  { state with threads := Function.update state.threads thread now }

abbrev Spooled (Thread : Type) := Except SpoolingFault (Spool Thread × SpoolEvent)

/-- `pthread_cond_signal` wakes a thread if one waits. -/
def condSignal [Fintype Thread] (state : Spool Thread) (signalled : Option Thread) :
    Except SpoolingFault (Spool Thread) :=
  match signalled with
  | none => if ∀ thread, state.threads thread ≠ .asleep then .ok state else .error .absent
  | some thread =>
    if state.threads thread = .asleep then .ok (state.move thread .woken) else .error .absent

/-- `mkstemp` at DATA and the end of it: neither the name nor the descriptor is in use. -/
def spool [Fintype Thread] (state : Spool Thread) (msg : SpoolMsg) (signalled : Option Thread) :
    Spooled Thread :=
  if state.disk msg.name ≠ none ∨ msg.spoolfd ∈ state.fds then .error .absent
  else
    ({ state with
      spoolMsgs := msg :: state.spoolMsgs
      disk := Function.update state.disk msg.name (some msg.text)
      fds := msg.spoolfd :: state.fds }.condSignal signalled).map fun state =>
      (state, .spooled msg)

/-- `while(spool_msgs == NULL) pthread_cond_wait( … )`, and one message is taken. -/
def takeMsg (state : Spool Thread) (thread : Thread) : Spooled Thread :=
  match state.spoolMsgs with
  | [] => .ok (state.move thread .asleep, .quiet)
  | msg :: rest => .ok ({ state with spoolMsgs := rest }.move thread (.taken msg), .taken msg)

/-- The message goes on to "LOCAL DELIVERY". -/
def pass (state : Spool Thread) (thread : Thread) (msg : SpoolMsg) : Spooled Thread :=
  .ok (state.move thread (.delivering msg msg.msg.rcpts []), .passed msg)

/-- `sprintf` of three numbers without anything between them -/
def destEntry (spooling : Spooling Thread) (thread : Thread) (time rand : Nat) : List UInt8 :=
  ascii (toString (spooling.mytid thread) ++ toString time ++ toString rand)

/-- One recipient. -/
def deliverOne (spooling : Spooling Thread) (state : Spool Thread) (thread : Thread)
    (msg : SpoolMsg) (crcpt : List (List UInt8)) (time rand : Nat) :
    List (List UInt8) → Spooled Thread
  | [] => .ok (state.move thread (.external msg crcpt), .quiet)
  | rcpt :: rest =>
    match spooling.server.mailbox rcpt with
    | none => .ok (state.move thread (.delivering msg rest (rcpt :: crcpt)), .quiet)
    | some mbxs =>
      let destfn : FileName := ⟨mbxs.user, destEntry spooling thread time rand⟩
      let state' := state.move thread (.delivering msg rest crcpt)
      match state.disk.link msg.name destfn with
      | some disk => .ok ({ state' with disk := disk }, .delivered destfn msg.text)
      | none => .ok (state', .lost mbxs.user msg.text)

/-- "close and delete spooler file"; nothing looks at what `close` and `remove` return. -/
def release (state : Spool Thread) (thread : Thread) (msg : SpoolMsg) : Spooled Thread :=
  .ok ({ state with
    disk := state.disk.remove msg.name
    fds := state.fds.erase msg.spoolfd }.move thread .idle, .released msg)

def handle [Fintype Thread] (spooling : Spooling Thread) (state : Spool Thread) :
    SpoolInput Thread → Spooled Thread
  | .spool msg signalled => state.spool msg signalled
  | .take thread =>
    match state.threads thread with
    | .idle | .woken => state.takeMsg thread
    | _ => .error .absent
  | .wake thread =>
    if state.threads thread = .asleep then .ok (state.move thread .woken, .quiet)
    else .error .absent
  | .check thread =>
    match state.threads thread with
    | .taken msg =>
      if state.avEnable then .ok (state.move thread (.scanning msg), .quiet)
      else state.pass thread msg
    | _ => .error .absent
  | .scanned thread result =>
    match state.threads thread, result with
    | .scanning msg, none => { state with avEnable := false }.pass thread msg
    | .scanning msg, some .virus => .ok (state.move thread (.infected msg), .stopped msg)
    | .scanning msg, some _ => state.pass thread msg
    | _, _ => .error .absent
  | .save thread time rand =>
    match state.threads thread with
    | .infected msg =>
      let destfn : FileName := ⟨ascii "infected", destEntry spooling thread time rand⟩
      match state.disk.link msg.name destfn with
      | some disk => .ok ({ state with disk := disk }.move thread (.done msg), .saved true)
      | none => .ok (state.move thread (.done msg), .saved false)
    | _ => .error .absent
  | .deliver thread time rand =>
    match state.threads thread with
    | .delivering msg rcpts crcpt => deliverOne spooling state thread msg crcpt time rand rcpts
    | _ => .error .absent
  | .external thread again =>
    match state.threads thread with
    | .external msg _ =>
      .ok ({ state with fds := state.fds.diff again }.move thread (.done msg), .quiet)
    | _ => .error .absent
  | .release thread =>
    match state.threads thread with
    | .done msg => state.release thread msg
    | _ => .error .absent

/-- The mailboxes as they are found, with nothing in the spool. -/
def started (avEnable : Bool) (disk : Disk) : Spool Thread where
  spoolMsgs := []
  avEnable := avEnable
  disk := disk
  fds := []
  threads := fun _ => .idle

end Spool

abbrev SpoolLabel (Thread : Type) := SpoolInput Thread × SpoolEvent

abbrev SpoolStep {Thread : Type} [DecidableEq Thread] [Fintype Thread]
    (spooling : Spooling Thread) : Spool Thread → SpoolLabel Thread → Spool Thread → Prop :=
  Answers (Spool.handle spooling)

end QNXStuff.QXMail
