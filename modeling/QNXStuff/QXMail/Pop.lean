import Mathlib.Algebra.Group.Int.Defs
import Mathlib.Algebra.Group.Nat.Defs
import QNXStuff.QXMail.Smtp

/-! The POP3 sessions: what each command makes of a connection, its messages and the lock of its
mailbox. -/

namespace QNXStuff.QXMail

open Execution

inductive PopState where
  | none
  | auth
  | tran
  deriving DecidableEq

structure MsgEnt where
  del : Bool
  size : UInt32
  name : List UInt8
  deriving DecidableEq

/-- `conn_info_t`, and the mailbox that `mbox` of `thread_handler_pop` points to: its place in
`MBX`. -/
structure PopConn where
  user : Option (List UInt8)
  greeting : List UInt8
  pstate : PopState
  msgs : List MsgEnt
  mbox : Option Nat
  deriving DecidableEq

/-- What the C library leaves open: the value of a number that is not an `int`, and what becomes of
a mutex that a thread unlocks without owning it. -/
structure Libc where
  atoiOther : List UInt8 → Int32
  unlockOther : Nat → Option Nat → Option Nat

/-- `MBX`, `server_fqdn`, `alc_buf_size` and the library. -/
structure PopConfig where
  mbx : List Mailbox
  fqdn : List UInt8
  bufSize : Nat
  libc : Libc

/-- What `readdir_r` and `lstat` tell of a file. -/
structure DirEntry where
  name : List UInt8
  regular : Bool
  size : UInt32

/-- What comes in: a line, with the directory and the files as they are then. -/
inductive PopInput where
  | lost
  | command (read : Received) (dir : Option (List DirEntry))
      (files : List UInt8 → Option (List UInt8))

/-- What is sent, the mailboxes whose mutex is locked and unlocked, and the files that are removed. -/
structure PopAnswer where
  sent : List UInt8
  acquired : Option Nat
  released : Option Nat
  removed : List (List UInt8)
  deriving DecidableEq

/-- A reply beyond the end of the buffer, a name that is NULL, or a thread without a connection or
with one. -/
inductive PopFault where
  | overflow
  | noName
  | closed
  | open
  deriving DecidableEq

def pop3Pos : List UInt8 := ascii "+OK\r\n"
def pop3Neg : List UInt8 := ascii "-ERR\r\n"
def pop3Eom : List UInt8 := ascii "\r\n.\r\n"

/-- The connection after a command, unless it is closed. -/
abbrev PopResult := Except PopFault (Option PopConn × PopAnswer)

def reply (conn : PopConn) (sent : List UInt8) : PopResult := .ok (some conn, ⟨sent, none, none, []⟩)

/-! ### AUTHORISATION -/

/-- "Builds a list of files available in mailbox": the last one read comes first. -/
def popBuildSession (user : List UInt8) : Option (List DirEntry) → List MsgEnt → List MsgEnt
  | none, msgs => msgs
  | some dir, msgs =>
    dir.foldl (fun msgs entry =>
      if entry.regular then
        { del := false, size := entry.size, name := user ++ ascii "/" ++ entry.name } :: msgs
      else msgs) msgs

/-- `mbox = MBX; while( mbox!=NULL )` until the user matches. -/
def PopConfig.findMailbox (config : PopConfig) (user : List UInt8) : Option Nat :=
  config.mbx.findIdx? fun mbox => stricmp mbox.user user

/-- The end of APOP and PASS: `mbox` is what the search has found, `known` whether the hash or the
password is right, and `free` what `pthread_mutex_trylock` finds. -/
def login (conn : PopConn) (mbox : Option Nat) (user : List UInt8) (known free : Bool)
    (dir : Option (List DirEntry)) : PopResult :=
  let conn := { conn with mbox := mbox, user := some user }
  if mbox.isSome ∧ known ∧ free then
    .ok (some { conn with pstate := .tran, msgs := popBuildSession user dir conn.msgs },
      ⟨pop3Pos, mbox, none, []⟩)
  else reply { conn with user := none, pstate := .none } pop3Neg

def apop (config : PopConfig) (free : Nat → Bool) (conn : PopConn) (read : Received)
    (dir : Option (List DirEntry)) : PopResult :=
  let text := cstr (read.buffer.drop 5)
  if conn.pstate ≠ .none ∨ read.result < 40 then reply conn pop3Neg
  else
    match strchr text 32 with
    | none => reply conn pop3Neg
    | some space =>
      let user := text.take space
      let mbox := config.findMailbox user
      let known := (mbox.bind (config.mbx[·]?)).any fun mbox =>
        sameHash (text.drop (space + 1)) (getMD5 (conn.greeting ++ mbox.password))
      login conn mbox user known (mbox.any free) dir

def user (conn : PopConn) (read : Received) : PopResult :=
  if conn.pstate ≠ .none ∨ read.result < 7 then reply conn pop3Neg
  else
    reply { conn with user := some (cstr (read.buffer.drop 5)), pstate := .auth } pop3Pos

def pass (config : PopConfig) (free : Nat → Bool) (conn : PopConn) (read : Received)
    (dir : Option (List DirEntry)) : PopResult :=
  if conn.pstate ≠ .auth ∨ read.result < 7 then reply conn pop3Neg
  else
    match conn.user with
    | none => .error .noName
    | some user =>
      let mbox := config.findMailbox user
      let known := (mbox.bind (config.mbx[·]?)).any fun mbox =>
        stricmp mbox.password (cstr (read.buffer.drop 5))
      login conn mbox user known (mbox.any free) dir

/-! ### TRANSACTION -/

def isspace (byte : UInt8) : Bool := byte == 32 || (9 ≤ byte && byte ≤ 13)

def isdigit (byte : UInt8) : Bool := 48 ≤ byte && byte ≤ 57

/-- The number that digits write. -/
def decimal (text : List UInt8) : Nat :=
  (text.takeWhile isdigit).foldl (fun number digit => number * 10 + (digit.toNat - 48)) 0

def numberIn (text : List UInt8) : Int :=
  match text.dropWhile isspace with
  | 45 :: rest => -decimal rest
  | 43 :: rest => decimal rest
  | rest => decimal rest

/-- The values of an `int` -/
def IsInt (number : Int) : Prop := -2 ^ 31 ≤ number ∧ number < 2 ^ 31

instance (number : Int) : Decidable (IsInt number) := inferInstanceAs (Decidable (_ ∧ _))

def PopConfig.atoi (config : PopConfig) (text : List UInt8) : Int :=
  if IsInt (numberIn text) then numberIn text else (config.libc.atoiOther text).toInt

/-- `for(i=1;((i<msgnum)&&(msgs!=NULL));i++) msgs = msgs->next;`: how many messages that skips. -/
def skipMsgs (msgnum : Int) : Int → List MsgEnt → Nat
  | _, [] => 0
  | i, _ :: msgs => if i < msgnum then skipMsgs msgnum (i + 1) msgs + 1 else 0

/-- The text behind a command and a blank; "check the number is supplied" -/
def Received.number (read : Received) : Option (List UInt8) :=
  if read.buffer[4]? = some 32 ∧ read.buffer[5]? ≠ some 0 then some (cstr (read.buffer.drop 5))
  else none

/-- The message that LIST, RETR and DELE choose, with `msgnum` and its place. -/
def PopConfig.chooseMsg (config : PopConfig) (conn : PopConn) (read : Received) :
    Option (Int × Nat × MsgEnt) :=
  match read.number with
  | none => none
  | some text =>
    let msgnum := config.atoi text
    if msgnum = 0 then none
    else
      let place := skipMsgs msgnum 1 conn.msgs
      match conn.msgs[place]? with
      | none => none
      | some msg => if msg.del then none else some (msgnum, place, msg)

/-- `%i` -/
def decimalOf (number : Int) : List UInt8 := ascii (toString number)

/-- "%i %i\r\n" -/
def listingLine (number : Int) (size : UInt32) : List UInt8 :=
  decimalOf number ++ ascii " " ++ decimalOf size.toInt32.toInt ++ ascii "\r\n"

/-- "send client statistics on mailbox" -/
def statText (msgs : List MsgEnt) : List UInt8 :=
  let msgs := msgs.filter fun msg => !msg.del
  let totalSize := msgs.foldl (fun total msg => total + msg.size) 0
  ascii "+OK " ++ listingLine msgs.length totalSize

def stat (conn : PopConn) : PopResult := reply conn (statText conn.msgs)

/-- "add info on the message" -/
def listing : Nat → List MsgEnt → List UInt8
  | _, [] => []
  | i, msg :: msgs => (if msg.del then [] else listingLine i msg.size) ++ listing (i + 1) msgs

/-- "we are asked to LIST all messages" -/
def listText (msgs : List MsgEnt) : List UInt8 := pop3Pos ++ listing 1 msgs ++ ascii ".\r\n"

/-- `*(uint32_t*)(ts->buffer+send_len) = 0x000a0d2e;` writes a NUL too. -/
def listAll (config : PopConfig) (conn : PopConn) : PopResult :=
  if (listText conn.msgs).length + 1 ≤ config.bufSize then reply conn (listText conn.msgs)
  else .error .overflow

def list (config : PopConfig) (conn : PopConn) (read : Received) : PopResult :=
  if read.buffer[4]? = some 0 then listAll config conn
  else
    match config.chooseMsg conn read with
    | none => reply conn pop3Neg
    | some (msgnum, _, msg) => reply conn (ascii "+OK " ++ listingLine msgnum msg.size)

def retr (config : PopConfig) (conn : PopConn) (read : Received)
    (files : List UInt8 → Option (List UInt8)) : PopResult :=
  match config.chooseMsg conn read with
  | none => reply conn pop3Neg
  | some (_, _, msg) =>
    match files msg.name with
    | none => reply conn pop3Neg
    | some text => reply conn (pop3Pos ++ text ++ pop3Eom)

def dele (config : PopConfig) (conn : PopConn) (read : Received) : PopResult :=
  match config.chooseMsg conn read with
  | none => reply conn pop3Neg
  | some (_, place, _) =>
    reply { conn with msgs := conn.msgs.modify place fun msg => { msg with del := true } } pop3Pos

/-- "mark all deleted messages as VALID and say OK" -/
def popRset (conn : PopConn) : PopResult :=
  reply { conn with msgs := conn.msgs.map fun msg => { msg with del := false } } pop3Pos

/-- "here we should commit changes if any", and `if(mbox != NULL) pthread_mutex_unlock(..)`. -/
def quit (conn : PopConn) : PopResult :=
  .ok (none, ⟨pop3Pos, none, conn.mbox, (conn.msgs.filter MsgEnt.del).map MsgEnt.name⟩)

/-! ### The loop -/

/-- One pass of the command loop. `free` is whether the mutex of a mailbox can be locked. -/
def popCommand (config : PopConfig) (free : Nat → Bool) (conn : PopConn) : PopInput → PopResult
  | .lost => .ok (none, ⟨[], none, conn.mbox, []⟩)
  | .command read dir files =>
    if read.command = ascii "APOP" then apop config free conn read dir
    else if read.command = ascii "USER" then user conn read
    else if read.command = ascii "PASS" then pass config free conn read dir
    else if read.command = ascii "STAT" then
      if conn.pstate ≠ .tran then reply conn pop3Neg else stat conn
    else if read.command = ascii "LIST" then
      if conn.pstate ≠ .tran then reply conn pop3Neg else list config conn read
    else if read.command = ascii "RETR" then
      if conn.pstate ≠ .tran then reply conn pop3Neg else retr config conn read files
    else if read.command = ascii "DELE" then
      if conn.pstate ≠ .tran then reply conn pop3Neg else dele config conn read
    else if read.command = ascii "RSET" then
      if conn.pstate ≠ .tran then reply conn pop3Neg else popRset conn
    else if read.command = ascii "NOOP" then
      -- `mbox` is not unlocked here
      if conn.pstate ≠ .tran then .ok (none, ⟨pop3Neg, none, none, []⟩) else reply conn pop3Pos
    else if read.command = ascii "QUIT" then quit conn
    else reply conn pop3Neg

/-- A connection as the thread takes it over, greeted with the time. -/
def greetedConn (config : PopConfig) (time : UInt32) : PopConn where
  user := none
  greeting := ascii "<" ++ ascii (toString time.toNat) ++ ascii "@" ++ config.fqdn ++ ascii ">"
  pstate := .none
  msgs := []
  mbox := none

/-! ### The threads of the pool -/

/-- The connection of each thread, and the thread that owns the mutex of each mailbox. -/
structure PopServer where
  sessions : Nat → Option PopConn
  mtx : Nat → Option Nat

inductive ServerInput where
  | connect (thread : Nat) (time : UInt32)
  | session (thread : Nat) (input : PopInput)

/-- `pthread_mutex_unlock` -/
def PopConfig.unlock (config : PopConfig) (thread : Nat) (owner : Option Nat) : Option Nat :=
  if owner = some thread then none else config.libc.unlockOther thread owner

namespace PopServer

/-- What a command does to the mutexes. -/
def lockAndUnlock (config : PopConfig) (mtx : Nat → Option Nat) (thread : Nat)
    (answer : PopAnswer) : Nat → Option Nat :=
  match answer.acquired, answer.released with
  | some mailbox, _ => Function.update mtx mailbox (some thread)
  | none, some mailbox => Function.update mtx mailbox (config.unlock thread (mtx mailbox))
  | none, none => mtx

def handle (config : PopConfig) (server : PopServer) :
    ServerInput → Except PopFault (PopServer × PopAnswer)
  | .connect thread time =>
    match server.sessions thread with
    | some _ => .error .open
    | none =>
      let conn := greetedConn config time
      .ok ({ server with sessions := Function.update server.sessions thread (some conn) },
        ⟨ascii "+OK " ++ conn.greeting ++ ascii "\r\n", none, none, []⟩)
  | .session thread input =>
    match server.sessions thread with
    | none => .error .closed
    | some conn =>
      (popCommand config (fun mailbox => server.mtx mailbox == none) conn input).map
        fun (next, answer) =>
          ({ sessions := Function.update server.sessions thread next
             mtx := lockAndUnlock config server.mtx thread answer }, answer)

/-- No thread has a connection, and no mutex is locked. -/
def start : PopServer where
  sessions := fun _ => none
  mtx := fun _ => none

end PopServer

abbrev PopLabel := ServerInput × PopAnswer

abbrev PopStep (config : PopConfig) : PopServer → PopLabel → PopServer → Prop :=
  Answers (PopServer.handle config)

end QNXStuff.QXMail
