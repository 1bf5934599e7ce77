import QNXStuff.Library.Execution
import QNXStuff.QXMail.Md5

/-! One SMTP connection: what each command makes of its state, its name and its message. -/

namespace QNXStuff.QXMail

open Execution

inductive SmtpState where
  | none
  | helo
  | rcpt
  deriving DecidableEq

structure Mailbox where
  user : List UInt8
  password : List UInt8
  deriving DecidableEq

/-- `MBX`, `server_fqdn`, and the address that the connection comes from. -/
structure MailServer where
  mbx : List Mailbox
  fqdn : List UInt8
  peer : List UInt8

/-- `smtpmsg_t` with its `from` and `to`; the last recipient comes first. -/
structure SmtpMsg where
  sender : List UInt8
  rcpts : List (List UInt8)
  deriving DecidableEq

/-- `conn_info_t`; the current message comes first. -/
structure Conn where
  user : Option (List UInt8)
  greeting : Option (List UInt8)
  sstate : SmtpState
  auth : Bool
  msg : List SmtpMsg
  deriving DecidableEq

/-- What `ReadString` leaves in a buffer: a line, its NUL, and what was there before. -/
structure Received where
  line : List UInt8
  stale : List UInt8

def Received.buffer (read : Received) : List UInt8 := read.line ++ 0 :: read.stale

def Received.result (read : Received) : Nat := read.line.length + 1

/-- What comes in: a command, what is read behind it, the time, and what the loop behind DATA writes;
`none` is a failure of `recv`. -/
inductive SmtpInput where
  | lost
  | command (read : Received) (first second : Option Received) (time : UInt32)
      (body : Option (List UInt8))

inductive Reply where
  /-- 250 and the name of the server, behind EHLO with what it can do -/
  | hello
  | ehlo
  /-- 250 -/
  | ok
  /-- 550 LOOP -/
  | loop
  /-- 354 -/
  | goAhead
  /-- 221 -/
  | bye
  /-- 334, asking for the name, the password, or an answer to a challenge -/
  | username
  | password
  | challenge (greeting : List UInt8)
  /-- 235 -/
  | authenticated
  /-- 501 -/
  | badArgument
  /-- 503 -/
  | badSequence
  /-- 535 -/
  | authFailed
  /-- 550 -/
  | notAllowed
  /-- 551 -/
  | badEncoding
  /-- 553 -/
  | noRelay
  deriving DecidableEq

/-- A message on `spool_msgs` and what is in its file. -/
structure Spooled where
  msg : SmtpMsg
  text : List UInt8
  deriving DecidableEq

/-- What happened to the message or the client. -/
inductive SmtpEvent where
  | none
  | greeted
  | authenticated
  | started
  | recipient (address : List UInt8)
  | spooled (mail : Spooled)
  deriving DecidableEq

structure SmtpAnswer where
  replies : List Reply
  event : SmtpEvent
  deriving DecidableEq

/-- A pointer to nothing: that behind a missing `<`, `conn->msg`, `conn->user`. -/
inductive SmtpFault where
  | badPointer
  | noMessage
  | noName
  | closed
  deriving DecidableEq

/-- The connection after a command, unless it is closed. -/
abbrev SmtpResult := Except SmtpFault (Option Conn × SmtpAnswer)

def stay (conn : Conn) (replies : List Reply) : SmtpResult := .ok (some conn, ⟨replies, .none⟩)

/-- `FreeSMTPSession( conn ); return 0;` -/
def close (replies : List Reply) : SmtpResult := .ok (none, ⟨replies, .none⟩)

def freeSMTPSession (conn : Conn) : Conn :=
  { conn with user := none, greeting := none, msg := [] }

/-! ### Commands -/

/-- HELO, and EHLO with another answer. -/
def hello (server : MailServer) (conn : Conn) (read : Received) (reply : Reply) : SmtpResult :=
  let conn := if conn.sstate ≠ .none then freeSMTPSession conn else conn
  let name := cstr (read.buffer.drop 5)
  if read.result < 7 then stay conn [.badArgument]
  else if name = server.fqdn then close [.loop]
  else .ok (some { conn with user := some name, sstate := .helo, auth := false },
    ⟨[reply], .greeted⟩)

/-- Where `s_beg` and `s_end` point in a line. -/
inductive Address where
  | missing
  | wild
  | text (address : List UInt8) (adjoining : Bool)

/-- `s_beg = strchr(ts->buffer,'<'); s_end = strchr(ts->buffer,'>'); s_beg++; *s_end = '\0';` -/
def addressIn (string : List UInt8) : Address :=
  match strchr string 62, strchr string 60 with
  | none, _ => .missing
  -- `s_beg` is not NULL any more when it is checked
  | some _, none => .wild
  | some send, some sbeg =>
    .text (if sbeg < send then (string.take send).drop (sbeg + 1) else string.drop (sbeg + 1))
      (sbeg + 1 == send)

def mail (conn : Conn) (string : List UInt8) : SmtpResult :=
  if conn.sstate ≠ .helo then stay conn [.badSequence]
  else
    match addressIn string with
    | .missing => stay conn [.badArgument]
    | .wild => .error .badPointer
    | .text address _ =>
      let msg := { sender := if address = [] then ascii "Bounced" else address, rcpts := [] }
      .ok (some { conn with msg := msg :: conn.msg, sstate := .rcpt }, ⟨[.ok], .started⟩)

def MailServer.mailbox (server : MailServer) (name : List UInt8) : Option Mailbox :=
  server.mbx.find? fun mbox => stricmp name mbox.user

def rcpt (server : MailServer) (conn : Conn) (string : List UInt8) : SmtpResult :=
  if conn.sstate ≠ .rcpt then stay conn [.badSequence]
  else
    match addressIn string with
    | .missing => stay conn [.badArgument]
    | .wild =>
      if server.mbx = [] ∧ conn.auth = false then stay conn [.noRelay] else .error .badPointer
    | .text address adjoining =>
      if adjoining then stay conn [.badArgument]
      else if server.mailbox address = none ∧ conn.auth = false then stay conn [.noRelay]
      else
        match conn.msg with
        | [] => .error .noMessage
        | msg :: rest =>
          .ok (some { conn with msg := { msg with rcpts := address :: msg.rcpts } :: rest },
            ⟨[.ok], .recipient address⟩)

/-- The first line of the file: "Received: from %s(%s) by %s\r\n". -/
def receivedLine (server : MailServer) (user : List UInt8) : List UInt8 :=
  ascii "Received: from " ++ user ++ ascii "(" ++ server.peer ++ ascii ") by " ++ server.fqdn ++
    [cr, lf]

def data (server : MailServer) (conn : Conn) (body : Option (List UInt8)) : SmtpResult :=
  if conn.sstate ≠ .rcpt then stay conn [.badSequence]
  else
    match conn.msg, conn.user, body with
    | [], _, _ => .error .noMessage
    | _ :: _, none, _ => .error .noName
    | _ :: _, some _, none => close [.goAhead]
    | msg :: _, some user, some body =>
      .ok (some { conn with msg := [], sstate := .helo },
        ⟨[.goAhead, .ok], .spooled ⟨msg, receivedLine server user ++ body⟩⟩)

/-- "preserve current user"; `conn->auth` is preserved too. -/
def rset (conn : Conn) : SmtpResult :=
  stay { freeSMTPSession conn with user := conn.user, sstate := .helo } [.ok]

/-! ### Authentication -/

def authLogin (server : MailServer) (conn : Conn) (first second : Option Received) : SmtpResult :=
  match first with
  | none => close [.username]
  | some first =>
    match decode64 first.buffer first.result with
    | none => stay conn [.username, .badEncoding]
    | some name =>
      let username := cstr name
      match second with
      | none => close [.username, .password]
      | some second =>
        match server.mbx.find? (fun mbox => stricmp mbox.user username) with
        | none => close [.username, .password, .authFailed]
        | some mbox =>
          match decode64 second.buffer second.result with
          | none => close [.username, .password, .badEncoding, .authFailed]
          | some word =>
            if mbox.password = cstr word then
              .ok (some { conn with auth := true, user := some username },
                ⟨[.username, .password, .authenticated], .authenticated⟩)
            else close [.username, .password, .authFailed]

/-- `snprintf(Challenge,511,"<%u@%s>",time(NULL),server_fqdn)`. Of a text of more than 510 bytes the
code encodes what stands behind these in the buffer, too; a name of at most 497 bytes has none. -/
def challengeAt (server : MailServer) (time : UInt32) : List UInt8 :=
  (ascii "<" ++ ascii (toString time.toNat) ++ ascii "@" ++ server.fqdn ++ ascii ">").take 510

/-- "apply CRAM-MD5": the hash of a password and a challenge. -/
def cramHash (password greeting : List UInt8) : List UInt8 :=
  let key := (password ++ List.replicate 64 0).take 64
  getMD5 (key.map (· ^^^ 0x5c) ++ md5Bin (key.map (· ^^^ 0x36) ++ greeting))

/-- `!memicmp(hash,myhash,32)` -/
def sameHash (hash myhash : List UInt8) : Bool := stricmp (hash.take 32) myhash

def authCram (server : MailServer) (conn : Conn) (time : UInt32) (first : Option Received) :
    SmtpResult :=
  let greeting := challengeAt server time
  let conn := { conn with greeting := some greeting }
  match first with
  | none => close [.challenge greeting]
  | some first =>
    match decode64 first.buffer first.result with
    | none => stay conn [.challenge greeting, .badEncoding]
    | some answer =>
      match strchr (cstr answer) 32 with
      | none => stay conn [.challenge greeting, .badArgument]
      | some space =>
        let user := (cstr answer).take space
        let hash := (cstr answer).drop (space + 1)
        let conn := { conn with user := some user }
        let known := (server.mbx.find? fun mbox => stricmp mbox.user user).any fun mbox =>
          sameHash hash (cramHash mbox.password greeting)
        if known then
          .ok (some { conn with auth := true }, ⟨[.challenge greeting, .authenticated], .authenticated⟩)
        -- a client that was authenticated before stays so, and gets no answer
        else if conn.auth then stay conn [.challenge greeting]
        else close [.challenge greeting, .authFailed]

def auth (server : MailServer) (conn : Conn) (read : Received) (first second : Option Received)
    (time : UInt32) : SmtpResult :=
  let kind := cstr (read.buffer.drop 5)
  if conn.sstate ≠ .helo then stay conn [.badSequence]
  else if stricmp kind (ascii "LOGIN") then authLogin server conn first second
  else if stricmp kind (ascii "CRAM-MD5") then authCram server conn time first
  else stay conn [.notAllowed]

/-! ### The loop -/

/-- "convert 4 first characters of command to uppercase" -/
def Received.command (read : Received) : List UInt8 := (read.buffer.take 4).map toupper

/-- The line with the command in upper case. -/
def Received.string (read : Received) : List UInt8 := cstr (read.command ++ read.buffer.drop 4)

def smtpCommand (server : MailServer) (conn : Conn) : SmtpInput → SmtpResult
  | .lost => close []
  | .command read first second time body =>
    if read.command = ascii "HELO" then hello server conn read .hello
    else if read.command = ascii "EHLO" then hello server conn read .ehlo
    else if read.command = ascii "MAIL" then mail conn read.string
    else if read.command = ascii "RCPT" then rcpt server conn read.string
    else if read.command = ascii "DATA" then data server conn body
    else if read.command = ascii "RSET" then rset conn
    else if read.command = ascii "NOOP" then stay conn [.ok]
    else if read.command = ascii "QUIT" then close [.bye]
    else if read.command = ascii "AUTH" then auth server conn read first second time
    else stay conn [.notAllowed]

def MailServer.handle (server : MailServer) (session : Option Conn) (input : SmtpInput) :
    Except SmtpFault (Option Conn × SmtpAnswer) :=
  match session with
  | none => .error .closed
  | some conn => smtpCommand server conn input

/-- A connection as the thread takes it over. -/
def newConn : Conn where
  user := none
  greeting := none
  sstate := .none
  auth := false
  msg := []

abbrev SmtpLabel := SmtpInput × SmtpAnswer

abbrev SmtpStep (server : MailServer) : Option Conn → SmtpLabel → Option Conn → Prop :=
  Answers server.handle

end QNXStuff.QXMail
