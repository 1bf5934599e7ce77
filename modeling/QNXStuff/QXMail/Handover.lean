import QNXStuff.Library.Conversation
import QNXStuff.QXMail.Base64
import QNXStuff.QXMail.Delivery
import QNXStuff.QXMail.Smtp
import QNXStuff.QXMail.TextCuts

/-! A message from one server to another: the dialogue of the spooler with the command loop that it
reaches, and what the network makes of the lines between them. -/

namespace QNXStuff.QXMail

open Execution Conversation

/-! ### What is sent back -/

/-- "220 %s\r\n" -/
def greetingText (server : MailServer) : List UInt8 :=
  ascii "220 " ++ server.fqdn ++ ascii "\r\n"

def Reply.text (server : MailServer) : Reply → List UInt8
  | .hello => ascii "250 " ++ server.fqdn ++ ascii "\r\n"
  | .ehlo => ascii "250-" ++ server.fqdn ++ ascii "\r\n250-8BITMIME\r\n250 AUTH LOGIN CRAM-MD5\r\n"
  | .ok => ascii "250\r\n"
  | .loop => ascii "550 LOOP\r\n"
  | .goAhead => ascii "354\r\n"
  | .bye => ascii "221 " ++ server.fqdn ++ ascii " Bye\r\n"
  | .username => ascii "334 VXNlcm5hbWU6\r\n"
  | .password => ascii "334 UGFzc3dvcmQ6\r\n"
  | .challenge greeting => ascii "334 " ++ encodeGroups greeting ++ ascii "\r\n"
  | .authenticated => ascii "235\r\n"
  | .badArgument => ascii "501\r\n"
  | .badSequence => ascii "503\r\n"
  | .authFailed => ascii "535\r\n"
  | .notAllowed => ascii "550\r\n"
  | .badEncoding => ascii "551\r\n"
  | .noRelay => ascii "553\r\n"

/-- The three digits at the start of a reply. -/
def Reply.code : Reply → List UInt8
  | .hello | .ehlo | .ok => ascii "250"
  | .loop | .notAllowed => ascii "550"
  | .goAhead => ascii "354"
  | .bye => ascii "221"
  | .username | .password | .challenge _ => ascii "334"
  | .authenticated => ascii "235"
  | .badArgument => ascii "501"
  | .badSequence => ascii "503"
  | .authFailed => ascii "535"
  | .badEncoding => ascii "551"
  | .noRelay => ascii "553"

/-! ### The network -/

/-- What is sent at once, as it arrives: whole from the segment on that the first carriage return
is in. -/
def Whole (bytes : List UInt8) (segments : Socket) : Prop :=
  segments.bytes = bytes ∧
    ∀ before segment after, segments = before ++ segment :: after → cr ∈ segment.1 → after = []

/-- The size of `netbuf` for `ReadString` in the spooler. -/
def netbufSize : Nat := 2047

/-- What `ReadString` leaves at the start of `netbuf`; a line that it does not take whole may leave
anything. -/
def Hears (text : List UInt8) (reply : PeerReply) : Prop :=
  ∃ segments stale, Whole text segments ∧
    ∀ line, readString netbufSize segments = some (line, []) →
      reply = some ((line ++ 0 :: stale).take 3)

/-! ### The other server -/

/-- Where its thread is: before the greeting, at the next command, in the loop behind DATA, or done
with the connection. -/
inductive Attending where
  | greets
  | listens (conn : Conn)
  | collects (conn : Conn) (read : Received)
  | gone

def attend : Option Conn → Attending
  | none => .gone
  | some conn => .listens conn

/-- What its thread makes of the bytes that are sent to it: how it goes on, the messages it spools,
and what it sends back. -/
inductive Handles (server : MailServer) (bufSize : Nat) :
    Attending → List UInt8 → Attending → List Spooled → Option (List UInt8) → Prop where
  | greets : Handles server bufSize .greets [] (.listens newConn) [] (some (greetingText server))
  | answers (arrived : Whole bytes segments)
      (taken : readString (bufSize - 1) segments = some (line, []))
      (other : (Received.mk line stale).command ≠ ascii "AUTH")
      (done : smtpCommand server conn (.command ⟨line, stale⟩ none none time none) =
        .ok (next, ⟨replies, event⟩))
      (whole : replies ≠ [.goAhead]) :
      Handles server bufSize (.listens conn) bytes (attend next) []
        (some (replies.flatMap (Reply.text server)))
  | goesAhead (arrived : Whole bytes segments)
      (taken : readString (bufSize - 1) segments = some (line, []))
      (done : smtpCommand server conn (.command ⟨line, stale⟩ none none time none) =
        .ok (next, ⟨[.goAhead], event⟩)) :
      Handles server bufSize (.listens conn) bytes (.collects conn ⟨line, stale⟩) []
        (some (Reply.text server .goAhead))
  | collects {read : Received} {message : Spooled} (unsplit : Unsplit pieces)
      (stream : Socket.bytes pieces = bytes)
      (received : dataLoop bufSize [] [] pieces = some (text, []))
      (done : smtpCommand server conn (.command read none none time (some text)) =
        .ok (next, ⟨.goAhead :: replies, .spooled message⟩)) :
      Handles server bufSize (.collects conn read) bytes (attend next) [message]
        (some (replies.flatMap (Reply.text server)))
  -- "client failed to command": the line or the text is not read to its end
  | missesLine (arrived : Whole bytes segments) (failed : readString (bufSize - 1) segments = none) :
      Handles server bufSize (.listens conn) bytes .gone [] none
  | missesText {read : Received} (unsplit : Unsplit pieces) (stream : Socket.bytes pieces = bytes)
      (failed : dataLoop bufSize [] [] pieces = none) :
      Handles server bufSize (.collects conn read) bytes .gone [] none
  | gone : Handles server bufSize .gone bytes .gone [] none
  -- what goes beyond one command for one reply may come to anything
  | leavesBytes (arrived : Whole bytes segments)
      (taken : readString (bufSize - 1) segments = some (line, left)) (more : left ≠ []) :
      Handles server bufSize (.listens conn) bytes next mails answered
  | readsOn (arrived : Whole bytes segments)
      (taken : readString (bufSize - 1) segments = some (line, []))
      (same : (Received.mk line stale).command = ascii "AUTH") :
      Handles server bufSize (.listens conn) bytes next mails answered
  | faults (arrived : Whole bytes segments)
      (taken : readString (bufSize - 1) segments = some (line, []))
      (fault : smtpCommand server conn (.command ⟨line, stale⟩ none none time none) = .error why) :
      Handles server bufSize (.listens conn) bytes next mails answered
  | endsEarly {read : Received} (unsplit : Unsplit pieces) (stream : Socket.bytes pieces = bytes)
      (received : dataLoop bufSize [] [] pieces = some (text, left)) (more : left ≠ []) :
      Handles server bufSize (.collects conn read) bytes next mails answered

/-- The other server, and what it has spooled for the connection. -/
structure Host where
  phase : Attending
  spooled : List Spooled

/-- One turn of the other server: the spooler hears its reply or finds the connection closed, or the
connection is lost before the server has read the bytes or behind it. -/
inductive Attends (server : MailServer) (bufSize : Nat) :
    Host → List UInt8 → Host → PeerReply → Prop where
  | replies (handled : Handles server bufSize phase bytes next mails (some text))
      (heard : Hears text told) :
      Attends server bufSize ⟨phase, spooled⟩ bytes ⟨next, spooled ++ mails⟩ told
  | closes (handled : Handles server bufSize phase bytes next mails none) :
      Attends server bufSize ⟨phase, spooled⟩ bytes ⟨next, spooled ++ mails⟩ none
  | lostBefore : Attends server bufSize ⟨phase, spooled⟩ bytes ⟨.gone, spooled⟩ none
  | lostBehind (handled : Handles server bufSize phase bytes next mails text) :
      Attends server bufSize ⟨phase, spooled⟩ bytes ⟨.gone, spooled ++ mails⟩ none

/-! ### The dialogue -/

/-- The turns of the spooler among the things that it does with its socket. -/
def SocketEvent.turn : SocketEvent → List (Turn UInt8)
  | .opened _ => []
  | .sent _ bytes => [.say bytes]
  | .received _ => [.hear]
  | .closed _ => []

def turns (events : List SocketEvent) : List (Turn UInt8) := events.flatMap SocketEvent.turn

/-- What the dialogue comes to with these replies. -/
def Outgoing.outcome (mail : Outgoing) (sock : Nat) (replies : List PeerReply) : Except Int Unit :=
  ((sendMessage sock mail).run.run ⟨[], replies⟩).1

/-- What it does with its socket. -/
def Outgoing.events (mail : Outgoing) (sock : Nat) (replies : List PeerReply) : List SocketEvent :=
  ((sendMessage sock mail).run.run ⟨[], replies⟩).2.events

/-- The body of the message. -/
def Outgoing.text (mail : Outgoing) : List UInt8 := (mail.chunks.map Prod.fst).flatten

def MailServer.known (server : MailServer) (rcpts : List (List UInt8)) : List (List UInt8) :=
  rcpts.filter fun rcpt => decide (rcpt ≠ []) && (server.mailbox rcpt).isSome

/-- The message as the other server spools it. -/
def Outgoing.relayed (mail : Outgoing) (server : MailServer) : Spooled where
  msg :=
    { sender := if mail.sender = [] then ascii "Bounced" else mail.sender
      rcpts := (server.known mail.rcpts).reverse }
  text := receivedLine server mail.fqdn ++ mail.text

/-- A name that fits on a line of a command. -/
structure Plain (room : Nat) (name : List UInt8) : Prop where
  clean : cr ∉ name
  nul : 0 ∉ name
  angle : 62 ∉ name
  fits : name.length ≤ room

/-- A message that can be handed over: its names fit on a line and into the buffers, its body is
read and sent, and ends where it ends. -/
structure Outgoing.Presentable (mail : Outgoing) (server : MailServer) (bufSize : Nat) : Prop where
  host : server.fqdn.length + 50 ≤ netbufSize
  named : mail.fqdn ≠ []
  fqdn : Plain (bufSize - 8) mail.fqdn
  sender : Plain (bufSize - 15) mail.sender
  rcpts : ∀ rcpt ∈ mail.rcpts, Plain (bufSize - 13) rcpt
  room : 16 ≤ bufSize
  sent : ∀ chunk ∈ mail.chunks, chunk.2 = true
  read : mail.readError = false
  lines : Roomy bufSize mail.text
  unmarked : ¬ Marked mail.text

end QNXStuff.QXMail
