import QNXStuff.QXMail.HandoverTurns

/-! What a handover comes to: the other server has the message if the spooler is told so, and only
then unless the connection is lost. -/

namespace QNXStuff.QXMail

open Execution Conversation

/-! ### The lines of the spooler -/

/-- Whom the other server takes the message to come from. -/
def Outgoing.bouncer (mail : Outgoing) : List UInt8 :=
  if mail.sender = [] then ascii "Bounced" else mail.sender

def Outgoing.greetedConn (mail : Outgoing) : Conn :=
  { newConn with user := some mail.fqdn, sstate := .helo }

/-- The connection behind MAIL, with the recipients that were taken. -/
def Outgoing.rcptConn (mail : Outgoing) (rcpts : List (List UInt8)) : Conn :=
  { mail.greetedConn with sstate := .rcpt, msg := [⟨mail.bouncer, rcpts⟩] }

def ehloLine (mail : Outgoing) : List UInt8 := ascii "EHLO " ++ mail.fqdn

def mailLine (mail : Outgoing) : List UInt8 := ascii "MAIL FROM:<" ++ mail.sender ++ ascii ">"

def rcptLine (rcpt : List UInt8) : List UInt8 := ascii "RCPT TO:<" ++ rcpt ++ ascii ">"

section

variable {server : MailServer} {bufSize sock : Nat} {mail : Outgoing} {rcpt : List UInt8}
  {rcpts taken : List (List UInt8)}

theorem Plain.line {room : Nat} {name : List UInt8} (plain : Plain room name)
    (front back : String) (four : 4 ≤ (ascii front).length) (here : cr ∉ ascii front) (there : cr ∉ ascii back)
    (other : ((ascii front).take 4).map toupper ≠ ascii "AUTH")
    (fits : (ascii front).length + room + (ascii back).length + 2 < bufSize) :
    Line bufSize (ascii front ++ name ++ ascii back) := by
  have short := plain.fits
  refine ⟨?_, ?_, ?_, ?_⟩
  · simp [here, there, plain.clean]
  · simp only [List.length_append]
    omega
  · simp only [List.length_append]
    omega
  · rwa [List.append_assoc, List.take_append_of_le_length four]

theorem ehloLine_fits (fits : mail.Presentable server bufSize) : Line bufSize (ehloLine mail) := by
  have room := fits.room
  have line := fits.fqdn.line "EHLO " "" (by decide) (by decide) (by decide)
    (by decide) (show 5 + (bufSize - 8) + 0 + 2 < bufSize by omega)
  simpa [ehloLine, ascii] using line

theorem mailLine_fits (fits : mail.Presentable server bufSize) : Line bufSize (mailLine mail) := by
  have room := fits.room
  exact fits.sender.line "MAIL FROM:<" ">" (by decide) (by decide) (by decide) (by decide)
    (show 11 + (bufSize - 15) + 1 + 2 < bufSize by omega)

theorem rcptLine_fits (fits : mail.Presentable server bufSize) (plain : Plain (bufSize - 13) rcpt) :
    Line bufSize (rcptLine rcpt) := by
  have room := fits.room
  exact plain.line "RCPT TO:<" ">" (by decide) (by decide) (by decide) (by decide)
    (show 9 + (bufSize - 13) + 1 + 2 < bufSize by omega)

theorem ehlo_done (fits : mail.Presentable server bufSize) (stale : List UInt8) (time : UInt32) :
    smtpCommand server newConn (.command ⟨ehloLine mail, stale⟩ none none time none) =
      if mail.fqdn = server.fqdn then close [.loop]
      else .ok (some mail.greetedConn, ⟨[.ehlo], .greeted⟩) := by
  have name : cstr ((Received.mk (ehloLine mail) stale).buffer.drop 5) = mail.fqdn := by
    rw [Received.buffer, ehloLine, List.append_assoc]
    exact cstr_name fits.fqdn.nul stale
  have long : ¬ (Received.mk (ehloLine mail) stale).result < 7 := by
    have some := List.length_pos_iff.mpr fits.named
    have five : (ascii "EHLO ").length = 5 := rfl
    simp only [Received.result, ehloLine, List.length_append]
    omega
  have command : (Received.mk (ehloLine mail) stale).command = ascii "EHLO" := rfl
  simp only [smtpCommand, command, hello, name, if_neg long]
  rfl

theorem addressIn_mail (fits : mail.Presentable server bufSize) (stale : List UInt8) :
    addressIn (Received.mk (mailLine mail) stale).string = .text mail.sender (mail.sender == []) := by
  have nul : 0 ∉ mailLine mail := by simp [mailLine, ascii, fits.sender.nul]
  rw [string_line (mailLine_fits fits).four nul rfl]
  exact addressIn_line (ascii "MAIL FROM:") (by decide) (by decide) fits.sender.angle

theorem mail_done (fits : mail.Presentable server bufSize) (stale : List UInt8) (time : UInt32) :
    smtpCommand server mail.greetedConn (.command ⟨mailLine mail, stale⟩ none none time none) =
      .ok (some (mail.rcptConn []), ⟨[.ok], .started⟩) := by
  have command : (Received.mk (mailLine mail) stale).command = ascii "MAIL" := rfl
  simp only [smtpCommand, command, QXMail.mail, addressIn_mail fits]
  rfl

theorem addressIn_rcpt (fits : mail.Presentable server bufSize) (plain : Plain (bufSize - 13) rcpt)
    (stale : List UInt8) :
    addressIn (Received.mk (rcptLine rcpt) stale).string = .text rcpt (rcpt == []) := by
  have nul : 0 ∉ rcptLine rcpt := by simp [rcptLine, ascii, plain.nul]
  rw [string_line (rcptLine_fits fits plain).four nul rfl]
  exact addressIn_line (ascii "RCPT TO:") (by decide) (by decide) plain.angle

/-- What RCPT comes to: the recipient is taken, or refused with another code. -/
theorem rcpt_done (fits : mail.Presentable server bufSize) (plain : Plain (bufSize - 13) rcpt)
    (taken : List (List UInt8)) :
    ∃ after reply event,
      (∀ stale time, smtpCommand server (mail.rcptConn taken)
        (.command ⟨rcptLine rcpt, stale⟩ none none time none) = .ok (after, ⟨[reply], event⟩)) ∧
      reply ≠ .goAhead ∧ (∀ greeting, reply ≠ .challenge greeting) ∧
      (server.known [rcpt] = [rcpt] ∧ reply.code = ascii "250" ∧
          after = some (mail.rcptConn (rcpt :: taken)) ∨
        server.known [rcpt] = [] ∧ reply.code ≠ ascii "250" ∧ after = some (mail.rcptConn taken)) := by
  have command (stale : List UInt8) : (Received.mk (rcptLine rcpt) stale).command = ascii "RCPT" := rfl
  by_cases empty : rcpt = []
  · subst empty
    refine ⟨_, .badArgument, .none, fun stale time => ?_, nofun, nofun, .inr ⟨rfl, by decide, rfl⟩⟩
    simp only [smtpCommand, command, QXMail.rcpt, addressIn_rcpt fits plain]
    rfl
  · have some : (rcpt == []) = false := by simpa using empty
    cases known : server.mailbox rcpt with
    | none =>
      refine ⟨_, .noRelay, .none, fun stale time => ?_, nofun, nofun, .inr ⟨?_, by decide, rfl⟩⟩
      · simp only [smtpCommand, command, QXMail.rcpt, addressIn_rcpt fits plain, some, known]
        rfl
      · simp [MailServer.known, known]
    | some mbox =>
      refine ⟨_, .ok, .recipient rcpt, fun stale time => ?_, nofun, nofun, .inl ⟨?_, by decide, rfl⟩⟩
      · simp only [smtpCommand, command, QXMail.rcpt, addressIn_rcpt fits plain, some, known]
        rfl
      · simp [MailServer.known, known, empty]

theorem data_done (stale : List UInt8) (time : UInt32) :
    smtpCommand server (mail.rcptConn taken)
      (.command ⟨ascii "DATA", stale⟩ none none time none) = close [.goAhead] := rfl

theorem text_done (server : MailServer) (mail : Outgoing) (stale : List UInt8) (time : UInt32) :
    smtpCommand server (mail.rcptConn (server.known mail.rcpts).reverse)
        (.command ⟨ascii "DATA", stale⟩ none none time (some mail.text)) =
      .ok (some { mail.greetedConn with msg := [], sstate := .helo }, ⟨[.goAhead, .ok],
        .spooled (mail.relayed server)⟩) := rfl

/-! ### The parts of the dialogue -/

/-- The thread is at a connection, and nothing is spooled or said. -/
def At (conn : Conn) (host : Host) (said : List UInt8) : Prop :=
  host = ⟨.listens conn, []⟩ ∧ said = []

/-- The connection is gone, and nothing is spooled. -/
def Lost (outcome : Except Int Unit) (host : Host) : Prop :=
  outcome = .error (-1) ∧ host = ⟨.gone, []⟩

/-- A line is answered, or the connection is gone. -/
theorem attends_line {line : List UInt8} {conn : Conn} {after : Option Conn} {reply : Reply}
    {event : SmtpEvent} {host : Host} {heard : PeerReply} (short : server.fqdn.length + 50 ≤ netbufSize)
    (fits : Line bufSize line)
    (done : ∀ stale time, smtpCommand server conn (.command ⟨line, stale⟩ none none time none) =
      .ok (after, ⟨[reply], event⟩))
    (other : ∀ greeting, reply ≠ .challenge greeting)
    (served : Attends server bufSize ⟨.listens conn, []⟩ (line ++ ascii "\r\n") host heard) :
    heard = none ∧ host = ⟨.gone, []⟩ ∨ heard = some reply.code ∧ host.spooled = [] ∧
      if reply = .goAhead then ∃ stale, host.phase = .collects conn ⟨line, stale⟩
      else host.phase = attend after := by
  have told := served.told (handles_line fits done) (Reply.coded short other)
  cases told with
  | told gone => exact .inr ⟨rfl, rfl, gone⟩
  | lost => exact .inl ⟨rfl, rfl⟩
  | lostBehind => exact .inl ⟨rfl, rfl⟩

/-- Nothing is expected of a server that is gone. -/
theorem leads_gone {start : Host → List UInt8 → Prop} {code : String}
    {ends : Except Int Unit → Host → List UInt8 → Prop}
    (gone : ∀ host said, start host said → host = ⟨.gone, []⟩)
    (lost : ∀ said, ends (.error (-1)) ⟨.gone, []⟩ said) :
    Dialogue.Leads (Attends server bufSize) start (expect sock code) ends := by
  refine .expect fun host said next reply starts served => ?_
  rw [gone host said starts] at served
  obtain ⟨rfl, rfl⟩ := served.silent
  exact lost []

theorem leads_greeting (fits : mail.Presentable server bufSize) :
    Dialogue.Leads (Attends server bufSize) (fun host said => host = ⟨.greets, []⟩ ∧ said = [])
      (expect sock "220") fun outcome host said =>
        outcome = .ok () ∧ At newConn host said ∨ Lost outcome host := by
  refine .expect ?_
  rintro _ _ next reply ⟨rfl, rfl⟩ served
  have handles {after mails' text'} (handled : Handles server bufSize .greets [] after mails' text') :
      after = .listens newConn ∧ mails' = [] ∧ text' = some (greetingText server) := by
    cases handled
    exact ⟨rfl, rfl, rfl⟩
  have told := served.told handles (greeting_coded fits.host)
  cases told with
  | told gone =>
    subst gone
    exact .inl ⟨rfl, rfl, rfl⟩
  | lost => exact .inr ⟨rfl, rfl⟩
  | lostBehind => exact .inr ⟨rfl, rfl⟩

/-- What EHLO comes to: a server of the same name hangs up. -/
theorem leads_ehlo (fits : mail.Presentable server bufSize) :
    Dialogue.Leads (Attends server bufSize)
      (fun host said => host = ⟨.listens newConn, []⟩ ∧ said = ehloLine mail ++ ascii "\r\n")
      (hear sock) fun outcome host said =>
        outcome = .ok (ascii "250") ∧ mail.fqdn ≠ server.fqdn ∧ At mail.greetedConn host said ∨
          (∀ code, outcome = .ok code → code ≠ ascii "250") ∧
            (∀ result, outcome = .error result → result = -1) ∧ host = ⟨.gone, []⟩ := by
  refine .hear ?_
  rintro _ _ next reply ⟨rfl, rfl⟩ served
  have done := ehlo_done fits
  by_cases same : mail.fqdn = server.fqdn
  · simp only [if_pos same] at done
    rcases attends_line fits.host (ehloLine_fits fits) done nofun served with ⟨rfl, rfl⟩ |
      ⟨rfl, none, gone⟩
    · exact .inr ⟨nofun, fun _ same => (Except.error.inj same).symm, rfl⟩
    · obtain ⟨phase, spooled⟩ := next
      cases none
      cases gone
      exact .inr ⟨fun _ same => Except.ok.inj same ▸ by decide, nofun, rfl⟩
  · simp only [if_neg same] at done
    rcases attends_line fits.host (ehloLine_fits fits) done nofun served with ⟨rfl, rfl⟩ |
      ⟨rfl, none, gone⟩
    · exact .inr ⟨nofun, fun _ same => (Except.error.inj same).symm, rfl⟩
    · obtain ⟨phase, spooled⟩ := next
      cases none
      cases gone
      exact .inl ⟨rfl, same, rfl, rfl⟩

/-- Behind the greeting and EHLO: the other server is another one, or the connection is gone. -/
theorem leads_hello (fits : mail.Presentable server bufSize) :
    Dialogue.Leads (Attends server bufSize) (fun host said => host = ⟨.greets, []⟩ ∧ said = [])
      (sayHello sock mail) fun outcome host said =>
        outcome = .ok () ∧ mail.fqdn ≠ server.fqdn ∧ At mail.greetedConn host said ∨
          Lost outcome host := by
  refine .bind _ (leads_greeting fits) (fun _ => .said (.bind _ (leads_ehlo fits) (fun reply => ?_)
    ?_) ?_) ?_
  · split
    · next same =>
      refine .pure ?_
      rintro host said (⟨-, apart, here⟩ | ⟨other, -, -⟩)
      · exact .inl ⟨rfl, apart, here⟩
      · exact absurd same (other reply rfl)
    · next other =>
      refine .said (leads_gone (fun host _ gone => gone) fun _ => .inr ⟨rfl, rfl⟩) ?_
      rintro host said (⟨same, -⟩ | ⟨-, -, gone⟩)
      · exact absurd (Except.ok.inj same) other
      · exact gone
  · rintro result host said (⟨same, -⟩ | ⟨-, lost, rfl⟩)
    · cases same
    · exact .inr ⟨congrArg Except.error (lost result rfl), rfl⟩
  · rintro host said (⟨-, rfl, rfl⟩ | ⟨same, -⟩)
    · exact ⟨rfl, rfl⟩
    · cases same
  · rintro result host said (⟨same, -⟩ | lost)
    · cases same
    · exact .inr lost

theorem closed_line (front name : List UInt8) :
    front ++ name ++ ascii ">\r\n" = (front ++ name ++ ascii ">") ++ ascii "\r\n" := by
  rw [List.append_assoc _ (ascii ">")]
  rfl

theorem leads_mail (fits : mail.Presentable server bufSize) :
    Dialogue.Leads (Attends server bufSize)
      (fun host said => host = ⟨.listens mail.greetedConn, []⟩ ∧
        said = mailLine mail ++ ascii "\r\n")
      (expect sock "250") fun outcome host said =>
        outcome = .ok () ∧ At (mail.rcptConn []) host said ∨ Lost outcome host := by
  refine .expect ?_
  rintro _ _ next reply ⟨rfl, rfl⟩ served
  rcases attends_line fits.host (mailLine_fits fits) (mail_done fits) nofun served with
    ⟨rfl, rfl⟩ | ⟨rfl, none, gone⟩
  · exact .inr ⟨rfl, rfl⟩
  · obtain ⟨phase, spooled⟩ := next
    cases none
    cases gone
    exact .inl ⟨rfl, rfl, rfl⟩

/-- Where offering the recipients leads: the known ones are taken and counted, or the connection is
gone. -/
def Offered (server : MailServer) (mail : Outgoing) (rcpts taken : List (List UInt8))
    (outcome : Except Int Nat) (host : Host) (said : List UInt8) : Prop :=
  said = [] ∧ ∃ count, outcome = .ok count ∧
    (host = ⟨.listens (mail.rcptConn ((server.known rcpts).reverse ++ taken)), []⟩ ∧
        count = (server.known rcpts).length + taken.length ∨
      host = ⟨.gone, []⟩)

theorem known_cons (rcpt : List UInt8) (rcpts : List (List UInt8)) :
    server.known (rcpt :: rcpts) = server.known [rcpt] ++ server.known rcpts := by
  rw [← List.singleton_append, MailServer.known, List.filter_append]
  rfl

/-- What is heard when one is offered. -/
def Answered (server : MailServer) (mail : Outgoing) (rcpt : List UInt8)
    (taken : List (List UInt8)) (count : Nat) (outcome : Except Int PeerReply) (host : Host)
    (said : List UInt8) : Prop :=
  said = [] ∧ (outcome = .ok none ∧ host = ⟨.gone, []⟩ ∨ ∃ reply, outcome = .ok (some reply) ∧
    host = ⟨.listens (mail.rcptConn ((server.known [rcpt]).reverse ++ taken)), []⟩ ∧
      (if reply = ascii "250" then count + 1 else count) =
        (server.known [rcpt]).length + taken.length)

theorem leads_rcpt (fits : mail.Presentable server bufSize) (plain : Plain (bufSize - 13) rcpt)
    (taken : List (List UInt8)) (count : Nat) :
    Dialogue.Leads (Attends server bufSize)
      (fun host said => host = ⟨.listens (mail.rcptConn taken), []⟩ ∧
        said = rcptLine rcpt ++ ascii "\r\n" ∧ count = taken.length ∨ host = ⟨.gone, []⟩)
      (readReply sock) (Answered server mail rcpt taken count) := by
  refine .readReply ?_
  rintro _ _ next heard (⟨rfl, rfl, rfl⟩ | rfl) served
  · obtain ⟨after, reply, event, done, ahead, other, came⟩ := rcpt_done fits plain taken
    rcases attends_line fits.host (rcptLine_fits fits plain) done other served with
      ⟨rfl, rfl⟩ | ⟨rfl, none, gone⟩
    · exact ⟨rfl, .inl ⟨rfl, rfl⟩⟩
    · obtain ⟨phase, spooled⟩ := next
      cases none
      rw [if_neg ahead] at gone
      cases gone
      refine ⟨rfl, .inr ⟨_, rfl, ?_⟩⟩
      rcases came with ⟨known, code, rfl⟩ | ⟨unknown, code, rfl⟩
      · rw [known, if_pos code]
        exact ⟨rfl, Nat.add_comm _ 1⟩
      · rw [unknown, if_neg code]
        exact ⟨rfl, (Nat.zero_add _).symm⟩
  · obtain ⟨rfl, rfl⟩ := served.silent
    exact ⟨rfl, .inl ⟨rfl, rfl⟩⟩

theorem leads_offer (fits : mail.Presentable server bufSize)
    (plain : ∀ rcpt ∈ rcpts, Plain (bufSize - 13) rcpt) (taken : List (List UInt8)) (count : Nat) :
    Dialogue.Leads (Attends server bufSize)
      (fun host said => said = [] ∧ (host = ⟨.listens (mail.rcptConn taken), []⟩ ∧
        count = taken.length ∨ host = ⟨.gone, []⟩))
      (offerRcpts sock rcpts count) (Offered server mail rcpts taken) := by
  induction rcpts generalizing taken count with
  | nil =>
    refine .pure ?_
    rintro host said ⟨none, here⟩
    refine ⟨none, count, rfl, ?_⟩
    simpa [MailServer.known] using here
  | cons rcpt rcpts ih =>
    refine .said (.bind _ (leads_rcpt fits (plain rcpt List.mem_cons_self) taken count)
      ?_ ?_) ?_
    · rintro (_ | reply)
      · refine .pure ?_
        rintro host said ⟨none, ⟨-, gone⟩ | ⟨reply, same, -⟩⟩
        · exact ⟨none, count, rfl, .inr gone⟩
        · cases same
      · have later := ih (fun rcpt member => plain rcpt (List.mem_cons_of_mem _ member))
          ((server.known [rcpt]).reverse ++ taken) (if reply = ascii "250" then count + 1 else count)
        refine later.weaken ?_ ?_
        · rintro host said ⟨none, ⟨same, -⟩ | ⟨reply', same, here, counted⟩⟩
          · cases same
          · cases same
            exact ⟨none, .inl ⟨here, by rw [counted, List.length_append, List.length_reverse]⟩⟩
        · rintro outcome host said ⟨none, count, done, ends⟩
          refine ⟨none, count, done, ends.imp_left ?_⟩
          rintro ⟨here, counted⟩
          rw [known_cons, List.reverse_append, List.append_assoc]
          refine ⟨here, ?_⟩
          simp only [List.length_append, List.length_reverse] at counted ⊢
          omega
    · rintro result host said ⟨-, ⟨same, -⟩ | ⟨reply, same, -⟩⟩ <;> cases same
    · rintro host said ⟨rfl, ⟨here, counted⟩ | gone⟩
      · exact .inl ⟨here, closed_line _ rcpt, counted⟩
      · exact .inr gone

theorem leads_body {readError : Bool} (read : readError = false) (holds : Host → Prop)
    {chunks : List (List UInt8 × Bool)} (sent : ∀ chunk ∈ chunks, chunk.2 = true) (before : List UInt8) :
    Dialogue.Leads (Attends server bufSize) (fun host said => holds host ∧ said = before)
      (sendBody sock readError chunks) fun outcome host said =>
        outcome = .ok () ∧ holds host ∧ said = before ++ (chunks.map Prod.fst).flatten := by
  subst read
  induction chunks generalizing before with
  | nil =>
    refine .pure ?_
    rintro host said ⟨here, rfl⟩
    exact ⟨rfl, here, by simp⟩
  | cons chunk chunks ih =>
    obtain ⟨bytes, whole⟩ := chunk
    have whole : whole = true := sent _ List.mem_cons_self
    subst whole
    have later := ih (fun chunk member => sent chunk (List.mem_cons_of_mem _ member)) (before ++ bytes)
    refine .said (later.weaken (fun _ _ starts => starts) ?_) ?_
    · rintro outcome host said ⟨done, here, rfl⟩
      exact ⟨done, here, by simp⟩
    · rintro host said ⟨here, rfl⟩
      exact ⟨here, rfl⟩

/-- Another server has taken some recipients. -/
def Wanted (server : MailServer) (mail : Outgoing) : Prop :=
  mail.fqdn ≠ server.fqdn ∧ server.known mail.rcpts ≠ []

/-- What a handover comes to. -/
inductive Ends (server : MailServer) (mail : Outgoing) : Except Int Unit → Host → Prop where
  | delivered (wanted : Wanted server mail) :
      Ends server mail (.ok ()) ⟨.listens conn, [mail.relayed server]⟩
  | refused (apart : mail.fqdn ≠ server.fqdn) (none : server.known mail.rcpts = []) :
      Ends server mail (.error (-2)) ⟨.listens conn, []⟩
  | lost (alike : mail.fqdn = server.fqdn → result = -1) :
      Ends server mail (.error result) ⟨.gone, []⟩
  | lostBehind (wanted : Wanted server mail) :
      Ends server mail (.error (-1)) ⟨.gone, [mail.relayed server]⟩

/-- Where the connection is while the body is said. -/
def Collecting (server : MailServer) (mail : Outgoing) (host : Host) : Prop :=
  Wanted server mail ∧ host.spooled = [] ∧ ∃ stale, host.phase =
    .collects (mail.rcptConn (server.known mail.rcpts).reverse) ⟨ascii "DATA", stale⟩

theorem leads_ahead (fits : mail.Presentable server bufSize) :
    Dialogue.Leads (Attends server bufSize)
      (fun host said => Wanted server mail ∧
        host = ⟨.listens (mail.rcptConn (server.known mail.rcpts).reverse), []⟩ ∧
          said = ascii "DATA" ++ ascii "\r\n" ∨ host = ⟨.gone, []⟩)
      (expect sock "354") fun outcome host said =>
        outcome = .ok () ∧ Collecting server mail host ∧ said = [] ∨ Lost outcome host := by
  refine .expect ?_
  rintro _ _ next reply (⟨wanted, rfl, rfl⟩ | rfl) served
  · have room := fits.room
    have line : Line bufSize (ascii "DATA") :=
      ⟨by decide, show 4 + 2 < bufSize by omega, by decide, by decide⟩
    rcases attends_line fits.host line data_done nofun served with ⟨rfl, rfl⟩ | ⟨rfl, none, gone⟩
    · exact .inr ⟨rfl, rfl⟩
    · exact .inl ⟨rfl, ⟨wanted, none, gone⟩, rfl⟩
  · obtain ⟨rfl, rfl⟩ := served.silent
    exact .inr ⟨rfl, rfl⟩

theorem leads_end (fits : mail.Presentable server bufSize) :
    Dialogue.Leads (Attends server bufSize)
      (fun host said => Collecting server mail host ∧ said = mail.text ++ eom)
      (expect sock "250") fun outcome host _ => Ends server mail outcome host := by
  refine .expect ?_
  rintro ⟨phase, spooled⟩ _ next reply ⟨⟨wanted, rfl, stale, rfl⟩, rfl⟩ served
  have told := served.told (fun handled =>
    handles_text fits.lines fits.unmarked (text_done server mail stale) handled)
      (Reply.coded fits.host nofun)
  cases told with
  | told gone =>
    subst gone
    exact .delivered wanted
  | lost => exact .lost fun _ => rfl
  | lostBehind => exact .lostBehind wanted

theorem leads_data (fits : mail.Presentable server bufSize) :
    Dialogue.Leads (Attends server bufSize)
      (fun host said => said = [] ∧ (Wanted server mail ∧
        host = ⟨.listens (mail.rcptConn (server.known mail.rcpts).reverse), []⟩ ∨
          host = ⟨.gone, []⟩))
      (sendData sock mail) fun outcome host _ => Ends server mail outcome host := by
  refine .said (.bind _ (leads_ahead fits) (fun _ => .bind _ ((leads_body fits.read
    (Collecting server mail) fits.sent []).weaken ?_ fun _ _ _ ends => ends)
      (fun _ => .said (leads_end fits) ?_) ?_) ?_) ?_
  · rintro host said (⟨-, here, rfl⟩ | ⟨same, -⟩)
    · exact ⟨here, rfl⟩
    · cases same
  · rintro host said ⟨-, here, rfl⟩
    exact ⟨here, rfl⟩
  · rintro result host said ⟨same, -⟩
    cases same
  · rintro result host said (⟨same, -⟩ | ⟨same, rfl⟩)
    · cases same
    · cases same
      exact .lost fun _ => rfl
  · rintro host said ⟨rfl, ⟨wanted, here⟩ | gone⟩
    · exact .inl ⟨wanted, here, rfl⟩
    · exact .inr gone

theorem leads_message (fits : mail.Presentable server bufSize) (sock : Nat) :
    Dialogue.Leads (Attends server bufSize) (fun host said => host = ⟨.greets, []⟩ ∧ said = [])
      (sendMessage sock mail) fun outcome host _ => Ends server mail outcome host := by
  refine .bind _ (leads_hello fits) (fun _ => .said (.bind _
    ((leads_mail fits).carry (mail.fqdn ≠ server.fqdn)) (fun _ => .bind _
      (((leads_offer fits fits.rcpts [] 0).carry (mail.fqdn ≠ server.fqdn)).weaken ?_
        fun _ _ _ ends => ends) (fun count => ?_) ?_) ?_) ?_) ?_
  · rintro host said ⟨apart, ⟨-, rfl, rfl⟩ | ⟨same, -⟩⟩
    · exact ⟨apart, rfl, .inl ⟨rfl, rfl⟩⟩
    · cases same
  · split
    · next zero =>
      subst zero
      refine .throw ?_
      rintro host said ⟨apart, -, count, same, ⟨rfl, counted⟩ | rfl⟩
      · cases same
        exact .refused apart (List.eq_nil_of_length_eq_zero counted.symm)
      · exact .lost fun same => absurd same apart
    · next positive =>
      refine (leads_data fits).weaken ?_ fun _ _ _ ends => ends
      rintro host said ⟨apart, rfl, count, same, ⟨rfl, counted⟩ | rfl⟩
      · cases same
        refine ⟨rfl, .inl ⟨⟨apart, ?_⟩, by rw [List.append_nil]⟩⟩
        intro none
        rw [none] at counted
        exact positive counted
      · exact ⟨rfl, .inr rfl⟩
  · rintro result host said ⟨-, -, count, same, -⟩
    cases same
  · rintro result host said ⟨apart, ⟨same, -⟩ | ⟨same, rfl⟩⟩
    · cases same
    · cases same
      exact .lost fun _ => rfl
  · rintro host said (⟨-, apart, rfl, rfl⟩ | ⟨same, -⟩)
    · exact ⟨apart, rfl, closed_line _ _⟩
    · cases same
  · rintro result host said (⟨same, -⟩ | ⟨same, rfl⟩)
    · cases same
    · cases same
      exact .lost fun _ => rfl

theorem whole_one (segment : Segment) : Whole segment.1 [segment] := by
  refine ⟨by simp, fun before other after split _ => ?_⟩
  have length := congrArg List.length split
  simp only [List.length_append, List.length_cons, List.length_nil] at length
  exact List.length_eq_zero_iff.mp (by omega)

/-- A text that arrives in one segment is heard as its code. -/
theorem Coded.heard {text code : List UInt8} (coded : Coded text code) : Hears text (some code) := by
  obtain ⟨line, after, split, clean⟩ := List.eq_append_cons_of_mem coded.ended
  have some : text ≠ [] := by
    rintro rfl
    cases coded.ended
  have whole : Whole (line ++ cr :: after) [⟨text, some⟩] := split ▸ whole_one ⟨text, some⟩
  have short := coded.short
  rw [split, List.length_append, List.length_cons] at short
  have taken := readString_whole whole clean (show line.length + after.length < netbufSize by omega)
  have heard : Hears text (Option.some ((line ++ 0 :: []).take 3)) := by
    refine ⟨_, [], whole_one ⟨text, some⟩, fun line' same => ?_⟩
    rw [taken] at same
    cases same
    rfl
  exact heard.eq_code coded ▸ heard

theorem Line.answered {line : List UInt8} {conn : Conn} {after : Option Conn} {reply : Reply}
    {event : SmtpEvent} (short : server.fqdn.length + 50 ≤ netbufSize) (fits : Line bufSize line)
    (done : smtpCommand server conn (.command ⟨line, []⟩ none none 0 none) =
      .ok (after, ⟨[reply], event⟩))
    (ahead : reply ≠ .goAhead) (other : ∀ greeting, reply ≠ .challenge greeting) :
    Attends server bufSize ⟨.listens conn, []⟩ (line ++ ascii "\r\n") ⟨attend after, []⟩
      (some reply.code) := by
  have some : line ++ ascii "\r\n" ≠ [] := List.append_ne_nil_of_right_ne_nil _ (by decide)
  have arrived : Whole (line ++ ascii "\r\n") [⟨_, some⟩] := whole_one ⟨_, some⟩
  have handled : Handles server bufSize (.listens conn) (line ++ ascii "\r\n") (attend after) []
      (Option.some ([reply].flatMap (Reply.text server))) :=
    .answers arrived (fits.read arrived) (fits.command [] ▸ fits.other) done (by simpa using ahead)
  rw [List.flatMap_singleton] at handled
  exact .replies handled (Reply.coded short other).heard

def annServer : MailServer := ⟨[⟨ascii "ann", ascii "x"⟩], ascii "mx", ascii "10.0.0.1"⟩

/-- A note to her and to somebody unknown. -/
def note : Outgoing where
  fqdn := ascii "home"
  sender := ascii "bob"
  rcpts := [ascii "ann", ascii "joe"]
  chunks := [(ascii "Hi", true)]
  readError := false

theorem note_presentable : note.Presentable annServer 8192 where
  host := by decide
  named := by decide
  fqdn := ⟨by decide, by decide, by decide, by decide⟩
  sender := ⟨by decide, by decide, by decide, by decide⟩
  rcpts := by
    intro rcpt member
    rcases List.mem_cons.mp member with rfl | later
    · exact ⟨by decide, by decide, by decide, by decide⟩
    · rw [List.mem_singleton.mp later]
      exact ⟨by decide, by decide, by decide, by decide⟩
  room := by decide
  sent := by decide
  read := rfl
  lines := roomy_of_length (by decide)
  unmarked := unmarked_of_clean (by decide)

/-- What the spooler hears. -/
def noteReplies : List PeerReply :=
  ["220", "250", "250", "250", "553", "354", "250"].map fun code => some (ascii code)

theorem note_coded {reply : Reply} (other : ∀ greeting, reply ≠ .challenge greeting) :
    Hears (reply.text annServer) (some reply.code) :=
  (Reply.coded note_presentable.host other).heard

theorem note_data : Attends annServer 8192 ⟨.listens (note.rcptConn [ascii "ann"]), []⟩
    (ascii "DATA" ++ ascii "\r\n")
    ⟨.collects (note.rcptConn [ascii "ann"]) ⟨ascii "DATA", []⟩, []⟩ (some (ascii "354")) := by
  have data : Line 8192 (ascii "DATA") := ⟨by decide, by decide, by decide, by decide⟩
  have arrived : Whole (ascii "DATA" ++ ascii "\r\n") [⟨ascii "DATA" ++ ascii "\r\n", by decide⟩] :=
    whole_one _
  have heard : Hears (Reply.text annServer .goAhead) (some (ascii "354")) := note_coded nofun
  exact .replies (.goesAhead arrived (data.read arrived) (data_done [] 0)) heard

theorem note_text : Attends annServer 8192
    ⟨.collects (note.rcptConn [ascii "ann"]) ⟨ascii "DATA", []⟩, []⟩ (note.text ++ eom)
    ⟨attend (some { note.greetedConn with msg := [], sstate := .helo }), [note.relayed annServer]⟩
    (some (ascii "250")) := by
  have unsplit : Unsplit [⟨note.text ++ eom, by decide⟩] := by decide
  have stream : Socket.bytes [⟨note.text ++ eom, by decide⟩] = note.text ++ eom := by simp
  have handled := Handles.collects unsplit stream
    (dataLoop_unsplit note_presentable.lines note_presentable.unmarked unsplit stream)
    (text_done annServer note [] 0)
  have heard : Hears (Reply.text annServer .ok) (some (ascii "250")) := note_coded nofun
  exact .replies handled heard

end

end QNXStuff.QXMail
