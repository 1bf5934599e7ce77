import QNXStuff.QXMail.SmtpMoves

/-! The message and the name that the commands of a session use. -/

namespace QNXStuff.QXMail

open Execution

/-- RCPT and DATA find a message with a sender, and DATA a name. -/
structure Conn.Consistent (conn : Conn) : Prop where
  message : conn.sstate = .rcpt → ∃ msg rest, conn.msg = msg :: rest ∧ msg.sender ≠ []
  named : conn.sstate = .helo ∨ conn.sstate = .rcpt → conn.user ≠ none

/-- No HELO without a name after the first, no RSET before it, and no DATA before a recipient was
accepted for the message. -/
def Conn.InOrder (conn : Conn) (read : Received) (body : Option (List UInt8)) : Prop :=
  (read.command = ascii "HELO" ∨ read.command = ascii "EHLO" →
    conn.sstate = .none ∨ 7 ≤ read.result) ∧
  (read.command = ascii "RSET" → conn.sstate ≠ .none) ∧
  (read.command = ascii "DATA" → conn.sstate = .rcpt → body ≠ none →
    conn.msg.head?.map SmtpMsg.rcpts ≠ some [])

instance {conn : Conn} {read : Received} {body : Option (List UInt8)} :
    Decidable (conn.InOrder read body) :=
  inferInstanceAs (Decidable (_ ∧ _ ∧ _))

def Orderly : Option Conn → SmtpInput → Prop
  | some conn, .command read _ _ _ body => conn.InOrder read body
  | _, _ => True

instance {session : Option Conn} {input : SmtpInput} : Decidable (Orderly session input) :=
  match session, input with
  | none, _ => isTrue trivial
  | some _, .lost => isTrue trivial
  | some conn, .command read _ _ _ body => inferInstanceAs (Decidable (conn.InOrder read body))

section

variable {server : MailServer} {conn : Conn} {next : Option Conn} {answer : SmtpAnswer}
  {input : SmtpInput}

theorem newConn_consistent : newConn.Consistent where
  message := nofun
  named := nofun

theorem Conn.Consistent.keep {conn' : Conn} (consistent : conn.Consistent)
    (sstate : conn'.sstate = conn.sstate) (user : conn.user ≠ none → conn'.user ≠ none)
    (msg : conn'.msg = conn.msg) : conn'.Consistent where
  message := by
    rw [sstate, msg]
    exact consistent.message
  named := by
    rw [sstate]
    exact fun here => user (consistent.named here)

/-- A connection in `helo` needs its name only. -/
theorem consistent_of_helo (here : conn.sstate = .helo) (user : conn.user ≠ none) :
    conn.Consistent where
  message := by
    rw [here]
    nofun
  named := fun _ => user

theorem Conn.Moves.consistent (moved : conn.Moves server input next answer)
    (before : conn.Consistent) (inOrder : Orderly (some conn) input) :
    ∀ after, next = some after → after.Consistent := by
  intro after here
  cases moved with
  | closed => cases here
  | stays =>
    cases here
    exact before
  | challenged greeting =>
    cases here
    exact before.keep rfl id rfl
  | freed hello short begun =>
    have named := inOrder.1 hello
    rcases named with fresh | long
    · exact absurd fresh begun
    · exact absurd long (Nat.not_le_of_lt short)
  | greeted user greeting msg kept =>
    cases here
    exact consistent_of_helo rfl (by simp)
  | started here' sender named =>
    cases here
    exact { message := fun _ => ⟨_, _, rfl, named⟩
            named := fun _ => before.named (.inl here') }
  | @recipient _ _ msg rest here' current address allowed =>
    cases here
    obtain ⟨first, others, current', named⟩ := before.message here'
    obtain ⟨rfl, rfl⟩ := List.cons.inj (current.symm.trans current')
    exact { message := fun _ => ⟨_, _, rfl, named⟩
            named := fun _ => before.named (.inr here') }
  | spooled here' current word text =>
    cases here
    exact consistent_of_helo rfl (before.named (.inr here'))
  | reset word =>
    cases here
    have begun := inOrder.2.1 word
    refine consistent_of_helo rfl (before.named ?_)
    cases state : conn.sstate with
    | none => exact absurd state begun
    | helo => exact .inl rfl
    | rcpt => exact .inr rfl
  | authenticated here' user greeting =>
    cases here
    exact before.keep rfl (by simp) rfl
  | renamed here' auth user greeting =>
    cases here
    exact before.keep rfl (by simp) rfl

/-- A message that is spooled has a recipient. -/
theorem Conn.Moves.has_recipient (moved : conn.Moves server input next answer)
    (inOrder : Orderly (some conn) input) {mail : Spooled}
    (handed : answer.event = .spooled mail) : mail.msg.rcpts ≠ [] := by
  cases moved with
  | spooled here current word text =>
    cases handed
    have nonempty := inOrder.2.2 word here (Option.some_ne_none _)
    rw [current] at nonempty
    simpa using nonempty
  | _ => cases handed

theorem Conn.Consistent.not_lacks_message (consistent : conn.Consistent) :
    ¬ conn.Lacks .noMessage := by
  rintro ⟨⟩
  next here missing =>
    obtain ⟨msg, rest, current, -⟩ := consistent.message here
    rw [missing] at current
    cases current

theorem Conn.Consistent.not_lacks_name (consistent : conn.Consistent) :
    ¬ conn.Lacks .noName := by
  rintro ⟨⟩
  next here missing => exact consistent.named (.inr here) missing

theorem session_consistent {labels : List SmtpLabel} {final : Option Conn}
    (run : Run (Under (SmtpStep server) fun session label => Orderly session label.1)
      (some newConn) labels final) : ∀ conn, final = some conn → conn.Consistent := by
  refine run.invariant (motive := fun session => ∀ conn, session = some conn → conn.Consistent)
    ?_ ?_
  · intro conn here
    cases here
    exact newConn_consistent
  · intro session label next before step
    obtain ⟨conn, rfl, moved⟩ := step_moves step.1
    exact moved.consistent (before conn rfl) step.2

theorem spooled_has_recipient {labels : List SmtpLabel} {session final : Option Conn}
    (run : Run (Under (SmtpStep server) fun session label => Orderly session label.1)
      session labels final) :
    ∀ label ∈ labels, ∀ mail, label.2.event = .spooled mail → mail.msg.rcpts ≠ [] := by
  induction run with
  | nil => nofun
  | cons first _ ih =>
    intro label member mail handed
    rcases List.mem_cons.mp member with rfl | later
    · obtain ⟨conn, rfl, moved⟩ := step_moves first.1
      exact moved.has_recipient first.2 handed
    · exact ih label later mail handed

end

/-- In a session whose commands come in order, RCPT and DATA never lack the message or the name,
and every message that is spooled has a recipient. -/
theorem orderly_session_is_consistent (server : MailServer) (labels : List SmtpLabel)
    (final : Option Conn)
    (run : Run (Under (SmtpStep server) fun session label => Orderly session label.1)
      (some newConn) labels final) :
    (∀ conn, final = some conn → conn.Consistent) ∧
      (∀ input, server.handle final input ≠ .error .noMessage ∧
        server.handle final input ≠ .error .noName) ∧
      ∀ label ∈ labels, ∀ mail, label.2.event = .spooled mail → mail.msg.rcpts ≠ [] := by
  have consistent := session_consistent run
  refine ⟨consistent, fun input => ?_, spooled_has_recipient run⟩
  cases final with
  | none => exact ⟨nofun, nofun⟩
  | some conn =>
    have holds := consistent conn rfl
    constructor
    · intro failed
      exact holds.not_lacks_message (command_lacks failed)
    · intro failed
      exact holds.not_lacks_name (command_lacks failed)

def smallServer : MailServer where
  mbx := [⟨ascii "ann", ascii "key"⟩]
  fqdn := ascii "mail"
  peer := ascii "10.0.0.2"

/-- A command line, with nothing to read behind it. -/
def sends (line : String) : SmtpInput := .command ⟨ascii line, []⟩ none none 0 none

def sendsData : SmtpInput := .command ⟨ascii "DATA", []⟩ none none 0 (some [])

/-- A mail to a mailbox and a second recipient that is refused. -/
theorem mail_to_ann_is_orderly : ∃ labels final,
    Run (Under (SmtpStep smallServer) fun session label => Orderly session label.1)
      (some newConn) labels final ∧
    (∃ label ∈ labels, label.2.event = .spooled
      ⟨⟨ascii "bob", [ascii "Ann"]⟩, receivedLine smallServer (ascii "pc")⟩) ∧
    (∀ conn, final = some conn → conn.Consistent) ∧
    ∀ label ∈ labels, ∀ mail, label.2.event = .spooled mail → mail.msg.rcpts ≠ [] := by
  obtain ⟨labels, final, run, seen⟩ := replay_reaches (guarded smallServer.handle Orderly)
    (some newConn)
    [sends "HELO pc", sends "MAIL FROM:<bob>", sends "RCPT TO:<Ann>", sends "RCPT TO:<joe>",
      sendsData]
    (fun _ labels => decide (∃ label ∈ labels, label.2.event = .spooled
      ⟨⟨ascii "bob", [ascii "Ann"]⟩, receivedLine smallServer (ascii "pc")⟩))
    true (by decide +kernel)
  have run := run_guarded run
  obtain ⟨consistent, -, recipients⟩ := orderly_session_is_consistent smallServer labels final run
  exact ⟨labels, final, run, of_decide_eq_true seen, consistent, recipients⟩

/-- After RSET alone there is no name, after a HELO without one no message and no name, and DATA
behind MAIL spools a mail for nobody. -/
theorem careless_session_is_inconsistent :
    (∃ labels, ∃ conn : Conn, Run (SmtpStep smallServer) (some newConn) labels (some conn) ∧
      conn.sstate = .rcpt ∧ conn.user = none ∧
      smallServer.handle (some conn) sendsData = .error .noName) ∧
    (∃ labels, ∃ conn : Conn, Run (SmtpStep smallServer) (some newConn) labels (some conn) ∧
      conn.sstate = .rcpt ∧ conn.msg = [] ∧ conn.user = none ∧
      smallServer.handle (some conn) (sends "RCPT TO:<ann>") = .error .noMessage) ∧
    ∃ labels final, Run (SmtpStep smallServer) (some newConn) labels final ∧
      ∃ label ∈ labels, label.2 = ⟨[.goAhead, .ok], .spooled
        ⟨⟨ascii "bob", []⟩, receivedLine smallServer (ascii "pc")⟩⟩ := by
  refine ⟨?_, ?_, ?_⟩
  · obtain ⟨labels, final, run, seen⟩ := replay_reaches smallServer.handle (some newConn)
      [sends "RSET", sends "MAIL FROM:<bob>"] (fun final _ => final)
      (some ⟨none, none, .rcpt, false, [⟨ascii "bob", []⟩]⟩) (by decide +kernel)
    cases seen
    exact ⟨labels, _, run, rfl, rfl, by decide +kernel⟩
  · obtain ⟨labels, final, run, seen⟩ := replay_reaches smallServer.handle (some newConn)
      [sends "HELO pc", sends "MAIL FROM:<bob>", sends "HELO"] (fun final _ => final)
      (some ⟨none, none, .rcpt, false, []⟩) (by decide +kernel)
    cases seen
    exact ⟨labels, _, run, rfl, rfl, rfl, by decide +kernel⟩
  · obtain ⟨labels, final, run, seen⟩ := replay_reaches smallServer.handle (some newConn)
      [sends "HELO pc", sends "MAIL FROM:<bob>", sendsData]
      (fun _ labels => decide (∃ label ∈ labels, label.2 = ⟨[.goAhead, .ok], .spooled
        ⟨⟨ascii "bob", []⟩, receivedLine smallServer (ascii "pc")⟩⟩))
      true (by decide +kernel)
    exact ⟨labels, final, run, of_decide_eq_true seen⟩

end QNXStuff.QXMail
