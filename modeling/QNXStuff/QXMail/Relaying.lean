import QNXStuff.QXMail.SmtpSessions

/-! Whose mail is relayed. -/

namespace QNXStuff.QXMail

open Execution

/-- AUTH succeeded, and no HELO or EHLO was accepted since. -/
def AuthenticatedSince (past : List SmtpLabel) : Prop :=
  ∃ before proof after, past = before ++ proof :: after ∧ proof.2.event = .authenticated ∧
    ∀ label ∈ after, label.2.event ≠ .greeted

/-- RCPT accepted the address for the message begun last, as a mailbox or from a client that was
authenticated then. -/
def Accepted (server : MailServer) (past : List SmtpLabel) (address : List UInt8) : Prop :=
  ∃ before accepted after, past = before ++ accepted :: after ∧
    accepted.2.event = .recipient address ∧ (∀ label ∈ after, label.2.event ≠ .started) ∧
    ((∃ mbox ∈ server.mbx, stricmp address mbox.user = true) ∨ AuthenticatedSince before)

/-! ### Events and replies -/

/-- The first four letters of a command. -/
def SmtpInput.word : SmtpInput → List UInt8
  | .lost => []
  | .command read _ _ _ _ => read.command

/-- AUTH is answered with 235 exactly where the client is authenticated, HELO and EHLO with 250 exactly
where it is greeted. -/
structure Announced (word : List UInt8) (answer : SmtpAnswer) : Prop where
  authenticated : answer.event = .authenticated ↔ Reply.authenticated ∈ answer.replies
  greeted : answer.event = .greeted ↔ Reply.hello ∈ answer.replies ∨ Reply.ehlo ∈ answer.replies
  auth : answer.event = .authenticated → word = ascii "AUTH"
  hello : answer.event = .greeted → word = ascii "HELO" ∨ word = ascii "EHLO"

/-- Replies that tell of neither. -/
def Quiet (replies : List Reply) : Prop :=
  Reply.authenticated ∉ replies ∧ Reply.hello ∉ replies ∧ Reply.ehlo ∉ replies

instance {replies : List Reply} : Decidable (Quiet replies) :=
  inferInstanceAs (Decidable (_ ∧ _ ∧ _))

section

variable {server : MailServer} {conn : Conn} {next : Option Conn} {answer : SmtpAnswer}
  {replies : List Reply} {word : List UInt8}

theorem told_of_quiet {event : SmtpEvent} (quiet : Quiet replies)
    (proof : event ≠ .authenticated) (greeting : event ≠ .greeted) :
    Announced word ⟨replies, event⟩ where
  authenticated := iff_of_false proof quiet.1
  greeted := iff_of_false greeting (not_or.mpr quiet.2)
  auth := fun here => absurd here proof
  hello := fun here => absurd here greeting

theorem stay_told (done : stay conn replies = .ok (next, answer)) (quiet : Quiet replies) :
    Announced word answer := by
  cases done
  exact told_of_quiet quiet nofun nofun

theorem close_told (done : close replies = .ok (next, answer)) (quiet : Quiet replies) :
    Announced word answer := by
  cases done
  exact told_of_quiet quiet nofun nofun

theorem told_authenticated (proof : Reply.authenticated ∈ replies) (hello : Reply.hello ∉ replies)
    (ehlo : Reply.ehlo ∉ replies) : Announced (ascii "AUTH") ⟨replies, .authenticated⟩ where
  authenticated := iff_of_true rfl proof
  greeted := iff_of_false nofun (not_or.mpr ⟨hello, ehlo⟩)
  auth := fun _ => rfl
  hello := nofun

theorem hello_told {read : Received} {reply : Reply} (known : reply = .hello ∨ reply = .ehlo)
    (here : word = ascii "HELO" ∨ word = ascii "EHLO")
    (done : hello server conn read reply = .ok (next, answer)) : Announced word answer := by
  unfold hello at done
  extract_lets freed name at done
  split at done
  · exact stay_told done (by decide)
  · split at done
    · exact close_told done (by decide)
    · cases done
      exact
        { authenticated := by rcases known with rfl | rfl <;> decide
          greeted := by rcases known with rfl | rfl <;> decide
          auth := nofun
          hello := fun _ => here }

theorem mail_told {string : List UInt8} (done : mail conn string = .ok (next, answer)) :
    Announced word answer := by
  unfold mail at done
  split at done
  · exact stay_told done (by decide)
  · split at done
    · exact stay_told done (by decide)
    · cases done
    · cases done
      exact told_of_quiet (by decide) nofun nofun

theorem rcpt_told {string : List UInt8} (done : rcpt server conn string = .ok (next, answer)) :
    Announced word answer := by
  unfold rcpt at done
  split at done
  · exact stay_told done (by decide)
  · split at done
    · exact stay_told done (by decide)
    · split at done
      · exact stay_told done (by decide)
      · cases done
    · split at done
      · exact stay_told done (by decide)
      · split at done
        · exact stay_told done (by decide)
        · split at done
          · cases done
          · cases done
            exact told_of_quiet (by decide) nofun nofun

theorem data_told {body : Option (List UInt8)} (done : data server conn body = .ok (next, answer)) :
    Announced word answer := by
  unfold data at done
  split at done
  · exact stay_told done (by decide)
  · split at done
    · cases done
    · cases done
    · exact close_told done (by decide)
    · cases done
      exact told_of_quiet (by decide) nofun nofun

theorem authLogin_told {first second : Option Received}
    (done : authLogin server conn first second = .ok (next, answer)) :
    Announced (ascii "AUTH") answer := by
  unfold authLogin at done
  split at done
  · exact close_told done (by decide)
  · split at done
    · exact stay_told done (by decide)
    · extract_lets username at done
      split at done
      · exact close_told done (by decide)
      · split at done
        · exact close_told done (by decide)
        · split at done
          · exact close_told done (by decide)
          · split at done
            · cases done
              exact told_authenticated (by decide) (by decide) (by decide)
            · exact close_told done (by decide)

theorem quiet_challenge (greeting : List UInt8) (quiet : Quiet replies) :
    Quiet (.challenge greeting :: replies) := by
  simpa [Quiet] using quiet

theorem authCram_told {first : Option Received} {time : UInt32}
    (done : authCram server conn time first = .ok (next, answer)) :
    Announced (ascii "AUTH") answer := by
  unfold authCram at done
  extract_lets greeting challenged at done
  split at done
  · exact close_told done (quiet_challenge _ (by decide))
  · split at done
    · exact stay_told done (quiet_challenge _ (by decide))
    · split at done
      · exact stay_told done (quiet_challenge _ (by decide))
      · extract_lets user hash named known at done
        split at done
        · cases done
          exact told_authenticated (by simp) (by simp) (by simp)
        · split at done
          · exact stay_told done (quiet_challenge _ (by decide))
          · exact close_told done (quiet_challenge _ (by decide))

theorem auth_told {read : Received} {first second : Option Received} {time : UInt32}
    (done : auth server conn read first second time = .ok (next, answer)) :
    Announced (ascii "AUTH") answer := by
  unfold auth at done
  extract_lets kind at done
  split at done
  · exact stay_told done (by decide)
  · split at done
    · exact authLogin_told done
    · split at done
      · exact authCram_told done
      · exact stay_told done (by decide)

theorem command_told {input : SmtpInput}
    (done : smtpCommand server conn input = .ok (next, answer)) : Announced input.word answer := by
  cases input with
  | lost => exact close_told done (by decide)
  | command read first second time body =>
    unfold smtpCommand at done
    simp only at done
    rcases ite_eq_iff.mp done with ⟨word, done⟩ | ⟨-, done⟩
    · exact hello_told (.inl rfl) (.inl word) done
    rcases ite_eq_iff.mp done with ⟨word, done⟩ | ⟨-, done⟩
    · exact hello_told (.inr rfl) (.inr word) done
    rcases ite_eq_iff.mp done with ⟨-, done⟩ | ⟨-, done⟩
    · exact mail_told done
    rcases ite_eq_iff.mp done with ⟨-, done⟩ | ⟨-, done⟩
    · exact rcpt_told done
    rcases ite_eq_iff.mp done with ⟨-, done⟩ | ⟨-, done⟩
    · exact data_told done
    rcases ite_eq_iff.mp done with ⟨-, done⟩ | ⟨-, done⟩
    · exact stay_told done (by decide)
    rcases ite_eq_iff.mp done with ⟨-, done⟩ | ⟨-, done⟩
    · exact stay_told done (by decide)
    rcases ite_eq_iff.mp done with ⟨-, done⟩ | ⟨-, done⟩
    · exact close_told done (by decide)
    rcases ite_eq_iff.mp done with ⟨word, done⟩ | ⟨-, done⟩
    · have told := auth_told done
      rwa [← word] at told
    · exact stay_told done (by decide)

theorem session_told {labels : List SmtpLabel} {session final : Option Conn}
    (run : Run (SmtpStep server) session labels final) :
    ∀ label ∈ labels, Announced label.1.word label.2 := by
  induction run with
  | nil => nofun
  | @cons session label middle rest final first _ ih =>
    intro other member
    rcases List.mem_cons.mp member with rfl | later
    · have answered : server.handle session other.1 = .ok (middle, other.2) := first
      cases session with
      | none => cases answered
      | some conn => exact command_told answered
    · exact ih other later

/-- In what the client sent and read: AUTH was answered with 235, and since then neither HELO nor EHLO
with 250. -/
theorem authenticatedSince_iff {past : List SmtpLabel} {final : Option Conn}
    (run : Run (SmtpStep server) (some newConn) past final) :
    AuthenticatedSince past ↔ ∃ before proof after, past = before ++ proof :: after ∧
      proof.1.word = ascii "AUTH" ∧ Reply.authenticated ∈ proof.2.replies ∧
      ∀ label ∈ after, Reply.hello ∉ label.2.replies ∧ Reply.ehlo ∉ label.2.replies := by
  constructor
  · rintro ⟨before, proof, after, rfl, proved, quiet⟩
    have told := session_told run proof (by simp)
    refine ⟨before, proof, after, rfl, told.auth proved, told.authenticated.mp proved, ?_⟩
    intro label member
    have other := session_told run label (by simp [member])
    exact not_or.mp fun hello => quiet label member (other.greeted.mpr hello)
  · rintro ⟨before, proof, after, rfl, -, proved, quiet⟩
    refine ⟨before, proof, after, rfl, (session_told run proof (by simp)).authenticated.mpr proved, ?_⟩
    intro label member greeted
    have other := session_told run label (by simp [member])
    exact not_or.mpr (quiet label member) (other.greeted.mp greeted)

end

/-- What a session has behind it. -/
structure Conn.Entitled (server : MailServer) (past : List SmtpLabel) (conn : Conn) : Prop where
  authenticated : conn.auth = true → AuthenticatedSince past
  accepted : ∀ msg rest, conn.msg = msg :: rest → ∀ address ∈ msg.rcpts,
    Accepted server past address

section

variable {server : MailServer} {past : List SmtpLabel} {label : SmtpLabel} {conn : Conn}
  {next : Option Conn} {address : List UInt8}

theorem authenticatedSince_last (proof : label.2.event = .authenticated) :
    AuthenticatedSince (past ++ [label]) :=
  ⟨past, label, [], rfl, proof, nofun⟩

theorem AuthenticatedSince.snoc (since : AuthenticatedSince past)
    (other : label.2.event ≠ .greeted) : AuthenticatedSince (past ++ [label]) := by
  obtain ⟨before, proof, after, rfl, proved, quiet⟩ := since
  refine ⟨before, proof, after ++ [label], by simp, proved, ?_⟩
  intro last member
  rcases List.mem_append.mp member with old | new
  · exact quiet last old
  · rw [List.mem_singleton.mp new]
    exact other

theorem accepted_last (recipient : label.2.event = .recipient address)
    (allowed : (∃ mbox ∈ server.mbx, stricmp address mbox.user = true) ∨
      AuthenticatedSince past) : Accepted server (past ++ [label]) address :=
  ⟨past, label, [], rfl, recipient, nofun, allowed⟩

theorem Accepted.snoc (accepted : Accepted server past address)
    (other : label.2.event ≠ .started) : Accepted server (past ++ [label]) address := by
  obtain ⟨before, rcpt, after, rfl, recipient, quiet, allowed⟩ := accepted
  refine ⟨before, rcpt, after ++ [label], by simp, recipient, ?_, allowed⟩
  intro last member
  rcases List.mem_append.mp member with old | new
  · exact quiet last old
  · rw [List.mem_singleton.mp new]
    exact other

theorem newConn_entitled : newConn.Entitled server [] where
  authenticated := nofun
  accepted := nofun

/-- A command that accepts no HELO and begins no message keeps what its connection keeps. -/
theorem Conn.Entitled.snoc {conn' : Conn} (entitled : conn.Entitled server past)
    (auth : conn'.auth = true → conn.auth = true ∨ label.2.event = .authenticated)
    (msg : conn'.msg = conn.msg ∨ conn'.msg = []) (notGreeted : label.2.event ≠ .greeted)
    (notStarted : label.2.event ≠ .started) : conn'.Entitled server (past ++ [label]) where
  authenticated := by
    intro authenticated
    rcases auth authenticated with before | now
    · exact (entitled.authenticated before).snoc notGreeted
    · exact authenticatedSince_last now
  accepted := by
    intro first rest current address member
    rcases msg with same | empty
    · rw [same] at current
      exact (entitled.accepted first rest current address member).snoc notStarted
    · rw [empty] at current
      cases current

theorem Conn.Moves.entitled (moved : conn.Moves server label.1 next label.2)
    (entitled : conn.Entitled server past) :
    ∀ after, next = some after → after.Entitled server (past ++ [label]) := by
  obtain ⟨input, answer⟩ := label
  intro after here
  cases moved with
  | closed => cases here
  | stays =>
    cases here
    exact entitled.snoc .inl (.inl rfl) nofun nofun
  | challenged greeting =>
    cases here
    exact entitled.snoc .inl (.inl rfl) nofun nofun
  | freed hello short begun =>
    cases here
    exact entitled.snoc .inl (.inr rfl) nofun nofun
  | greeted user greeting msg kept =>
    cases here
    refine { authenticated := nofun, accepted := ?_ }
    intro first rest current address member
    rcases kept with rfl | rfl
    · cases current
    · exact (entitled.accepted first rest current address member).snoc nofun
  | started here' sender named =>
    cases here
    refine { authenticated := fun auth => (entitled.authenticated auth).snoc nofun
             accepted := ?_ }
    intro first rest current address member
    cases current
    cases member
  | @recipient replies _ msg rest here' current new allowed =>
    cases here
    refine { authenticated := fun auth => (entitled.authenticated auth).snoc nofun
             accepted := ?_ }
    intro first others current' address member
    obtain ⟨rfl, rfl⟩ := List.cons.inj current'
    rcases List.mem_cons.mp member with rfl | old
    · exact accepted_last rfl (allowed.imp_right entitled.authenticated)
    · exact (entitled.accepted msg rest current address old).snoc nofun
  | spooled here' current word text =>
    cases here
    exact entitled.snoc .inl (.inr rfl) nofun nofun
  | reset word =>
    cases here
    exact entitled.snoc .inl (.inr rfl) nofun nofun
  | authenticated here' user greeting =>
    cases here
    exact entitled.snoc (fun _ => .inr rfl) (.inl rfl) nofun nofun
  | renamed here' auth user greeting =>
    cases here
    exact entitled.snoc .inl (.inl rfl) nofun nofun

theorem session_entitled {labels : List SmtpLabel} {final : Option Conn}
    (run : Run (SmtpStep server) (some newConn) labels final) :
    ∀ conn, final = some conn → conn.Entitled server labels := by
  have entitled := @Run.history _ _ _
    (fun past session => ∀ conn, session = some conn → conn.Entitled server past) _ _ [] _ run
    (by
      intro conn here
      cases here
      exact newConn_entitled)
    (by
      intro past session label next before step
      obtain ⟨conn, rfl, moved⟩ := step_moves step
      exact moved.entitled (before conn rfl))
  simpa using entitled

end

/-- Every recipient of a message that is spooled is a mailbox of the server, or was accepted from a
client that had authenticated itself since its last HELO or EHLO. -/
theorem relays_for_authenticated_only (server : MailServer) (labels : List SmtpLabel)
    (session next : Option Conn) (label : SmtpLabel) (mail : Spooled)
    (run : Run (SmtpStep server) (some newConn) labels session)
    (step : SmtpStep server session label next) (handed : label.2.event = .spooled mail) :
    ∀ address ∈ mail.msg.rcpts, Accepted server labels address := by
  obtain ⟨conn, rfl, moved⟩ := step_moves step
  obtain ⟨input, answer⟩ := label
  have entitled := session_entitled run conn rfl
  cases moved with
  | spooled here current word text =>
    cases handed
    exact entitled.accepted _ _ current
  | _ => cases handed

/-- AUTH LOGIN with a name and a password in base 64. -/
def logsIn (name password : String) : SmtpInput :=
  .command ⟨ascii "AUTH LOGIN", []⟩ (some ⟨ascii name, []⟩) (some ⟨ascii password, []⟩) 0 none

/-- A session that logged in and gave two recipients. -/
def relaying : Conn where
  user := some (ascii "ann")
  greeting := none
  sstate := .rcpt
  auth := true
  msg := [⟨ascii "ann", [ascii "joe", ascii "ANN"]⟩]

/-- A mailbox takes mail from anyone, and a client that knows a password mails elsewhere too. -/
theorem ann_mails_elsewhere : ∃ labels session next label,
    Run (SmtpStep smallServer) (some newConn) labels session ∧
    SmtpStep smallServer session label next ∧
    label.2.event = .spooled
      ⟨⟨ascii "ann", [ascii "joe", ascii "ANN"]⟩, receivedLine smallServer (ascii "ann")⟩ ∧
    Accepted smallServer labels (ascii "joe") := by
  obtain ⟨labels, session, run, seen⟩ := replay_reaches smallServer.handle (some newConn)
    [sends "HELO pc", logsIn "YW5u" "a2V5", sends "MAIL FROM:<ann>", sends "RCPT TO:<ANN>",
      sends "RCPT TO:<joe>"]
    (fun final _ => final) (some relaying) (by decide +kernel)
  subst seen
  have handed : smallServer.handle (some relaying) sendsData =
      .ok (some { relaying with msg := [], sstate := .helo }, ⟨[.goAhead, .ok], .spooled
        ⟨⟨ascii "ann", [ascii "joe", ascii "ANN"]⟩, receivedLine smallServer (ascii "ann")⟩⟩) := by
    decide +kernel
  exact ⟨labels, _, _, (sendsData, _), run, handed, rfl,
    relays_for_authenticated_only smallServer labels _ _ (sendsData, _) _ run handed rfl _
      List.mem_cons_self⟩

/-- Without AUTH the same recipient is refused. -/
example : (replay smallServer.handle (some newConn)
    [sends "HELO pc", sends "MAIL FROM:<ann>", sends "RCPT TO:<joe>"]).toOption.map Prod.snd =
      some [⟨[.hello], .greeted⟩, ⟨[.ok], .started⟩, ⟨[.noRelay], .none⟩] := by
  decide +kernel

end QNXStuff.QXMail
