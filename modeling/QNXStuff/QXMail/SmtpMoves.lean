import QNXStuff.QXMail.Smtp

/-! What an SMTP command can do to its connection, and what it lacks where it fails. -/

namespace QNXStuff.QXMail

open Execution

/-- What one command can do. -/
inductive Conn.Moves (server : MailServer) (conn : Conn) :
    SmtpInput → Option Conn → SmtpAnswer → Prop where
  | closed : Moves server conn input none ⟨replies, .none⟩
  | stays : Moves server conn input (some conn) ⟨replies, .none⟩
  | challenged (greeting : Option (List UInt8)) :
      Moves server conn input (some { conn with greeting := greeting }) ⟨replies, .none⟩
  | freed {read : Received} (hello : read.command = ascii "HELO" ∨ read.command = ascii "EHLO")
      (short : read.result < 7) (begun : conn.sstate ≠ .none) :
      Moves server conn (.command read first second time body) (some (freeSMTPSession conn))
        ⟨replies, .none⟩
  | greeted (user : List UInt8) (greeting : Option (List UInt8)) (msg : List SmtpMsg)
      (kept : msg = [] ∨ msg = conn.msg) :
      Moves server conn input (some ⟨some user, greeting, .helo, false, msg⟩) ⟨replies, .greeted⟩
  | started (here : conn.sstate = .helo) (sender : List UInt8) (named : sender ≠ []) :
      Moves server conn input
        (some { conn with msg := ⟨sender, []⟩ :: conn.msg, sstate := .rcpt }) ⟨replies, .started⟩
  | recipient {msg : SmtpMsg} {rest : List SmtpMsg} (here : conn.sstate = .rcpt)
      (current : conn.msg = msg :: rest) (address : List UInt8)
      (allowed : (∃ mbox ∈ server.mbx, stricmp address mbox.user = true) ∨ conn.auth = true) :
      Moves server conn input
        (some { conn with msg := { msg with rcpts := address :: msg.rcpts } :: rest })
        ⟨replies, .recipient address⟩
  | spooled {read : Received} {msg : SmtpMsg} {rest : List SmtpMsg}
      (here : conn.sstate = .rcpt) (current : conn.msg = msg :: rest)
      (word : read.command = ascii "DATA") (text : List UInt8) :
      Moves server conn (.command read first second time (some body))
        (some { conn with msg := [], sstate := .helo }) ⟨replies, .spooled ⟨msg, text⟩⟩
  | reset {read : Received} (word : read.command = ascii "RSET") :
      Moves server conn (.command read first second time body)
        (some { freeSMTPSession conn with user := conn.user, sstate := .helo }) ⟨replies, .none⟩
  | authenticated (here : conn.sstate = .helo) (user : List UInt8)
      (greeting : Option (List UInt8)) :
      Moves server conn input
        (some { conn with user := some user, greeting := greeting, auth := true })
        ⟨replies, .authenticated⟩
  | renamed (here : conn.sstate = .helo) (before : conn.auth = true) (user : List UInt8)
      (greeting : Option (List UInt8)) :
      Moves server conn input (some { conn with user := some user, greeting := greeting })
        ⟨replies, .none⟩

section

variable {server : MailServer} {conn : Conn} {next : Option Conn} {answer : SmtpAnswer}
  {input : SmtpInput}

theorem stay_moves {replies : List Reply} (done : stay conn replies = .ok (next, answer)) :
    conn.Moves server input next answer := by
  cases done
  exact .stays

theorem close_moves {replies : List Reply} (done : close replies = .ok (next, answer)) :
    conn.Moves server input next answer := by
  cases done
  exact .closed

theorem hello_moves {read : Received} {reply : Reply} {first second : Option Received}
    {time : UInt32} {body : Option (List UInt8)}
    (word : read.command = ascii "HELO" ∨ read.command = ascii "EHLO")
    (done : hello server conn read reply = .ok (next, answer)) :
    conn.Moves server (.command read first second time body) next answer := by
  unfold hello at done
  by_cases short : read.result < 7
  · simp only [if_pos short] at done
    cases done
    by_cases begun : conn.sstate = .none
    · simp only [begun, ne_eq, not_true_eq_false, if_false]
      exact .stays
    · rw [if_pos begun]
      exact .freed word short begun
  · simp only [if_neg short] at done
    split at done
    · exact close_moves done
    · cases done
      by_cases begun : conn.sstate = .none
      · simp only [begun, ne_eq, not_true_eq_false, if_false]
        exact .greeted _ _ _ (.inr rfl)
      · rw [if_pos begun]
        exact .greeted _ _ _ (.inl rfl)

theorem mail_moves {string : List UInt8} (done : mail conn string = .ok (next, answer)) :
    conn.Moves server input next answer := by
  unfold mail at done
  split at done
  · exact stay_moves done
  · next here =>
    cases found : addressIn string with
    | missing =>
      rw [found] at done
      exact stay_moves done
    | wild => simp [found] at done
    | text address adjoining =>
      rw [found] at done
      cases done
      refine .started (not_not.mp here) _ ?_
      split
      · decide
      · assumption

theorem mailbox_local {address : List UInt8} (known : server.mailbox address ≠ none) :
    ∃ mbox ∈ server.mbx, stricmp address mbox.user = true := by
  obtain ⟨mbox, found⟩ := Option.ne_none_iff_exists'.mp known
  exact ⟨mbox, List.mem_of_find?_eq_some found,
    List.find?_some (p := fun mbox : Mailbox => stricmp address mbox.user) found⟩

theorem rcpt_moves {string : List UInt8} (done : rcpt server conn string = .ok (next, answer)) :
    conn.Moves server input next answer := by
  unfold rcpt at done
  split at done
  · exact stay_moves done
  · next here =>
    cases found : addressIn string with
    | missing =>
      rw [found] at done
      exact stay_moves done
    | wild =>
      simp only [found] at done
      split at done
      · exact stay_moves done
      · cases done
    | text address adjoining =>
      simp only [found] at done
      split at done
      · exact stay_moves done
      · split at done
        · exact stay_moves done
        · next allowed =>
          cases current : conn.msg with
          | nil => simp [current] at done
          | cons msg rest =>
            rw [current] at done
            cases done
            refine .recipient (not_not.mp here) current address ?_
            by_cases known : server.mailbox address = none
            · exact .inr (Bool.not_eq_false _ ▸ fun refused => allowed ⟨known, refused⟩)
            · exact .inl (mailbox_local known)

theorem data_moves {read : Received} {first second : Option Received} {time : UInt32}
    {body : Option (List UInt8)} (word : read.command = ascii "DATA")
    (done : data server conn body = .ok (next, answer)) :
    conn.Moves server (.command read first second time body) next answer := by
  unfold data at done
  split at done
  · exact stay_moves done
  · next here =>
    cases current : conn.msg with
    | nil => simp [current] at done
    | cons msg rest =>
      cases named : conn.user with
      | none => simp [current, named] at done
      | some user =>
        cases body with
        | none =>
          simp only [current, named] at done
          exact close_moves done
        | some text =>
          simp only [current, named] at done
          cases done
          have moved : conn.Moves server (.command read first second time (some text))
              (some { conn with msg := [], sstate := .helo })
              ⟨[.goAhead, .ok], .spooled ⟨msg, receivedLine server user ++ text⟩⟩ :=
            .spooled (not_not.mp here) current word _
          rwa [named] at moved

theorem authLogin_moves {first second : Option Received} (here : conn.sstate = .helo)
    (done : authLogin server conn first second = .ok (next, answer)) :
    conn.Moves server input next answer := by
  unfold authLogin at done
  cases first with
  | none => exact close_moves done
  | some first =>
    simp only at done
    split at done
    · exact stay_moves done
    · cases second with
      | none => exact close_moves done
      | some second =>
        simp only at done
        split at done
        · exact close_moves done
        · split at done
          · exact close_moves done
          · split at done
            · cases done
              exact .authenticated here _ _
            · exact close_moves done

theorem authCram_moves {first : Option Received} {time : UInt32} (here : conn.sstate = .helo)
    (done : authCram server conn time first = .ok (next, answer)) :
    conn.Moves server input next answer := by
  unfold authCram at done
  cases first with
  | none => exact close_moves done
  | some first =>
    simp only at done
    split at done
    · cases done
      exact .challenged _
    · split at done
      · cases done
        exact .challenged _
      · split at done
        · cases done
          exact .authenticated here _ _
        · split at done
          · next before =>
            cases done
            exact .renamed here before _ _
          · exact close_moves done

theorem auth_moves {read : Received} {first second : Option Received} {time : UInt32}
    (done : auth server conn read first second time = .ok (next, answer)) :
    conn.Moves server input next answer := by
  unfold auth at done
  split at done
  · exact stay_moves done
  · next here =>
    simp only at done
    split at done
    · exact authLogin_moves (not_not.mp here) done
    · split at done
      · exact authCram_moves (not_not.mp here) done
      · exact stay_moves done

theorem command_moves (done : smtpCommand server conn input = .ok (next, answer)) :
    conn.Moves server input next answer := by
  cases input with
  | lost => exact close_moves done
  | command read first second time body =>
    unfold smtpCommand at done
    simp only at done
    rcases ite_eq_iff.mp done with ⟨word, done⟩ | ⟨-, done⟩
    · exact hello_moves (.inl word) done
    rcases ite_eq_iff.mp done with ⟨word, done⟩ | ⟨-, done⟩
    · exact hello_moves (.inr word) done
    rcases ite_eq_iff.mp done with ⟨-, done⟩ | ⟨-, done⟩
    · exact mail_moves done
    rcases ite_eq_iff.mp done with ⟨-, done⟩ | ⟨-, done⟩
    · exact rcpt_moves done
    rcases ite_eq_iff.mp done with ⟨word, done⟩ | ⟨-, done⟩
    · exact data_moves word done
    rcases ite_eq_iff.mp done with ⟨word, done⟩ | ⟨-, done⟩
    · cases done
      exact .reset word
    rcases ite_eq_iff.mp done with ⟨-, done⟩ | ⟨-, done⟩
    · exact stay_moves done
    rcases ite_eq_iff.mp done with ⟨-, done⟩ | ⟨-, done⟩
    · exact close_moves done
    rcases ite_eq_iff.mp done with ⟨-, done⟩ | ⟨-, done⟩
    · exact auth_moves done
    · exact stay_moves done

theorem step_moves {session : Option Conn} {label : SmtpLabel}
    (step : SmtpStep server session label next) :
    ∃ conn, session = some conn ∧ conn.Moves server label.1 next label.2 := by
  obtain ⟨input, answer⟩ := label
  have step : server.handle session input = .ok (next, answer) := step
  cases session with
  | none => cases step
  | some conn =>
    refine ⟨conn, rfl, ?_⟩
    exact command_moves step

/-! ### Failures -/

/-- What a failing command uses and does not have. -/
inductive Conn.Lacks (conn : Conn) : SmtpFault → Prop where
  | pointer : Lacks conn .badPointer
  | message (here : conn.sstate = .rcpt) (missing : conn.msg = []) : Lacks conn .noMessage
  | name (here : conn.sstate = .rcpt) (missing : conn.user = none) : Lacks conn .noName

theorem mail_lacks {string : List UInt8} {fault : SmtpFault}
    (failed : mail conn string = .error fault) : conn.Lacks fault := by
  unfold mail at failed
  split at failed
  · cases failed
  · split at failed
    · cases failed
    · cases failed
      exact .pointer
    · cases failed

theorem rcpt_lacks {string : List UInt8} {fault : SmtpFault}
    (failed : rcpt server conn string = .error fault) : conn.Lacks fault := by
  unfold rcpt at failed
  split at failed
  · cases failed
  · next here =>
    split at failed
    · cases failed
    · split at failed
      · cases failed
      · cases failed
        exact .pointer
    · split at failed
      · cases failed
      · split at failed
        · cases failed
        · cases current : conn.msg with
          | nil =>
            rw [current] at failed
            cases failed
            exact .message (not_not.mp here) current
          | cons msg rest =>
            rw [current] at failed
            cases failed

theorem data_lacks {body : Option (List UInt8)} {fault : SmtpFault}
    (failed : data server conn body = .error fault) : conn.Lacks fault := by
  unfold data at failed
  split at failed
  · cases failed
  · next here =>
    cases current : conn.msg with
    | nil =>
      rw [current] at failed
      cases failed
      exact .message (not_not.mp here) current
    | cons msg rest =>
      cases named : conn.user with
      | none =>
        rw [current, named] at failed
        cases failed
        exact .name (not_not.mp here) named
      | some user =>
        rw [current, named] at failed
        cases body with
        | none => cases failed
        | some text => cases failed

theorem hello_succeeds {read : Received} {reply : Reply} {fault : SmtpFault} :
    hello server conn read reply ≠ .error fault := by
  intro failed
  unfold hello at failed
  simp only at failed
  split at failed
  · cases failed
  · split at failed
    · cases failed
    · cases failed

theorem auth_succeeds {read : Received} {first second : Option Received} {time : UInt32}
    {fault : SmtpFault} : auth server conn read first second time ≠ .error fault := by
  intro failed
  unfold auth authLogin authCram stay close at failed
  simp only at failed
  repeat' split at failed
  all_goals cases failed

theorem command_lacks {fault : SmtpFault} (failed : smtpCommand server conn input = .error fault) :
    conn.Lacks fault := by
  cases input with
  | lost => cases failed
  | command read first second time body =>
    unfold smtpCommand at failed
    simp only at failed
    rcases ite_eq_iff.mp failed with ⟨-, failed⟩ | ⟨-, failed⟩
    · exact absurd failed hello_succeeds
    rcases ite_eq_iff.mp failed with ⟨-, failed⟩ | ⟨-, failed⟩
    · exact absurd failed hello_succeeds
    rcases ite_eq_iff.mp failed with ⟨-, failed⟩ | ⟨-, failed⟩
    · exact mail_lacks failed
    rcases ite_eq_iff.mp failed with ⟨-, failed⟩ | ⟨-, failed⟩
    · exact rcpt_lacks failed
    rcases ite_eq_iff.mp failed with ⟨-, failed⟩ | ⟨-, failed⟩
    · exact data_lacks failed
    rcases ite_eq_iff.mp failed with ⟨-, failed⟩ | ⟨-, failed⟩
    · cases failed
    rcases ite_eq_iff.mp failed with ⟨-, failed⟩ | ⟨-, failed⟩
    · cases failed
    rcases ite_eq_iff.mp failed with ⟨-, failed⟩ | ⟨-, failed⟩
    · cases failed
    rcases ite_eq_iff.mp failed with ⟨-, failed⟩ | ⟨-, failed⟩
    · exact absurd failed auth_succeeds
    · cases failed

end

end QNXStuff.QXMail
