import QNXStuff.QXMail.Pop

/-! The locks of the mailboxes: who takes them, and who gives them back. -/

namespace QNXStuff.QXMail

open Execution

/-- The connection is lost, or the command is QUIT. -/
def PopInput.Ends : PopInput → Prop
  | .lost => True
  | .command read _ _ => read.command = ascii "QUIT"

instance (input : PopInput) : Decidable input.Ends :=
  match input with
  | .lost => isTrue trivial
  | .command _ _ _ => inferInstanceAs (Decidable (_ = _))

/-- What a command does to the state of a connection and to the mutexes. -/
inductive PopConn.Moves (free : Nat → Bool) (conn : PopConn) (input : PopInput) :
    Option PopConn → PopAnswer → Prop where
  | stays {next : PopConn} {sent : List UInt8} {removed : List (List UInt8)}
      (pstate : next.pstate = .tran ↔ conn.pstate = .tran)
      (mbox : conn.pstate = .tran → next.mbox = conn.mbox) :
      conn.Moves free input (some next) ⟨sent, none, none, removed⟩
  | enters {next : PopConn} {sent : List UInt8} {mailbox : Nat} (before : conn.pstate ≠ .tran)
      (unlocked : free mailbox = true) (pstate : next.pstate = .tran)
      (mbox : next.mbox = some mailbox) :
      conn.Moves free input (some next) ⟨sent, some mailbox, none, []⟩
  | idles {sent : List UInt8} (before : conn.pstate ≠ .tran) :
      conn.Moves free input none ⟨sent, none, none, []⟩
  | ends {sent : List UInt8} {removed : List (List UInt8)} (leaving : input.Ends) :
      conn.Moves free input none ⟨sent, none, conn.mbox, removed⟩

section

variable {config : PopConfig} {free : Nat → Bool} {conn : PopConn} {next : Option PopConn}
  {input : PopInput} {answer : PopAnswer} {read : Received} {dir : Option (List DirEntry)}

theorem reply_moves {after : PopConn} {sent : List UInt8}
    (done : reply after sent = .ok (next, answer))
    (pstate : after.pstate = .tran ↔ conn.pstate = .tran)
    (mbox : conn.pstate = .tran → after.mbox = conn.mbox) : conn.Moves free input next answer := by
  cases done
  exact .stays pstate mbox

theorem login_moves {mbox : Option Nat} {name : List UInt8} {known : Bool}
    (done : login conn mbox name known (mbox.any free) dir = .ok (next, answer))
    (before : conn.pstate ≠ .tran) : conn.Moves free input next answer := by
  unfold login at done
  extract_lets named at done
  split at done
  · next found =>
    obtain ⟨mailbox, rfl⟩ := Option.isSome_iff_exists.mp found.1
    cases done
    exact .enters before found.2.2 rfl rfl
  · refine reply_moves done ?_ (absurd · before)
    exact ⟨nofun, fun here => absurd here before⟩

theorem apop_moves (done : apop config free conn read dir = .ok (next, answer)) :
    conn.Moves free input next answer := by
  unfold apop at done
  extract_lets text at done
  split at done
  · exact reply_moves done .rfl fun _ => rfl
  · next begun =>
    have before : conn.pstate = .none := not_not.mp (not_or.mp begun).1
    split at done
    · exact reply_moves done .rfl fun _ => rfl
    · refine login_moves done ?_
      rw [before]
      nofun

theorem user_moves (done : user conn read = .ok (next, answer)) : conn.Moves free input next answer := by
  unfold user at done
  split at done
  · exact reply_moves done .rfl fun _ => rfl
  · next begun =>
    have before : conn.pstate = .none := not_not.mp (not_or.mp begun).1
    refine reply_moves done ?_ ?_
    · rw [before]
      exact ⟨nofun, nofun⟩
    · rw [before]
      nofun

theorem pass_moves (done : pass config free conn read dir = .ok (next, answer)) :
    conn.Moves free input next answer := by
  unfold pass at done
  split at done
  · exact reply_moves done .rfl fun _ => rfl
  · next named =>
    have before : conn.pstate = .auth := not_not.mp (not_or.mp named).1
    split at done
    · cases done
    · refine login_moves done ?_
      rw [before]
      nofun

theorem list_moves (done : list config conn read = .ok (next, answer)) :
    conn.Moves free input next answer := by
  unfold list at done
  split at done
  · unfold listAll at done
    split at done
    · exact reply_moves done .rfl fun _ => rfl
    · cases done
  · split at done
    · exact reply_moves done .rfl fun _ => rfl
    · exact reply_moves done .rfl fun _ => rfl

theorem retr_moves {files : List UInt8 → Option (List UInt8)}
    (done : retr config conn read files = .ok (next, answer)) : conn.Moves free input next answer := by
  unfold retr at done
  split at done
  · exact reply_moves done .rfl fun _ => rfl
  · split at done
    · exact reply_moves done .rfl fun _ => rfl
    · exact reply_moves done .rfl fun _ => rfl

theorem dele_moves (done : dele config conn read = .ok (next, answer)) :
    conn.Moves free input next answer := by
  unfold dele at done
  split at done
  · exact reply_moves done .rfl fun _ => rfl
  · exact reply_moves done .rfl fun _ => rfl

theorem transaction_moves {served : PopResult}
    (done : (if conn.pstate ≠ .tran then reply conn pop3Neg else served) = .ok (next, answer))
    (moves : served = .ok (next, answer) → conn.Moves free input next answer) :
    conn.Moves free input next answer := by
  split at done
  · exact reply_moves done .rfl fun _ => rfl
  · exact moves done

theorem popCommand_moves
    (done : popCommand config free conn input = .ok (next, answer)) :
    conn.Moves free input next answer := by
  cases input with
  | lost =>
    cases done
    exact .ends trivial
  | command read dir files =>
    simp only [popCommand] at done
    rcases ite_eq_iff.mp done with ⟨-, done⟩ | ⟨-, done⟩
    · exact apop_moves done
    rcases ite_eq_iff.mp done with ⟨-, done⟩ | ⟨-, done⟩
    · exact user_moves done
    rcases ite_eq_iff.mp done with ⟨-, done⟩ | ⟨-, done⟩
    · exact pass_moves done
    rcases ite_eq_iff.mp done with ⟨-, done⟩ | ⟨-, done⟩
    · exact transaction_moves done fun done => reply_moves done .rfl fun _ => rfl
    rcases ite_eq_iff.mp done with ⟨-, done⟩ | ⟨-, done⟩
    · exact transaction_moves done list_moves
    rcases ite_eq_iff.mp done with ⟨-, done⟩ | ⟨-, done⟩
    · exact transaction_moves done retr_moves
    rcases ite_eq_iff.mp done with ⟨-, done⟩ | ⟨-, done⟩
    · exact transaction_moves done dele_moves
    rcases ite_eq_iff.mp done with ⟨-, done⟩ | ⟨-, done⟩
    · exact transaction_moves done fun done => reply_moves done .rfl fun _ => rfl
    rcases ite_eq_iff.mp done with ⟨-, done⟩ | ⟨-, done⟩
    · split at done
      · next before =>
        cases done
        exact .idles before
      · exact reply_moves done .rfl fun _ => rfl
    rcases ite_eq_iff.mp done with ⟨quit, done⟩ | ⟨-, done⟩
    · cases done
      exact .ends quit
    · exact reply_moves done .rfl fun _ => rfl

theorem popCommand_ends (ends : input.Ends)
    (done : popCommand config free conn input = .ok (next, answer)) :
    answer.acquired = none ∧ answer.released = conn.mbox ∧ next = none := by
  cases input with
  | lost =>
    cases done
    exact ⟨rfl, rfl, rfl⟩
  | command read dir files =>
    have quit : read.command = ascii "QUIT" := ends
    simp only [popCommand, quit] at done
    rw [if_neg (by decide), if_neg (by decide), if_neg (by decide), if_neg (by decide),
      if_neg (by decide), if_neg (by decide), if_neg (by decide), if_neg (by decide),
      if_neg (by decide), if_pos trivial] at done
    cases done
    exact ⟨rfl, rfl, rfl⟩

end

/-! ### The threads -/

def ServerInput.thread : ServerInput → Nat
  | .connect thread _ => thread
  | .session thread _ => thread

/-- The mailboxes that a thread has locked, one after the other. -/
def acquiredBy (thread : Nat) (labels : List PopLabel) : List Nat :=
  labels.filterMap fun label => if label.1.thread = thread then label.2.acquired else none

/-- The mailboxes that a thread has unlocked, one after the other. -/
def releasedBy (thread : Nat) (labels : List PopLabel) : List Nat :=
  labels.filterMap fun label => if label.1.thread = thread then label.2.released else none

/-- The mailbox of a session in TRANSACTION state. -/
def PopConn.holding (conn : PopConn) : List Nat :=
  if conn.pstate = .tran then conn.mbox.toList else []

namespace PopServer

/-- The session of a thread is in TRANSACTION state for a mailbox. -/
def InTransaction (server : PopServer) (thread mailbox : Nat) : Prop :=
  ∃ conn, server.sessions thread = some conn ∧ conn.pstate = .tran ∧ conn.mbox = some mailbox

/-- The mailbox for which the session of a thread is in TRANSACTION state. -/
def holding (server : PopServer) (thread : Nat) : List Nat :=
  (server.sessions thread).elim [] PopConn.holding

end PopServer

/-- Every lock that a thread has released is one it had acquired before, and it has released all of
them but that of its present mailbox; no mailbox has two sessions. -/
structure OwnLocks (server : PopServer) (labels : List PopLabel) : Prop where
  balanced : ∀ thread, acquiredBy thread labels = releasedBy thread labels ++ server.holding thread
  exclusive : ∀ first second mailbox, server.InTransaction first mailbox →
    server.InTransaction second mailbox → first = second

/-- A session that ends is in TRANSACTION state, or its last login named no mailbox. -/
def PopServer.EndsOwn (server : PopServer) : ServerInput → Prop
  | .connect _ _ => True
  | .session thread input =>
    input.Ends → ∀ conn ∈ server.sessions thread, conn.pstate = .tran ∨ conn.mbox = none

instance (server : PopServer) (input : ServerInput) : Decidable (server.EndsOwn input) :=
  match input with
  | .connect _ _ => isTrue trivial
  | .session thread input =>
    match known : server.sessions thread with
    | none => isTrue (by simp [PopServer.EndsOwn, known])
    | some conn =>
      decidable_of_iff (input.Ends → conn.pstate = .tran ∨ conn.mbox = none)
        (by simp [PopServer.EndsOwn, known])

section

variable {config : PopConfig} {server next : PopServer} {label : PopLabel} {labels : List PopLabel}

/-- A mutex is locked by the thread whose session is in TRANSACTION state for its mailbox. -/
def PopServer.Locked (server : PopServer) : Prop :=
  ∀ thread mailbox, server.mtx mailbox = some thread ↔ mailbox ∈ server.holding thread

/-- The session of a thread, before and after a step. -/
inductive SessionMoves (config : PopConfig) (server next : PopServer) : PopLabel → Prop where
  | connected {thread : Nat} {time : UInt32} {sent : List UInt8}
      (before : server.sessions thread = none)
      (sessions : next.sessions =
        Function.update server.sessions thread (some (greetedConn config time)))
      (mtx : next.mtx = server.mtx) :
      SessionMoves config server next (.connect thread time, ⟨sent, none, none, []⟩)
  | served {thread : Nat} {input : PopInput} {conn : PopConn} {after : Option PopConn}
      {answer : PopAnswer} (before : server.sessions thread = some conn)
      (done : popCommand config (fun mailbox => server.mtx mailbox == none) conn input =
        .ok (after, answer))
      (sessions : next.sessions = Function.update server.sessions thread after)
      (mtx : next.mtx = PopServer.lockAndUnlock config server.mtx thread answer) :
      SessionMoves config server next (.session thread input, answer)

theorem step_sessions (step : PopStep config server label next) :
    SessionMoves config server next label := by
  obtain ⟨input, answer⟩ := label
  have done : server.handle config input = .ok (next, answer) := step
  cases input with
  | connect thread time =>
    simp only [PopServer.handle] at done
    split at done
    · cases done
    · next before =>
      cases done
      exact .connected before rfl rfl
  | session thread input =>
    simp only [PopServer.handle] at done
    split at done
    · cases done
    · next conn before =>
      obtain ⟨⟨after, answer⟩, served, same⟩ := map_eq_ok.mp done
      cases same
      exact .served before served rfl rfl

theorem mem_holding {thread mailbox : Nat} :
    mailbox ∈ server.holding thread ↔ server.InTransaction thread mailbox := by
  unfold PopServer.holding PopServer.InTransaction
  cases server.sessions thread with
  | none => simp
  | some conn =>
    by_cases tran : conn.pstate = .tran
    · simp [PopConn.holding, tran]
    · simp [PopConn.holding, tran]

theorem holding_other {thread other : Nat} {after : Option PopConn}
    (sessions : next.sessions = Function.update server.sessions thread after)
    (apart : other ≠ thread) : next.holding other = server.holding other := by
  rw [PopServer.holding, PopServer.holding, sessions, Function.update_of_ne apart]

theorem holding_same {thread : Nat} {after : Option PopConn}
    (sessions : next.sessions = Function.update server.sessions thread after) :
    next.holding thread = after.elim [] PopConn.holding := by
  rw [PopServer.holding, sessions, Function.update_self]

theorem PopConn.holding_of_tran {conn : PopConn} (tran : conn.pstate = .tran) :
    conn.holding = conn.mbox.toList :=
  if_pos tran

theorem PopConn.holding_of_not {conn : PopConn} (outside : conn.pstate ≠ .tran) :
    conn.holding = [] :=
  if_neg outside

theorem holding_before {thread : Nat} {conn : PopConn}
    (before : server.sessions thread = some conn) : server.holding thread = conn.holding := by
  rw [PopServer.holding, before]
  rfl

theorem holding_none {thread : Nat} (before : server.sessions thread = none) :
    server.holding thread = [] := by
  rw [PopServer.holding, before]
  rfl

/-- A session that ends as it should gives back what it holds. -/
theorem PopConn.holding_of_own {conn : PopConn} (own : conn.pstate = .tran ∨ conn.mbox = none) :
    conn.holding = conn.mbox.toList := by
  rcases own with tran | none
  · exact PopConn.holding_of_tran tran
  · simp [PopConn.holding, none]

/-- What a step does to the locks of a thread. -/
theorem step_balance (step : PopStep config server label next) (own : server.EndsOwn label.1)
    (thread : Nat) :
    server.holding thread ++ acquiredBy thread [label] =
      releasedBy thread [label] ++ next.holding thread := by
  cases step_sessions step with
  | @connected other time sent before sessions mtx =>
    by_cases same : thread = other
    · subst same
      rw [holding_none before, holding_same sessions]
      simp [acquiredBy, releasedBy, greetedConn, PopConn.holding]
    · simp [holding_other sessions same, acquiredBy, releasedBy]
  | @served other input conn after answer before done sessions mtx =>
    by_cases same : thread = other
    · subst same
      rw [holding_before before, holding_same sessions]
      cases popCommand_moves done with
      | stays pstate mbox =>
        by_cases tran : conn.pstate = .tran
        · simp [acquiredBy, releasedBy, PopConn.holding, tran, pstate.mpr tran, mbox tran]
        · simp [acquiredBy, releasedBy, PopConn.holding, tran, pstate]
      | enters outside unlocked pstate mbox =>
        simp [acquiredBy, releasedBy, PopConn.holding, outside, pstate, mbox, ServerInput.thread]
      | idles outside => simp [acquiredBy, releasedBy, PopConn.holding, outside]
      | ends leaving =>
        rw [PopConn.holding_of_own (own leaving conn before)]
        cases conn.mbox with
        | none => simp [acquiredBy, releasedBy]
        | some mailbox => simp [acquiredBy, releasedBy, ServerInput.thread]
    · have apart : other ≠ thread := Ne.symm same
      simp [holding_other sessions same, acquiredBy, releasedBy, ServerInput.thread, apart]

section

variable {thread mailbox : Nat} {after : Option PopConn}

theorem PopServer.Locked.stay (locked : server.Locked)
    (sessions : next.sessions = Function.update server.sessions thread after)
    (mtx : next.mtx = server.mtx) (same : next.holding thread = server.holding thread) :
    next.Locked := by
  intro other mailbox
  rw [mtx, locked other mailbox]
  by_cases here : other = thread
  · rw [here, same]
  · rw [holding_other sessions here]

theorem PopServer.Locked.take (locked : server.Locked)
    (sessions : next.sessions = Function.update server.sessions thread after)
    (mtx : next.mtx = Function.update server.mtx mailbox (some thread))
    (free : server.mtx mailbox = none) (before : server.holding thread = [])
    (held : next.holding thread = [mailbox]) : next.Locked := by
  intro other mailbox'
  have outside : mailbox ∉ server.holding other := by
    rw [← locked other mailbox, free]
    nofun
  by_cases same : mailbox' = mailbox
  · subst same
    rw [mtx, Function.update_self, Option.some.injEq]
    by_cases here : thread = other
    · subst here
      simp [held]
    · rw [holding_other sessions (Ne.symm here)]
      simp [here, outside]
  · rw [mtx, Function.update_of_ne same, locked other mailbox']
    by_cases here : other = thread
    · subst here
      simp [before, held, same]
    · rw [holding_other sessions here]

theorem PopServer.Locked.give (locked : server.Locked)
    (sessions : next.sessions = Function.update server.sessions thread after)
    (mtx : next.mtx = Function.update server.mtx mailbox none)
    (before : server.holding thread = [mailbox]) (left : next.holding thread = []) :
    next.Locked := by
  intro other mailbox'
  have owned : server.mtx mailbox = some thread := by
    rw [locked thread mailbox, before]
    exact List.mem_singleton_self mailbox
  by_cases same : mailbox' = mailbox
  · subst same
    rw [mtx, Function.update_self]
    refine ⟨nofun, fun member => ?_⟩
    by_cases here : other = thread
    · subst here
      rw [left] at member
      cases member
    · rw [holding_other sessions here, ← locked other mailbox', owned] at member
      exact absurd (Option.some.inj member).symm here
  · rw [mtx, Function.update_of_ne same, locked other mailbox']
    by_cases here : other = thread
    · subst here
      simp [before, left, same]
    · rw [holding_other sessions here]

end

theorem PopServer.Locked.step (locked : server.Locked) (step : PopStep config server label next)
    (own : server.EndsOwn label.1) : next.Locked := by
  cases step_sessions step with
  | @connected thread time sent before sessions mtx =>
    refine locked.stay sessions mtx ?_
    rw [holding_none before, holding_same sessions]
    rfl
  | @served thread input conn after answer before done sessions mtx =>
    have held := holding_before before
    have now := holding_same sessions
    cases popCommand_moves done with
    | @stays after _ _ pstate mbox =>
      refine locked.stay sessions mtx ?_
      rw [held, now]
      show after.holding = conn.holding
      by_cases tran : conn.pstate = .tran
      · simp [PopConn.holding, tran, pstate.mpr tran, mbox tran]
      · simp [PopConn.holding, tran, pstate]
    | @enters after _ mailbox outside unlocked pstate mbox =>
      refine locked.take sessions mtx (by simpa using unlocked) ?_ ?_
      · rw [held, PopConn.holding_of_not outside]
      · rw [now]
        show after.holding = [mailbox]
        simp [PopConn.holding, pstate, mbox]
    | idles outside =>
      refine locked.stay sessions mtx ?_
      rw [held, now, PopConn.holding_of_not outside]
      rfl
    | ends leaving =>
      rw [PopConn.holding_of_own (own leaving conn before)] at held
      cases given : conn.mbox with
      | none =>
        rw [given] at mtx held
        refine locked.stay sessions mtx ?_
        rw [held, now]
        rfl
      | some mailbox =>
        rw [given] at mtx held
        have owned : server.mtx mailbox = some thread := by
          rw [locked thread mailbox, held]
          exact List.mem_singleton_self mailbox
        refine locked.give sessions ?_ held now
        rw [mtx]
        simp [PopServer.lockAndUnlock, PopConfig.unlock, owned]

theorem start_locked : PopServer.start.Locked := by
  intro thread mailbox
  exact ⟨nofun, nofun⟩

/-- A mailbox whose lock has one owner has one session. -/
theorem PopServer.Locked.exclusive (locked : server.Locked) {first second mailbox : Nat}
    (held : server.InTransaction first mailbox) (held' : server.InTransaction second mailbox) :
    first = second := by
  have owner := (locked first mailbox).mpr (mem_holding.mpr held)
  have owner' := (locked second mailbox).mpr (mem_holding.mpr held')
  exact Option.some.inj (owner.symm.trans owner')

theorem acquiredBy_append (thread : Nat) (past labels : List PopLabel) :
    acquiredBy thread (past ++ labels) = acquiredBy thread past ++ acquiredBy thread labels :=
  List.filterMap_append ..

theorem releasedBy_append (thread : Nat) (past labels : List PopLabel) :
    releasedBy thread (past ++ labels) = releasedBy thread past ++ releasedBy thread labels :=
  List.filterMap_append ..

theorem run_ownLocks {final : PopServer}
    (run : Run (Under (PopStep config) fun server label => server.EndsOwn label.1) PopServer.start
      labels final) : OwnLocks final labels := by
  have sound := @Run.history _ _ _
    (fun past server => server.Locked ∧ ∀ thread,
      acquiredBy thread past = releasedBy thread past ++ server.holding thread) _ _ [] _ run
    ⟨start_locked, fun _ => rfl⟩
    (by
      rintro past server label next ⟨locked, balanced⟩ ⟨step, own⟩
      refine ⟨locked.step step own, fun thread => ?_⟩
      calc acquiredBy thread (past ++ [label])
          = releasedBy thread past ++ (server.holding thread ++ acquiredBy thread [label]) := by
            rw [acquiredBy_append, balanced thread, List.append_assoc]
        _ = releasedBy thread (past ++ [label]) ++ next.holding thread := by
            rw [step_balance step own thread, releasedBy_append, List.append_assoc])
  exact ⟨sound.2, fun _ _ _ => sound.1.exclusive⟩

/-! ### A session that ends with the mailbox of a failed login -/

/-- A session that ends with the mailbox of a failed login gives back what it does not hold. -/
theorem foreign_step (step : PopStep config server label next)
    (foreign : ¬ server.EndsOwn label.1) : ∃ mailbox,
      server.holding label.1.thread = [] ∧ acquiredBy label.1.thread [label] = [] ∧
      releasedBy label.1.thread [label] = [mailbox] ∧
      ∀ other, other ≠ label.1.thread → next.holding other = server.holding other := by
  cases step_sessions step with
  | connected => exact absurd trivial foreign
  | @served thread input conn after answer before done sessions mtx =>
    have ends : input.Ends := by
      by_contra going
      exact foreign fun ends => absurd ends going
    obtain ⟨acquired, released, rfl⟩ := popCommand_ends ends done
    have outside : conn.pstate ≠ .tran ∧ conn.mbox ≠ none := by
      by_contra own
      refine foreign fun _ other known => ?_
      rw [before] at known
      cases known
      by_contra neither
      exact own (not_or.mp neither)
    obtain ⟨mailbox, given⟩ := Option.ne_none_iff_exists'.mp outside.2
    refine ⟨mailbox, ?_, ?_, ?_, fun other apart => holding_other sessions apart⟩
    · exact (holding_before before).trans (PopConn.holding_of_not outside.1)
    · simp [acquiredBy, acquired]
    · simp [releasedBy, released, given]

theorem labels_of_other {thread : Nat} (apart : label.1.thread ≠ thread) :
    acquiredBy thread [label] = [] ∧ releasedBy thread [label] = [] := by
  simp [acquiredBy, releasedBy, apart]

/-- No step gives a thread more locks than it takes. -/
theorem step_excess (step : PopStep config server label next) (thread : Nat) :
    (server.holding thread).length + (acquiredBy thread [label]).length ≤
      (releasedBy thread [label]).length + (next.holding thread).length := by
  by_cases own : server.EndsOwn label.1
  · have same := congrArg List.length (step_balance step own thread)
    simp only [List.length_append] at same
    omega
  · obtain ⟨mailbox, empty, acquired, -, others⟩ := foreign_step step own
    by_cases same : thread = label.1.thread
    · rw [same, empty, acquired]
      exact Nat.zero_le _
    · obtain ⟨acquired, released⟩ := labels_of_other (Ne.symm same)
      rw [acquired, released, others thread same, List.length_nil]
      omega

theorem run_excess {final : PopServer} (run : Run (PopStep config) server labels final)
    (thread : Nat) :
    (server.holding thread).length + (acquiredBy thread labels).length ≤
      (releasedBy thread labels).length + (final.holding thread).length := by
  induction run with
  | nil => simp [acquiredBy, releasedBy]
  | @cons state label middle labels final first rest ih =>
    have step := step_excess first thread
    have acquired := congrArg List.length (acquiredBy_append thread [label] labels)
    have released := congrArg List.length (releasedBy_append thread [label] labels)
    simp only [List.singleton_append, List.length_append] at acquired released
    omega

/-- A run that gives back no more than it took has only sessions that end as they should. -/
theorem run_of_balanced {final : PopServer} (run : Run (PopStep config) server labels final)
    (balanced : ∀ thread, (server.holding thread).length + (acquiredBy thread labels).length =
      (releasedBy thread labels).length + (final.holding thread).length) :
    Run (Under (PopStep config) fun server label => server.EndsOwn label.1) server labels final := by
  induction run with
  | nil => exact .nil
  | @cons state label middle labels final first rest ih =>
    have acquired (thread : Nat) := congrArg List.length (acquiredBy_append thread [label] labels)
    have released (thread : Nat) := congrArg List.length (releasedBy_append thread [label] labels)
    simp only [List.singleton_append, List.length_append] at acquired released
    have own : state.EndsOwn label.1 := by
      by_contra foreign
      obtain ⟨mailbox, empty, took, gave, -⟩ := foreign_step first foreign
      have later := run_excess rest label.1.thread
      have whole := balanced label.1.thread
      rw [acquired, released, empty, took, gave] at whole
      simp only [List.length_nil, List.length_singleton] at whole
      omega
    refine .cons ⟨first, own⟩ (ih fun thread => ?_)
    have same := congrArg List.length (step_balance first own thread)
    have whole := balanced thread
    rw [acquired, released] at whole
    simp only [List.length_append] at same
    omega

end

/-- Sessions release their own locks and no others, and no mailbox has two sessions, if and only if
no session ends with the mailbox of a failed login. -/
theorem locks_are_released_by_owners_iff (config : PopConfig) (labels : List PopLabel)
    (final : PopServer) (run : Run (PopStep config) PopServer.start labels final) :
    OwnLocks final labels ↔
      Run (Under (PopStep config) fun server label => server.EndsOwn label.1) PopServer.start
        labels final := by
  constructor
  · intro own
    refine run_of_balanced run fun thread => ?_
    have whole := congrArg List.length (own.balanced thread)
    rw [List.length_append] at whole
    have empty : PopServer.start.holding thread = [] := rfl
    rw [empty, whole]
    exact Nat.zero_add _
  · exact run_ownLocks

/-- One mailbox, and a library where a mutex is free that another thread unlocks. -/
def annConfig : PopConfig where
  mbx := [⟨ascii "ann", ascii "word"⟩]
  fqdn := ascii "host"
  bufSize := 8192
  libc := ⟨fun _ => 0, fun _ _ => none⟩

/-- A line, with an empty directory behind it. -/
def popLine (thread : Nat) (line : String) : ServerInput :=
  .session thread (.command ⟨ascii line, []⟩ (some []) fun _ => none)

/-- A session logs in and quits, and so does another one. -/
theorem ann_logs_in_twice : ∃ labels final, Run (PopStep annConfig) PopServer.start labels final ∧
    OwnLocks final labels ∧ acquiredBy 1 labels = [0] ∧ acquiredBy 2 labels = [0] := by
  obtain ⟨labels, final, run, seen⟩ := replay_reaches
    (guarded (PopServer.handle annConfig) PopServer.EndsOwn) PopServer.start
    [.connect 1 0, popLine 1 "USER ann", popLine 1 "PASS word", .connect 2 0, popLine 1 "QUIT",
      popLine 2 "USER Ann", popLine 2 "PASS WORD", .session 2 .lost]
    (fun _ labels => decide (acquiredBy 1 labels = [0] ∧ acquiredBy 2 labels = [0]))
    true (by decide +kernel)
  have guarded := run_guarded run
  have run := guarded.mono fun _ _ _ step => step.1
  exact ⟨labels, final, run,
    (locks_are_released_by_owners_iff annConfig labels final run).mpr guarded,
    of_decide_eq_true seen⟩

/-- A session that fails to log in gives the lock of another one back, so that a third gets in. -/
theorem failed_login_unlocks_mailbox : ∃ labels final,
    Run (PopStep annConfig) PopServer.start labels final ∧ acquiredBy 2 labels = [] ∧
      releasedBy 2 labels = [0] ∧ final.InTransaction 1 0 ∧ final.InTransaction 3 0 ∧
      ¬ OwnLocks final labels := by
  obtain ⟨labels, final, run, seen⟩ := replay_reaches (PopServer.handle annConfig)
    PopServer.start
    [.connect 1 0, popLine 1 "USER ann", popLine 1 "PASS word", .connect 2 0,
      popLine 2 "USER ann", popLine 2 "PASS other", .session 2 .lost, .connect 3 0,
      popLine 3 "USER ann", popLine 3 "PASS word"]
    (fun final labels => decide (acquiredBy 2 labels = [] ∧ releasedBy 2 labels = [0] ∧
      0 ∈ final.holding 1 ∧ 0 ∈ final.holding 3))
    true (by decide +kernel)
  obtain ⟨took, gave, first, third⟩ := of_decide_eq_true seen
  refine ⟨labels, final, run, took, gave, mem_holding.mp first, mem_holding.mp third, ?_⟩
  intro own
  exact absurd (own.exclusive 1 3 0 (mem_holding.mp first) (mem_holding.mp third)) (by decide)

/-- The same mailbox, and a library that answers EPERM there and leaves the mutex to its owner. -/
def annRefused : PopConfig := { annConfig with libc := ⟨fun _ => 0, fun _ owner => owner⟩ }

/-- With it the session releases a lock that it never took all the same, though no third one gets in. -/
example : (replay (PopServer.handle annRefused) PopServer.start
    [.connect 1 0, popLine 1 "USER ann", popLine 1 "PASS word", .connect 2 0, popLine 2 "USER ann",
      popLine 2 "PASS other", .session 2 .lost, .connect 3 0, popLine 3 "USER ann",
      popLine 3 "PASS word"]).toOption.map
        (fun ending => (ending.2.map PopAnswer.released, ending.1.holding 1, ending.1.holding 3)) =
      some ([none, none, none, none, none, none, some 0, none, none, none], [0], []) := by
  decide +kernel

end QNXStuff.QXMail
