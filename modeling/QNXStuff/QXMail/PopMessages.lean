import QNXStuff.QXMail.PopLocks

/-! The numbers of the messages in a session, and the messages that its end removes. -/

namespace QNXStuff.QXMail

open Execution

/-- What a session is about: the names and sizes of its messages, the first with number 1, and the
numbers that are marked as deleted. -/
structure Maildrop where
  msgs : List (List UInt8 × UInt32)
  marked : Nat → Bool

namespace Maildrop

/-- The messages with their marks. -/
def entries (drop : Maildrop) : List MsgEnt :=
  (drop.msgs.zipIdx 1).map fun (msg, number) => ⟨drop.marked number, msg.2, msg.1⟩

/-- The number and the message that a text asks for, unless there is none or it is marked. -/
def message (drop : Maildrop) (read : Received) : Option (Nat × List UInt8 × UInt32) :=
  match read.number with
  | none => none
  | some text =>
    let number := (numberIn text).toNat
    if 1 ≤ numberIn text ∧ drop.marked number = false then
      drop.msgs[number - 1]?.map fun msg => (number, msg)
    else none

/-- The names of the marked messages. -/
def doomed (drop : Maildrop) : List (List UInt8) :=
  ((drop.msgs.zipIdx 1).filter fun (_, number) => drop.marked number).map fun (msg, _) => msg.1

/-- What a command answers and removes. -/
def handle (drop : Maildrop) : PopInput → Option Maildrop × List UInt8 × List (List UInt8)
  | .lost => (none, [], [])
  | .command read _ files =>
    if read.command = ascii "STAT" then (some drop, statText drop.entries, [])
    else if read.command = ascii "LIST" then
      if read.buffer[4]? = some 0 then (some drop, listText drop.entries, [])
      else
        match drop.message read with
        | none => (some drop, pop3Neg, [])
        | some (number, _, size) => (some drop, ascii "+OK " ++ listingLine number size, [])
    else if read.command = ascii "RETR" then
      match drop.message read with
      | none => (some drop, pop3Neg, [])
      | some (_, name, _) => (some drop, pop3Pos ++ (files name).getD [] ++ pop3Eom, [])
    else if read.command = ascii "DELE" then
      match drop.message read with
      | none => (some drop, pop3Neg, [])
      | some (number, _, _) =>
        (some { drop with marked := Function.update drop.marked number true }, pop3Pos, [])
    else if read.command = ascii "RSET" then
      (some { drop with marked := fun _ => false }, pop3Pos, [])
    else if read.command = ascii "NOOP" then (some drop, pop3Pos, [])
    else if read.command = ascii "QUIT" then (none, pop3Pos, drop.doomed)
    else (some drop, pop3Neg, [])

end Maildrop

/-- The step of a connection, whatever mutexes are free. -/
def ConnStep (config : PopConfig) (session : Option PopConn) (label : PopInput × PopAnswer)
    (next : Option PopConn) : Prop :=
  ∃ conn free, session = some conn ∧ popCommand config free conn label.1 = .ok (next, label.2)

def MaildropStep (session : Option Maildrop) (label : PopInput × PopAnswer)
    (next : Option Maildrop) : Prop :=
  ∃ drop, session = some drop ∧ drop.handle label.1 = (next, label.2.sent, label.2.removed)

/-- A number that a text gives for one of the messages: it is an `int`, and if it is negative then
the first message is not there or marked. -/
def PopConn.Countable (conn : PopConn) (read : Received) : Prop :=
  ∀ text ∈ read.number, IsInt (numberIn text) ∧
    (numberIn text < 0 → ∀ msg ∈ conn.msgs.head?, msg.del = true)

instance {conn : PopConn} {read : Received} : Decidable (conn.Countable read) := by
  unfold PopConn.Countable
  infer_instance

/-- The file of a message that can be read is there. -/
def PopConn.Readable (config : PopConfig) (conn : PopConn) (read : Received)
    (files : List UInt8 → Option (List UInt8)) : Prop :=
  ∀ choice ∈ config.chooseMsg conn read, files choice.2.2.name ≠ none

instance {config : PopConfig} {conn : PopConn} {read : Received}
    {files : List UInt8 → Option (List UInt8)} : Decidable (conn.Readable config read files) := by
  unfold PopConn.Readable
  infer_instance

/-- The numbers are countable, the files are there, and the list fits into the buffer. -/
def PopConn.Usual (config : PopConfig) (conn : PopConn) : PopInput → Prop
  | .lost => True
  | .command read _ files =>
    (read.command = ascii "LIST" → if read.buffer[4]? = some 0
      then (listText conn.msgs).length + 1 ≤ config.bufSize else conn.Countable read) ∧
    (read.command = ascii "RETR" → conn.Countable read ∧ conn.Readable config read files) ∧
    (read.command = ascii "DELE" → conn.Countable read)

instance {config : PopConfig} {conn : PopConn} {input : PopInput} :
    Decidable (conn.Usual config input) :=
  match input with
  | .lost => isTrue trivial
  | .command _ _ _ => inferInstanceAs (Decidable ((_ → ite _ _ _) ∧ (_ → _ ∧ _) ∧ (_ → _)))

section

variable {config : PopConfig} {free : Nat → Bool} {conn : PopConn} {next : Option PopConn}
  {answer : PopAnswer} {read : Received} {drop : Maildrop}

theorem entries_getElem? (drop : Maildrop) (place : Nat) :
    drop.entries[place]? =
      drop.msgs[place]?.map fun msg => ⟨drop.marked (place + 1), msg.2, msg.1⟩ := by
  simp only [Maildrop.entries, List.getElem?_map, List.getElem?_zipIdx, Option.map_map,
    Nat.add_comm 1 place]
  rfl

theorem entries_length (drop : Maildrop) : drop.entries.length = drop.msgs.length := by
  simp [Maildrop.entries]

/-- The loop over the messages ends at the number or at the end of the list. -/
theorem skipMsgs_eq (msgnum i : Int) (msgs : List MsgEnt) :
    skipMsgs msgnum i msgs = min (msgnum - i).toNat msgs.length := by
  induction msgs generalizing i with
  | nil => simp [skipMsgs]
  | cons msg rest ih =>
    by_cases more : i < msgnum
    · simp only [skipMsgs, more, if_true, ih, List.length_cons]
      omega
    · simp only [skipMsgs, more, if_false, List.length_cons]
      omega

theorem getElem?_skipMsgs (msgnum : Int) (msgs : List MsgEnt) :
    msgs[skipMsgs msgnum 1 msgs]? = msgs[(msgnum - 1).toNat]? := by
  rw [skipMsgs_eq]
  by_cases inside : (msgnum - 1).toNat ≤ msgs.length
  · rw [Nat.min_eq_left inside]
  · rw [Nat.min_eq_right (Nat.le_of_not_le inside), List.getElem?_eq_none (Nat.le_refl _),
      List.getElem?_eq_none (Nat.le_of_not_le inside)]

/-- A text that is countable chooses the message that it asks for. -/
theorem chooseMsg_eq (shown : conn.msgs = drop.entries) (countable : conn.Countable read) :
    config.chooseMsg conn read = (drop.message read).map fun (number, name, size) =>
      (number, number - 1, ⟨false, size, name⟩) := by
  unfold PopConfig.chooseMsg Maildrop.message
  cases supplied : read.number with
  | none => rfl
  | some text =>
    obtain ⟨isInt, negative⟩ := countable text supplied
    simp only [PopConfig.atoi, if_pos isInt, getElem?_skipMsgs]
    by_cases positive : 1 ≤ numberIn text
    · obtain ⟨number, same⟩ := Int.eq_ofNat_of_zero_le (Int.le_trans (by decide) positive)
      have back : (numberIn text - 1).toNat = number - 1 := by omega
      have next : number - 1 + 1 = number := by omega
      rw [if_neg (by omega), back, shown, entries_getElem?, next]
      cases here : drop.msgs[number - 1]? with
      | none => simp [same, here]
      | some msg =>
        have inside : number - 1 < drop.entries.length := by
          rw [entries_length]
          exact (List.getElem?_eq_some_iff.mp here).1
        have place : skipMsgs (numberIn text) 1 drop.entries = number - 1 := by
          rw [skipMsgs_eq, back]
          exact Nat.min_eq_left (Nat.le_of_lt inside)
        cases mark : drop.marked number with
        | false =>
          have asked : 1 ≤ numberIn text ∧ drop.marked (numberIn text).toNat = false := by
            rw [same]
            exact ⟨same ▸ positive, mark⟩
          simp only [place, Option.map_some, if_neg Bool.false_ne_true, if_pos asked]
          simp [same, here]
        | true => simp [same, mark]
    · have none : ¬ (1 ≤ numberIn text ∧ drop.marked (numberIn text).toNat = false) :=
        fun both => positive both.1
      rw [if_neg none, Option.map_none]
      split
      · rfl
      · next nonzero =>
        have place : (numberIn text - 1).toNat = 0 := by omega
        have first := negative (by omega)
        rw [place]
        cases here : conn.msgs[0]? with
        | none => rfl
        | some msg => simp [first msg (by rw [List.head?_eq_getElem?, here]; rfl)]

theorem entries_mark {number : Nat} (positive : 1 ≤ number) :
    ({ drop with marked := Function.update drop.marked number true } : Maildrop).entries =
      drop.entries.modify (number - 1) fun msg => { msg with del := true } := by
  refine List.ext_getElem? fun place => ?_
  rw [List.getElem?_modify, entries_getElem?, entries_getElem?]
  by_cases same : place + 1 = number
  · have here : number - 1 = place := by omega
    simp [same, here, Function.comp_def]
  · have apart : number - 1 ≠ place := by omega
    simp [same, apart]

theorem entries_unmark :
    ({ drop with marked := fun _ => false } : Maildrop).entries =
      drop.entries.map fun msg => { msg with del := false } := by
  simp [Maildrop.entries]

theorem doomed_eq (drop : Maildrop) :
    (drop.entries.filter MsgEnt.del).map MsgEnt.name = drop.doomed := by
  simp [Maildrop.entries, Maildrop.doomed, List.filter_map, Function.comp_def]

/-- A session in TRANSACTION state, or both are over. -/
def Shows : Option PopConn → Option Maildrop → Prop
  | none, none => True
  | some conn, some drop => conn.pstate = .tran ∧ conn.msgs = drop.entries
  | _, _ => False

/-- A command answers and removes as it should, and leaves a session as it should be. -/
def Serves (result : PopResult) (served : Option Maildrop × List UInt8 × List (List UInt8)) :
    Prop :=
  ∃ next answer, result = .ok (next, answer) ∧ served.2 = (answer.sent, answer.removed) ∧
    Shows next served.1

theorem reply_serves {after : PopConn} {drop : Maildrop} (tran : after.pstate = .tran)
    (shown : after.msgs = drop.entries) (sent : List UInt8) :
    Serves (reply after sent) (some drop, sent, []) :=
  ⟨_, _, rfl, rfl, tran, shown⟩

theorem list_serves (tran : conn.pstate = .tran) (shown : conn.msgs = drop.entries)
    (usual : if read.buffer[4]? = some 0
      then (listText conn.msgs).length + 1 ≤ config.bufSize else conn.Countable read) :
    Serves (list config conn read)
      (if read.buffer[4]? = some 0 then (some drop, listText drop.entries, [])
      else match drop.message read with
        | none => (some drop, pop3Neg, [])
        | some (number, _, size) => (some drop, ascii "+OK " ++ listingLine number size, [])) := by
  unfold list
  split at usual
  · next all =>
    rw [if_pos all, if_pos all, listAll, if_pos usual, ← shown]
    exact reply_serves tran shown _
  · next one =>
    rw [if_neg one, if_neg one, chooseMsg_eq shown usual]
    cases drop.message read with
    | none => exact reply_serves tran shown _
    | some choice => exact reply_serves tran shown _

theorem retr_serves {files : List UInt8 → Option (List UInt8)} (tran : conn.pstate = .tran)
    (shown : conn.msgs = drop.entries) (countable : conn.Countable read)
    (readable : conn.Readable config read files) :
    Serves (retr config conn read files)
      (match drop.message read with
        | none => (some drop, pop3Neg, [])
        | some (_, name, _) => (some drop, pop3Pos ++ (files name).getD [] ++ pop3Eom, [])) := by
  unfold PopConn.Readable at readable
  unfold retr
  rw [chooseMsg_eq shown countable] at readable ⊢
  cases chosen : drop.message read with
  | none => exact reply_serves tran shown _
  | some choice =>
    have there : files choice.2.1 ≠ none := readable _ (by rw [chosen]; rfl)
    obtain ⟨text, opened⟩ := Option.ne_none_iff_exists'.mp there
    simp only [Option.map_some, opened, Option.getD_some]
    exact reply_serves tran shown _

theorem message_positive {choice : Nat × List UInt8 × UInt32}
    (chosen : drop.message read = some choice) : 1 ≤ choice.1 := by
  unfold Maildrop.message at chosen
  split at chosen
  · cases chosen
  · extract_lets number at chosen
    split at chosen
    · next asked =>
      obtain ⟨msg, -, rfl⟩ := Option.map_eq_some_iff.mp chosen
      show 1 ≤ (numberIn _).toNat
      omega
    · cases chosen

theorem dele_serves (tran : conn.pstate = .tran) (shown : conn.msgs = drop.entries)
    (countable : conn.Countable read) :
    Serves (dele config conn read)
      (match drop.message read with
        | none => (some drop, pop3Neg, [])
        | some (number, _, _) =>
          (some { drop with marked := Function.update drop.marked number true }, pop3Pos, [])) := by
  unfold dele
  rw [chooseMsg_eq shown countable]
  cases chosen : drop.message read with
  | none => exact reply_serves tran shown _
  | some choice =>
    refine reply_serves ?_ ?_ _
    · exact tran
    · rw [entries_mark (message_positive chosen), ← shown]

theorem quit_serves (shown : conn.msgs = drop.entries) :
    Serves (quit conn) (none, pop3Pos, drop.doomed) := by
  refine ⟨_, _, rfl, ?_, trivial⟩
  rw [← doomed_eq, ← shown]

/-- Two commands that are told apart by one condition. -/
theorem serves_ite {condition : Prop} [Decidable condition] {first second : PopResult}
    {served other : Option Maildrop × List UInt8 × List (List UInt8)}
    (yes : condition → Serves first served) (no : ¬ condition → Serves second other) :
    Serves (if condition then first else second) (if condition then served else other) := by
  by_cases holds : condition
  · rw [if_pos holds, if_pos holds]
    exact yes holds
  · rw [if_neg holds, if_neg holds]
    exact no holds

/-- A command in TRANSACTION state does what its number says. -/
theorem popCommand_serves {input : PopInput} (tran : conn.pstate = .tran)
    (shown : conn.msgs = drop.entries) (usual : conn.Usual config input) :
    Serves (popCommand config free conn input) (drop.handle input) := by
  cases input with
  | lost => exact ⟨_, _, rfl, rfl, trivial⟩
  | command read dir files =>
    obtain ⟨listed, retrieved, deleted⟩ := usual
    have refused : Serves (reply conn pop3Neg) (some drop, pop3Neg, []) :=
      reply_serves tran shown _
    by_cases isApop : read.command = ascii "APOP"
    · simp +decide only [popCommand, Maildrop.handle, isApop, if_true, if_false, apop, tran]
      exact refused
    by_cases isUser : read.command = ascii "USER"
    · simp +decide only [popCommand, Maildrop.handle, isUser, if_true, if_false, user, tran]
      exact refused
    by_cases isPass : read.command = ascii "PASS"
    · simp +decide only [popCommand, Maildrop.handle, isPass, if_true, if_false, pass, tran]
      exact refused
    simp only [popCommand, Maildrop.handle, isApop, isUser, isPass, if_false, tran, ne_eq,
      not_true_eq_false]
    refine serves_ite (fun _ => ?_) fun _ => ?_
    · rw [stat, ← shown]
      exact reply_serves tran shown _
    refine serves_ite (fun isList => ?_) fun _ => ?_
    · exact list_serves tran shown (listed isList)
    refine serves_ite (fun isRetr => ?_) fun _ => ?_
    · obtain ⟨countable, readable⟩ := retrieved isRetr
      exact retr_serves tran shown countable readable
    refine serves_ite (fun isDele => ?_) fun _ => ?_
    · exact dele_serves tran shown (deleted isDele)
    refine serves_ite (fun _ => ?_) fun _ => ?_
    · refine reply_serves ?_ ?_ _
      · exact tran
      · rw [entries_unmark, ← shown]
    refine serves_ite (fun _ => ?_) fun _ => ?_
    · exact reply_serves tran shown _
    refine serves_ite (fun _ => ?_) fun _ => ?_
    · exact quit_serves shown
    · exact refused

theorem step_shows {session after : Option PopConn} {purpose : Option Maildrop}
    {label : PopInput × PopAnswer} (step : ConnStep config session label after)
    (usual : ∀ conn ∈ session, conn.Usual config label.1) (shows_ : Shows session purpose) :
    ∃ later, MaildropStep purpose label later ∧ Shows after later := by
  obtain ⟨conn, free, rfl, done⟩ := step
  cases purpose with
  | none => exact shows_.elim
  | some drop =>
    obtain ⟨_, _, served, answered, shown⟩ := popCommand_serves shows_.1 shows_.2 (usual conn rfl)
    cases done.symm.trans served
    exact ⟨(drop.handle label.1).1, ⟨drop, rfl, Prod.ext rfl answered⟩, shown⟩

end

/-- The messages of a session as it begins. -/
def PopConn.maildrop (conn : PopConn) : Maildrop where
  msgs := conn.msgs.map fun msg => (msg.name, msg.size)
  marked := fun _ => false

theorem popBuildSession_unmarked {user : List UInt8} {dir : Option (List DirEntry)}
    {msgs : List MsgEnt} (before : ∀ msg ∈ msgs, msg.del = false) :
    ∀ msg ∈ popBuildSession user dir msgs, msg.del = false := by
  cases dir with
  | none => exact before
  | some dir =>
    simp only [popBuildSession]
    induction dir generalizing msgs with
    | nil => exact before
    | cons entry rest ih =>
      rw [List.foldl_cons]
      apply ih
      split
      · intro msg member
        rcases List.mem_cons.mp member with rfl | old
        · rfl
        · exact before msg old
      · exact before

theorem maildrop_entries {conn : PopConn} (unmarked : ∀ msg ∈ conn.msgs, msg.del = false) :
    conn.msgs = conn.maildrop.entries := by
  refine List.ext_getElem? fun place => ?_
  rw [entries_getElem?, PopConn.maildrop, List.getElem?_map, Option.map_map]
  cases here : conn.msgs[place]? with
  | none => rfl
  | some msg =>
    have mark := unmarked msg (List.mem_of_getElem? here)
    cases msg
    cases mark
    rfl

/-- From a login on, the commands of a session do what their numbers say, and its end removes the
messages that are marked. -/
theorem session_follows_numbers (config : PopConfig) (user : List UInt8)
    (dir : Option (List DirEntry)) (start : PopConn) (labels : List (PopInput × PopAnswer))
    (final : Option PopConn) (tran : start.pstate = .tran)
    (listed : start.msgs = popBuildSession user dir [])
    (run : Run (Under (ConnStep config) fun session label =>
      ∀ conn ∈ session, conn.Usual config label.1) (some start) labels final) :
    (∃ drop, Run MaildropStep (some start.maildrop) labels drop ∧ Shows final drop) ∧
      ∀ conn ∈ final, ∀ free input, conn.Usual config input →
        ∃ next answer, popCommand config free conn input = .ok (next, answer) := by
  have unmarked : ∀ msg ∈ start.msgs, msg.del = false := by
    rw [listed]
    exact popBuildSession_unmarked nofun
  obtain ⟨drop, served, shown⟩ := @Run.simulate _ _ _ _ MaildropStep Shows _ _ _
    (some start.maildrop) run ⟨tran, maildrop_entries unmarked⟩
    fun session label next purpose shown ⟨step, usual⟩ => step_shows step usual shown
  refine ⟨⟨drop, served, shown⟩, ?_⟩
  rintro conn rfl free input usual
  cases drop with
  | none => exact shown.elim
  | some drop =>
    obtain ⟨next, answer, done, -⟩ := popCommand_serves shown.1 shown.2 usual
    exact ⟨next, answer, done⟩

/-- The commands of one session. -/
def connHandle (config : PopConfig) : Option PopConn → PopInput →
    Except PopFault (Option PopConn × PopAnswer)
  | none, _ => .error .closed
  | some conn, input => popCommand config (fun _ => false) conn input

theorem connHandle_step {config : PopConfig} {session next : Option PopConn}
    {label : PopInput × PopAnswer} (step : Answers (connHandle config) session label next) :
    ConnStep config session label next := by
  cases session with
  | none => cases step
  | some conn => exact ⟨conn, _, rfl, step⟩

/-- A session with two messages. -/
def annConn : PopConn where
  user := some (ascii "ann")
  greeting := []
  pstate := .tran
  msgs := popBuildSession (ascii "ann")
    (some [⟨ascii "a", true, 7⟩, ⟨ascii "b", true, 5⟩]) []
  mbox := some 0

def connLine (line : String) : PopInput := .command ⟨ascii line, []⟩ none fun _ => some []

/-- A message is deleted and another one listed. -/
theorem second_message_is_removed : ∃ labels final,
    Run (ConnStep annConfig) (some annConn) labels final ∧
      (∃ drop, Run MaildropStep (some annConn.maildrop) labels drop ∧ Shows final drop) ∧
      labels.map (fun label => label.2.removed) = [[], [], [], [ascii "ann/a"]] := by
  obtain ⟨labels, final, run, seen⟩ := replay_reaches
    (guarded (connHandle annConfig) fun session input =>
      ∀ conn ∈ session, conn.Usual annConfig input)
    (some annConn) [connLine "DELE 2", connLine "LIST 1", connLine "RETR 2", connLine "QUIT"]
    (fun _ labels => labels.map fun label => label.2.removed) [[], [], [], [ascii "ann/a"]]
    (by decide +kernel)
  have run : Run (Under (ConnStep annConfig) fun session label =>
      ∀ conn ∈ session, conn.Usual annConfig label.1) (some annConn) labels final :=
    (run_guarded run).mono fun _ _ _ step => ⟨connHandle_step step.1, step.2⟩
  exact ⟨labels, final, run.mono fun _ _ _ step => step.1,
    (session_follows_numbers annConfig (ascii "ann")
      (some [⟨ascii "a", true, 7⟩, ⟨ascii "b", true, 5⟩]) annConn labels final rfl rfl run).1, seen⟩

/-- A negative number deletes the first message. -/
theorem negative_number_deletes_first : ∃ labels final,
    Run (ConnStep annConfig) (some annConn) labels final ∧
      labels.map (fun label => label.2.removed) = [[], [ascii "ann/b"]] ∧
      ¬ ∃ drop, Run MaildropStep (some annConn.maildrop) labels drop := by
  obtain ⟨final, run, -⟩ := replay_run (connHandle annConfig) (some annConn)
    [connLine "DELE -1", connLine "QUIT"]
    [⟨pop3Pos, none, none, []⟩, ⟨pop3Pos, none, some 0, [ascii "ann/b"]⟩]
    (fun _ => ()) () (by decide +kernel)
  refine ⟨_, final, run.mono fun _ _ _ step => connHandle_step step, rfl, ?_⟩
  rintro ⟨drop, purpose⟩
  cases purpose with
  | cons first rest =>
    obtain ⟨drop, same, served⟩ := first
    cases same
    have sent : (annConn.maildrop.handle (connLine "DELE -1")).2.1 = pop3Pos :=
      congrArg (fun served => served.2.1) served
    exact absurd sent (by decide +kernel)

end QNXStuff.QXMail
