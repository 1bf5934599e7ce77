import QNXStuff.Library.DotStuffing
import QNXStuff.QXMail.Handover

/-! The turns of a handover: what the other server makes of a line and of a body, what the spooler
hears of it, and the rules for the parts of its dialogue. -/

namespace QNXStuff.QXMail

open Execution Conversation

/-! ### What arrives -/

section

variable {socket segments : Socket} {place bufsize : Nat} {line rest text code : List UInt8}
  {heard : PeerReply}

/-- Where a segment ends, the socket can be cut. -/
theorem ends_split (ended : place ∈ socket.ends) :
    ∃ before after, socket = before ++ after ∧ (Socket.bytes before).length = place := by
  induction socket generalizing place with
  | nil => cases ended
  | cons segment rest ih =>
    rcases List.mem_cons.mp ended with rfl | later
    · exact ⟨[segment], rest, rfl, by simp⟩
    · obtain ⟨further, inside, rfl⟩ := List.mem_map.mp later
      obtain ⟨before, after, rfl, length⟩ := ih inside
      exact ⟨segment :: before, after, rfl, by simp [length]⟩

theorem bytes_append (socket later : Socket) :
    Socket.bytes (socket ++ later) = socket.bytes ++ later.bytes := by
  simp [Socket.bytes]

theorem mem_bytes {byte : UInt8} :
    byte ∈ socket.bytes ↔ ∃ segment ∈ socket, byte ∈ segment.1 := by
  simp [Socket.bytes]

theorem eq_nil_of_bytes (none : socket.bytes = []) : socket = [] := by
  by_contra more
  exact bytes_ne_nil more none

/-- A line that arrives whole is read, and nothing behind it is left. -/
theorem readString_whole (whole : Whole (line ++ cr :: rest) segments) (clean : cr ∉ line)
    (fits : line.length + rest.length < bufsize) : readString bufsize segments = some (line, []) := by
  obtain ⟨stream, last⟩ := whole
  obtain ⟨stop, ended, taken⟩ := readString_reaches stream clean
    (show line.length < bufsize by omega)
  have total := congrArg List.length stream
  simp only [List.length_append, List.length_cons] at total
  have all : stop = segments.bytes.length := by
    rcases ended.ended with inside | full
    · obtain ⟨before, after, rfl, length⟩ := ends_split inside
      have reached : cr ∈ Socket.bytes before := by
        have part : Socket.bytes before = (line ++ cr :: rest).take stop := by
          rw [← stream, bytes_append, ← length, List.take_left]
        obtain ⟨more, count⟩ := Nat.exists_eq_add_of_lt ended.behind
        rw [part, List.take_append, count]
        refine List.mem_append_right _ ?_
        rw [show line.length + more + 1 - line.length = more + 1 by omega, List.take_succ_cons]
        exact List.mem_cons_self
      obtain ⟨segment, member, holds⟩ := mem_bytes.mp reached
      obtain ⟨front, behind, rfl⟩ := List.append_of_mem member
      have none := last front segment (behind ++ after) (by simp) holds
      rw [(List.append_eq_nil_iff.mp none).2, List.append_nil, length]
    · have inside := ended.inside
      omega
  have left : segments.skip stop = [] := by
    refine eq_nil_of_bytes ?_
    rw [Socket.bytes_skip, all, List.drop_length]
  rw [taken, left]

/-- A text that begins with a code and can be read into `netbuf`. -/
structure Coded (text code : List UInt8) : Prop where
  starts : code <+: text
  three : code.length = 3
  clean : cr ∉ code
  ended : cr ∈ text
  short : text.length ≤ netbufSize

theorem Hears.eq_code (hears : Hears text heard) (coded : Coded text code) : heard = some code := by
  obtain ⟨segments, stale, whole, takes⟩ := hears
  obtain ⟨line, after, split, clean⟩ := List.eq_append_cons_of_mem coded.ended
  have short := coded.short
  rw [split, List.length_append, List.length_cons] at short
  rw [split] at whole
  rw [takes line (readString_whole whole clean (by omega))]
  have starts := coded.starts
  rw [split] at starts
  obtain ⟨more, rfl⟩ := DotStuffing.prefix_before coded.clean starts
  rw [List.append_assoc, ← coded.three, List.take_left]

end

theorem named_coded {server : MailServer} (short : server.fqdn.length + 50 ≤ netbufSize)
    {front back : String} {code : List UInt8} (starts : code <+: ascii front)
    (three : code.length = 3) (clean : cr ∉ code) (ended : cr ∈ ascii back)
    (few : (ascii front).length + (ascii back).length ≤ 50) :
    Coded (ascii front ++ server.fqdn ++ ascii back) code := by
  refine ⟨?_, three, clean, List.mem_append_right _ ended, ?_⟩
  · exact starts.trans ((List.prefix_append _ _).trans (List.prefix_append _ _))
  · simp only [List.length_append]
    omega

theorem greeting_coded {server : MailServer} (short : server.fqdn.length + 50 ≤ netbufSize) :
    Coded (greetingText server) (ascii "220") :=
  named_coded short (by decide) rfl (by decide) (by decide) (by decide)

/-- Every reply begins with its code, and but for a challenge it can be read into `netbuf`. -/
theorem Reply.coded {server : MailServer} (short : server.fqdn.length + 50 ≤ netbufSize)
    {reply : Reply} (other : ∀ greeting, reply ≠ .challenge greeting) :
    Coded (reply.text server) reply.code := by
  cases reply with
  | challenge greeting => exact absurd rfl (other greeting)
  | hello => exact named_coded short (by decide) rfl (by decide) (by decide) (by decide)
  | ehlo => exact named_coded short (by decide) rfl (by decide) (by decide) (by decide)
  | bye => exact named_coded short (by decide) rfl (by decide) (by decide) (by decide)
  | _ =>
    simp only [Reply.text, Reply.code]
    exact ⟨by decide, rfl, by decide, by decide, by decide⟩

/-! ### What the other server does -/

/-- What is heard of a turn: that it has gone on, with the code of its reply, or nothing, and then the
connection is gone. -/
inductive Told (spooled mails : List Spooled) (goes : Attending → Prop) (code : List UInt8) :
    Host → PeerReply → Prop where
  | told (gone : goes next) : Told spooled mails goes code ⟨next, spooled ++ mails⟩ (some code)
  | lost : Told spooled mails goes code ⟨.gone, spooled⟩ none
  | lostBehind : Told spooled mails goes code ⟨.gone, spooled ++ mails⟩ none

section

variable {server : MailServer} {bufSize : Nat} {phase next : Attending} {bytes line text code : List UInt8}
  {spooled mails mails' : List Spooled} {goes : Attending → Prop} {host : Host} {heard : PeerReply}
  {conn : Conn} {after : Option Conn} {reply : Reply} {event : SmtpEvent}

theorem Attends.told
    (handles : ∀ {next mails' text'}, Handles server bufSize phase bytes next mails' text' →
      goes next ∧ mails' = mails ∧ text' = some text)
    (coded : Coded text code) (served : Attends server bufSize ⟨phase, spooled⟩ bytes host heard) :
    Told spooled mails goes code host heard := by
  cases served with
  | replies handled hears =>
    obtain ⟨gone, rfl, same⟩ := handles handled
    cases same
    rw [hears.eq_code coded]
    exact .told gone
  | closes handled =>
    obtain ⟨-, -, same⟩ := handles handled
    cases same
  | lostBefore => exact .lost
  | lostBehind handled =>
    obtain ⟨-, rfl, -⟩ := handles handled
    exact .lostBehind

theorem Attends.silent (served : Attends server bufSize ⟨.gone, spooled⟩ bytes host heard) :
    heard = none ∧ host = ⟨.gone, spooled⟩ := by
  cases served with
  | replies handled => cases handled
  | closes handled =>
    cases handled
    exact ⟨rfl, by rw [List.append_nil]⟩
  | lostBefore => exact ⟨rfl, rfl⟩
  | lostBehind handled =>
    cases handled
    exact ⟨rfl, by rw [List.append_nil]⟩

/-- A command that fits on a line, and is not AUTH. -/
structure Line (bufSize : Nat) (line : List UInt8) : Prop where
  clean : cr ∉ line
  fits : line.length + 2 < bufSize
  four : 4 ≤ line.length
  other : (line.take 4).map toupper ≠ ascii "AUTH"

theorem Line.read (fits : Line bufSize line) {segments : Socket}
    (arrived : Whole (line ++ ascii "\r\n") segments) :
    readString (bufSize - 1) segments = some (line, []) := by
  have arrived : Whole (line ++ cr :: [lf]) segments := arrived
  have short : line.length + [lf].length < bufSize - 1 := Nat.lt_sub_of_add_lt fits.fits
  exact readString_whole arrived fits.clean short

theorem Line.taken (fits : Line bufSize line) {segments left : Socket} {line' : List UInt8}
    (arrived : Whole (line ++ ascii "\r\n") segments)
    (taken : readString (bufSize - 1) segments = some (line', left)) :
    line' = line ∧ left = [] := by
  rw [fits.read arrived] at taken
  cases taken
  exact ⟨rfl, rfl⟩

theorem Line.command (fits : Line bufSize line) (stale : List UInt8) :
    (Received.mk line stale).command = (line.take 4).map toupper := by
  rw [Received.command, Received.buffer, List.take_append_of_le_length fits.four]

/-- A line is handled as the command on it; DATA up to the answer that asks for the text. -/
theorem handles_line (fits : Line bufSize line)
    (done : ∀ stale time, smtpCommand server conn (.command ⟨line, stale⟩ none none time none) =
      .ok (after, ⟨[reply], event⟩))
    (handled : Handles server bufSize (.listens conn) (line ++ ascii "\r\n") next mails' text') :
    (if reply = .goAhead then ∃ stale, next = .collects conn ⟨line, stale⟩
      else next = attend after) ∧ mails' = [] ∧ text' = some (reply.text server) := by
  cases handled with
  | answers arrived taken other done' whole =>
    obtain ⟨rfl, -⟩ := fits.taken arrived taken
    rw [done] at done'
    cases done'
    have ahead : reply ≠ .goAhead := fun same => whole (congrArg (fun reply => [reply]) same)
    exact ⟨by rw [if_neg ahead], rfl, by simp⟩
  | goesAhead arrived taken done' =>
    obtain ⟨rfl, -⟩ := fits.taken arrived taken
    rw [done] at done'
    cases done'
    exact ⟨⟨_, rfl⟩, rfl, rfl⟩
  | missesLine arrived failed =>
    rw [fits.read arrived] at failed
    cases failed
  | leavesBytes arrived taken more => exact absurd (fits.taken arrived taken).2 more
  | readsOn arrived taken same =>
    obtain ⟨rfl, -⟩ := fits.taken arrived taken
    rw [fits.command] at same
    exact absurd same fits.other
  | faults arrived taken fault =>
    obtain ⟨rfl, -⟩ := fits.taken arrived taken
    rw [done] at fault
    cases fault

/-- A text that ends where it ends is handled as the body of the message. -/
theorem handles_text {read : Received} {message : Spooled} (fits : Roomy bufSize text)
    (unmarked : ¬ Marked text)
    (done : ∀ time, smtpCommand server conn (.command read none none time (some text)) =
      .ok (after, ⟨[.goAhead, reply], .spooled message⟩))
    (handled : Handles server bufSize (.collects conn read) (text ++ eom) next mails' text') :
    next = attend after ∧ mails' = [message] ∧ text' = some (reply.text server) := by
  cases handled with
  | collects unsplit stream received done' =>
    rw [dataLoop_unsplit fits unmarked unsplit stream] at received
    cases received
    rw [done] at done'
    cases done'
    exact ⟨rfl, rfl, by simp⟩
  | missesText unsplit stream failed =>
    rw [dataLoop_unsplit fits unmarked unsplit stream] at failed
    cases failed
  | endsEarly unsplit stream received more =>
    rw [dataLoop_unsplit fits unmarked unsplit stream] at received
    cases received
    exact absurd rfl more

end

/-! ### What the commands make of the lines -/

section

variable {line name front stale : List UInt8} {byte : UInt8}

theorem cstr_name (nul : 0 ∉ name) (stale : List UInt8) : cstr (name ++ 0 :: stale) = name := by
  induction name with
  | nil => rfl
  | cons byte name ih =>
    obtain ⟨apart, later⟩ := List.ne_and_not_mem_of_not_mem_cons nul
    have rest := ih later
    unfold cstr at rest ⊢
    rw [List.cons_append, List.takeWhile_cons, if_pos (bne_iff_ne.mpr apart.symm), rest]

theorem strchr_eq (none : byte ∉ front) (rest : List UInt8) :
    strchr (front ++ byte :: rest) byte = some front.length := by
  induction front with
  | nil => simp [strchr, List.findIdx?_cons]
  | cons first front ih =>
    obtain ⟨apart, later⟩ := List.ne_and_not_mem_of_not_mem_cons none
    have rest := ih later
    unfold strchr at rest ⊢
    simp [List.findIdx?_cons, apart.symm, rest]

theorem addressIn_line (front : List UInt8) (here : 60 ∉ front) (there : 62 ∉ front)
    (angle : 62 ∉ name) :
    addressIn (front ++ 60 :: name ++ [62]) = .text name (name == []) := by
  have send : strchr (front ++ 60 :: name ++ [62]) 62 = some (front.length + 1 + name.length) := by
    have none : (62 : UInt8) ∉ front ++ 60 :: name := by simp [there, angle]
    rw [strchr_eq none []]
    simp
    omega
  have sbeg : strchr (front ++ 60 :: name ++ [62]) 60 = some front.length := by
    rw [List.append_assoc, List.cons_append]
    exact strchr_eq here _
  have before : front.length < front.length + 1 + name.length := by omega
  have inside : ((front ++ 60 :: name ++ [62]).take (front.length + 1 + name.length)).drop
      (front.length + 1) = name := by
    have length : (front ++ 60 :: name).length = front.length + 1 + name.length := by
      simp
      omega
    rw [← length, List.take_left, ← List.singleton_append, ← List.append_assoc]
    have length' : (front ++ [60]).length = front.length + 1 := by simp
    rw [← length', List.drop_left]
  have adjoining : (front.length + 1 == front.length + 1 + name.length) = (name == []) := by
    cases name <;> simp
  simp only [addressIn, send, sbeg, if_pos before, inside, adjoining]

theorem string_line (four : 4 ≤ line.length) (nul : 0 ∉ line)
    (upper : (line.take 4).map toupper = line.take 4) (stale : List UInt8) :
    (Received.mk line stale).string = line := by
  rw [Received.string, Received.command, Received.buffer, List.take_append_of_le_length four, upper,
    List.drop_append_of_le_length four, ← List.append_assoc, List.take_append_drop, cstr_name nul]

end

/-! ### The dialogue against a peer -/

/-- From a state of the peer and what has been said to it, to where a part of the dialogue leads. -/
def Dialogue.Leads {State α : Type} (peer : Peer State UInt8 (List UInt8))
    (start : State → List UInt8 → Prop) (program : Dialogue α)
    (ends : Except Int α → State → List UInt8 → Prop) : Prop :=
  ∀ talk, ∃ events, (program.run.run talk).2.events = talk.events ++ events ∧
    (program.run.run talk).2.replies = talk.replies.drop (hears (turns events)) ∧
    ∀ state said final left, start state said →
      Meets peer state said (turns events) talk.replies final left →
      ends (program.run.run talk).1 final left

/-- What `hear` makes of a reply. -/
def heardOf : PeerReply → Except Int (List UInt8)
  | none => .error (-1)
  | some reply => .ok reply

/-- What `expect` makes of it. -/
def expected (code : String) : PeerReply → Except Int Unit
  | none => .error (-1)
  | some reply => if reply = ascii code then .ok () else .error (-3)

namespace Dialogue.Leads

variable {State α β : Type} {peer : Peer State UInt8 (List UInt8)}
  {start : State → List UInt8 → Prop} {sock : Nat}

@[simp] theorem turns_append (events later : List SocketEvent) :
    turns (events ++ later) = turns events ++ turns later := List.flatMap_append

theorem pure {ends : Except Int α → State → List UInt8 → Prop} {value : α}
    (holds : ∀ state said, start state said → ends (.ok value) state said) :
    Leads peer start (pure value : Dialogue α) ends := by
  refine fun talk => ⟨[], (List.append_nil _).symm, rfl, fun state said final left starts met => ?_⟩
  obtain ⟨rfl, rfl⟩ := meets_nil met
  exact holds _ _ starts

theorem throw {ends : Except Int α → State → List UInt8 → Prop} {result : Int}
    (holds : ∀ state said, start state said → ends (.error result) state said) :
    Leads peer start (throw result : Dialogue α) ends := by
  refine fun talk => ⟨[], (List.append_nil _).symm, rfl, fun state said final left starts met => ?_⟩
  obtain ⟨rfl, rfl⟩ := meets_nil met
  exact holds _ _ starts

theorem run_bind_ok {program : Dialogue α} {next : α → Dialogue β} {talk talk' : Talk} {value : α}
    (done : program.run.run talk = (.ok value, talk')) :
    (program >>= next).run.run talk = (next value).run.run talk' := by
  rw [ExceptT.run_bind, StateT.run_bind, done]
  rfl

theorem run_bind_error {program : Dialogue α} {next : α → Dialogue β} {talk talk' : Talk}
    {result : Int} (done : program.run.run talk = (.error result, talk')) :
    (program >>= next).run.run talk = (.error result, talk') := by
  rw [ExceptT.run_bind, StateT.run_bind, done]
  rfl

theorem bind {program : Dialogue α} {next : α → Dialogue β}
    {ends : Except Int β → State → List UInt8 → Prop}
    (between : Except Int α → State → List UInt8 → Prop) (first : Leads peer start program between)
    (rest : ∀ value, Leads peer (between (.ok value)) (next value) ends)
    (fails : ∀ result state said, between (.error result) state said →
      ends (.error result) state said) :
    Leads peer start (program >>= next) ends := by
  intro talk
  obtain ⟨events, done, replies, leads⟩ := first talk
  rcases outcome : program.run.run talk with ⟨result | value, talk'⟩
  · rw [outcome] at done replies leads
    rw [run_bind_error outcome]
    exact ⟨events, done, replies, fun state said final left starts met =>
      fails _ _ _ (leads state said final left starts met)⟩
  · rw [outcome] at done replies leads
    rw [run_bind_ok outcome]
    obtain ⟨later, done', replies', leads'⟩ := rest value talk'
    refine ⟨events ++ later, ?_, ?_, fun state said final left starts met => ?_⟩
    · rw [done', done, List.append_assoc]
    · rw [replies', replies, List.drop_drop, turns_append, hears_append]
    · rw [turns_append] at met
      obtain ⟨middle, between, early, late⟩ := meets_append met
      rw [← replies] at late
      exact leads' middle between final left (leads state said middle between starts early) late

theorem weaken {program : Dialogue α} {ends others : Except Int α → State → List UInt8 → Prop}
    {other : State → List UInt8 → Prop} (leads : Leads peer other program others)
    (holds : ∀ state said, start state said → other state said)
    (gives : ∀ outcome state said, others outcome state said → ends outcome state said) :
    Leads peer start program ends := by
  intro talk
  obtain ⟨events, done, replies, others⟩ := leads talk
  exact ⟨events, done, replies, fun state said final left starts met =>
    gives _ _ _ (others state said final left (holds state said starts) met)⟩

theorem carry {program : Dialogue α} {ends : Except Int α → State → List UInt8 → Prop}
    (leads : Leads peer start program ends) (fact : Prop) :
    Leads peer (fun state said => fact ∧ start state said) program
      fun outcome state said => fact ∧ ends outcome state said := by
  intro talk
  obtain ⟨events, done, replies, ends⟩ := leads talk
  exact ⟨events, done, replies, fun state said final left starts met =>
    ⟨starts.1, ends state said final left starts.2 met⟩⟩

theorem said {program : Dialogue α} {ends : Except Int α → State → List UInt8 → Prop}
    {later : State → List UInt8 → Prop} {bytes : List UInt8} (leads : Leads peer later program ends)
    (holds : ∀ state said, start state said → later state (said ++ bytes)) :
    Leads peer start (say sock bytes >>= fun _ => program) ends := by
  refine bind (fun outcome state said => outcome = .ok () ∧ later state said) ?_ ?_ ?_
  · refine fun talk => ⟨[.sent sock bytes], rfl, rfl, fun state said final left starts met => ?_⟩
    obtain ⟨rfl, rfl⟩ := meets_say met
    exact ⟨rfl, holds _ _ starts⟩
  · exact fun _ => leads.weaken (fun _ _ holds => holds.2) fun _ _ _ holds => holds
  · rintro result state said ⟨same, -⟩
    cases same

theorem readReply {ends : Except Int PeerReply → State → List UInt8 → Prop}
    (holds : ∀ state said next reply, start state said → peer state said next reply →
      ends (.ok reply) next []) :
    Leads peer start (readReply sock) ends := by
  refine fun talk => ⟨[.received sock], rfl, List.drop_one.symm, fun state said final left starts met => ?_⟩
  obtain ⟨replied, rfl⟩ := meets_hear met
  exact holds _ _ _ _ starts replied

theorem hear {ends : Except Int (List UInt8) → State → List UInt8 → Prop}
    (holds : ∀ state said next reply, start state said → peer state said next reply →
      ends (heardOf reply) next []) :
    Leads peer start (hear sock) ends := by
  refine bind (fun outcome next left => ∃ state said reply, start state said ∧
    peer state said next reply ∧ outcome = .ok reply ∧ left = []) (readReply ?_) ?_ ?_
  · exact fun state said next reply starts replied => ⟨state, said, reply, starts, replied, rfl, rfl⟩
  · rintro (_ | reply)
    · refine throw ?_
      rintro next left ⟨state, said, reply, starts, replied, same, rfl⟩
      cases same
      exact holds _ _ _ _ starts replied
    · refine pure ?_
      rintro next left ⟨state, said, reply, starts, replied, same, rfl⟩
      cases same
      exact holds _ _ _ _ starts replied
  · rintro result next left ⟨state, said, reply, starts, replied, same, -⟩
    cases same

theorem expect {ends : Except Int Unit → State → List UInt8 → Prop} {code : String}
    (holds : ∀ state said next reply, start state said → peer state said next reply →
      ends (expected code reply) next []) :
    Leads peer start (expect sock code) ends := by
  refine bind (fun outcome next left => ∃ state said reply, start state said ∧
    peer state said next reply ∧ outcome = heardOf reply ∧ left = []) (hear ?_) ?_ ?_
  · exact fun state said next reply starts replied => ⟨state, said, reply, starts, replied, rfl, rfl⟩
  · intro code'
    have heard : ∀ next left, (∃ state said reply, start state said ∧ peer state said next reply ∧
        Except.ok code' = heardOf reply ∧ left = []) →
        ends (if code' = ascii code then .ok () else .error (-3)) next left := by
      rintro next left ⟨state, said, _ | reply, starts, replied, same, rfl⟩
      · cases same
      · cases same
        exact holds _ _ _ _ starts replied
    split
    · next same =>
      rw [if_pos same] at heard
      exact pure heard
    · next other =>
      rw [if_neg other] at heard
      exact throw heard
  · rintro result next left ⟨state, said, _ | reply, starts, replied, same, rfl⟩
    · cases same
      exact holds _ _ _ _ starts replied
    · cases same

end Dialogue.Leads

end QNXStuff.QXMail
