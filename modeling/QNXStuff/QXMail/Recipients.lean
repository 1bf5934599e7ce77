import QNXStuff.Library.Fuel
import QNXStuff.Library.Splitting
import QNXStuff.QXMail.MxQuestions
import QNXStuff.QXMail.Smtp

/-! The recipients of a message: the spooler delivers to the local ones and gathers the others by the
domains of their addresses. -/

namespace QNXStuff.QXMail

open Execution Splitting

/-! ### The loops -/

/-- `strrchr`: the string from the last place of a byte on. -/
def strrchr : List UInt8 → (byte : UInt8) → Option (List UInt8)
  | [], _ => none
  | first :: string, byte =>
    match strrchr string byte with
    | some found => some found
    | none => if first = byte then some (first :: string) else none

inductive SpoolFault where
  /-- A string function is called with NULL. -/
  | badPointer
  /-- A text does not fit into `destfn` or `netbuf`. -/
  | overrun
  /-- The loop is not done yet. -/
  | spent
  deriving DecidableEq

/-- What a delivery meets: `NAME_MAX`, the three numbers in the name of the file for a recipient with
so many behind it, and how far the dialogue comes in the round of a recipient. -/
structure Meeting where
  nameMax : Nat
  numbers : Nat → List UInt8
  greeted : List UInt8 → Bool
  mailed : List UInt8 → Bool
  offered : List UInt8 → Bool

/-- `sprintf(destfn,"%s/%i%i%i",mbxs->user,mytid,time(NULL),rand());` -/
def destfn (mbox : Mailbox) (numbers : List UInt8) : List UInt8 :=
  mbox.user ++ ascii "/" ++ numbers ++ [0]

/-- "create the file name", in a buffer of `NAME_MAX + 1` bytes -/
def nameFile (meeting : Meeting) (mbox : Mailbox) (behind : Nat) : Except SpoolFault Unit :=
  if meeting.nameMax + 1 < (destfn mbox (meeting.numbers behind)).length then .error .overrun
  else .ok ()

/-- "LOCAL DELIVERY": to which mailbox each of the local recipients is delivered, and `crcpt` with the
others. -/
def deliverLocal (server : MailServer) (meeting : Meeting) :
    (msgTo crcpt : List (List UInt8)) →
      Except SpoolFault (List (Mailbox × List UInt8) × List (List UInt8))
  | [], crcpt => .ok ([], crcpt)
  | rcpt :: rest, crcpt =>
    match server.mailbox rcpt with
    | some mbox => do
      nameFile meeting mbox rest.length
      let (delivered, crcpt) ← deliverLocal server meeting rest crcpt
      return ((mbox, rcpt) :: delivered, crcpt)
    | none => deliverLocal server meeting rest (rcpt :: crcpt)

/-- `!stricmp( rcpt_domain, cur_domain )` -/
def sameDomain (rcptDomain curDomain : Option (List UInt8)) : Except SpoolFault Bool :=
  match rcptDomain, curDomain with
  | some rcptDomain, some curDomain => .ok (stricmp rcptDomain curDomain)
  | _, _ => .error .badPointer

/-- The scan of `crcpt`: what comes to `msg->to`, and what comes to `rcpt`. -/
def scanDomain (rcptDomain : Option (List UInt8)) :
    (crcpt msgTo rcpt : List (List UInt8)) →
      Except SpoolFault (List (List UInt8) × List (List UInt8))
  | [], msgTo, rcpt => .ok (msgTo, rcpt)
  | tmpr :: crcpt, msgTo, rcpt => do
    if ← sameDomain rcptDomain (strrchr tmpr 64) then scanDomain rcptDomain crcpt (tmpr :: msgTo) rcpt
    else scanDomain rcptDomain crcpt msgTo (tmpr :: rcpt)

/-- `crcpt` and the groups up to now. -/
structure Gathering where
  crcpt : List (List UInt8)
  groups : List (List (List UInt8))

/-- `char * netbuf = (char*)malloc(2048);` -/
def netbufBytes : Nat := 2048

/-- "add MX question": `strlen` of the domain, and its copy in `netbuf`. -/
def askDomain : (rcptDomain : Option (List UInt8)) → Except SpoolFault Unit
  | none => .error .badPointer
  | some rcptDomain => if netbufBytes < questionLength rcptDomain then .error .overrun else .ok ()

/-- `sprintf` of a command with a text in it. -/
def commandLine (before : String) (text : List UInt8) (behind : String) : List UInt8 :=
  ascii before ++ text ++ ascii behind ++ [0]

/-- What `sprintf` writes into `netbuf` in the round of a recipient; `HELO` is as long as `EHLO`. -/
def Meeting.commands (meeting : Meeting) (server : MailServer) (sender rcpt : List UInt8) :
    List (List UInt8) :=
  (if meeting.greeted rcpt then [commandLine "EHLO " server.fqdn "\r\n"] else []) ++
    (if meeting.mailed rcpt then [commandLine "MAIL FROM:<" sender ">\r\n"] else []) ++
    if meeting.offered rcpt then [commandLine "RCPT TO:<" rcpt ">\r\n"] else []

/-- The dialogue about a group, with what it writes for each recipient. -/
def writeCommands (commands : List UInt8 → List (List UInt8)) (msgTo : List (List UInt8)) :
    Except SpoolFault Unit :=
  if ∃ rcpt ∈ msgTo, ∃ command ∈ commands rcpt, netbufBytes < command.length then .error .overrun
  else .ok ()

/-- "EXTERNAL DELIVERY": one group is taken off, and what its round writes into `netbuf`. -/
def externalTurn (useSMTPRelay : Bool) (commands : List UInt8 → List (List UInt8))
    (state : Gathering) : Except SpoolFault (Pass Gathering (List (List (List UInt8)))) :=
  match state.crcpt with
  | [] => .ok (.stop state.groups)
  | first :: rest =>
    if useSMTPRelay then do
      writeCommands commands (first :: rest)
      return .again ⟨[], state.groups ++ [first :: rest]⟩
    else do
      let rcptDomain := strrchr first 64
      let (msgTo, rcpt) ← scanDomain rcptDomain rest [first] []
      askDomain rcptDomain
      writeCommands commands msgTo
      return .again ⟨rcpt, state.groups ++ [msgTo]⟩

/-- The delivery of a message: the local deliveries and the groups. -/
def deliver (server : MailServer) (useSMTPRelay : Bool) (meeting : Meeting) (msg : SmtpMsg)
    (fuel : Nat) : Except SpoolFault (List (Mailbox × List UInt8) × List (List (List UInt8))) := do
  let (delivered, crcpt) ← deliverLocal server meeting msg.rcpts []
  let groups ← loop (externalTurn useSMTPRelay (meeting.commands server msg.sender)) .spent fuel
    ⟨crcpt, []⟩
  return (delivered, groups)

/-! ### What a message is due -/

/-- The text from the last `'@'` on, without regard to case. -/
def domainOf (rcpt : List UInt8) : Option (List UInt8) := (strrchr rcpt 64).map (·.map tolower)

/-- Every recipient is treated once: delivered to the mailbox of its name, or placed in the group of
its domain. -/
structure Treated (server : MailServer) (useSMTPRelay : Bool) (rcpts : List (List UInt8))
    (delivered : List (Mailbox × List UInt8)) (groups : List (List (List UInt8))) : Prop where
  once : (delivered.map Prod.snd ++ groups.flatten).Perm rcpts
  inside : ∀ delivery ∈ delivered, server.mailbox delivery.2 = some delivery.1
  outside : ∀ group ∈ groups, ∀ rcpt ∈ group, server.mailbox rcpt = none
  same : useSMTPRelay = false → ∀ group ∈ groups, ∀ rcpt ∈ group, ∀ other ∈ group,
    domainOf rcpt = domainOf other
  apart : useSMTPRelay = false → groups.Pairwise fun group group' =>
    ∀ rcpt ∈ group, ∀ other ∈ group', domainOf rcpt ≠ domainOf other

/-- A recipient that a round can be made for: without a relay it has an `'@'`, and the question for
its domain fits into `netbuf`, and so do the commands of its round. -/
structure Deliverable (useSMTPRelay : Bool) (commands : List UInt8 → List (List UInt8))
    (rcpt : List UInt8) : Prop where
  asked : useSMTPRelay = false → ∃ rcptDomain, strrchr rcpt 64 = some rcptDomain ∧
    questionLength rcptDomain ≤ netbufBytes
  written : ∀ command ∈ commands rcpt, command.length ≤ netbufBytes

/-- For every local recipient the name of its file fits into `destfn`. -/
def Nameable (server : MailServer) (meeting : Meeting) (rcpts : List (List UInt8)) : Prop :=
  ∀ rcpt rest mbox, rcpt :: rest <:+ rcpts → server.mailbox rcpt = some mbox →
    (destfn mbox (meeting.numbers rest.length)).length ≤ meeting.nameMax + 1

/-! ### Local delivery -/

theorem nameFile_ok {meeting : Meeting} {mbox : Mailbox} {behind : Nat} :
    nameFile meeting mbox behind = .ok () ↔
      (destfn mbox (meeting.numbers behind)).length ≤ meeting.nameMax + 1 := by
  unfold nameFile
  split
  · next overlong => exact ⟨nofun, fun fits => absurd fits (Nat.not_le.mpr overlong)⟩
  · next fits => exact ⟨fun _ => Nat.le_of_not_lt fits, fun _ => rfl⟩

section Local

variable {server : MailServer} {meeting : Meeting}

theorem nameable_cons {first : List UInt8} {rest : List (List UInt8)} :
    Nameable server meeting (first :: rest) ↔
      (∀ mbox, server.mailbox first = some mbox → nameFile meeting mbox rest.length = .ok ()) ∧
        Nameable server meeting rest := by
  constructor
  · intro nameable
    refine ⟨fun mbox found => nameFile_ok.mpr ?_, fun rcpt behind mbox suffix => ?_⟩
    · exact nameable first rest mbox List.suffix_rfl found
    · exact nameable rcpt behind mbox (suffix.trans (List.suffix_cons first rest))
  · rintro ⟨here, later⟩ rcpt behind mbox suffix found
    rcases List.suffix_cons_iff.mp suffix with same | suffix
    · cases same
      exact nameFile_ok.mp (here mbox found)
    · exact later rcpt behind mbox suffix found

theorem deliverLocal_local {first : List UInt8} {mbox : Mailbox}
    (found : server.mailbox first = some mbox) (rest crcpt : List (List UInt8)) :
    deliverLocal server meeting (first :: rest) crcpt =
      nameFile meeting mbox rest.length >>= fun _ =>
        (deliverLocal server meeting rest crcpt).map fun parts =>
          ((mbox, first) :: parts.1, parts.2) := by
  simp only [deliverLocal, found, bind, Except.bind]
  cases nameFile meeting mbox rest.length with
  | error fault => rfl
  | ok named => cases deliverLocal server meeting rest crcpt <;> rfl

theorem deliverLocal_other {first : List UInt8} (found : server.mailbox first = none)
    (rest crcpt : List (List UInt8)) :
    deliverLocal server meeting (first :: rest) crcpt =
      deliverLocal server meeting rest (first :: crcpt) := by
  simp only [deliverLocal, found]

/-- The local delivery comes to its end if and only if the names of the files fit. -/
theorem deliverLocal_ok {rcpts : List (List UInt8)} (crcpt : List (List UInt8)) :
    (∃ parts, deliverLocal server meeting rcpts crcpt = .ok parts) ↔
      Nameable server meeting rcpts := by
  induction rcpts generalizing crcpt with
  | nil =>
    refine ⟨fun _ rcpt rest mbox suffix => ?_, fun _ => ⟨_, rfl⟩⟩
    cases List.suffix_nil.mp suffix
  | cons first rest ih =>
    rw [nameable_cons]
    cases found : server.mailbox first with
    | none =>
      rw [deliverLocal_other found, ih]
      exact ⟨fun later => ⟨nofun, later⟩, And.right⟩
    | some mbox =>
      rw [deliverLocal_local found, ← ih crcpt]
      cases named : nameFile meeting mbox rest.length with
      | error fault =>
        refine ⟨nofun, fun ⟨here, _⟩ => ?_⟩
        have fits := here mbox rfl
        rw [named] at fits
        cases fits
      | ok done =>
        constructor
        · rintro ⟨parts, delivered⟩
          obtain ⟨behind, later, -⟩ := map_eq_ok.mp delivered
          refine ⟨fun other same => ?_, behind, later⟩
          cases same
          exact named
        · rintro ⟨_, behind, later⟩
          exact ⟨_, map_eq_ok.mpr ⟨behind, later, rfl⟩⟩

theorem deliverLocal_spec {rcpts crcpt left : List (List UInt8)}
    {delivered : List (Mailbox × List UInt8)}
    (done : deliverLocal server meeting rcpts crcpt = .ok (delivered, left)) :
    (delivered.map Prod.snd ++ left).Perm (rcpts ++ crcpt) ∧
      (∀ delivery ∈ delivered, server.mailbox delivery.2 = some delivery.1) ∧
      ∀ rcpt, rcpt ∈ left ↔ rcpt ∈ crcpt ∨ rcpt ∈ rcpts ∧ server.mailbox rcpt = none := by
  induction rcpts generalizing crcpt delivered with
  | nil =>
    cases done
    exact ⟨List.Perm.refl _, List.forall_mem_nil _, fun rcpt => by simp⟩
  | cons first rest ih =>
    cases found : server.mailbox first with
    | some mbox =>
      rw [deliverLocal_local found] at done
      obtain ⟨_, _, done⟩ := bind_eq_ok.mp done
      obtain ⟨⟨behind, _⟩, later, same⟩ := map_eq_ok.mp done
      cases same
      obtain ⟨once, inside, left⟩ := ih later
      refine ⟨once.cons first, ?_, fun rcpt => ?_⟩
      · intro delivery member
        rcases List.mem_cons.mp member with rfl | member
        · exact found
        · exact inside delivery member
      · rw [left rcpt, List.mem_cons]
        constructor
        · exact Or.imp_right fun later => ⟨.inr later.1, later.2⟩
        · rintro (held | ⟨rfl | later, none⟩)
          · exact .inl held
          · rw [found] at none
            cases none
          · exact .inr ⟨later, none⟩
    | none =>
      rw [deliverLocal_other found] at done
      obtain ⟨once, inside, left⟩ := ih done
      refine ⟨once.trans List.perm_middle, inside, fun rcpt => ?_⟩
      rw [left rcpt, List.mem_cons, List.mem_cons]
      constructor
      · rintro ((rfl | held) | ⟨later, none⟩)
        · exact .inr ⟨.inl rfl, found⟩
        · exact .inl held
        · exact .inr ⟨.inr later, none⟩
      · rintro (held | ⟨rfl | later, none⟩)
        · exact .inl (.inr held)
        · exact .inl (.inl rfl)
        · exact .inr ⟨later, none⟩

end Local

/-! ### Groups -/

theorem strrchr_isSome {string : List UInt8} {byte : UInt8} :
    (strrchr string byte).isSome ↔ byte ∈ string := by
  induction string with
  | nil => exact ⟨nofun, nofun⟩
  | cons first string ih =>
    unfold strrchr
    cases later : strrchr string byte with
    | some found =>
      rw [later] at ih
      exact ⟨fun _ => List.mem_cons_of_mem _ (ih.mp rfl), fun _ => rfl⟩
    | none =>
      rw [later] at ih
      have behind : byte ∉ string := fun member => Bool.false_ne_true (ih.mpr member)
      by_cases here : first = byte
      · simp [here]
      · simp [here, behind, Ne.symm here]

/-- Addresses with an `'@'` are compared by their domains. -/
theorem sameDomain_eq {rcpt other : List UInt8} (addressed : 64 ∈ rcpt) (addressed' : 64 ∈ other) :
    sameDomain (strrchr rcpt 64) (strrchr other 64) =
      .ok (decide (domainOf rcpt = domainOf other)) := by
  obtain ⟨domain, found⟩ := Option.isSome_iff_exists.mp (strrchr_isSome.mpr addressed)
  obtain ⟨domain', found'⟩ := Option.isSome_iff_exists.mp (strrchr_isSome.mpr addressed')
  simp [sameDomain, domainOf, found, found', stricmp, beq_eq_decide]

theorem scanDomain_ok {first : List UInt8} {crcpt : List (List UInt8)} (addressed : 64 ∈ first)
    (all : ∀ rcpt ∈ crcpt, 64 ∈ rcpt) (msgTo rcpt : List (List UInt8)) :
    ∃ msgTo' rcpt', scanDomain (strrchr first 64) crcpt msgTo rcpt = .ok (msgTo', rcpt') ∧
      (msgTo' ++ rcpt').Perm (msgTo ++ rcpt ++ crcpt) ∧
      (∀ other ∈ msgTo', other ∈ msgTo ∨ domainOf other = domainOf first) ∧
      ∀ other ∈ rcpt', other ∈ rcpt ∨ domainOf other ≠ domainOf first := by
  induction crcpt generalizing msgTo rcpt with
  | nil =>
    refine ⟨msgTo, rcpt, rfl, ?_, fun _ => .inl, fun _ => .inl⟩
    rw [List.append_nil]
  | cons tmpr crcpt ih =>
    have rest := ih fun other member => all other (List.mem_cons_of_mem tmpr member)
    have compared := sameDomain_eq addressed (all tmpr List.mem_cons_self)
    by_cases same : domainOf first = domainOf tmpr
    · obtain ⟨msgTo', rcpt', done, parts, inside, outside⟩ := rest (tmpr :: msgTo) rcpt
      refine ⟨msgTo', rcpt', ?_, parts.trans List.perm_middle.symm, fun other member => ?_, outside⟩
      · simp only [scanDomain, compared, decide_eq_true same, bind, Except.bind, if_true, done]
      · rcases inside other member with held | shared
        · rcases List.mem_cons.mp held with rfl | held
          · exact .inr same.symm
          · exact .inl held
        · exact .inr shared
    · obtain ⟨msgTo', rcpt', done, parts, inside, outside⟩ := rest msgTo (tmpr :: rcpt)
      refine ⟨msgTo', rcpt', ?_, ?_, inside, fun other member => ?_⟩
      · simp only [scanDomain, compared, decide_eq_false same, bind, Except.bind, Bool.false_eq_true,
          if_false, done]
      · refine parts.trans ?_
        rw [List.append_assoc, List.append_assoc]
        exact List.perm_middle.symm.append_left msgTo
      · rcases outside other member with held | apart
        · rcases List.mem_cons.mp held with rfl | held
          · exact .inr (Ne.symm same)
          · exact .inl held
        · exact .inr apart

/-- An address without an `'@'` among others is compared through a NULL. -/
theorem scanDomain_fails {rcptDomain : Option (List UInt8)} {crcpt : List (List UInt8)}
    (bare : ∃ rcpt ∈ crcpt, 64 ∉ rcpt) (msgTo rcpt : List (List UInt8)) :
    ∃ fault, scanDomain rcptDomain crcpt msgTo rcpt = .error fault := by
  induction crcpt generalizing msgTo rcpt with
  | nil =>
    obtain ⟨_, member, _⟩ := bare
    cases member
  | cons tmpr crcpt ih =>
    cases compared : sameDomain rcptDomain (strrchr tmpr 64) with
    | error fault => exact ⟨fault, by simp only [scanDomain, compared, bind, Except.bind]⟩
    | ok same =>
      have later : ∃ rcpt ∈ crcpt, 64 ∉ rcpt := by
        obtain ⟨other, member, bare⟩ := bare
        rcases List.mem_cons.mp member with rfl | member
        · have missing : strrchr other 64 = none :=
            Option.not_isSome_iff_eq_none.mp (mt strrchr_isSome.mp bare)
          rw [missing] at compared
          cases rcptDomain <;> cases compared
        · exact ⟨other, member, bare⟩
      cases same with
      | true =>
        obtain ⟨fault, fails⟩ := ih later (tmpr :: msgTo) rcpt
        exact ⟨fault, by simp only [scanDomain, compared, bind, Except.bind, if_true, fails]⟩
      | false =>
        obtain ⟨fault, fails⟩ := ih later msgTo (tmpr :: rcpt)
        exact ⟨fault, by simp only [scanDomain, compared, bind, Except.bind, Bool.false_eq_true,
          if_false, fails]⟩

theorem domainOf_length {rcpt other domain : List UInt8} (found : strrchr rcpt 64 = some domain)
    (same : domainOf other = domainOf rcpt) :
    ∃ domain', strrchr other 64 = some domain' ∧ domain'.length = domain.length := by
  rw [domainOf, domainOf, found, Option.map_some, Option.map_eq_some_iff] at same
  obtain ⟨domain', found', lowered⟩ := same
  have lengths := congrArg List.length lowered
  rw [List.length_map, List.length_map] at lengths
  exact ⟨domain', found', lengths⟩

theorem writeCommands_ok {commands : List UInt8 → List (List UInt8)}
    {msgTo : List (List UInt8)} :
    writeCommands commands msgTo = .ok () ↔
      ∀ rcpt ∈ msgTo, ∀ command ∈ commands rcpt, command.length ≤ netbufBytes := by
  unfold writeCommands
  split
  · next long =>
    obtain ⟨rcpt, member, command, written, overlong⟩ := long
    exact ⟨nofun, fun fits => absurd (fits rcpt member command written) (Nat.not_le.mpr overlong)⟩
  · next short =>
    refine ⟨fun _ rcpt member command written => ?_, fun _ => rfl⟩
    exact Nat.le_of_not_lt fun overlong => short ⟨rcpt, member, command, written, overlong⟩

theorem askDomain_ok {rcptDomain : Option (List UInt8)} :
    askDomain rcptDomain = .ok () ↔
      ∃ domain, rcptDomain = some domain ∧ questionLength domain ≤ netbufBytes := by
  cases rcptDomain with
  | none => exact ⟨nofun, nofun⟩
  | some domain =>
    have asked : askDomain (some domain) =
        if netbufBytes < questionLength domain then .error .overrun else .ok () := rfl
    rw [asked]
    split
    · next overlong =>
      refine ⟨nofun, fun ⟨_, same, fits⟩ => ?_⟩
      cases same
      exact absurd fits (Nat.not_le.mpr overlong)
    · next fits => exact ⟨fun _ => ⟨domain, rfl, Nat.le_of_not_lt fits⟩, fun _ => rfl⟩

section Rounds

variable {commands : List UInt8 → List (List UInt8)}

theorem externalTurn_relay (first : List UInt8) (rest : List (List UInt8))
    (groups : List (List (List UInt8))) :
    externalTurn true commands ⟨first :: rest, groups⟩ =
      (writeCommands commands (first :: rest)).map fun _ => .again ⟨[], groups ++ [first :: rest]⟩ := by
  simp only [externalTurn, if_true]
  cases writeCommands commands (first :: rest) <;> rfl

/-- What a turn without a relay does with addresses that have an `'@'`. -/
theorem externalTurn_direct {first : List UInt8} {rest : List (List UInt8)}
    {groups : List (List (List UInt8))} {msgTo rcpt : List (List UInt8)}
    (scanned : scanDomain (strrchr first 64) rest [first] [] = .ok (msgTo, rcpt)) :
    externalTurn false commands ⟨first :: rest, groups⟩ =
      (askDomain (strrchr first 64)).bind fun _ =>
        (writeCommands commands msgTo).map fun _ => .again ⟨rcpt, groups ++ [msgTo]⟩ := by
  simp only [externalTurn, Bool.false_eq_true, if_false, scanned, bind, Except.bind]
  cases askDomain (strrchr first 64) with
  | error fault => rfl
  | ok done => cases writeCommands commands msgTo <;> rfl

/-- Without a relay a turn fails with an address that has no `'@'`. -/
theorem externalTurn_bare {state : Gathering} (bare : ∃ rcpt ∈ state.crcpt, 64 ∉ rcpt) :
    ∃ fault, externalTurn false commands state = .error fault := by
  obtain ⟨crcpt, groups⟩ := state
  obtain ⟨rcpt, member, bare⟩ := bare
  cases crcpt with
  | nil => cases member
  | cons first rest =>
    cases scanned : scanDomain (strrchr first 64) rest [first] [] with
    | error fault =>
      refine ⟨fault, ?_⟩
      simp only [externalTurn, Bool.false_eq_true, if_false, scanned, bind, Except.bind]
    | ok parts =>
      rw [externalTurn_direct scanned]
      rcases List.mem_cons.mp member with rfl | later
      · have missing : strrchr rcpt 64 = none :=
          Option.not_isSome_iff_eq_none.mp (mt strrchr_isSome.mp bare)
        rw [missing]
        exact ⟨.badPointer, rfl⟩
      · obtain ⟨fault, fails⟩ := scanDomain_fails ⟨rcpt, later, bare⟩ [first] []
        rw [fails] at scanned
        cases scanned

/-- A turn fails with an address that no round can be made for, or leaves it for a later one. -/
theorem externalTurn_fails {useSMTPRelay : Bool} {state : Gathering}
    (bad : ∃ rcpt ∈ state.crcpt, ¬ Deliverable useSMTPRelay commands rcpt) :
    (∃ fault, externalTurn useSMTPRelay commands state = .error fault) ∨
      ∃ next, externalTurn useSMTPRelay commands state = .ok (.again next) ∧
        ∃ rcpt ∈ next.crcpt, ¬ Deliverable useSMTPRelay commands rcpt := by
  by_cases bare : useSMTPRelay = false ∧ ∃ rcpt ∈ state.crcpt, 64 ∉ rcpt
  · obtain ⟨rfl, bare⟩ := bare
    exact .inl (externalTurn_bare bare)
  obtain ⟨crcpt, groups⟩ := state
  obtain ⟨rcpt, member, bad⟩ := bad
  obtain ⟨first, rest, rfl⟩ := List.exists_cons_of_ne_nil (List.ne_nil_of_mem member)
  cases useSMTPRelay with
  | true =>
    rw [externalTurn_relay]
    cases offers : writeCommands commands (first :: rest) with
    | error fault => exact .inl ⟨fault, rfl⟩
    | ok done =>
      exact absurd ⟨nofun, writeCommands_ok.mp offers rcpt member⟩ bad
  | false =>
    have all : ∀ other ∈ first :: rest, 64 ∈ other := by
      intro other here
      by_contra missing
      exact bare ⟨rfl, other, here, missing⟩
    obtain ⟨msgTo, behind, scanned, parts, inside, -⟩ := scanDomain_ok (all first List.mem_cons_self)
      (fun other later => all other (List.mem_cons_of_mem first later)) [first] []
    rw [externalTurn_direct scanned]
    cases asks : askDomain (strrchr first 64) with
    | error fault => exact .inl ⟨fault, rfl⟩
    | ok done =>
      cases offers : writeCommands commands msgTo with
      | error fault => exact .inl ⟨fault, rfl⟩
      | ok done' =>
        refine .inr ⟨_, rfl, rcpt, ?_, bad⟩
        have split : rcpt ∈ msgTo ++ behind := parts.symm.subset member
        refine (List.mem_append.mp split).resolve_left fun taken => bad ?_
        obtain ⟨domain, found, fits⟩ := askDomain_ok.mp asks
        refine ⟨fun _ => ?_, writeCommands_ok.mp offers rcpt taken⟩
        rcases inside rcpt taken with here | same
        · rw [List.mem_singleton.mp here]
          exact ⟨domain, found, fits⟩
        · obtain ⟨domain', found', length⟩ := domainOf_length found same
          refine ⟨domain', found', ?_⟩
          unfold questionLength at fits ⊢
          rwa [length]

/-- Without a relay it takes off the group of the first address. -/
theorem externalTurn_ok {rcpts : List (List UInt8)} {state : Gathering}
    (grouped : Grouped domainOf rcpts state.crcpt state.groups)
    (all : ∀ rcpt ∈ state.crcpt, Deliverable false commands rcpt) (more : state.crcpt ≠ []) :
    ∃ next, externalTurn false commands state = .ok (.again next) ∧
      Grouped domainOf rcpts next.crcpt next.groups ∧ next.crcpt ⊆ state.crcpt ∧
      next.crcpt.length < state.crcpt.length := by
  obtain ⟨crcpt, groups⟩ := state
  obtain ⟨first, rest, rfl⟩ := List.exists_cons_of_ne_nil more
  have addressed : ∀ other ∈ first :: rest, 64 ∈ other := by
    intro other member
    obtain ⟨domain, found, -⟩ := (all other member).asked rfl
    exact strrchr_isSome.mp (Option.isSome_of_eq_some found)
  obtain ⟨msgTo, rcpt, done, parts, inside, outside⟩ :=
    scanDomain_ok (addressed first List.mem_cons_self)
      (fun other member => addressed other (List.mem_cons_of_mem first member)) [first] []
  rw [List.append_nil, List.singleton_append] at parts
  have members : ∀ other ∈ msgTo, domainOf other = domainOf first := by
    intro other member
    rcases inside other member with held | shared
    · rw [List.mem_singleton.mp held]
    · exact shared
  have others : ∀ other ∈ rcpt, domainOf other ≠ domainOf first := by
    intro other member
    rcases outside other member with held | apart
    · cases held
    · exact apart
  have asks : askDomain (strrchr first 64) = .ok () :=
    askDomain_ok.mpr ((all first List.mem_cons_self).asked rfl)
  have offers : writeCommands commands msgTo = .ok () := writeCommands_ok.mpr fun other member =>
    (all other (parts.subset (List.mem_append_left rcpt member))).written
  refine ⟨⟨rcpt, groups ++ [msgTo]⟩, ?_, grouped.peel parts members others, ?_, ?_⟩
  · rw [externalTurn_direct done, asks, offers]
    rfl
  · exact fun other member => parts.subset (List.mem_append_right msgTo member)
  · -- the first address is in the group
    have here : first ∈ msgTo ++ rcpt := parts.symm.subset List.mem_cons_self
    have taken : first ∈ msgTo :=
      (List.mem_append.mp here).resolve_right fun member => others first member rfl
    have size := parts.length_eq
    have some := List.length_pos_of_mem taken
    rw [List.length_append] at size
    simp only
    omega

/-- The rounds of a direct delivery end with all addresses in groups. -/
theorem externalLoop_ok {rcpts : List (List UInt8)}
    (all : ∀ rcpt ∈ rcpts, Deliverable false commands rcpt) :
    ∃ groups, loop (externalTurn false commands) .spent (rcpts.length + 1) ⟨rcpts, []⟩ = .ok groups ∧
      Grouped domainOf rcpts [] groups := by
  have turn : ∀ state : Gathering,
      Grouped domainOf rcpts state.crcpt state.groups ∧ state.crcpt ⊆ rcpts →
      PassSpec (fun state => Grouped domainOf rcpts state.crcpt state.groups ∧ state.crcpt ⊆ rcpts)
        (fun state => state.crcpt.length)
        (fun outcome => ∃ groups, outcome = .ok groups ∧ Grouped domainOf rcpts [] groups) state
        (externalTurn false commands state) := by
    rintro state ⟨grouped, known⟩
    by_cases more : state.crcpt = []
    · rw [more] at grouped
      simp only [externalTurn, more]
      exact ⟨_, rfl, grouped⟩
    · obtain ⟨next, turned, grouped', fewer, less⟩ :=
        externalTurn_ok grouped (fun rcpt member => all rcpt (known member)) more
      rw [turned]
      exact ⟨⟨grouped', List.Subset.trans fewer known⟩, less⟩
  exact loop_rule_free turn ⟨Grouped.start domainOf rcpts, List.Subset.refl _⟩ (Nat.lt_succ_self _)

/-- To the relay all addresses go together. -/
theorem relayLoop_ok {rcpts : List (List UInt8)}
    (all : ∀ rcpt ∈ rcpts, Deliverable true commands rcpt) :
    ∃ groups, loop (externalTurn true commands) .spent 2 ⟨rcpts, []⟩ = .ok groups ∧
      groups.flatten = rcpts := by
  cases rcpts with
  | nil => exact ⟨[], rfl, rfl⟩
  | cons first rest =>
    have offers : writeCommands commands (first :: rest) = .ok () :=
      writeCommands_ok.mpr fun rcpt member => (all rcpt member).written
    refine ⟨[first :: rest], ?_, List.append_nil _⟩
    simp only [loop, externalTurn_relay, offers, Except.map]
    rfl

end Rounds

section Messages

variable {server : MailServer} {useSMTPRelay : Bool} {meeting : Meeting} {msg : SmtpMsg}

theorem deliver_eq (fuel : Nat) :
    deliver server useSMTPRelay meeting msg fuel =
      deliverLocal server meeting msg.rcpts [] >>= fun parts =>
        (loop (externalTurn useSMTPRelay (meeting.commands server msg.sender)) .spent fuel
          ⟨parts.2, []⟩).map fun groups => (parts.1, groups) := by
  simp only [deliver, bind, Except.bind]
  cases deliverLocal server meeting msg.rcpts [] with
  | error fault => rfl
  | ok parts =>
    simp only
    cases loop (externalTurn useSMTPRelay (meeting.commands server msg.sender)) .spent fuel
      ⟨parts.2, []⟩ <;> rfl

/-- Where the delivery comes to its end, the names fit and a round can be made for the others. -/
theorem deliver_ok {fuel : Nat}
    {result : List (Mailbox × List UInt8) × List (List (List UInt8))}
    (done : deliver server useSMTPRelay meeting msg fuel = .ok result) :
    Nameable server meeting msg.rcpts ∧
      ∀ rcpt ∈ msg.rcpts, server.mailbox rcpt = none →
        Deliverable useSMTPRelay (meeting.commands server msg.sender) rcpt := by
  rw [deliver_eq] at done
  obtain ⟨⟨delivered, left⟩, named, rounds⟩ := bind_eq_ok.mp done
  refine ⟨(deliverLocal_ok []).mp ⟨_, named⟩, fun rcpt member none => ?_⟩
  by_contra bad
  have held : rcpt ∈ left := ((deliverLocal_spec named).2.2 rcpt).mpr (.inr ⟨member, none⟩)
  have fails : ∃ fault, loop (externalTurn useSMTPRelay (meeting.commands server msg.sender)) .spent
      fuel ⟨left, []⟩ = .error fault :=
    @loop_fails _ _ _ _ _
      (fun state => ∃ rcpt ∈ state.crcpt,
        ¬ Deliverable useSMTPRelay (meeting.commands server msg.sender) rcpt)
      (fun _ => externalTurn_fails) _ _ ⟨rcpt, held, bad⟩
  obtain ⟨fault, fails⟩ := fails
  obtain ⟨groups, ends, -⟩ := map_eq_ok.mp rounds
  rw [fails] at ends
  cases ends

end Messages

/-- The delivery of a message ends with each recipient treated once if and only if the names of the
files fit and a round can be made for every recipient that is not local. -/
theorem recipients_treated_iff (server : MailServer) (useSMTPRelay : Bool) (meeting : Meeting)
    (msg : SmtpMsg) :
    (∃ fuel delivered groups,
        deliver server useSMTPRelay meeting msg fuel = .ok (delivered, groups) ∧
          Treated server useSMTPRelay msg.rcpts delivered groups) ↔
      Nameable server meeting msg.rcpts ∧
        ∀ rcpt ∈ msg.rcpts, server.mailbox rcpt = none →
          Deliverable useSMTPRelay (meeting.commands server msg.sender) rcpt := by
  constructor
  · rintro ⟨fuel, delivered, groups, done, _⟩
    exact deliver_ok done
  · rintro ⟨nameable, deliverable⟩
    obtain ⟨⟨delivered, crcpt⟩, named⟩ := (deliverLocal_ok []).mpr nameable
    obtain ⟨once, inside, left⟩ := deliverLocal_spec named
    rw [List.append_nil] at once
    have external : ∀ rcpt, rcpt ∈ crcpt ↔ rcpt ∈ msg.rcpts ∧ server.mailbox rcpt = none :=
      fun rcpt => (left rcpt).trans (or_iff_right List.not_mem_nil)
    have all : ∀ rcpt ∈ crcpt,
        Deliverable useSMTPRelay (meeting.commands server msg.sender) rcpt := by
      intro rcpt member
      obtain ⟨given, none⟩ := (external rcpt).mp member
      exact deliverable rcpt given none
    have treats (fuel : Nat) (groups : List (List (List UInt8)))
        (done : loop (externalTurn useSMTPRelay (meeting.commands server msg.sender)) .spent fuel
          ⟨crcpt, []⟩ = .ok groups)
        (parts : groups.flatten.Perm crcpt)
        (same : useSMTPRelay = false → ∀ group ∈ groups, ∀ rcpt ∈ group, ∀ other ∈ group,
          domainOf rcpt = domainOf other)
        (apart : useSMTPRelay = false → groups.Pairwise fun group group' =>
          ∀ rcpt ∈ group, ∀ other ∈ group', domainOf rcpt ≠ domainOf other) :
        ∃ fuel delivered groups,
          deliver server useSMTPRelay meeting msg fuel = .ok (delivered, groups) ∧
            Treated server useSMTPRelay msg.rcpts delivered groups := by
      refine ⟨fuel, delivered, groups, ?_, ?_⟩
      · rw [deliver_eq, named]
        exact map_eq_ok.mpr ⟨groups, done, rfl⟩
      · refine ⟨(parts.append_left _).trans once, inside, ?_, same, apart⟩
        intro group here rcpt member
        exact ((external rcpt).mp (parts.subset (List.mem_flatten.mpr ⟨group, here, member⟩))).2
    cases useSMTPRelay with
    | true =>
      obtain ⟨groups, done, whole⟩ := relayLoop_ok all
      exact treats 2 groups done (whole ▸ List.Perm.refl _) nofun nofun
    | false =>
      obtain ⟨groups, done, grouped⟩ := externalLoop_ok all
      have parts := grouped.once
      rw [List.append_nil] at parts
      exact treats _ groups done parts (fun _ => grouped.same) fun _ => grouped.apart

/-- A server with one mailbox, and an authenticated client that has begun a message. -/
def oneBoxServer : MailServer := ⟨[⟨ascii "ann@mail", ascii "secret"⟩], ascii "mail", ascii "1.2.3.4"⟩

def authenticatedConn : Conn :=
  ⟨some (ascii "ann@mail"), none, .rcpt, true, [⟨ascii "ann@mail", []⟩]⟩

/-- No server answers, and files are named by the numbers 1, 2 and 3. -/
def aloneMeeting : Meeting :=
  ⟨255, fun _ => ascii "123", fun _ => false, fun _ => false, fun _ => false⟩

/-- The recipient `bob` is accepted, and the spooler compares with what is not in it. -/
theorem bare_recipient_is_not_treated :
    (∃ next, rcpt oneBoxServer authenticatedConn (ascii "RCPT TO:<bob>") =
        .ok (some next, ⟨[.ok], .recipient (ascii "bob")⟩) ∧
      next.msg = [⟨ascii "ann@mail", [ascii "bob"]⟩]) ∧
      ¬ ∃ fuel delivered groups,
        deliver oneBoxServer false aloneMeeting ⟨ascii "ann@mail", [ascii "bob"]⟩ fuel =
            .ok (delivered, groups) ∧
          Treated oneBoxServer false [ascii "bob"] delivered groups := by
  refine ⟨⟨_, by rfl, rfl⟩, ?_⟩
  rintro ⟨fuel, delivered, groups, done, _⟩
  obtain ⟨domain, found, -⟩ := ((deliver_ok done).2 (ascii "bob") List.mem_cons_self
    (by decide)).asked rfl
  have missing : strrchr (ascii "bob") 64 = none := by decide
  rw [missing] at found
  cases found

end QNXStuff.QXMail
