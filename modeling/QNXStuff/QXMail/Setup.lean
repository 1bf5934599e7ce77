import QNXStuff.GetConf.Realms
import QNXStuff.QXMail.Pop

/-! The configuration file of the mail server: what `qmail_setup` does with its words, and who logs in
to the mailboxes of a file. -/

namespace QNXStuff.QXMail

open Execution
open GetConf (Word Line Ahead Setup Conf TextFile opensText opensText_opened)
open GetConf.Setup (Takes Realm Items Follows Closes DirectiveItem eachString worded directives
  Table stricmp_other fileLines)

/-- The library, with `INADDR_ANY` and what memory from `malloc` holds. -/
structure MailLibc (Addr : Type) where
  atoi : Word → Int32
  inetAton : Word → Option Addr
  gethostbyname : Word → Option Addr
  inaddrAny : Addr
  blank : Addr

/-- Why the server does not start. -/
inductive MailFault where
  | badDirective (realm : Word) (directive : Word)
  | unknownRealm
  | unendedRealm (realm : Word)
  | noAccount
  | spent

structure Listener (Addr : Type) where
  pop : Bool
  addr : Addr
  port : UInt16

/-- What the file sets, the last listener and the last mailbox first. -/
structure MailSettings (Addr : Type) where
  serverDir : Word
  serverFqdn : Word
  serverLog : Word
  syncInt : Int32
  logLevel : Int32
  alcBufSize : Int32
  loWater : Int32
  hiWater : Int32
  maximum : Int32
  increment : Int32
  numSpoolers : Int32
  rcvTimeout : Int32
  avEnable : Int32
  useSMTPRelay : Bool
  relayAddr : Addr
  relayPort : UInt16
  dnsSrv : Addr
  listeners : List (Listener Addr)
  mbx : List Mailbox

/-- A realm `<mailbox>`. -/
structure Account where
  user : Option Word
  password : Option Word

section Turns

variable {Addr : Type} (libc : MailLibc Addr) (turns : Nat)

def MailSettings.default : MailSettings Addr where
  serverDir := ascii "/tmp"
  serverFqdn := ascii "QX-mail"
  serverLog := ascii "/tmp/QX-mail.log"
  syncInt := 600
  logLevel := 3
  alcBufSize := 8192
  loWater := 2
  hiWater := 5
  maximum := 9
  increment := 2
  numSpoolers := 1
  rcvTimeout := 10
  avEnable := 0
  useSMTPRelay := false
  relayAddr := libc.inaddrAny
  relayPort := 0
  dnsSrv := libc.inaddrAny
  listeners := []
  mbx := []

/-- `SMTPRELAY`: an address in brackets, with a port behind a colon, or a name. -/
def smtpRelay : Option Word → MailSettings Addr → MailSettings Addr
  | none, settings => { settings with useSMTPRelay := false }
  | some token, settings =>
    if token.head? = some 91 then
      match strchr token 93 with
      | none => { settings with useSMTPRelay := false }
      | some stop =>
        -- the bracket is overwritten, and what stands behind it is not looked at
        let token := token.take stop
        let port := match strchr token 58 with
          | some delim => (libc.atoi (token.drop (delim + 1))).toUInt32.toUInt16
          | none => 25
        let text := token.takeWhile (· != 58)
        { settings with
          useSMTPRelay := true, relayPort := port
          relayAddr := (libc.inetAton (text.drop 1)).getD settings.relayAddr }
    else
      match libc.gethostbyname token with
      | none => { settings with useSMTPRelay := false }
      | some addr => { settings with useSMTPRelay := true, relayPort := 25, relayAddr := addr }

/-- `POP3LISTEN` and `SMTPLISTEN` -/
def listen (pop : Bool) (token : Word) (settings : MailSettings Addr) : MailSettings Addr :=
  let port := match strchr token 58 with
    | some delim => (libc.atoi (token.drop (delim + 1))).toUInt32.toUInt16
    | none => if pop then 110 else 25
  let addr := (libc.inetAton (token.takeWhile (· != 58))).getD libc.blank
  { settings with listeners := ⟨pop, addr, port⟩ :: settings.listeners }

/-- The directives of `<server>`. -/
def mailDirectives : Table (MailSettings Addr) :=
  [("MXROOT", worded fun word settings => { settings with serverDir := word }),
    ("SYNCINTERVAL", worded fun word settings => { settings with syncInt := libc.atoi word }),
    ("SERVERFQDN", worded fun word settings => { settings with serverFqdn := word }),
    ("LOGFILE", worded fun word settings => { settings with serverLog := word }),
    ("LOGLEVEL", worded fun word settings => { settings with logLevel := libc.atoi word }),
    ("CONNBUFSIZE", worded fun word settings =>
      { settings with alcBufSize := max 8192 (libc.atoi word) }),
    ("POOLLOWATER", worded fun word settings => { settings with loWater := libc.atoi word }),
    ("POOLHIWATER", worded fun word settings => { settings with hiWater := libc.atoi word }),
    ("POOLMAX", worded fun word settings => { settings with maximum := libc.atoi word }),
    ("POOLINCREMENT", worded fun word settings => { settings with increment := libc.atoi word }),
    ("NUMSPOOLERS", worded fun word settings =>
      { settings with numSpoolers := max settings.numSpoolers (libc.atoi word) }),
    ("RCVTIMEOUT", worded fun word settings => { settings with rcvTimeout := libc.atoi word }),
    ("AVENABLE", worded fun word settings => { settings with avEnable := libc.atoi word }),
    ("SMTPRELAY", smtpRelay libc),
    ("POP3LISTEN", worded (listen libc true)),
    ("SMTPLISTEN", worded (listen libc false)),
    ("USEDNS", worded fun word settings =>
      { settings with dnsSrv := (libc.inetAton word).getD settings.dnsSrv })]

def mailboxDirectives : Table Account :=
  [("USER", worded fun word account => { account with user := some word }),
    ("PASSWORD", worded fun word account => { account with password := some word })]

/-- A mailbox is added if it has a user and a password. -/
def Account.mailbox (account : Account) : Except MailFault Mailbox :=
  match account.user, account.password with
  | some user, some password => .ok ⟨user, password⟩
  | _, _ => .error .noAccount

/-- The file ends within a realm. -/
def unendedMail {State Result : Type} (realm : String) (_ : State) : Except MailFault Result :=
  .error (.unendedRealm (ascii realm))

def mailRealmTurn (settings : MailSettings Addr) (token : Word) :
    Setup MailFault (Pass (MailSettings Addr) (MailSettings Addr)) :=
  if stricmp (ascii "<server>") token then do
    let settings ← eachString .spent
      (directives (ascii "</server>") Except.ok (mailDirectives libc)
        (.badDirective (ascii "<server>")))
      (unendedMail "<server>") turns settings
    pure (.again settings)
  else if stricmp (ascii "<mailbox>") token then do
    let mbox ← eachString .spent
      (directives (ascii "</mailbox>") Account.mailbox mailboxDirectives
        (.badDirective (ascii "<mailbox>")))
      (unendedMail "<mailbox>") turns ⟨none, none⟩
    pure (.again { settings with mbx := mbox :: settings.mbx })
  else throw .unknownRealm

def qmailSetup : Setup MailFault (MailSettings Addr) :=
  eachString .spent (mailRealmTurn libc turns) .ok turns (.default libc)

end Turns

/-! ### What lines say -/

section Grammar

/-- A realm `<mailbox>` up to its closing tag. -/
abbrev MailboxRealm (lines : List Line) (mbox : Mailbox) : Prop :=
  Realm (DirectiveItem (ascii "</mailbox>") mailboxDirectives)
    (Closes (ascii "</mailbox>") Account.mailbox) ⟨none, none⟩ lines mbox

variable {Addr : Type} (libc : MailLibc Addr)

/-- A realm `<server>` up to its closing tag. -/
abbrev ServerRealm (settings : MailSettings Addr) (lines : List Line) (next : MailSettings Addr) : Prop :=
  Realm (DirectiveItem (ascii "</server>") (mailDirectives libc))
    (Closes (ascii "</server>") (Except.ok : _ → Except MailFault _)) settings lines next

inductive MailItem : MailSettings Addr → List Line → MailSettings Addr → Prop where
  | server {settings token args lines next} (word : stricmp (ascii "<server>") token = true)
      (realm : ServerRealm libc settings lines next) :
      MailItem settings ((token :: args) :: lines) next
  | mailbox {settings token args lines mbox} (word : stricmp (ascii "<mailbox>") token = true)
      (realm : MailboxRealm lines mbox) :
      MailItem settings ((token :: args) :: lines) { settings with mbx := mbox :: settings.mbx }

end Grammar

section Turned

variable {Addr : Type} {libc : MailLibc Addr} {turns : Nat} {ahead after : Ahead} {token : Word}

theorem unended_mail {State Result : Type} (realm : String) (state : State) (result : Result) :
    unendedMail realm state ≠ .ok result := by
  simp [unendedMail]

theorem takes_mailRealmTurn {settings : MailSettings Addr}
    {pass : Pass (MailSettings Addr) (MailSettings Addr)} :
    Takes (mailRealmTurn libc turns settings token) ahead pass after ↔
      (stricmp (ascii "<server>") token = true ∧ ∃ next,
        Takes (eachString .spent (directives (ascii "</server>") Except.ok (mailDirectives libc)
          (.badDirective (ascii "<server>"))) (unendedMail "<server>") turns settings)
          ahead next after ∧ pass = .again next) ∨
      (stricmp (ascii "<mailbox>") token = true ∧ ∃ mbox,
        Takes (eachString .spent (directives (ascii "</mailbox>") Account.mailbox mailboxDirectives
          (.badDirective (ascii "<mailbox>"))) (unendedMail "<mailbox>") turns ⟨none, none⟩)
          ahead mbox after ∧ pass = .again { settings with mbx := mbox :: settings.mbx }) := by
  constructor
  · intro taken
    unfold mailRealmTurn at taken
    split at taken
    next word =>
      obtain ⟨next, _, realm, taken⟩ := GetConf.Setup.takes_bind.mp taken
      obtain ⟨rfl, rfl⟩ := GetConf.Setup.takes_pure'.mp taken
      exact .inl ⟨word, next, realm, rfl⟩
    split at taken
    next word =>
      obtain ⟨mbox, _, realm, taken⟩ := GetConf.Setup.takes_bind.mp taken
      obtain ⟨rfl, rfl⟩ := GetConf.Setup.takes_pure'.mp taken
      exact .inr ⟨word, mbox, realm, rfl⟩
    next => exact absurd taken GetConf.Setup.not_takes_throw
  · rintro (⟨word, next, realm, rfl⟩ | ⟨word, mbox, realm, rfl⟩)
    · unfold mailRealmTurn
      rw [if_pos word]
      exact GetConf.Setup.takes_bind.mpr ⟨next, _, realm, GetConf.Setup.takes_pure.mpr rfl⟩
    · unfold mailRealmTurn
      rw [stricmp_other _ (by decide) word]
      simp only [Bool.false_eq_true, ↓reduceIte, word]
      exact GetConf.Setup.takes_bind.mpr ⟨mbox, _, realm, GetConf.Setup.takes_pure.mpr rfl⟩

theorem mail_follows : Follows turns (mailRealmTurn libc turns) (MailItem libc)
    fun _ _ _ => False where
  stops _ _ taken := by
    rcases takes_mailRealmTurn.mp taken with ⟨_, _, _, same⟩ | ⟨_, _, _, same⟩
    · cases same
    · cases same
  goes {settings token ahead _ _} below _ taken := by
    rcases takes_mailRealmTurn.mp taken with ⟨word, next, loop, same⟩ | ⟨word, mbox, loop, same⟩
    · cases same
      obtain ⟨used, split, realm⟩ :=
        GetConf.Setup.directives_follows.realm (unended_mail _) below loop
      have made : MailItem libc settings ((token :: ahead.args) :: used) _ := .server word realm
      exact ⟨_, List.cons_ne_nil _ used, congrArg (_ :: ·) split, made⟩
    · cases same
      obtain ⟨used, split, realm⟩ :=
        GetConf.Setup.directives_follows.realm (unended_mail _) below loop
      have made : MailItem libc settings ((token :: ahead.args) :: used) _ := .mailbox word realm
      exact ⟨_, List.cons_ne_nil _ used, congrArg (_ :: ·) split, made⟩
  closes _ _ closes := closes.elim
  items below _ made split := by
    cases made with
    | server word realm =>
      obtain ⟨same, rest⟩ := List.cons_eq_cons.mp split
      obtain ⟨rfl, rfl⟩ := List.cons_eq_cons.mp same
      obtain ⟨after, loop, behind⟩ :=
        GetConf.Setup.directives_follows.takes_realm realm rest below below.lines
      exact ⟨after, takes_mailRealmTurn.mpr (.inl ⟨word, _, loop, rfl⟩), behind⟩
    | mailbox word realm =>
      obtain ⟨same, rest⟩ := List.cons_eq_cons.mp split
      obtain ⟨rfl, rfl⟩ := List.cons_eq_cons.mp same
      obtain ⟨after, loop, behind⟩ :=
        GetConf.Setup.directives_follows.takes_realm realm rest below below.lines
      exact ⟨after, takes_mailRealmTurn.mpr (.inr ⟨word, _, loop, rfl⟩), behind⟩

end Turned

section Files

variable {Addr : Type} {libc : MailLibc Addr} {turns : Nat} {file : List UInt8} {conf : Conf}

/-- Of a text file `qmail_setup` makes what its lines say, and it comes to its end only if they say
something. -/
theorem mail_setup_reads_file (opened : conf.Opened file) (text : TextFile file)
    (enough : file.length < turns) (settings : MailSettings Addr) :
    (∃ after, (qmailSetup libc turns).run.run conf = .ok (after, .ok settings)) ↔
      Items (MailItem libc) (.default libc) (fileLines file) settings := by
  refine (mail_follows.reads_file opened text enough _ _).trans ⟨?_, fun items => ⟨_, items, rfl⟩⟩
  rintro ⟨read, items, done⟩
  cases done
  exact items

end Files

/-! ### Who logs in -/

section Accounts

variable {Addr : Type} {libc : MailLibc Addr}

inductive MailboxItem (libc : MailLibc Addr) : List Mailbox → List Line → List Mailbox → Prop where
  | server {mbx token args lines} {settings next : MailSettings Addr}
      (word : stricmp (ascii "<server>") token = true)
      (realm : ServerRealm libc settings lines next) :
      MailboxItem libc mbx ((token :: args) :: lines) mbx
  | mailbox {mbx token args lines mbox} (word : stricmp (ascii "<mailbox>") token = true)
      (realm : MailboxRealm lines mbox) : MailboxItem libc mbx ((token :: args) :: lines) (mbox :: mbx)

/-- The mailboxes of the realms of a file, the last one first. -/
def FileMailboxes (libc : MailLibc Addr) (lines : List Line) (mbx : List Mailbox) : Prop :=
  Items (MailboxItem libc) [] lines mbx

theorem smtpRelay_mbx (word : Option Word) (settings : MailSettings Addr) :
    (smtpRelay libc word settings).mbx = settings.mbx := by
  unfold smtpRelay
  repeat' split
  all_goals rfl

theorem directives_mbx {entry : String × (Option Word → MailSettings Addr → MailSettings Addr)}
    (inside : entry ∈ mailDirectives libc) (word : Option Word) (settings : MailSettings Addr) :
    (entry.2 word settings).mbx = settings.mbx := by
  simp only [mailDirectives, List.mem_cons, List.not_mem_nil, or_false] at inside
  rcases inside with rfl | rfl | rfl | rfl | rfl | rfl | rfl | rfl | rfl | rfl | rfl | rfl | rfl | rfl |
    rfl | rfl | rfl
  case inr.inr.inr.inr.inr.inr.inr.inr.inr.inr.inr.inr.inr.inl => exact smtpRelay_mbx word settings
  all_goals cases word <;> rfl

/-- `<server>` leaves the mailboxes. -/
theorem server_mbx {settings next : MailSettings Addr} {lines : List Line}
    (realm : ServerRealm libc settings lines next) : next.mbx = settings.mbx := by
  induction realm with
  | closed closes =>
    cases closes with
    | line closing closed =>
      cases closed
      rfl
  | item some made _ ih =>
    cases made with
    | directive inside known =>
      exact ih.trans (GetConf.Setup.Table.keeps known (fun _ => directives_mbx) ..)

theorem items_mailboxes {settings : MailSettings Addr} {lines : List Line}
    (items : Items (MailItem libc) (.default libc) lines settings) :
    FileMailboxes libc lines settings.mbx := by
  obtain ⟨mbx, boxes, rfl⟩ : ∃ mbx, Items (MailboxItem libc) [] lines mbx ∧ settings.mbx = mbx := by
    refine items.simulate (fun (settings : MailSettings Addr) mbx => settings.mbx = mbx) ?_ rfl
    rintro settings next _ used made rfl
    cases made with
    | server word realm => exact ⟨_, .server word realm, server_mbx realm⟩
    | mailbox word realm => exact ⟨_, .mailbox word realm, rfl⟩
  exact boxes

/-- PASS lets a user in whose mailbox has the password and is free. -/
theorem pass_lets_in {config : PopConfig} {free : Nat → Bool} {conn : PopConn} {read : Received}
    {dir : Option (List DirEntry)} {name : List UInt8} (auth : conn.pstate = .auth)
    (user : conn.user = some name) (long : 7 ≤ read.result) :
    (∃ next answer, pass config free conn read dir = .ok (some next, answer) ∧ next.pstate = .tran) ↔
      ∃ place mbox, config.findMailbox name = some place ∧ config.mbx[place]? = some mbox ∧
        stricmp mbox.password (cstr (read.buffer.drop 5)) = true ∧ free place = true := by
  have ready : ¬ (conn.pstate ≠ .auth ∨ read.result < 7) := by
    rintro (other | short)
    · exact other auth
    · exact absurd long (by omega)
  unfold pass login reply
  rw [if_neg ready]
  simp only [user]
  cases found : config.findMailbox name with
  | none => simp
  | some place =>
    cases there : config.mbx[place]? with
    | none => simp [there]
    | some mbox =>
      cases known : stricmp mbox.password (cstr (read.buffer.drop 5)) <;>
        cases idle : free place <;> simp [there, known, idle]

end Accounts

/-! ### A mailbox -/

/-- Numbers and addresses in decimal, and no names. -/
def decimalMail : MailLibc (List Nat) where
  atoi word := Int32.ofNat (decimal word)
  inetAton word :=
    if (word.splitOn 46).length = 4 then some ((word.splitOn 46).map decimal) else none
  gethostbyname _ := none
  inaddrAny := [0, 0, 0, 0]
  blank := [0, 0, 0, 0]

def annMailbox : Mailbox := ⟨ascii "ann", ascii "word"⟩

/-- The file of a mailbox. -/
def annText : String := "<mailbox>\nuser ann\npassword word\n</mailbox>\n"

theorem annText_items : Items (MailItem decimalMail) (.default decimalMail) (fileLines (ascii annText))
    { MailSettings.default decimalMail with mbx := [annMailbox] } := by
  have lines : fileLines (ascii annText) = ([ascii "<mailbox>"] :: ([[ascii "user", ascii "ann"]] ++
      ([[ascii "password", ascii "word"]] ++ [[ascii "</mailbox>"]]))) ++ [] := by
    decide +kernel
  have user : DirectiveItem (ascii "</mailbox>") mailboxDirectives ⟨none, none⟩
      [[ascii "user", ascii "ann"]]
      (worded (fun word account => { account with user := some word }) (some (ascii "ann"))
        ⟨none, none⟩) := .directive (by decide) rfl
  have password : DirectiveItem (ascii "</mailbox>") mailboxDirectives ⟨some (ascii "ann"), none⟩
      [[ascii "password", ascii "word"]]
      (worded (fun word account => { account with password := some word }) (some (ascii "word"))
        ⟨some (ascii "ann"), none⟩) := .directive (by decide) rfl
  have realm : MailboxRealm ([[ascii "user", ascii "ann"]] ++
      ([[ascii "password", ascii "word"]] ++ [[ascii "</mailbox>"]])) annMailbox :=
    .item (by simp) user (.item (by simp) password (.closed (.line (by decide) rfl)))
  have whole : MailItem decimalMail (.default decimalMail) ([ascii "<mailbox>"] ::
      ([[ascii "user", ascii "ann"]] ++ ([[ascii "password", ascii "word"]] ++ [[ascii "</mailbox>"]])))
      { MailSettings.default decimalMail with mbx := [annMailbox] } := .mailbox (by decide) realm
  rw [lines]
  exact .item (by simp) whole .none

theorem mailbox_is_read : ∃ after, (qmailSetup decimalMail 60).run.run (opensText annText) =
    .ok (after, .ok { MailSettings.default decimalMail with mbx := [annMailbox] }) :=
  (mail_setup_reads_file (opensText_opened annText) (by decide +kernel)
    (by decide +kernel : (ascii annText).length < 60) _).mpr annText_items

def annUser : PopConn where
  user := some (ascii "ann")
  greeting := []
  pstate := .auth
  msgs := []
  mbox := none

/-- No other session has a mailbox. -/
def anyFree (_ : Nat) : Bool := true

end QNXStuff.QXMail
