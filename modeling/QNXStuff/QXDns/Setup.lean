import QNXStuff.GetConf.Realms
import QNXStuff.QXDns.Configuration

/-! The configuration file of the DNS server: what `qxdns_setup` does with its words, and what its lines
say. -/

namespace QNXStuff.QXDns

open Execution
open QXMail (ascii stricmp)
open GetConf (Word Line Ahead Setup Conf TextFile)
open GetConf.Setup (Takes Realm Items Follows Closes DirectiveItem Table eachToken eachString worded
  directives takes_word stricmp_other fileLines)

/-- `atoi` and `inet_aton`. -/
structure SetupLibc where
  atoi : Word → Int32
  inetAton : Word → Option InAddr

/-- Whether `malloc` has memory for an array of the cache of so many bytes, and for a buffer behind
so many others. What the realms ask for, records and sockets, they get. -/
structure SetupHeap where
  cache : UInt32 → Bool
  buffer : Nat → Bool

/-- Why the server does not start. -/
inductive SetupFault where
  | unknownDirective (directive : Word)
  | unknownRealm
  | unendedRealm (realm : Word)
  | noZoneName
  | noHostTtl
  | noHostCname
  | written (fault : MasterFault)
  | noCache
  | noBuffer
  | spent

/-- What the file sets, the last connector and the last zone first. -/
structure Settings where
  loWater : Int32
  hiWater : Int32
  increment : Int32
  maximum : Int32
  cMax : Int32
  cTtl : Int32
  numBufs : Int32
  bindConnectors : List InAddr
  srvrConnectors : List InAddr
  rootZone : List MasterZone

def Settings.default : Settings where
  loWater := 2
  hiWater := 5
  increment := 2
  maximum := 9
  cMax := 100
  cTtl := 86400
  numBufs := 200
  bindConnectors := []
  srvrConnectors := []
  rootZone := []

def inaddrAny : InAddr := ⟨0, 0, 0, 0⟩

/-- The file ends within a realm. -/
def unendedRealm {State Result : Type} (realm : String) (_ : State) : Except SetupFault Result :=
  .error (.unendedRealm (ascii realm))

/-- "if there are no binding connectors - make one default" -/
def Settings.finish (settings : Settings) : Settings :=
  if settings.bindConnectors = [] then { settings with bindConnectors := [inaddrAny] } else settings

section Memory

variable (heap : SetupHeap)

/-- `CacheMAX * sizeof(qxdns_cr_t*)` -/
def cacheBytes (cMax : Int32) : UInt32 := cMax.toUInt32 * 4

/-- `if(!qxdns_cache_init(c_max,c_ttl)) exit(EXIT_FAILURE);` -/
def makeCache (cMax : Int32) : Except SetupFault Unit :=
  if heap.cache (cacheBytes cMax) then .ok () else .error .noCache

/-- `for(num_bufs; num_bufs>0; num_bufs--)`, with the buffers made before. -/
def makeBuffers (made : Nat) : (numBufs : Nat) → Except SetupFault Unit
  | 0 => .ok ()
  | numBufs + 1 => if heap.buffer made then makeBuffers (made + 1) numBufs else .error .noBuffer

/-- What is behind the realms: the connectors, the cache and the buffers. -/
def Settings.prepare (settings : Settings) : Except SetupFault Settings := do
  makeCache heap settings.finish.cMax
  makeBuffers heap 0 settings.finish.numBufs.toInt.toNat
  return settings.finish

/-- There is memory for the cache and for the buffers. -/
structure SetupHeap.Allocates (settings : Settings) : Prop where
  cache : heap.cache (cacheBytes settings.cMax) = true
  buffers : ∀ made < settings.numBufs.toInt.toNat, heap.buffer made = true

variable {heap}

theorem makeBuffers_ok {made numBufs : Nat} :
    makeBuffers heap made numBufs = .ok () ↔
      ∀ more < numBufs, heap.buffer (made + more) = true := by
  induction numBufs generalizing made with
  | zero => exact ⟨fun _ more before => absurd before (Nat.not_lt_zero more), fun _ => rfl⟩
  | succ numBufs ih =>
    rw [makeBuffers, Nat.forall_lt_succ_left]
    split
    · next there =>
      rw [ih]
      simp only [Nat.add_zero, there, true_and, Nat.add_assoc, Nat.add_comm 1]
    · next missing => exact ⟨nofun, fun all => absurd all.1 missing⟩

theorem Settings.prepare_ok {settings made : Settings} :
    settings.prepare heap = .ok made ↔ made = settings.finish ∧ heap.Allocates made := by
  unfold Settings.prepare makeCache
  have buffers := @makeBuffers_ok heap 0 settings.finish.numBufs.toInt.toNat
  simp only [Nat.zero_add] at buffers
  constructor
  · intro done
    split at done
    · next there =>
      cases ready : makeBuffers heap 0 settings.finish.numBufs.toInt.toNat with
      | error fault =>
        rw [ready] at done
        cases done
      | ok _ =>
        rw [ready] at done
        cases done
        exact ⟨rfl, there, buffers.mp ready⟩
    · cases done
  · rintro ⟨rfl, there, all⟩
    rw [if_pos there, buffers.mpr all]
    rfl

end Memory

section Turns

variable (libc : SetupLibc) (heap : SetupHeap) (turns : Nat)

/-- A connector's address stays zero where `inet_aton` fails. -/
def SetupLibc.connector (word : Word) : InAddr := (libc.inetAton word).getD inaddrAny

/-- The directives of `<server>`, which do nothing without a word. -/
def serverDirectives : Table Settings :=
  [("POOLLOWATER", worded fun word settings => { settings with loWater := libc.atoi word }),
    ("POOLHIWATER", worded fun word settings => { settings with hiWater := libc.atoi word }),
    ("POOLMAX", worded fun word settings => { settings with maximum := libc.atoi word }),
    ("POOLINCREMENT", worded fun word settings => { settings with increment := libc.atoi word }),
    ("CACHEMAX", worded fun word settings => { settings with cMax := libc.atoi word }),
    ("CACHETTL", worded fun word settings => { settings with cTtl := libc.atoi word }),
    ("QUEUELEN", worded fun word settings => { settings with numBufs := libc.atoi word }),
    ("BIND", worded fun word settings =>
      { settings with bindConnectors := libc.connector word :: settings.bindConnectors }),
    ("EXTERNALDNS", worded fun word settings =>
      { settings with srvrConnectors := libc.connector word :: settings.srvrConnectors })]

/-- What a closing tag makes of a realm. -/
def closed {State : Type} (state : State) : Except SetupFault State := .ok state

def serverTurn : Settings → Word → Setup SetupFault (Pass Settings Settings) :=
  directives (ascii "</server>") closed (serverDirectives libc) .unknownDirective

def addAlias (host : MasterRecord) (name : Word) : Except SetupFault MasterRecord :=
  (qxdnsAddMrAlias host name).mapError .written

/-- A word that is no address is left out. -/
def addAddress (host : MasterRecord) (word : Word) : Except SetupFault MasterRecord :=
  match libc.inetAton word with
  | none => .ok host
  | some addr => (qxdnsAddMrAddr host addr).mapError .written

def newHost (cname ttl : Word) : Except SetupFault MasterRecord :=
  (qxdnsNewMr cname (libc.atoi ttl).toUInt32).mapError .written

def newZone (rootZone : List MasterZone) (name : Word) : Except SetupFault (List MasterZone) :=
  (qxdnsNewMz rootZone name).mapError .written

/-- The directives for the lists of name servers and mail exchangers, which no lookup reads. -/
def isNoted (token : Word) : Bool := stricmp (ascii "ns") token || stricmp (ascii "mx") token

def hostTurn (host : MasterRecord) (token : Word) : Setup SetupFault (Pass MasterRecord MasterRecord) :=
  if stricmp (ascii "</host>") token then pure (.stop host)
  else if stricmp (ascii "alias") token then do
    let host ← eachToken .spent addAlias turns host
    pure (.again host)
  else if stricmp (ascii "address") token then do
    let host ← eachToken .spent (addAddress libc) turns host
    pure (.again host)
  else if isNoted token then do
    let _ ← Setup.token
    pure (.again host)
  else throw (.unknownDirective token)

def zoneTurn (zones : List MasterZone) (token : Word) :
    Setup SetupFault (Pass (List MasterZone) (List MasterZone)) :=
  if stricmp (ascii "</zone>") token then pure (.stop zones)
  else if stricmp (ascii "<host>") token then do
    let some ttl ← Setup.token | throw .noHostTtl
    let some cname ← Setup.token | throw .noHostCname
    -- what else the line holds is lost when the next one is read
    let tmpHost ← Setup.ofExcept (newHost libc cname ttl)
    let host ← eachString .spent (hostTurn libc turns) (unendedRealm "<host>") turns tmpHost
    pure (.again (zones.modifyHead (qxdnsAddMr · host)))
  else throw (.unknownDirective token)

def realmTurn (settings : Settings) (token : Word) : Setup SetupFault (Pass Settings Settings) :=
  if stricmp (ascii "<server>") token then do
    let settings ←
      eachString .spent (serverTurn libc) (unendedRealm "<server>") turns settings
    pure (.again settings)
  else if stricmp (ascii "<zone>") token then do
    let some name ← Setup.token | throw .noZoneName
    let tmpZone ← Setup.ofExcept (newZone settings.rootZone name)
    let zones ← eachString .spent (zoneTurn libc turns) (unendedRealm "<zone>") turns tmpZone
    pure (.again { settings with rootZone := zones })
  else throw .unknownRealm

def qxdnsSetup : Setup SetupFault Settings :=
  eachString .spent (realmTurn libc turns) (Settings.prepare heap) turns .default

end Turns

/-! ### What lines say -/

section Grammar

variable (libc : SetupLibc)

inductive HostItem : MasterRecord → List Line → MasterRecord → Prop where
  | aliases {host token names next} (word : stricmp (ascii "alias") token = true)
      (added : names.foldlM addAlias host = .ok next) : HostItem host [token :: names] next
  | addresses {host token words next} (word : stricmp (ascii "address") token = true)
      (added : words.foldlM (addAddress libc) host = .ok next) : HostItem host [token :: words] next
  | noted {host token args} (word : isNoted token = true) : HostItem host [token :: args] host

inductive ZoneItem : List MasterZone → List Line → List MasterZone → Prop where
  | host {zones token ttl cname args tmpHost lines host} (word : stricmp (ascii "<host>") token = true)
      (named : newHost libc cname ttl = .ok tmpHost)
      (realm : Realm (HostItem libc) (Closes (ascii "</host>") closed) tmpHost lines host) :
      ZoneItem zones ((token :: ttl :: cname :: args) :: lines)
        (zones.modifyHead (qxdnsAddMr · host))

/-- A realm `<server>` up to its closing tag. -/
abbrev ServerRealm (settings : Settings) (lines : List Line) (next : Settings) : Prop :=
  Realm (DirectiveItem (ascii "</server>") (serverDirectives libc)) (Closes (ascii "</server>") closed)
    settings lines next

inductive FileItem : Settings → List Line → Settings → Prop where
  | server {settings token args lines next} (word : stricmp (ascii "<server>") token = true)
      (realm : ServerRealm libc settings lines next) :
      FileItem settings ((token :: args) :: lines) next
  | zone {settings token name args tmpZone lines zones} (word : stricmp (ascii "<zone>") token = true)
      (named : newZone settings.rootZone name = .ok tmpZone)
      (realm : Realm (ZoneItem libc) (Closes (ascii "</zone>") closed) tmpZone lines zones) :
      FileItem settings ((token :: name :: args) :: lines) { settings with rootZone := zones }

def FileSays (lines : List Line) (settings : Settings) : Prop :=
  ∃ read, Items (FileItem libc) .default lines read ∧ settings = read.finish

end Grammar

/-! ### A turn of each loop -/

section Turned

variable {libc : SetupLibc} {turns : Nat} {ahead after : Ahead} {token : Word}

theorem mapError_eq_ok {Value Error Error' : Type} {result : Except Error Value} {wrap : Error → Error'}
    {value : Value} : result.mapError wrap = .ok value ↔ result = .ok value := by
  cases result <;> simp [Except.mapError]

theorem not_noted {tag : Word} (ns : stricmp tag (ascii "ns") = false)
    (mx : stricmp tag (ascii "mx") = false) (same : stricmp tag token = true) :
    isNoted token = false := by
  rw [isNoted, stricmp_other _ ns same, stricmp_other _ mx same]
  rfl

theorem noted_other (tag : Word) (ns : stricmp (ascii "ns") tag = false)
    (mx : stricmp (ascii "mx") tag = false) (noted : isNoted token = true) :
    stricmp tag token = false := by
  rcases Bool.or_eq_true_iff.mp noted with same | same
  · exact stricmp_other _ ns same
  · exact stricmp_other _ mx same

theorem takes_hostTurn {host : MasterRecord} {pass : Pass MasterRecord MasterRecord}
    (short : ahead.args.length < turns) :
    Takes (hostTurn libc turns host token) ahead pass after ↔
      (stricmp (ascii "</host>") token = true ∧ pass = .stop host ∧ after = ahead) ∨
      ∃ next, pass = .again next ∧ HostItem libc host [token :: ahead.args] next ∧
        after = { ahead with args := if isNoted token then ahead.args.tail else [] } := by
  constructor
  · intro taken
    unfold hostTurn at taken
    split at taken
    next closing =>
      obtain ⟨rfl, rfl⟩ := Setup.takes_pure'.mp taken
      exact .inl ⟨closing, rfl, rfl⟩
    split at taken
    next word =>
      obtain ⟨next, _, folded, taken⟩ := Setup.takes_bind.mp taken
      obtain ⟨added, rfl⟩ := (Setup.takes_eachToken short).mp folded
      obtain ⟨rfl, rfl⟩ := Setup.takes_pure'.mp taken
      rw [not_noted (by decide) (by decide) word]
      exact .inr ⟨next, rfl, .aliases word added, rfl⟩
    split at taken
    next word =>
      obtain ⟨next, _, folded, taken⟩ := Setup.takes_bind.mp taken
      obtain ⟨added, rfl⟩ := (Setup.takes_eachToken short).mp folded
      obtain ⟨rfl, rfl⟩ := Setup.takes_pure'.mp taken
      rw [not_noted (by decide) (by decide) word]
      exact .inr ⟨next, rfl, .addresses word added, rfl⟩
    split at taken
    next word =>
      obtain ⟨_, _, read, taken⟩ := Setup.takes_bind.mp taken
      obtain ⟨rfl, rfl⟩ := Setup.takes_token.mp read
      obtain ⟨rfl, rfl⟩ := Setup.takes_pure'.mp taken
      rw [word]
      exact .inr ⟨host, rfl, .noted word, rfl⟩
    next => exact absurd taken Setup.not_takes_throw
  · rintro (⟨closing, rfl, rfl⟩ | ⟨next, rfl, made, rfl⟩)
    · unfold hostTurn
      rw [if_pos closing]
      exact Setup.takes_pure.mpr rfl
    · unfold hostTurn
      cases made with
      | aliases word added =>
        rw [stricmp_other _ (by decide) word, not_noted (by decide) (by decide) word]
        simp only [Bool.false_eq_true, ↓reduceIte, word]
        exact Setup.takes_bind.mpr
          ⟨next, _, (Setup.takes_eachToken short).mpr ⟨added, rfl⟩, Setup.takes_pure.mpr rfl⟩
      | addresses word added =>
        rw [stricmp_other _ (by decide) word, stricmp_other (ascii "alias") (by decide) word,
          not_noted (by decide) (by decide) word]
        simp only [Bool.false_eq_true, ↓reduceIte, word]
        exact Setup.takes_bind.mpr
          ⟨next, _, (Setup.takes_eachToken short).mpr ⟨added, rfl⟩, Setup.takes_pure.mpr rfl⟩
      | noted word =>
        simp only [noted_other (ascii "</host>") (by decide) (by decide) word,
          noted_other (ascii "alias") (by decide) (by decide) word,
          noted_other (ascii "address") (by decide) (by decide) word, word,
          Bool.false_eq_true, ↓reduceIte]
        exact Setup.takes_bind.mpr
          ⟨_, _, Setup.takes_token.mpr ⟨rfl, rfl⟩, Setup.takes_pure.mpr rfl⟩

theorem HostItem.line {host next : MasterRecord} {used : List Line}
    (made : HostItem libc host used next) : ∃ token words, used = [token :: words] := by
  cases made <;> exact ⟨_, _, rfl⟩

theorem host_follows : Follows turns (hostTurn libc turns) (HostItem libc)
    (Closes (ascii "</host>") closed) where
  stops _ short taken := by
    rcases (takes_hostTurn short).mp taken with ⟨closing, same, rfl⟩ | ⟨_, same, _, _⟩
    · cases same
      exact ⟨.line closing rfl, rfl⟩
    · cases same
  goes _ short taken := by
    rcases (takes_hostTurn short).mp taken with ⟨_, same, _⟩ | ⟨_, same, made, rfl⟩
    · cases same
    · cases same
      exact ⟨_, List.cons_ne_nil _ [], rfl, made⟩
  closes _ short closes := by
    cases closes with
    | line closing closed =>
      cases closed
      exact ⟨_, (takes_hostTurn short).mpr (.inl ⟨closing, rfl, rfl⟩), rfl⟩
  items _ short made split := by
    obtain ⟨token, words, rfl⟩ := made.line
    obtain ⟨same, rest⟩ := List.cons_eq_cons.mp split
    obtain ⟨rfl, rfl⟩ := List.cons_eq_cons.mp same
    exact ⟨_, (takes_hostTurn short).mpr (.inr ⟨_, rfl, made, rfl⟩), rest⟩

/-- The end of the file closes no realm: `Error in <zone> realm` and the like. -/
theorem unended {State Result : Type} (realm : String) (state : State) (result : Result) :
    unendedRealm realm state ≠ .ok result := by
  simp [unendedRealm]

theorem takes_zoneTurn {zones : List MasterZone} {pass : Pass (List MasterZone) (List MasterZone)} :
    Takes (zoneTurn libc turns zones token) ahead pass after ↔
      (stricmp (ascii "</zone>") token = true ∧ pass = .stop zones ∧ after = ahead) ∨
      (stricmp (ascii "<host>") token = true ∧ ∃ ttl cname args tmpHost host,
        ahead.args = ttl :: cname :: args ∧ newHost libc cname ttl = .ok tmpHost ∧
        Takes (eachString .spent (hostTurn libc turns) (unendedRealm "<host>") turns tmpHost)
          { ahead with args := args } host after ∧
        pass = .again (zones.modifyHead (qxdnsAddMr · host))) := by
  constructor
  · intro taken
    unfold zoneTurn at taken
    split at taken
    next closing =>
      obtain ⟨rfl, rfl⟩ := Setup.takes_pure'.mp taken
      exact .inl ⟨closing, rfl, rfl⟩
    split at taken
    next word =>
      obtain ⟨ttl, _, first, taken⟩ := takes_word.mp taken
      obtain ⟨cname, args, second, taken⟩ := takes_word.mp taken
      cases second
      obtain ⟨tmpHost, _, made, taken⟩ := Setup.takes_bind.mp taken
      obtain ⟨named, rfl⟩ := Setup.takes_ofExcept.mp made
      obtain ⟨host, _, realm, taken⟩ := Setup.takes_bind.mp taken
      obtain ⟨rfl, rfl⟩ := Setup.takes_pure'.mp taken
      exact .inr ⟨word, ttl, cname, args, tmpHost, host, first, named, realm, rfl⟩
    next => exact absurd taken Setup.not_takes_throw
  · rintro (⟨closing, rfl, rfl⟩ | ⟨word, ttl, cname, args, tmpHost, host, words, named, realm, rfl⟩)
    · unfold zoneTurn
      rw [if_pos closing]
      exact Setup.takes_pure.mpr rfl
    · unfold zoneTurn
      rw [stricmp_other _ (by decide) word]
      simp only [Bool.false_eq_true, ↓reduceIte, word]
      refine takes_word.mpr ⟨ttl, _, words, takes_word.mpr ⟨cname, args, rfl, ?_⟩⟩
      exact Setup.takes_bind.mpr ⟨tmpHost, _, Setup.takes_ofExcept.mpr ⟨named, rfl⟩,
        Setup.takes_bind.mpr ⟨host, _, realm, Setup.takes_pure.mpr rfl⟩⟩

theorem zone_follows : Follows turns (zoneTurn libc turns) (ZoneItem libc)
    (Closes (ascii "</zone>") closed) where
  stops _ _ taken := by
    rcases takes_zoneTurn.mp taken with ⟨closing, same, rfl⟩ | ⟨_, _, _, _, _, _, _, _, _, same⟩
    · cases same
      exact ⟨.line closing rfl, rfl⟩
    · cases same
  goes {zones token _ _ _} below _ taken := by
    rcases takes_zoneTurn.mp taken with
      ⟨_, same, _⟩ | ⟨word, ttl, cname, args, tmpHost, host, words, named, loop, same⟩
    · cases same
    · cases same
      obtain ⟨used, split, realm⟩ := host_follows.realm (unended _) (below.skip args) loop
      have made : ZoneItem libc zones ((token :: ttl :: cname :: args) :: used) _ :=
        .host word named realm
      refine ⟨_, List.cons_ne_nil _ used, ?_, made⟩
      rw [words, List.cons_append]
      exact congrArg (_ :: ·) split
  closes _ _ closes := by
    cases closes with
    | line closing closed =>
      cases closed
      exact ⟨_, takes_zoneTurn.mpr (.inl ⟨closing, rfl, rfl⟩), rfl⟩
  items {_ _ ahead _ _ more} below _ made split := by
    cases made with
    | @host _ ttl cname args _ lines _ word named realm =>
      obtain ⟨same, rest⟩ := List.cons_eq_cons.mp split
      obtain ⟨rfl, words⟩ := List.cons_eq_cons.mp same
      have skipped : Ahead.rest { ahead with args := args } = lines ++ more := rest
      obtain ⟨after, loop, behind⟩ :=
        host_follows.takes_realm realm skipped (below.skip args) below.lines
      exact ⟨after, takes_zoneTurn.mpr
        (.inr ⟨word, _, _, _, _, _, words, named, loop, rfl⟩), behind⟩

theorem takes_realmTurn {settings : Settings} {pass : Pass Settings Settings} :
    Takes (realmTurn libc turns settings token) ahead pass after ↔
      (stricmp (ascii "<server>") token = true ∧ ∃ next,
        Takes (eachString .spent (serverTurn libc) (unendedRealm "<server>") turns settings)
          ahead next after ∧ pass = .again next) ∨
      (stricmp (ascii "<zone>") token = true ∧ ∃ name args tmpZone zones,
        ahead.args = name :: args ∧ newZone settings.rootZone name = .ok tmpZone ∧
        Takes (eachString .spent (zoneTurn libc turns) (unendedRealm "<zone>") turns tmpZone)
          { ahead with args := args } zones after ∧
        pass = .again { settings with rootZone := zones }) := by
  constructor
  · intro taken
    unfold realmTurn at taken
    split at taken
    next word =>
      obtain ⟨next, _, realm, taken⟩ := Setup.takes_bind.mp taken
      obtain ⟨rfl, rfl⟩ := Setup.takes_pure'.mp taken
      exact .inl ⟨word, next, realm, rfl⟩
    split at taken
    next word =>
      obtain ⟨name, args, words, taken⟩ := takes_word.mp taken
      obtain ⟨tmpZone, _, made, taken⟩ := Setup.takes_bind.mp taken
      obtain ⟨named, rfl⟩ := Setup.takes_ofExcept.mp made
      obtain ⟨zones, _, realm, taken⟩ := Setup.takes_bind.mp taken
      obtain ⟨rfl, rfl⟩ := Setup.takes_pure'.mp taken
      exact .inr ⟨word, name, args, tmpZone, zones, words, named, realm, rfl⟩
    next => exact absurd taken Setup.not_takes_throw
  · rintro (⟨word, next, realm, rfl⟩ | ⟨word, name, args, tmpZone, zones, words, named, realm, rfl⟩)
    · unfold realmTurn
      rw [if_pos word]
      exact Setup.takes_bind.mpr ⟨next, _, realm, Setup.takes_pure.mpr rfl⟩
    · unfold realmTurn
      rw [stricmp_other _ (by decide) word]
      simp only [Bool.false_eq_true, ↓reduceIte, word]
      refine takes_word.mpr ⟨name, args, words, ?_⟩
      exact Setup.takes_bind.mpr ⟨tmpZone, _, Setup.takes_ofExcept.mpr ⟨named, rfl⟩,
        Setup.takes_bind.mpr ⟨zones, _, realm, Setup.takes_pure.mpr rfl⟩⟩

theorem file_follows : Follows turns (realmTurn libc turns) (FileItem libc)
    fun _ _ _ => False where
  stops _ _ taken := by
    rcases takes_realmTurn.mp taken with ⟨_, _, _, same⟩ | ⟨_, _, _, _, _, _, _, _, same⟩
    · cases same
    · cases same
  goes {settings token ahead _ _} below _ taken := by
    rcases takes_realmTurn.mp taken with
      ⟨word, next, loop, same⟩ | ⟨word, name, args, tmpZone, zones, words, named, loop, same⟩
    · cases same
      obtain ⟨used, split, realm⟩ := Setup.directives_follows.realm (unended _) below loop
      have made : FileItem libc settings ((token :: ahead.args) :: used) _ := .server word realm
      exact ⟨_, List.cons_ne_nil _ used, congrArg (_ :: ·) split, made⟩
    · cases same
      obtain ⟨used, split, realm⟩ := zone_follows.realm (unended _) (below.skip args) loop
      have made : FileItem libc settings ((token :: name :: args) :: used) _ :=
        .zone word named realm
      refine ⟨_, List.cons_ne_nil _ used, ?_, made⟩
      rw [words, List.cons_append]
      exact congrArg (_ :: ·) split
  closes _ _ closes := closes.elim
  items {_ _ ahead _ _ more} below _ made split := by
    cases made with
    | server word realm =>
      obtain ⟨same, rest⟩ := List.cons_eq_cons.mp split
      obtain ⟨rfl, rfl⟩ := List.cons_eq_cons.mp same
      obtain ⟨after, loop, behind⟩ :=
        Setup.directives_follows.takes_realm realm rest below below.lines
      exact ⟨after, takes_realmTurn.mpr (.inl ⟨word, _, loop, rfl⟩), behind⟩
    | @zone _ name args _ lines _ word named realm =>
      obtain ⟨same, rest⟩ := List.cons_eq_cons.mp split
      obtain ⟨rfl, words⟩ := List.cons_eq_cons.mp same
      have skipped : Ahead.rest { ahead with args := args } = lines ++ more := rest
      obtain ⟨after, loop, behind⟩ :=
        zone_follows.takes_realm realm skipped (below.skip args) below.lines
      exact ⟨after, takes_realmTurn.mpr (.inr ⟨word, _, _, _, _, words, named, loop, rfl⟩), behind⟩

end Turned

/-! ### The file -/

section Files

variable {libc : SetupLibc} {turns : Nat} {file : List UInt8}

/-- Of a text file `qxdns_setup` makes what its lines say, and it comes to its end only if they say
something that there is memory for. -/
theorem setup_reads_file {conf : Conf} (opened : conf.Opened file) (text : TextFile file)
    (enough : file.length < turns) (heap : SetupHeap) (settings : Settings) :
    (∃ after, (qxdnsSetup libc heap turns).run.run conf = .ok (after, .ok settings)) ↔
      FileSays libc (fileLines file) settings ∧ heap.Allocates settings := by
  refine (file_follows.reads_file opened text enough _ _).trans ?_
  simp only [Settings.prepare_ok]
  constructor
  · rintro ⟨read, items, same, memory⟩
    exact ⟨⟨read, items, same⟩, memory⟩
  · rintro ⟨⟨read, items, same⟩, memory⟩
    exact ⟨read, items, same, memory⟩

end Files

def decimalLibc : SetupLibc where
  atoi word := Int32.ofNat (decimalValue word)
  inetAton word :=
    match word.splitOn 46 with
    | [a, b, c, d] => some ⟨UInt8.ofNat (decimalValue a), UInt8.ofNat (decimalValue b),
      UInt8.ofNat (decimalValue c), UInt8.ofNat (decimalValue d)⟩
    | _ => none

/-- A heap of 16 MB for the cache and 4096 buffers. -/
def smallHeap : SetupHeap where
  cache bytes := bytes.toNat ≤ 2 ^ 24
  buffer made := made < 4096

/-- A file with one directive. -/
def cacheText : String := "<server>\nCACHEMAX 50\n</server>\n"
/-- Two hundred buffers are not too many. -/
theorem smallHeap_buffers (made : Nat) (before : made < Settings.default.numBufs.toInt.toNat) :
    smallHeap.buffer made = true :=
  decide_eq_true (Nat.lt_of_lt_of_le before (by decide))

theorem cache_size_is_read : ∃ after,
    (qxdnsSetup decimalLibc smallHeap 40).run.run (GetConf.opensText cacheText) =
      .ok (after, .ok { Settings.default with cMax := 50, bindConnectors := [inaddrAny] }) := by
  have lines : fileLines (ascii cacheText) = ([ascii "<server>"] ::
      ([[ascii "CACHEMAX", ascii "50"]] ++ [[ascii "</server>"]])) ++ [] := by
    decide +kernel
  have set : DirectiveItem (ascii "</server>") (serverDirectives decimalLibc) .default
      [[ascii "CACHEMAX", ascii "50"]]
      (worded (fun word settings => { settings with cMax := decimalLibc.atoi word })
        (some (ascii "50")) Settings.default) :=
    .directive (by decide) rfl
  have server : FileItem decimalLibc .default
      ([ascii "<server>"] :: ([[ascii "CACHEMAX", ascii "50"]] ++ [[ascii "</server>"]]))
      { Settings.default with cMax := 50 } :=
    .server (by decide) (.item (by simp) set (.closed (.line (by decide) rfl)))
  refine (setup_reads_file (GetConf.opensText_opened cacheText) (by decide +kernel)
    (by decide +kernel : (ascii cacheText).length < 40) smallHeap _).mpr
    ⟨⟨{ Settings.default with cMax := 50 }, ?_, rfl⟩, by decide, smallHeap_buffers⟩
  rw [lines]
  exact .item (by simp) server .none

/-- Of a cache size whose bytes there is no memory for the server does not come to its end, whatever
the lines say. -/
theorem huge_cache_is_not_set_up (settings : Settings) (size : settings.cMax = -1) {file : List UInt8}
    {conf : Conf} (opened : conf.Opened file) (text : TextFile file) (turns : Nat)
    (enough : file.length < turns) :
    ¬ ∃ after, (qxdnsSetup decimalLibc smallHeap turns).run.run conf =
      .ok (after, .ok settings) := by
  rw [setup_reads_file opened text enough]
  rintro ⟨-, memory, -⟩
  rw [size] at memory
  exact absurd memory (by decide)

end QNXStuff.QXDns
