import QNXStuff.QXDns.MasterReplies

/-! The configured database: what is stored for its names, and which host a search finds. -/

namespace QNXStuff.QXDns

open Execution Memory
open QXMail (ascii toupper wireLabels)

/-- A name in the configuration: its labels, and whether the name of the zone is to follow. -/
structure ConfigName where
  labels : List (List UInt8)
  relative : Bool

namespace ConfigName

def text (name : ConfigName) : List UInt8 := hostText name.labels name.relative

def stored (name : ConfigName) : List UInt8 := storedName name.labels name.relative

def full (name : ConfigName) (zone : List (List UInt8)) : List (List UInt8) :=
  name.labels ++ if name.relative then zone else []

end ConfigName

def arpaName (addr : InAddr) : ConfigName where
  labels := [addr.d, addr.c, addr.b, addr.a].map decimal ++ [ascii "IN-ADDR", ascii "ARPA"]
  relative := false

/-- A host of the configuration. Its aliases and addresses are in the order of the lists, the last
one first. -/
structure HostEntry where
  name : ConfigName
  ttl : UInt32
  aliases : List ConfigName
  addrs : List InAddr

structure ZoneEntry where
  labels : List (List UInt8)
  hosts : List HostEntry

inductive HostConfigured : HostEntry → MasterRecord → Prop where
  | cname {name ttl record} (plain : HostName name.labels)
      (done : qxdnsNewMr name.text ttl = .ok record) : HostConfigured ⟨name, ttl, [], []⟩ record
  | aliased {host record name next} (before : HostConfigured host record)
      (plain : HostName name.labels) (done : qxdnsAddMrAlias record name.text = .ok next) :
      HostConfigured { host with aliases := name :: host.aliases } next
  | addressed {host record addr next} (before : HostConfigured host record)
      (done : qxdnsAddMrAddr record addr = .ok next) :
      HostConfigured { host with addrs := addr :: host.addrs } next

/-- The calls for the zones: hosts are added to the last one. -/
inductive Configured : List ZoneEntry → List MasterZone → Prop where
  | none : Configured [] []
  | zone {entries rootZone labels next} (before : Configured entries rootZone)
      (plain : HostName labels) (done : qxdnsNewMz rootZone (hostText labels false) = .ok next) :
      Configured (⟨labels, []⟩ :: entries) next
  | host {zone entries tmpZone rootZone host record}
      (before : Configured (zone :: entries) (tmpZone :: rootZone))
      (configured : HostConfigured host record) :
      Configured ({ zone with hosts := host :: zone.hosts } :: entries)
        (qxdnsAddMr tmpZone record :: rootZone)

/-! ### What is stored -/

def HostEntry.record (host : HostEntry) : MasterRecord where
  ttl := host.ttl
  aliases := host.aliases.map ConfigName.stored
  inaddrs := host.addrs.map fun addr => { addr := addr, ttl := host.ttl, arpa := (arpaName addr).stored }
  cname := host.name.stored

def ZoneEntry.zone (zone : ZoneEntry) : MasterZone where
  hosts := zone.hosts.map HostEntry.record
  zoneName := storedName zone.labels false

/-- The names of a host can be stored. -/
structure HostEntry.Plain (host : HostEntry) : Prop where
  name : HostName host.name.labels
  aliases : ∀ name ∈ host.aliases, HostName name.labels

structure ZoneEntry.Plain (zone : ZoneEntry) : Prop where
  labels : HostName zone.labels
  hosts : ∀ host ∈ zone.hosts, host.Plain

section Storing

theorem decimal_plain (number : UInt8) : (0 < (decimal number).length ∧ (decimal number).length < 4) ∧
    (46 : UInt8) ∉ decimal number ∧ (0 : UInt8) ∉ decimal number ∧ (0xC0 : UInt8) ∉ decimal number := by
  have all : ∀ number < 256, (0 < (decimal (UInt8.ofNat number)).length ∧
      (decimal (UInt8.ofNat number)).length < 4) ∧ (46 : UInt8) ∉ decimal (UInt8.ofNat number) ∧
      (0 : UInt8) ∉ decimal (UInt8.ofNat number) ∧ (0xC0 : UInt8) ∉ decimal (UInt8.ofNat number) := by
    decide +kernel
  have this := all number.toNat number.toNat_lt
  rwa [UInt8.ofNat_toNat] at this

theorem arpaName_plain (addr : InAddr) : HostName (arpaName addr).labels := by
  have each : ∀ label ∈ (arpaName addr).labels, (0 < label.length ∧ label.length < 64) ∧
      (46 : UInt8) ∉ label ∧ (0 : UInt8) ∉ label ∧ (0xC0 : UInt8) ∉ label := by
    refine List.forall_mem_append.mpr ⟨fun label member => ?_, by decide⟩
    obtain ⟨number, _, rfl⟩ := List.mem_map.mp member
    obtain ⟨⟨some, short⟩, plain⟩ := decimal_plain number
    exact ⟨⟨some, Nat.lt_trans short (by decide)⟩, plain⟩
  exact ⟨List.cons_ne_nil _ _, fun label member => (each label member).1,
    fun label member => (each label member).2⟩

theorem arpaText_length (addr : InAddr) : (arpaText addr).length ≤ 28 := by
  have first := (decimal_plain addr.a).1
  have second := (decimal_plain addr.b).1
  have third := (decimal_plain addr.c).1
  have fourth := (decimal_plain addr.d).1
  have behind : (ascii ".IN-ADDR.ARPA").length = 13 := by decide
  simp only [arpaText, List.intercalate, List.map_cons, List.map_nil, List.intersperse_cons_cons,
    List.intersperse_singleton, List.flatten_cons, List.flatten_nil, List.append_nil,
    List.cons_append, List.nil_append, List.append_assoc, List.length_append, List.length_cons,
    behind]
  omega

/-- The text of an address fits the buffer it is printed to. -/
theorem arpaName_text (addr : InAddr) : (arpaText addr).take 31 = (arpaName addr).text := by
  have same : arpaText addr = (arpaName addr).text := by
    simp only [arpaText, List.intercalate, List.map_cons, List.map_nil, List.intersperse_cons_cons,
      List.intersperse_singleton, List.flatten_cons, List.flatten_nil, List.append_nil,
      List.cons_append, List.nil_append, List.append_assoc, ConfigName.text, hostText, arpaName,
      Bool.false_eq_true, ↓reduceIte, List.append_cancel_left_eq, List.cons.injEq, true_and]
    decide
  rw [← same, List.take_of_length_le (Nat.le_trans (arpaText_length addr) (by decide))]

theorem qxdnsAddMrAddr_stored {record next : MasterRecord} {addr : InAddr}
    (done : qxdnsAddMrAddr record addr = .ok next) : next = { record with
      inaddrs := { addr := addr, ttl := record.ttl, arpa := (arpaName addr).stored } ::
        record.inaddrs } := by
  obtain ⟨arpa, stored, done⟩ := bind_eq_ok.mp done
  cases done
  rw [arpaName_text] at stored
  rw [(arpaName_plain addr).stored stored]
  rfl

theorem HostConfigured.stored {host : HostEntry} {record : MasterRecord}
    (configured : HostConfigured host record) : record = host.record ∧ host.Plain := by
  induction configured with
  | cname plain done =>
    obtain ⟨cname, stored, done⟩ := bind_eq_ok.mp done
    cases done
    rw [plain.stored stored]
    exact ⟨rfl, plain, List.forall_mem_nil _⟩
  | aliased _ plain done ih =>
    obtain ⟨rfl, plain'⟩ := ih
    obtain ⟨name, stored, done⟩ := bind_eq_ok.mp done
    cases done
    rw [plain.stored stored]
    exact ⟨rfl, plain'.name, List.forall_mem_cons.mpr ⟨plain, plain'.aliases⟩⟩
  | addressed _ done ih =>
    obtain ⟨rfl, plain⟩ := ih
    exact ⟨qxdnsAddMrAddr_stored done, plain.name, plain.aliases⟩

theorem Configured.stored {entries : List ZoneEntry} {rootZone : List MasterZone}
    (configured : Configured entries rootZone) :
    rootZone = entries.map ZoneEntry.zone ∧ ∀ zone ∈ entries, zone.Plain := by
  induction configured with
  | none => exact ⟨rfl, List.forall_mem_nil _⟩
  | zone _ plain done ih =>
    obtain ⟨rfl, plain'⟩ := ih
    obtain ⟨name, stored, done⟩ := bind_eq_ok.mp done
    cases done
    rw [plain.stored stored]
    exact ⟨rfl, List.forall_mem_cons.mpr ⟨⟨plain, List.forall_mem_nil _⟩, plain'⟩⟩
  | @host zone entries tmpZone rootZone host record _ configured ih =>
    obtain ⟨same, plain⟩ := ih
    obtain ⟨head, rest⟩ := List.cons_eq_cons.mp same
    obtain ⟨rfl, plain'⟩ := configured.stored
    obtain ⟨first, others⟩ := List.forall_mem_cons.mp plain
    refine ⟨?_, List.forall_mem_cons.mpr
      ⟨⟨first.labels, List.forall_mem_cons.mpr ⟨plain', first.hosts⟩⟩, others⟩⟩
    rw [head, rest]
    rfl

end Storing

/-! ### The search -/

/-- The hosts with their zones, in the order in which they are looked at. -/
def searchOrder (entries : List ZoneEntry) : List (ZoneEntry × HostEntry) :=
  entries.flatMap fun zone => zone.hosts.map (zone, ·)

/-- Where the name of the zone stands in a query that is completed by it. -/
def zonePointer (name : ConfigName) : UInt16 :=
  if name.relative then UInt16.ofNat (12 + (wireLabels name.labels).length) else 0

/-- The query is for the name. -/
def asksFor (qlabels : List (List UInt8)) (zone : ZoneEntry) (name : ConfigName) : Bool :=
  decide (SameLabels qlabels (name.full zone.labels))

/-- Which name of the host the query is for, and whether it is an alias. -/
def nameAsked (qlabels : List (List UInt8)) (zone : ZoneEntry) (host : HostEntry) :
    Option (Bool × ConfigName) :=
  if asksFor qlabels zone host.name then some (false, host.name)
  else (host.aliases.find? (asksFor qlabels zone)).map (true, ·)

/-- Which address of the host the query is for, as a name. -/
def addressAsked (qlabels : List (List UInt8)) (zone : ZoneEntry) (host : HostEntry) :
    Option ConfigName :=
  (host.addrs.map arpaName).find? (asksFor qlabels zone)

def firstAsked {Asked : Type} (asked : ZoneEntry → HostEntry → Option Asked)
    (entries : List ZoneEntry) : Option (ZoneEntry × HostEntry × Asked) :=
  (searchOrder entries).findSome? fun entry => (asked entry.1 entry.2).map (entry.1, entry.2, ·)

section Searching

theorem reaches_rcmpNames (query : QueryName qlabels) (asked : readBytes qname 0
      ((wireLabels qlabels).length + 1) = wireLabels qlabels ++ [0]) (plain : HostName zone.labels)
    {name : ConfigName} (host : HostName name.labels) :
    ∃ zonePtr, Reaches (rcmpNames qname name.stored zone.zone.zoneName)
      (asksFor qlabels zone name, zonePtr) ∧ (asksFor qlabels zone name = true → zonePtr = zonePointer name) := by
  obtain ⟨matched, zonePtr, reaches, same, place⟩ :=
    @compared_iff qlabels name.labels zone.labels name.relative qname query host plain asked
  have decided : matched = asksFor qlabels zone name := by
    rw [Bool.eq_iff_iff, same]
    exact decide_eq_true_iff.symm
  rw [← decided]
  refine ⟨zonePtr, reaches, fun matched => ?_⟩
  have place := place matched
  rw [zonePointer, ← UInt16.toNat_inj, place]
  split
  · rename_i relative
    rw [if_pos relative] at place
    rw [← place, UInt16.ofNat_toNat]
  · rfl

theorem reaches_matchNames (query : QueryName qlabels) (asked : readBytes qname 0
      ((wireLabels qlabels).length + 1) = wireLabels qlabels ++ [0]) (plain : HostName zone.labels)
    {names : List ConfigName} (hosts : ∀ name ∈ names, HostName name.labels) :
    Reaches (fun fuel => matchNames qname zone.zone.zoneName fuel (names.map ConfigName.stored))
      ((names.find? (asksFor qlabels zone)).map zonePointer) := by
  induction names with
  | nil => exact ⟨0, rfl⟩
  | cons name rest ih =>
    obtain ⟨host, others⟩ := List.forall_mem_cons.mp hosts
    obtain ⟨zonePtr, compared, place⟩ := reaches_rcmpNames query asked plain host
    have next : ∀ compared : Bool × UInt16, Grows fun fuel => if compared.1 then .ok (some compared.2)
        else matchNames qname zone.zone.zoneName fuel (rest.map ConfigName.stored) := by
      rintro ⟨same, zonePtr⟩
      cases same with
      | true => exact Grows.const _
      | false => exact grows_matchNames _
    refine (reaches_bind (Grows.loop (rcmpTurn qname zone.zone.zoneName) .spent _) next).mpr
      ⟨_, compared, ?_⟩
    cases asks : asksFor qlabels zone name with
    | true =>
      rw [List.find?_cons_of_pos asks, place asks]
      exact ⟨0, rfl⟩
    | false =>
      rw [List.find?_cons_of_neg (by rw [asks]; exact Bool.false_ne_true)]
      exact ih others

theorem reaches_hostNamed (query : QueryName qlabels) (asked : readBytes qname 0
      ((wireLabels qlabels).length + 1) = wireLabels qlabels ++ [0]) (plain : HostName zone.labels)
    {host : HostEntry} (names : host.Plain) :
    Reaches (fun fuel => hostNamed qname fuel zone.zone host.record)
      ((nameAsked qlabels zone host).map fun which => (which.1, zonePointer which.2)) := by
  obtain ⟨zonePtr, compared, place⟩ := reaches_rcmpNames query asked plain names.name
  have next : ∀ compared : Bool × UInt16, Grows fun fuel =>
      if compared.1 then .ok (some (false, compared.2))
      else (matchNames qname zone.zone.zoneName fuel (host.aliases.map ConfigName.stored)).map
        (Option.map (true, ·)) := by
    rintro ⟨same, zonePtr⟩
    cases same with
    | true => exact Grows.const _
    | false => exact Grows.map (grows_matchNames _) _
  refine (reaches_bind (Grows.loop (rcmpTurn qname zone.zone.zoneName) .spent _) next).mpr
    ⟨_, compared, ?_⟩
  unfold nameAsked
  cases asks : asksFor qlabels zone host.name with
  | true =>
    rw [place asks]
    exact ⟨0, rfl⟩
  | false =>
    refine reaches_map.mpr ⟨_, reaches_matchNames query asked plain names.aliases, ?_⟩
    cases host.aliases.find? (asksFor qlabels zone) <;> rfl

theorem reaches_hostAddressed (query : QueryName qlabels) (asked : readBytes qname 0
      ((wireLabels qlabels).length + 1) = wireLabels qlabels ++ [0]) (plain : HostName zone.labels)
    (host : HostEntry) :
    Reaches (fun fuel => hostAddressed qname fuel zone.zone host.record)
      ((addressAsked qlabels zone host).map zonePointer) := by
  have names : host.record.inaddrs.map MasterInAddr.arpa =
      (host.addrs.map arpaName).map ConfigName.stored := by
    rw [HostEntry.record, List.map_map, List.map_map]
    rfl
  unfold hostAddressed
  rw [names]
  refine reaches_matchNames query asked plain fun name member => ?_
  obtain ⟨addr, _, rfl⟩ := List.mem_map.mp member
  exact arpaName_plain addr

variable {Asked Found : Type} {place : Asked → Found}

theorem findHost_cons (sought : MasterRecord → Except MasterFault (Option Found))
    (host : MasterRecord) (rest : List MasterRecord) :
    findHost sought (host :: rest) = sought host >>= fun found =>
      found.elim (findHost sought rest) fun found => .ok (some (host, found)) :=
  congrArg _ (funext fun found => by cases found <;> rfl)

theorem findZone_cons (sought : MasterZone → MasterRecord → Except MasterFault (Option Found))
    (zone : MasterZone) (rest : List MasterZone) :
    findZone sought (zone :: rest) = findHost (sought zone) zone.hosts >>= fun found =>
      found.elim (findZone sought rest) fun found => .ok (some (zone, found)) :=
  congrArg _ (funext fun found => by cases found <;> rfl)

/-- The search through the hosts of a zone. -/
theorem reaches_findHost {sought : Nat → MasterRecord → Except MasterFault (Option Found)}
    {hosts : List HostEntry} {asked : HostEntry → Option Asked}
    (grows : ∀ host, Grows fun fuel => sought fuel host)
    (reaches : ∀ host ∈ hosts, Reaches (fun fuel => sought fuel host.record) ((asked host).map place)) :
    Reaches (fun fuel => findHost (sought fuel) (hosts.map HostEntry.record))
      ((hosts.findSome? fun host => (asked host).map (host, ·)).map
        fun found => (found.1.record, place found.2)) := by
  induction hosts with
  | nil => exact ⟨0, rfl⟩
  | cons host rest ih =>
    obtain ⟨first, others⟩ := List.forall_mem_cons.mp reaches
    have next : ∀ found : Option Found, Grows fun fuel => found.elim
        (findHost (sought fuel) (rest.map HostEntry.record))
        fun found => .ok (some (host.record, found)) := by
      intro found
      cases found with
      | some found => exact Grows.const _
      | none => exact grows_findHost grows _
    simp only [List.map_cons, findHost_cons]
    refine (reaches_bind (grows host.record) next).mpr ⟨_, first, ?_⟩
    cases found : asked host with
    | some which =>
      rw [List.findSome?_cons, found]
      exact ⟨0, rfl⟩
    | none =>
      rw [List.findSome?_cons, found]
      exact ih others

/-- The search through the zones finds the first host that is asked for. -/
theorem reaches_findZone {sought : Nat → MasterZone → MasterRecord → Except MasterFault (Option Found)}
    {entries : List ZoneEntry} {asked : ZoneEntry → HostEntry → Option Asked}
    (grows : ∀ zone host, Grows fun fuel => sought fuel zone host)
    (reaches : ∀ zone ∈ entries, ∀ host ∈ zone.hosts,
      Reaches (fun fuel => sought fuel zone.zone host.record) ((asked zone host).map place)) :
    Searched sought (entries.map ZoneEntry.zone) ((firstAsked asked entries).map
      fun found => (found.1.zone, found.2.1.record, place found.2.2)) := by
  induction entries with
  | nil => exact ⟨0, rfl⟩
  | cons zone rest ih =>
    obtain ⟨first, others⟩ := List.forall_mem_cons.mp reaches
    have next : ∀ found : Option (MasterRecord × Found), Grows fun fuel => found.elim
        (findZone (sought fuel) (rest.map ZoneEntry.zone))
        fun found => .ok (some (zone.zone, found)) := by
      intro found
      cases found with
      | some found => exact Grows.const _
      | none => exact grows_findZone grows _
    have split : firstAsked asked (zone :: rest) =
        ((zone.hosts.findSome? fun host => (asked zone host).map (host, ·)).map (zone, ·)).or
          (firstAsked asked rest) := by
      rw [firstAsked, searchOrder, List.flatMap_cons, List.findSome?_append, List.findSome?_map,
        List.map_findSome?]
      refine congrArg (Option.or · _) (congrArg (List.findSome? · _) (funext fun host => ?_))
      exact (Option.map_map _ _ _).symm
    simp only [Searched, List.map_cons, findZone_cons]
    refine (reaches_bind (grows_findHost (grows zone.zone) _) next).mpr
      ⟨_, reaches_findHost (grows zone.zone) first, ?_⟩
    rw [split]
    cases zone.hosts.findSome? fun host => (asked zone host).map (host, ·) with
    | some found => exact ⟨0, rfl⟩
    | none => exact ih others

end Searching

/-! ### What a search finds -/

theorem HostEntry.Plain.names {host : HostEntry} (plain : host.Plain) :
    ∀ name ∈ host.name :: host.aliases, HostName name.labels :=
  List.forall_mem_cons.mpr ⟨plain.name, plain.aliases⟩

section Finding

variable {qlabels : List (List UInt8)} {zone : ZoneEntry} {host : HostEntry} {addr addr' : InAddr}
  {entries : List ZoneEntry}

theorem asksFor_iff {name : ConfigName} :
    asksFor qlabels zone name = true ↔ SameLabels qlabels (name.full zone.labels) :=
  decide_eq_true_iff

theorem nameAsked_spec {which : Bool × ConfigName} (asked : nameAsked qlabels zone host = some which) :
    which.2 ∈ host.name :: host.aliases ∧ asksFor qlabels zone which.2 = true := by
  unfold nameAsked at asked
  by_cases canonical : asksFor qlabels zone host.name = true
  · rw [if_pos canonical] at asked
    cases asked
    exact ⟨List.mem_cons_self, canonical⟩
  · rw [if_neg canonical] at asked
    obtain ⟨name, found, rfl⟩ := Option.map_eq_some_iff.mp asked
    exact ⟨List.mem_cons_of_mem _ (List.mem_of_find?_eq_some found), List.find?_some found⟩

theorem firstAsked_spec {Asked : Type} {asked : ZoneEntry → HostEntry → Option Asked} {which : Asked}
    (first : firstAsked asked entries = some (zone, host, which)) :
    (zone, host) ∈ searchOrder entries ∧ asked zone host = some which := by
  obtain ⟨⟨zone', host'⟩, member, found⟩ := List.exists_of_findSome?_eq_some first
  obtain ⟨which', asks, same⟩ := Option.map_eq_some_iff.mp found
  cases same
  exact ⟨member, asks⟩

theorem mem_searchOrder : (zone, host) ∈ searchOrder entries ↔ zone ∈ entries ∧ host ∈ zone.hosts := by
  unfold searchOrder
  rw [List.mem_flatMap]
  constructor
  · rintro ⟨zone', present, member⟩
    obtain ⟨host', there, same⟩ := List.mem_map.mp member
    cases same
    exact ⟨present, there⟩
  · rintro ⟨present, there⟩
    exact ⟨zone, present, List.mem_map.mpr ⟨host, there, rfl⟩⟩

/-- The number that decimal digits stand for. -/
def decimalValue (digits : List UInt8) : Nat :=
  digits.foldl (fun value digit => value * 10 + (digit.toNat - 48)) 0

theorem decimalValue_decimal (number : UInt8) :
    decimalValue ((decimal number).map toupper) = number.toNat := by
  have all : ∀ number < 256, decimalValue ((decimal (UInt8.ofNat number)).map toupper) = number := by
    decide +kernel
  have this := all number.toNat number.toNat_lt
  rwa [UInt8.ofNat_toNat] at this

theorem arpaName_injective (same : SameLabels (arpaName addr).labels (arpaName addr').labels) :
    addr = addr' := by
  have values := congrArg (List.map decimalValue) same
  simp only [arpaName, List.map_cons, List.map_nil, List.cons_append, List.nil_append,
    decimalValue_decimal, List.cons.injEq, UInt8.toNat_inj, and_true] at values
  obtain ⟨d, c, b, a⟩ := values
  cases addr
  cases addr'
  rw [InAddr.mk.injEq]
  exact ⟨a, b, c, d⟩

theorem asksFor_arpaName : asksFor qlabels zone (arpaName addr) = true ↔
    SameLabels qlabels (arpaName addr).labels := by
  have full : (arpaName addr).full zone.labels = (arpaName addr).labels := List.append_nil _
  rw [asksFor_iff, full]

/-- A query for an address is for no other. -/
theorem addressAsked_eq (asks : SameLabels qlabels (arpaName addr).labels) :
    addressAsked qlabels zone host = if addr ∈ host.addrs then some (arpaName addr) else none := by
  cases found : addressAsked qlabels zone host with
  | some name =>
    obtain ⟨other, member, rfl⟩ := List.mem_map.mp (List.mem_of_find?_eq_some found)
    have same := arpaName_injective (asks.symm.trans (asksFor_arpaName.mp (List.find?_some found)))
    rw [same, if_pos member]
  | none =>
    refine (if_neg fun member => ?_).symm
    exact List.find?_eq_none.mp found _ (List.mem_map_of_mem member) (asksFor_arpaName.mpr asks)

theorem firstAsked_address (asks : SameLabels qlabels (arpaName addr).labels)
    (first : (searchOrder entries).find? (fun entry => addr ∈ entry.2.addrs) = some (zone, host)) :
    firstAsked (addressAsked qlabels) entries = some (zone, host, arpaName addr) := by
  obtain ⟨here, before, after, split, others⟩ := List.find?_eq_some_iff_append.mp first
  refine List.findSome?_eq_some_iff.mpr ⟨before, (zone, host), after, split, ?_, fun entry member => ?_⟩
  · rw [addressAsked_eq asks, if_pos (of_decide_eq_true here)]
    rfl
  · have absent : addr ∉ entry.2.addrs := by simpa using others entry member
    rw [addressAsked_eq asks, if_neg absent]
    rfl

end Finding

end QNXStuff.QXDns
