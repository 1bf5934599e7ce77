import QNXStuff.QXDns.Setup
import QNXStuff.QXDns.MasterAnswers

/-! Files that describe zones and hosts, and what the server answers that was set up from one. -/

namespace QNXStuff.QXDns

open Execution Memory
open QXMail (ascii stricmp)
open GetConf (Word Line Conf TextFile opensText opensText_opened)
open GetConf.Setup (Realm Items Closes DirectiveItem worded fileLines)

/-! ### What a file describes -/

/-- A name that is made of labels and fits into an array. -/
structure ConfigName.Writable (name : ConfigName) (size : Nat) : Prop where
  plain : HostName name.labels
  fits : name.text.length + 2 ≤ size

section Descriptions

variable (libc : SetupLibc)

inductive ServerLine : Unit → List Line → Unit → Prop where
  | directive {token args directive} (inside : stricmp (ascii "</server>") token = false)
      (known : (serverDirectives libc).directive token = some directive) :
      ServerLine () [token :: args] ()

/-- The last alias and the last address come first. -/
inductive HostLine : HostEntry → List Line → HostEntry → Prop where
  | aliases {host token} {names : List ConfigName} (word : stricmp (ascii "alias") token = true)
      (writable : ∀ name ∈ names, name.Writable 252) :
      HostLine host [token :: names.map ConfigName.text]
        { host with aliases := names.reverse ++ host.aliases }
  | addresses {host token words} (word : stricmp (ascii "address") token = true) :
      HostLine host [token :: words]
        { host with addrs := (words.filterMap libc.inetAton).reverse ++ host.addrs }
  | noted {host token args} (word : isNoted token = true) : HostLine host [token :: args] host

inductive ZoneLine : ZoneEntry → List Line → ZoneEntry → Prop where
  | host {zone token ttl args lines host} {name : ConfigName}
      (word : stricmp (ascii "<host>") token = true) (writable : name.Writable 256)
      (realm : Realm (HostLine libc) (Closes (ascii "</host>") closed)
        ⟨name, (libc.atoi ttl).toUInt32, [], []⟩ lines host) :
      ZoneLine zone ((token :: ttl :: name.text :: args) :: lines)
        { zone with hosts := host :: zone.hosts }

inductive FileLine : List ZoneEntry → List Line → List ZoneEntry → Prop where
  | server {entries token args lines} (word : stricmp (ascii "<server>") token = true)
      (realm : Realm (ServerLine libc) (Closes (ascii "</server>") closed) () lines ()) :
      FileLine entries ((token :: args) :: lines) entries
  | zone {entries token labels args lines zone} (word : stricmp (ascii "<zone>") token = true)
      (writable : ConfigName.Writable ⟨labels, false⟩ 256)
      (realm : Realm (ZoneLine libc) (Closes (ascii "</zone>") closed) ⟨labels, []⟩ lines zone) :
      FileLine entries ((token :: hostText labels false :: args) :: lines) (zone :: entries)

/-- The zones that the lines of a file describe, the last one first. -/
def FileDescribes (lines : List Line) (entries : List ZoneEntry) : Prop :=
  Items (FileLine libc) [] lines entries

end Descriptions

/-! ### What is set up from it -/

section Calls

variable {libc : SetupLibc} {entry : HostEntry} {record : MasterRecord}

theorem ConfigName.Writable.written {name : ConfigName} {size : Nat} (writable : name.Writable size) :
    rcpyString size name.text = .ok name.stored := by
  have done := rcpyString_eq_ok.mpr ⟨writable.fits, rfl⟩
  rw [done, writable.plain.stored done]
  rfl

theorem newZone_configured {labels : List (List UInt8)} {entries : List ZoneEntry}
    {rootZone : List MasterZone} (writable : ConfigName.Writable ⟨labels, false⟩ 256)
    (configured : Configured entries rootZone) :
    ∃ next, newZone rootZone (hostText labels false) = .ok next ∧
      Configured (⟨labels, []⟩ :: entries) next := by
  have done : qxdnsNewMz rootZone (hostText labels false) = .ok
      ({ hosts := [], zoneName := ConfigName.stored ⟨labels, false⟩ } :: rootZone) := by
    rw [qxdnsNewMz, show rcpyString 256 (hostText labels false) = _ from writable.written]
    rfl
  exact ⟨_, mapError_eq_ok.mpr done, .zone configured writable.plain done⟩

theorem newHost_configured {name : ConfigName} {ttl : Word} (writable : name.Writable 256) :
    ∃ record, newHost libc name.text ttl = .ok record ∧
      HostConfigured ⟨name, (libc.atoi ttl).toUInt32, [], []⟩ record := by
  have done : qxdnsNewMr name.text (libc.atoi ttl).toUInt32 = .ok
      { ttl := (libc.atoi ttl).toUInt32, aliases := [], inaddrs := [], cname := name.stored } := by
    rw [qxdnsNewMr, writable.written]
    rfl
  exact ⟨_, mapError_eq_ok.mpr done, .cname writable.plain done⟩

theorem addAlias_configured {name : ConfigName} (writable : name.Writable 252)
    (configured : HostConfigured entry record) :
    ∃ next, addAlias record name.text = .ok next ∧
      HostConfigured { entry with aliases := name :: entry.aliases } next := by
  have done : qxdnsAddMrAlias record name.text =
      .ok { record with aliases := name.stored :: record.aliases } := by
    rw [qxdnsAddMrAlias, writable.written]
    rfl
  exact ⟨_, mapError_eq_ok.mpr done, .aliased configured writable.plain done⟩

theorem addAliases_configured {names : List ConfigName} (writable : ∀ name ∈ names, name.Writable 252)
    (configured : HostConfigured entry record) :
    ∃ next, (names.map ConfigName.text).foldlM addAlias record = .ok next ∧
      HostConfigured { entry with aliases := names.reverse ++ entry.aliases } next := by
  induction names generalizing entry record with
  | nil => exact ⟨record, rfl, configured⟩
  | cons name names ih =>
    obtain ⟨here, others⟩ := List.forall_mem_cons.mp writable
    obtain ⟨next, added, between⟩ := addAlias_configured here configured
    obtain ⟨final, rest, there⟩ := ih others between
    refine ⟨final, ?_, ?_⟩
    · rw [List.map_cons, List.foldlM_cons, added]
      exact rest
    · rw [List.reverse_cons, List.append_assoc]
      exact there

theorem qxdnsAddMrAddr_done (record : MasterRecord) (addr : InAddr) :
    ∃ next, qxdnsAddMrAddr record addr = .ok next := by
  have short : ((arpaText addr).take 31).length + 2 ≤ 32 := by
    have length := arpaText_length addr
    rw [List.length_take]
    omega
  have done := rcpyString_eq_ok.mpr ⟨short, rfl⟩
  rw [qxdnsAddMrAddr, done]
  exact ⟨_, rfl⟩

theorem addAddresses_configured (words : List Word) (configured : HostConfigured entry record) :
    ∃ next, words.foldlM (addAddress libc) record = .ok next ∧
      HostConfigured { entry with addrs := (words.filterMap libc.inetAton).reverse ++ entry.addrs }
        next := by
  induction words generalizing entry record with
  | nil => exact ⟨record, rfl, configured⟩
  | cons word words ih =>
    cases known : libc.inetAton word with
    | none =>
      obtain ⟨final, rest, there⟩ := ih configured
      refine ⟨final, ?_, ?_⟩
      · rw [List.foldlM_cons, addAddress, known]
        exact rest
      · rw [List.filterMap_cons_none known]
        exact there
    | some addr =>
      obtain ⟨next, done⟩ := qxdnsAddMrAddr_done record addr
      obtain ⟨final, rest, there⟩ := ih (.addressed configured done)
      refine ⟨final, ?_, ?_⟩
      · rw [List.foldlM_cons, addAddress, known]
        simp only [done, Except.mapError]
        exact rest
      · rw [List.filterMap_cons_some known, List.reverse_cons, List.append_assoc]
        exact there

end Calls

section Reading

variable {libc : SetupLibc}

theorem closes_reads {State State' : Type} {tag : Word} {state result : State} {line : Line}
    (closes : Closes tag closed state line result) (other : State') :
    Closes tag closed other line other ∧ result = state := by
  cases closes with
  | line closing done =>
    cases done
    exact ⟨.line closing rfl, rfl⟩

theorem host_reads {entry host : HostEntry} {record : MasterRecord} {lines : List Line}
    (realm : Realm (HostLine libc) (Closes (ascii "</host>") closed) entry lines host)
    (configured : HostConfigured entry record) :
    ∃ final, Realm (HostItem libc) (Closes (ascii "</host>") closed) record lines final ∧
      HostConfigured host final := by
  refine realm.simulate HostConfigured HostConfigured ?_ ?_ configured
  · intro entry next record used made configured
    cases made with
    | aliases word writable =>
      obtain ⟨next, added, there⟩ := addAliases_configured writable configured
      exact ⟨next, .aliases word added, there⟩
    | @addresses _ words word =>
      obtain ⟨next, added, there⟩ := addAddresses_configured words configured
      exact ⟨next, .addresses word added, there⟩
    | noted word => exact ⟨record, .noted word, configured⟩
  · intro entry result record line closes configured
    obtain ⟨closes', rfl⟩ := closes_reads closes record
    exact ⟨record, closes', configured⟩

theorem zone_reads {entry zone : ZoneEntry} {entries : List ZoneEntry} {zones : List MasterZone}
    {lines : List Line}
    (realm : Realm (ZoneLine libc) (Closes (ascii "</zone>") closed) entry lines zone)
    (configured : Configured (entry :: entries) zones) :
    ∃ final, Realm (ZoneItem libc) (Closes (ascii "</zone>") closed) zones lines final ∧
      Configured (zone :: entries) final := by
  refine realm.simulate (fun zone zones => Configured (zone :: entries) zones)
    (fun zone zones => Configured (zone :: entries) zones) ?_ ?_ configured
  · intro entry next zones used made configured
    cases made with
    | host word writable realm =>
      obtain ⟨tmpHost, named, started⟩ := newHost_configured writable
      obtain ⟨host, realm', described⟩ := host_reads realm started
      refine ⟨_, .host word named realm', ?_⟩
      cases zones with
      | nil => cases configured.stored.1
      | cons tmpZone rest => exact .host configured described
  · intro entry result zones line closes configured
    obtain ⟨closes', rfl⟩ := closes_reads closes zones
    exact ⟨zones, closes', configured⟩

theorem directives_zones {entry : String × (Option Word → Settings → Settings)}
    (inside : entry ∈ serverDirectives libc) (word : Option Word) (settings : Settings) :
    (entry.2 word settings).rootZone = settings.rootZone := by
  simp only [serverDirectives, List.mem_cons, List.not_mem_nil, or_false] at inside
  rcases inside with rfl | rfl | rfl | rfl | rfl | rfl | rfl | rfl | rfl <;> cases word <;> rfl

/-- `<server>` leaves the zones. -/
theorem server_reads {lines : List Line} {settings : Settings} {zones : List MasterZone}
    (realm : Realm (ServerLine libc) (Closes (ascii "</server>") closed) () lines ())
    (same : settings.rootZone = zones) :
    ∃ final, ServerRealm libc settings lines final ∧ final.rootZone = zones := by
  refine realm.simulate (fun _ (settings : Settings) => settings.rootZone = zones)
    (fun _ (settings : Settings) => settings.rootZone = zones) ?_ ?_ same
  · intro _ _ settings used made same
    cases made with
    | directive inside known => exact ⟨_, .directive inside known, 
      (GetConf.Setup.Table.keeps known (fun _ => directives_zones) ..).trans same⟩
  · intro _ _ settings line closes same
    exact ⟨settings, (closes_reads closes settings).1, same⟩

theorem file_reads {entries : List ZoneEntry} {lines : List Line}
    (describes : FileDescribes libc lines entries) :
    ∃ settings, FileSays libc lines settings ∧ Configured entries settings.rootZone := by
  obtain ⟨read, items, configured⟩ : ∃ read, Items (FileItem libc) Settings.default lines read ∧
      Configured entries read.rootZone := by
    refine Items.simulate (fun entries (settings : Settings) => Configured entries settings.rootZone)
      ?_ describes (.none : Configured [] Settings.default.rootZone)
    intro entries next settings used made configured
    cases made with
    | server word realm =>
      obtain ⟨final, realm', same⟩ := server_reads realm rfl
      exact ⟨final, .server word realm', same ▸ configured⟩
    | zone word writable realm =>
      obtain ⟨tmpZone, named, started⟩ := newZone_configured writable configured
      obtain ⟨zones, realm', there⟩ := zone_reads realm started
      exact ⟨_, .zone word named realm', there⟩
  refine ⟨read.finish, ⟨read, items, rfl⟩, ?_⟩
  unfold Settings.finish
  split
  · exact configured
  · exact configured

end Reading

/-! ### What is answered -/

/-- A server that was set up from a file answers what the file describes. -/
theorem described_is_answered {libc : SetupLibc} {heap : SetupHeap} {turns : Nat}
    {file : List UInt8} {conf : Conf} {entries : List ZoneEntry} (opened : conf.Opened file)
    (text : TextFile file) (enough : file.length < turns)
    (memory : ∀ settings, FileSays libc (fileLines file) settings → heap.Allocates settings)
    (describes : FileDescribes libc (fileLines file) entries) :
    ∃ after settings, (qxdnsSetup libc heap turns).run.run conf = .ok (after, .ok settings) ∧
      ∀ pkt datalen qlabels type, SingleQuestion pkt datalen qlabels type →
        AnswerRoom entries qlabels type datalen →
        ∃ reply, Reaches (qxdnsMasterLookup settings.rootZone pkt datalen) reply ∧
          RightReply entries qlabels type pkt datalen reply := by
  obtain ⟨settings, told, configured⟩ := file_reads describes
  obtain ⟨read, items, same⟩ := told
  obtain ⟨after, done⟩ : ∃ after,
      (qxdnsSetup libc heap turns).run.run conf = .ok (after, .ok settings) :=
    (file_follows.reads_file opened text enough _ _).mpr
      ⟨read, items, Settings.prepare_ok.mpr ⟨same, memory settings ⟨read, items, same⟩⟩⟩
  refine ⟨after, settings, done, fun pkt datalen qlabels type single room => ?_⟩
  obtain ⟨stored, plain⟩ := configured.stored
  rw [stored]
  exact stored_lookup_right plain single room

def zoneText : String :=
  "<zone> x\n<host> 30 h.\nalias w.\naddress 10.0.0.1\n</host>\n</zone>\n"

theorem zoneText_describes : FileDescribes decimalLibc (fileLines (ascii zoneText)) [aliasEntry] := by
  have lines : fileLines (ascii zoneText) =
      ([ascii "<zone>", ascii "x"] :: ([[ascii "<host>", ascii "30", ascii "h."],
        [ascii "alias", ascii "w."], [ascii "address", ascii "10.0.0.1"], [ascii "</host>"]] ++
        [[ascii "</zone>"]])) ++ [] := by
    decide +kernel
  rw [lines]
  have plain (letter : UInt8) (same : letter = 104 ∨ letter = 119 ∨ letter = 120) :
      HostName [[letter]] := by
    rcases same with rfl | rfl | rfl <;> exact ⟨by decide, by decide, by decide⟩
  have aliases : HostLine decimalLibc ⟨⟨[[104]], true⟩, 30, [], []⟩ [[ascii "alias", ascii "w."]]
      ⟨⟨[[104]], true⟩, 30, [⟨[[119]], true⟩], []⟩ := by
    have writable : ∀ name ∈ [(⟨[[119]], true⟩ : ConfigName)], name.Writable 252 :=
      List.forall_mem_singleton.mpr ⟨plain 119 (by decide), by decide⟩
    exact .aliases (by decide) writable
  have addresses : HostLine decimalLibc ⟨⟨[[104]], true⟩, 30, [⟨[[119]], true⟩], []⟩
      [[ascii "address", ascii "10.0.0.1"]]
      ⟨⟨[[104]], true⟩, 30, [⟨[[119]], true⟩], [⟨10, 0, 0, 1⟩]⟩ := .addresses (by decide)
  have host : Realm (HostLine decimalLibc) (Closes (ascii "</host>") closed)
      ⟨⟨[[104]], true⟩, 30, [], []⟩
      ([[ascii "alias", ascii "w."]] ++ ([[ascii "address", ascii "10.0.0.1"]] ++ [[ascii "</host>"]]))
      ⟨⟨[[104]], true⟩, 30, [⟨[[119]], true⟩], [⟨10, 0, 0, 1⟩]⟩ :=
    .item (by simp) aliases (.item (by simp) addresses (.closed (.line (by decide) rfl)))
  have name : ConfigName.Writable ⟨[[104]], true⟩ 256 := ⟨plain 104 (by decide), by decide⟩
  have listed : ZoneLine decimalLibc ⟨[[120]], []⟩ [[ascii "<host>", ascii "30", ascii "h."],
      [ascii "alias", ascii "w."], [ascii "address", ascii "10.0.0.1"], [ascii "</host>"]] aliasEntry :=
    .host (by decide) name host
  have zone : Realm (ZoneLine decimalLibc) (Closes (ascii "</zone>") closed) ⟨[[120]], []⟩
      ([[ascii "<host>", ascii "30", ascii "h."], [ascii "alias", ascii "w."],
        [ascii "address", ascii "10.0.0.1"], [ascii "</host>"]] ++ [[ascii "</zone>"]]) aliasEntry :=
    .item (by simp) listed (.closed (.line (by decide) rfl))
  have whole : FileLine decimalLibc [] ([ascii "<zone>", ascii "x"] ::
      ([[ascii "<host>", ascii "30", ascii "h."], [ascii "alias", ascii "w."],
        [ascii "address", ascii "10.0.0.1"], [ascii "</host>"]] ++ [[ascii "</zone>"]])) [aliasEntry] :=
    .zone (by decide) ⟨plain 120 (by decide), by decide⟩ zone
  exact .item (by simp) whole .none

/-- There is memory for everything. -/
def plentyHeap : SetupHeap := ⟨fun _ => true, fun _ => true⟩

theorem described_alias_is_answered : ∃ after settings,
    (qxdnsSetup decimalLibc plentyHeap 80).run.run (opensText zoneText) =
      .ok (after, .ok settings) ∧
      ∃ reply, Reaches (qxdnsMasterLookup settings.rootZone aliasQuery 21) reply ∧
        RightReply [aliasEntry] [[119], [120]] dnsTA aliasQuery 21 reply := by
  have memory (settings : Settings) : plentyHeap.Allocates settings := ⟨rfl, fun _ _ => rfl⟩
  obtain ⟨after, settings, done, answers⟩ := described_is_answered (opensText_opened zoneText)
    (by decide +kernel) (by decide +kernel : (ascii zoneText).length < 80)
    (fun settings _ => memory settings) zoneText_describes
  refine ⟨after, settings, done, answers _ _ _ _ ⟨⟨by decide, by decide⟩, rfl, rfl, by decide +kernel⟩
    ⟨fun _ zone host which first => ?_, fun other => ?_⟩⟩
  · cases first
    decide +kernel
  · exact absurd other (by decide)

end QNXStuff.QXDns
