import QNXStuff.QXDns.Configuration

/-! What the answers from the master database say, read with their pointers. -/

namespace QNXStuff.QXDns

open Execution Memory
open QXMail (ascii toupper wireLabels short_label)

/-! ### Reading a message -/

/-- The labels of a name of a message, its pointers followed. -/
inductive NameIs (pkt : Block) : (start : Nat) → (labels : List (List UInt8)) → Prop where
  | ended {start} (zero : pkt start = 0) : NameIs pkt start []
  | pointer {start labels} (high : 0xC0 ≤ pkt start)
      (there : NameIs pkt (sentWord pkt start % 2 ^ 14) labels) : NameIs pkt start labels
  | label {start labels} (some : pkt start ≠ 0) (short : (pkt start).toNat < 64)
      (rest : NameIs pkt (start + 1 + (pkt start).toNat) labels) :
      NameIs pkt start (readBytes pkt (start + 1) (pkt start).toNat :: labels)

def NameHere (pkt : Block) (start stop : Nat) (labels : List (List UInt8)) : Prop :=
  NameAt pkt start stop ∧ NameIs pkt start labels

inductive RecordData where
  | cname (labels : List (List UInt8))
  | ptr (labels : List (List UInt8))
  | address (addr : InAddr)
  deriving DecidableEq

def RecordData.type : RecordData → List UInt8
  | cname _ => dnsTCname
  | ptr _ => dnsTPtr
  | address _ => dnsTA

def RecordData.Here (pkt : Block) (start stop : Nat) : RecordData → Prop
  | cname labels => NameHere pkt start stop labels
  | ptr labels => NameHere pkt start stop labels
  | address addr => stop = start + 4 ∧ readBytes pkt start 4 = addr.bytes

structure ResourceRecord where
  owner : List (List UInt8)
  ttl : UInt32
  data : RecordData
  deriving DecidableEq

structure RecordIs (pkt : Block) (start stop : Nat) (record : ResourceRecord) : Prop where
  owner : NameIs pkt start record.owner
  parts : ∃ behind, NameAt pkt start behind ∧
    readBytes pkt behind 8 = record.data.type ++ dnsCIn ++ endianRet 4 record.ttl.toNat ∧
    stop = behind + 10 + sentWord pkt (behind + 8) ∧ record.data.Here pkt (behind + 10) stop

/-- The records that lie there, one behind the other. -/
inductive RecordsAre (pkt : Block) : (start stop : Nat) → List ResourceRecord → Prop where
  | none {start} : RecordsAre pkt start start []
  | more {start middle stop record records} (first : RecordIs pkt start middle record)
      (rest : RecordsAre pkt middle stop records) : RecordsAre pkt start stop (record :: records)

section Reading

variable {pkt : Block} {start stop stop' : Nat}

theorem high_not_short {byte : UInt8} (high : 0xC0 ≤ byte) : ¬ byte.toNat < 64 ∧ byte ≠ 0 := by
  have high : 192 ≤ byte.toNat := high
  constructor
  · omega
  · rintro rfl
    exact absurd high (by decide)

theorem NameIs.unique {labels labels' : List (List UInt8)} (name : NameIs pkt start labels)
    (name' : NameIs pkt start labels') : labels = labels' := by
  induction name generalizing labels' with
  | ended zero =>
    cases name' with
    | ended _ => rfl
    | pointer high _ => exact absurd zero (high_not_short high).2
    | label some _ _ => exact absurd zero some
  | pointer high _ ih =>
    cases name' with
    | ended zero => exact absurd zero (high_not_short high).2
    | pointer _ there => exact ih there
    | label _ short _ => exact absurd short (high_not_short high).1
  | label some short _ ih =>
    cases name' with
    | ended zero => exact absurd zero some
    | pointer high _ => exact absurd short (high_not_short high).1
    | label _ _ rest => rw [ih rest]

theorem NameAt.unique (name : NameAt pkt start stop) (name' : NameAt pkt start stop') :
    stop = stop' := by
  induction name generalizing stop' with
  | ended zero =>
    cases name' with
    | ended _ => rfl
    | pointer high => exact absurd zero (high_not_short high).2
    | label some _ _ => exact absurd zero some
  | pointer high =>
    cases name' with
    | ended zero => exact absurd zero (high_not_short high).2
    | pointer _ => rfl
    | label _ short _ => exact absurd short (high_not_short high).1
  | label some short _ ih =>
    cases name' with
    | ended zero => exact absurd zero some
    | pointer high => exact absurd short (high_not_short high).1
    | label _ _ rest => exact ih rest

theorem endianRet_ttl_injective {ttl ttl' : UInt32}
    (same : endianRet 4 ttl.toNat = endianRet 4 ttl'.toNat) : ttl = ttl' := by
  have words := congrArg wordOf (List.reverse_injective same)
  rw [wordOf_bytesOf, wordOf_bytesOf] at words
  have below := ttl.toNat_lt
  have below' := ttl'.toNat_lt
  exact UInt32.toNat_inj.mp (by omega)

theorem RecordData.Here.unique {data data' : RecordData} (here : data.Here pkt start stop)
    (here' : data'.Here pkt start stop) (same : data.type = data'.type) : data = data' := by
  cases data with
  | cname labels =>
    cases data' with
    | cname labels' => rw [here.2.unique here'.2]
    | ptr _ => exact absurd (show dnsTCname = dnsTPtr from same) (by decide)
    | address _ => exact absurd (show dnsTCname = dnsTA from same) (by decide)
  | ptr labels =>
    cases data' with
    | cname _ => exact absurd (show dnsTPtr = dnsTCname from same) (by decide)
    | ptr labels' => rw [here.2.unique here'.2]
    | address _ => exact absurd (show dnsTPtr = dnsTA from same) (by decide)
  | address addr =>
    cases data' with
    | cname _ => exact absurd (show dnsTA = dnsTCname from same) (by decide)
    | ptr _ => exact absurd (show dnsTA = dnsTPtr from same) (by decide)
    | address addr' =>
      obtain ⟨a, b, c, d⟩ := addr
      obtain ⟨a', b', c', d'⟩ := addr'
      cases here.2.symm.trans here'.2
      rfl

theorem RecordData.type_length (data : RecordData) : data.type.length = 2 := by
  cases data <;> rfl

theorem RecordIs.unique {record record' : ResourceRecord} (is : RecordIs pkt start stop record)
    (is' : RecordIs pkt start stop' record') : record = record' ∧ stop = stop' := by
  obtain ⟨behind, name, fixed, rfl, here⟩ := is.parts
  obtain ⟨behind', name', fixed', rfl, here'⟩ := is'.parts
  cases name.unique name'
  obtain ⟨front, ttl⟩ := List.append_inj (fixed.symm.trans fixed') (by
    rw [List.length_append, List.length_append, record.data.type_length, record'.data.type_length])
  obtain ⟨type, _⟩ := List.append_inj front (by
    rw [record.data.type_length, record'.data.type_length])
  have owner := is.owner.unique is'.owner
  have data := here.unique here' type
  have time := endianRet_ttl_injective ttl
  refine ⟨?_, rfl⟩
  cases record
  cases record'
  rw [ResourceRecord.mk.injEq]
  exact ⟨owner, time, data⟩

theorem RecordIs.lt {record : ResourceRecord} (is : RecordIs pkt start stop record) : start < stop := by
  obtain ⟨behind, name, _, rfl, _⟩ := is.parts
  have := name.lt
  omega

theorem RecordsAre.le {records : List ResourceRecord} (are : RecordsAre pkt start stop records) :
    start ≤ stop := by
  induction are with
  | none => exact Nat.le_refl _
  | more first _ ih => exact Nat.le_trans (Nat.le_of_lt first.lt) ih

theorem RecordsAre.unique {records records' : List ResourceRecord}
    (are : RecordsAre pkt start stop records) (are' : RecordsAre pkt start stop records') :
    records = records' := by
  induction are generalizing records' with
  | none =>
    cases are' with
    | none => rfl
    | more first rest => exact absurd (Nat.lt_of_lt_of_le first.lt rest.le) (Nat.lt_irrefl _)
  | more first rest ih =>
    cases are' with
    | none => exact absurd (Nat.lt_of_lt_of_le first.lt rest.le) (Nat.lt_irrefl _)
    | more first' rest' =>
      obtain ⟨rfl, rfl⟩ := first.unique first'
      rw [ih rest']

end Reading

/-! ### Names that are written -/

def printedName (zone : ZoneEntry) (name : ConfigName) (zonePtr : UInt16) : List UInt8 :=
  wireLabels name.labels ++
    if name.relative then
      if zonePtr = 0 then wireLabels zone.labels ++ [0]
      else endianRet 2 (0xC000 ||| zonePtr).toNat
    else [0]

section Writing

variable {pkt : Block} {start stop : Nat} {labels labels' more : List (List UInt8)}

theorem SameLabels.append (same : SameLabels labels labels') {more' : List (List UInt8)}
    (same' : SameLabels more more') : SameLabels (labels ++ more) (labels' ++ more') := by
  unfold SameLabels at same same' ⊢
  rw [List.map_append, List.map_append, same, same']

/-- Labels that lie there, with what lies behind them. -/
theorem nameHere_labels (sizes : ∀ label ∈ labels, 0 < label.length ∧ label.length < 64)
    (here : readBytes pkt start (wireLabels labels).length = wireLabels labels)
    (rest : NameHere pkt (start + (wireLabels labels).length) stop more) :
    NameHere pkt start stop (labels ++ more) := by
  induction labels generalizing start with
  | nil => exact rest
  | cons label labels ih =>
    obtain ⟨⟨some, short⟩, others⟩ := List.forall_mem_cons.mp sizes
    obtain ⟨_, filled, size⟩ := short_label some short
    have wire : wireLabels (label :: labels) =
        UInt8.ofNat label.length :: (label ++ wireLabels labels) := by simp [wireLabels]
    rw [wire] at here rest
    obtain ⟨first, here⟩ := readBytes_eq_cons.mp here
    obtain ⟨text, here⟩ := readBytes_eq_append.mp here
    rw [List.length_cons, List.length_append, Nat.add_comm _ 1, ← Nat.add_assoc,
      ← Nat.add_assoc] at rest
    obtain ⟨extent, name⟩ := ih others here rest
    have length : (pkt start).toNat = label.length := by rw [first, size]
    rw [← length] at short extent name text
    rw [← first] at filled
    refine ⟨.label filled short extent, ?_⟩
    have stands := NameIs.label filled short name
    rwa [text] at stands

theorem nameHere_ended (zero : pkt start = 0) : NameHere pkt start (start + 1) [] :=
  ⟨.ended zero, .ended zero⟩

theorem nameHere_pointer {place : Nat} (short : place < 2 ^ 14)
    (here : readBytes pkt start 2 = endianRet 2 (0xC000 ||| place)) (there : NameIs pkt place labels) :
    NameHere pkt start (start + 2) labels := by
  have marked : (0xC000 ||| place) % 2 ^ 14 = place := by
    rw [Nat.or_mod_two_pow, Nat.mod_eq_of_lt short]
    exact Nat.zero_or place
  have below : 0xC000 ||| place < 2 ^ 16 :=
    Nat.or_lt_two_pow (by decide) (Nat.lt_trans short (by decide))
  have above : 0xC000 ≤ 0xC000 ||| place := Nat.left_le_or
  have word : sentWord pkt start = 0xC000 ||| place := sentWord_here here below
  obtain ⟨first, _⟩ := (@readBytes_eq_cons pkt start (UInt8.ofNat ((0xC000 ||| place) / 256))
    [UInt8.ofNat (0xC000 ||| place)]).mp here
  have high : 0xC0 ≤ pkt start := by
    rw [first, UInt8.le_iff_toNat_le, UInt8.toNat_ofNat']
    show 192 ≤ _
    omega
  refine ⟨.pointer high, .pointer high ?_⟩
  rw [word, marked]
  exact there

/-- What is printed for the name of a host is read as this name, without regard to case. -/
theorem nameHere_printed {zone : ZoneEntry} {name : ConfigName} {zonePtr : UInt16}
    (host : HostName name.labels) (plain : HostName zone.labels)
    (here : readBytes pkt start (printedName zone name zonePtr).length =
      printedName zone name zonePtr)
    (pointed : zonePtr ≠ 0 → zonePtr.toNat < 2 ^ 14 ∧
      ∃ back, SameLabels back zone.labels ∧ NameIs pkt zonePtr.toNat back) :
    ∃ target, SameLabels target (name.full zone.labels) ∧
      NameHere pkt start (start + (printedName zone name zonePtr).length) target := by
  unfold printedName at here ⊢
  obtain ⟨front, here⟩ := readBytes_eq_append.mp here
  unfold ConfigName.full
  rw [List.length_append, ← Nat.add_assoc]
  by_cases relative : name.relative = true
  · rw [if_pos relative] at here ⊢
    rw [if_pos relative]
    by_cases unknown : zonePtr = 0
    · rw [if_pos unknown] at here ⊢
      obtain ⟨middle, zero⟩ := readBytes_eq_append.mp here
      rw [List.length_append, ← Nat.add_assoc]
      refine ⟨_, rfl, nameHere_labels host.sizes front ?_⟩
      have ended := nameHere_ended (readBytes_eq_cons.mp zero).1
      have whole := nameHere_labels plain.sizes middle ended
      rwa [List.append_nil] at whole
    · rw [if_neg unknown] at here ⊢
      obtain ⟨short, back, same, there⟩ := pointed unknown
      refine ⟨name.labels ++ back, SameLabels.append rfl same,
        nameHere_labels host.sizes front ?_⟩
      exact nameHere_pointer short here there
  · rw [if_neg relative] at here ⊢
    rw [if_neg relative]
    exact ⟨_, rfl, nameHere_labels host.sizes front (nameHere_ended (readBytes_eq_cons.mp here).1)⟩

theorem Printed.behind {part rest bytes zname : List UInt8} {last : Nat} {zonePtr : UInt16}
    (plain : ∀ byte ∈ part, byte ≠ 0 ∧ byte ≠ 0xC0)
    (printed : Printed zname rest (last + part.length) zonePtr bytes) :
    Printed zname (part ++ rest) last zonePtr (part ++ bytes) := by
  induction part generalizing last with
  | nil => exact printed
  | cons byte part ih =>
    obtain ⟨⟨some, unmarked⟩, others⟩ := List.forall_mem_cons.mp plain
    refine .byte some unmarked (ih others ?_)
    rw [List.length_cons, Nat.add_comm part.length, ← Nat.add_assoc] at printed
    exact printed

/-- The name that `rprt_name` prints. -/
theorem printedName_printed {zone : ZoneEntry} {name : ConfigName} (host : HostName name.labels)
    (plain : HostName zone.labels) (last : Nat) (zonePtr : UInt16) :
    Printed zone.zone.zoneName name.stored last zonePtr (printedName zone name zonePtr) := by
  unfold printedName ConfigName.stored storedName
  refine .behind host.plain_wire ?_
  by_cases relative : name.relative = true
  · rw [if_pos relative, if_pos relative]
    by_cases unknown : zonePtr = 0
    · rw [if_pos unknown, unknown]
      exact .zone rfl (.behind plain.plain_wire (.ended rfl))
    · rw [if_neg unknown]
      exact .pointed rfl unknown
  · rw [if_neg relative, if_neg relative]
    exact .ended rfl

theorem recordIs_written {ansPtr bytes : List UInt8} {owner : List (List UInt8)} {ttl : UInt32}
    {data : RecordData} (two : ansPtr.length = 2)
    (here : readBytes pkt start (ansPtr ++ (data.type ++ dnsCIn ++ endianRet 4 ttl.toNat) ++
        endianRet 2 bytes.length ++ bytes).length =
      ansPtr ++ (data.type ++ dnsCIn ++ endianRet 4 ttl.toNat) ++ endianRet 2 bytes.length ++ bytes)
    (short : bytes.length < 2 ^ 16)
    (name : readBytes pkt start 2 = ansPtr → NameHere pkt start (start + 2) owner)
    (lies : readBytes pkt (start + 12) bytes.length = bytes →
      data.Here pkt (start + 12) (start + 12 + bytes.length)) :
    RecordIs pkt start (start + 12 + bytes.length) ⟨owner, ttl, data⟩ := by
  have eight : (data.type ++ dnsCIn ++ endianRet 4 ttl.toNat).length = 8 := by
    simp [data.type_length, dnsCIn]
  obtain ⟨front, behind⟩ := readBytes_eq_append.mp here
  obtain ⟨front, length⟩ := readBytes_eq_append.mp front
  obtain ⟨pointer, fixed⟩ := readBytes_eq_append.mp front
  rw [List.length_append, List.length_append, two, eight, endianRet_length] at behind
  rw [List.length_append, two, eight] at length
  rw [two] at fixed pointer
  rw [eight] at fixed
  obtain ⟨extent, owned⟩ := name pointer
  have word : sentWord pkt (start + 2 + 8) = bytes.length := sentWord_here length short
  refine ⟨owned, start + 2, extent, fixed, ?_, lies behind⟩
  rw [word]

theorem recordsAre_addresses {place : Nat} {owner : List (List UInt8)} (short : place < 2 ^ 14)
    (there : NameIs pkt place owner) {inaddrs : List MasterInAddr}
    (here : readBytes pkt start (addressRecords (endianRet 2 (0xC000 ||| place)) inaddrs).length =
      addressRecords (endianRet 2 (0xC000 ||| place)) inaddrs) :
    RecordsAre pkt start
      (start + (addressRecords (endianRet 2 (0xC000 ||| place)) inaddrs).length)
      (inaddrs.map fun inaddr => ⟨owner, inaddr.ttl, .address inaddr.addr⟩) := by
  induction inaddrs generalizing start with
  | nil => exact .none
  | cons inaddr rest ih =>
    have split : addressRecords (endianRet 2 (0xC000 ||| place)) (inaddr :: rest) =
        ansA (endianRet 2 (0xC000 ||| place)) inaddr ++
          addressRecords (endianRet 2 (0xC000 ||| place)) rest := List.flatMap_cons
    have parts : ansA (endianRet 2 (0xC000 ||| place)) inaddr =
        endianRet 2 (0xC000 ||| place) ++ (dnsTA ++ dnsCIn ++ endianRet 4 inaddr.ttl.toNat) ++
          endianRet 2 inaddr.addr.bytes.length ++ inaddr.addr.bytes := by
      simp [ansA, InAddr.bytes]
    have four : inaddr.addr.bytes.length = 4 := rfl
    rw [split] at here ⊢
    obtain ⟨first, others⟩ := readBytes_eq_append.mp here
    rw [List.length_append, ← Nat.add_assoc, List.map_cons]
    refine .more ?_ (ih others)
    rw [ansA_length (endianRet_length _ _)]
    rw [parts] at first
    exact @recordIs_written pkt start _ inaddr.addr.bytes owner inaddr.ttl (.address inaddr.addr)
      (endianRet_length _ _) first (by rw [four]; decide)
      (fun pointer => nameHere_pointer short pointer there) fun data => ⟨rfl, data⟩

theorem recordIs_name {type printed : List UInt8} {owner : List (List UInt8)} {ttl : UInt32}
    {data : RecordData} (same : data.type = type) (asked : NameIs pkt 12 owner)
    (here : readBytes pkt start (nameRecord type ttl printed).length = nameRecord type ttl printed)
    (short : printed.length < 2 ^ 16)
    (lies : data.Here pkt (start + 12) (start + 12 + printed.length)) :
    RecordIs pkt start (start + 12 + printed.length) ⟨owner, ttl, data⟩ := by
  have parts : nameRecord type ttl printed = [0xC0, 12] ++ (data.type ++ dnsCIn ++
      endianRet 4 ttl.toNat) ++ endianRet 2 printed.length ++ printed := by
    simp [nameRecord, same]
  rw [parts] at here
  exact recordIs_written rfl here short
    (fun pointer => @nameHere_pointer pkt start owner 12 (by decide) pointer asked) fun _ => lies

theorem nameRecord_printed {type printed : List UInt8} {ttl : UInt32} (word : type.length = 2)
    (here : readBytes pkt start (nameRecord type ttl printed).length = nameRecord type ttl printed) :
    readBytes pkt (start + 12) printed.length = printed := by
  have twelve : ([0xC0, 12] ++ type ++ dnsCIn ++ endianRet 4 ttl.toNat ++
      endianRet 2 printed.length).length = 12 := by
    simp [dnsCIn, word]
  have behind := (readBytes_eq_append.mp here).2
  rwa [twelve] at behind

end Writing

/-! ### The replies -/

/-- The reply with these bytes behind the question. -/
def answeredWith (pkt : Block) (datalen : Nat) (bytes : List UInt8) (count : Nat) (bits : UInt8) :
    MasterReply where
  pkt := fixHeader (writeBytes pkt datalen bytes) count bits
  datalen := datalen + bytes.length
  found := true

/-- What is written for a query for the addresses of a host, which has the name that is asked for. -/
def addressBytes (datalen : Nat) (zone : ZoneEntry) (host : HostEntry) (which : Bool × ConfigName) :
    List UInt8 :=
  if which.1 then
    nameRecord dnsTCname host.ttl (printedName zone host.name (zonePointer which.2)) ++
      addressRecords (endianRet 2 (0xC000 ||| (datalen + 12))) host.record.inaddrs
  else addressRecords (endianRet 2 (0xC000 ||| 12)) host.record.inaddrs

/-- What is written for a query for the name of a host. -/
def nameBytes (zone : ZoneEntry) (host : HostEntry) : List UInt8 :=
  nameRecord dnsTPtr host.ttl (printedName zone host.name 0)

section Replies

variable {pkt : Block} {datalen : Nat} {zone : ZoneEntry} {host : HostEntry}

theorem finishA_whole {ansPtr : List UInt8} (two : ansPtr.length = 2) {record : MasterRecord}
    {place count : Nat} (room : place + 16 * record.inaddrs.length ≤ 512) :
    finishA ansPtr record ⟨pkt, place, 512 - (place : Int), count⟩ =
      .ok (answeredWith pkt place (addressRecords ansPtr record.inaddrs)
        (count + record.inaddrs.length) optQR) := by
  obtain ⟨taken, rest, final, split, done, addressed⟩ := @addAddresses_spec ansPtr two
    record.inaddrs ⟨pkt, place, 512 - (place : Int), count⟩ (by dsimp only; omega) rfl
  have bytes := addressed.pkt
  have stop := addressed.datalen
  have counted := addressed.anCount
  have full := addressed.full
  dsimp only at bytes stop counted full
  have all : rest = [] := by
    by_contra some
    have more := full some
    have left := List.length_pos_of_ne_nil some
    rw [split, List.length_append] at room
    omega
  rw [all, List.append_nil] at split
  rw [finishA, done, split]
  show Except.ok (MasterReply.mk (fixHeader final.pkt final.anCount optQR) final.datalen true) = _
  rw [bytes, counted, stop, answeredWith, addressRecords_length two]

theorem fitsBehind_printed (plain : zone.Plain) (names : host.Plain) {zonePtr : UInt16}
    (room : datalen + 12 + (printedName zone host.name zonePtr).length ≤ 512) :
    FitsBehind datalen zone.zone host.record zonePtr (printedName zone host.name zonePtr) :=
  ⟨printedName_printed names.name plain.labels 0 zonePtr, room⟩

theorem reaches_answerA (plain : zone.Plain) (names : host.Plain) {which : Bool × ConfigName}
    (room : datalen + (addressBytes datalen zone host which).length ≤ 512) :
    Reaches (answerA pkt datalen zone.zone host.record which.1 (zonePointer which.2))
      (answeredWith pkt datalen (addressBytes datalen zone host which)
        ((if which.1 then 1 else 0) + host.record.inaddrs.length) optQR) := by
  obtain ⟨viaAlias, name⟩ := which
  unfold addressBytes at room ⊢
  cases viaAlias with
  | false =>
    rw [if_neg Bool.false_ne_true] at room ⊢
    rw [addressRecords_length (endianRet_length _ _)] at room
    have finished := @finishA_whole pkt _ (endianRet_length 2 (0xC000 ||| 12)) host.record datalen 0
      room
    exact ⟨0, finished⟩
  | true =>
    rw [if_pos rfl] at room ⊢
    rw [List.length_append, nameRecord_length rfl, addressRecords_length (endianRet_length _ _)]
      at room
    dsimp only at room ⊢
    have fits := @fitsBehind_printed datalen zone host plain names (zonePointer name) (by omega)
    obtain ⟨fuel, adding⟩ := (@addName_some pkt _ datalen _ dnsTCname zone.zone host.record
      (zonePointer name) rfl).mpr ⟨_, fits, rfl, rfl⟩
    refine ⟨fuel, bind_eq_ok.mpr ⟨_, adding, ?_⟩⟩
    refine (finishA_whole (endianRet_length _ _) (by omega)).trans (congrArg _ ?_)
    have behind := writeBytes_append pkt datalen (nameRecord dnsTCname host.ttl
        (printedName zone host.name (zonePointer name)))
      (addressRecords (endianRet 2 (0xC000 ||| (datalen + 12))) host.record.inaddrs)
    rw [nameRecord_length rfl, ← Nat.add_assoc] at behind
    rw [answeredWith, answeredWith, List.length_append, nameRecord_length rfl, ← behind,
      ← Nat.add_assoc, ← Nat.add_assoc]
    rfl

theorem reaches_answerPtr (plain : zone.Plain) (names : host.Plain)
    (room : datalen + (nameBytes zone host).length ≤ 512) :
    Reaches (answerPtr pkt datalen zone.zone host.record 0)
      (answeredWith pkt datalen (nameBytes zone host) 1 (optQR ||| optAA)) := by
  unfold nameBytes at room ⊢
  rw [nameRecord_length rfl, ← Nat.add_assoc] at room
  obtain ⟨fuel, adding⟩ := (@addName_some pkt _ datalen _ dnsTPtr zone.zone host.record 0 rfl).mpr
    ⟨_, fitsBehind_printed plain names room, rfl, rfl⟩
  refine ⟨fuel, bind_eq_ok.mpr ⟨_, adding, ?_⟩⟩
  refine congrArg Except.ok ?_
  rw [answeredWith, nameRecord_length rfl, Nat.add_assoc]
  rfl

end Replies

/-! ### What the replies say -/

structure SingleQuestion (pkt : Block) (datalen : Nat) (qlabels : List (List UInt8))
    (type : List UInt8) : Prop where
  name : QueryName qlabels
  word : type.length = 2
  length : datalen = 12 + (wireLabels qlabels).length + 5
  question : readBytes pkt 12 ((wireLabels qlabels).length + 5) =
    wireLabels qlabels ++ [0] ++ (type ++ dnsCIn)

/-- The reply holds these records behind the question, and its header tells how many they are. -/
structure Says (reply : MasterReply) (datalen : Nat) (records : List ResourceRecord) : Prop where
  found : reply.found = true
  room : reply.datalen ≤ 512
  count : sentWord reply.pkt 6 = records.length
  records : RecordsAre reply.pkt datalen reply.datalen records

theorem RecordsAre.complete {pkt : Block} {start stop : Nat} {records : List ResourceRecord}
    (are : RecordsAre pkt start stop records) : Records pkt start stop records.length := by
  induction are with
  | none => exact .none
  | more first _ ih =>
    obtain ⟨behind, name, _, stop, _⟩ := first.parts
    exact .more ⟨behind, name, stop⟩ ih

/-- A reply that says something has complete records behind the question. -/
theorem Says.answered {reply : MasterReply} {datalen : Nat} {records : List ResourceRecord}
    (told : Says reply datalen records) : Answered datalen reply := by
  refine ⟨told.room, fun _ => ?_⟩
  rw [told.count]
  exact told.records.complete

/-- The records that tell the addresses of a host with this canonical name. -/
def addressAnswer (qlabels : List (List UInt8)) (host : HostEntry) (viaAlias : Bool)
    (target : List (List UInt8)) : List ResourceRecord :=
  if viaAlias then
    ⟨qlabels, host.ttl, .cname target⟩ ::
      host.addrs.map fun addr => ⟨target, host.ttl, .address addr⟩
  else host.addrs.map fun addr => ⟨qlabels, host.ttl, .address addr⟩

section Telling

variable {pkt : Block} {datalen : Nat} {zone : ZoneEntry} {host : HostEntry}
  {qlabels : List (List UInt8)} {type bytes : List UInt8} {count : Nat} {bits : UInt8}

theorem answeredWith_bytes (behind : 12 ≤ datalen) :
    readBytes (answeredWith pkt datalen bytes count bits).pkt datalen bytes.length = bytes := by
  rw [answeredWith, fixHeader_behind behind, readBytes_writeBytes]

theorem answeredWith_question {length : Nat} (inside : 12 + length ≤ datalen) :
    readBytes (answeredWith pkt datalen bytes count bits).pkt 12 length = readBytes pkt 12 length := by
  rw [answeredWith, fixHeader_behind (Nat.le_refl 12), readBytes_writeBytes_outside (.inl inside)]

theorem SingleQuestion.asked (single : SingleQuestion pkt datalen qlabels type) :
    readBytes pkt 12 (wireLabels qlabels ++ [0]).length = wireLabels qlabels ++ [0] := by
  have question := single.question
  have size : (wireLabels qlabels ++ [0] ++ (type ++ dnsCIn)).length =
      (wireLabels qlabels).length + 5 := by
    simp [single.word, dnsCIn]
  rw [← size] at question
  exact (readBytes_eq_append.mp question).1

/-- The question is still there, with the name that is asked for. -/
theorem SingleQuestion.stays (single : SingleQuestion pkt datalen qlabels type) :
    readBytes (answeredWith pkt datalen bytes count bits).pkt 12 (wireLabels qlabels ++ [0]).length =
      wireLabels qlabels ++ [0] := by
  rw [answeredWith_question, single.asked]
  rw [single.length, List.length_append, List.length_singleton]
  omega

theorem SingleQuestion.owner (single : SingleQuestion pkt datalen qlabels type) :
    NameIs (answeredWith pkt datalen bytes count bits).pkt 12 qlabels := by
  obtain ⟨labels, zero⟩ := readBytes_eq_append.mp
    (@SingleQuestion.stays pkt datalen qlabels type bytes count bits single)
  have whole := nameHere_labels single.name.sizes labels
    (nameHere_ended (readBytes_eq_cons.mp zero).1)
  rw [List.append_nil] at whole
  exact whole.2

/-- If the name of the query is completed by that of the zone, there the zone's name stands. -/
theorem SingleQuestion.pointed (single : SingleQuestion pkt datalen qlabels type)
    {name : ConfigName} (names : HostName name.labels)
    (asks : asksFor qlabels zone name = true) (known : zonePointer name ≠ 0) :
    (zonePointer name).toNat < 2 ^ 14 ∧ ∃ back, SameLabels back zone.labels ∧
      NameIs (answeredWith pkt datalen bytes count bits).pkt (zonePointer name).toNat back := by
  have relative : name.relative = true := by
    by_contra absolute
    exact known (if_neg absolute)
  have same : SameLabels qlabels (name.full zone.labels) := of_decide_eq_true asks
  rw [ConfigName.full, if_pos relative] at same
  obtain ⟨front, back, rfl, first, second⟩ :=
    List.map_eq_append_iff.mp (same.trans List.map_append)
  obtain ⟨sizes, sizes'⟩ := List.forall_mem_append.mp single.name.sizes
  have length := SameLabels.length first sizes names.sizes
  have short := single.name.short
  rw [wireLabels_append, List.length_append] at short
  have place : (zonePointer name).toNat = 12 + (wireLabels front).length := by
    rw [zonePointer, if_pos relative, UInt16.toNat_ofNat', length]
    omega
  refine ⟨by omega, back, second, ?_⟩
  have stays := @SingleQuestion.stays pkt datalen _ type bytes count bits single
  rw [wireLabels_append, List.append_assoc] at stays
  obtain ⟨_, behind⟩ := readBytes_eq_append.mp stays
  obtain ⟨labels, zero⟩ := readBytes_eq_append.mp behind
  have whole := nameHere_labels sizes' labels (nameHere_ended (readBytes_eq_cons.mp zero).1)
  rw [List.append_nil] at whole
  rw [place]
  exact whole.2

theorem inaddrs_records (owner : List (List UInt8)) :
    (host.record.inaddrs.map fun inaddr => (⟨owner, inaddr.ttl, .address inaddr.addr⟩ :
        ResourceRecord)) = host.addrs.map fun addr => ⟨owner, host.ttl, .address addr⟩ := by
  rw [HostEntry.record, List.map_map]
  rfl

/-- What is answered to a query for the addresses of a host. -/
theorem says_addresses (single : SingleQuestion pkt datalen qlabels type) (plain : zone.Plain)
    (names : host.Plain) {which : Bool × ConfigName}
    (asked : nameAsked qlabels zone host = some which)
    (room : datalen + (addressBytes datalen zone host which).length ≤ 512) :
    ∃ target, SameLabels target (host.name.full zone.labels) ∧
      Says (answeredWith pkt datalen (addressBytes datalen zone host which)
        ((if which.1 then 1 else 0) + host.record.inaddrs.length) optQR) datalen
        (addressAnswer qlabels host which.1 target) := by
  obtain ⟨member, asks⟩ := nameAsked_spec asked
  have named := names.names _ member
  obtain ⟨viaAlias, name⟩ := which
  have behind : 12 ≤ datalen := by
    have length := single.length
    omega
  have size : host.record.inaddrs.length = host.addrs.length := List.length_map _
  unfold addressBytes at room ⊢
  unfold addressAnswer
  cases viaAlias with
  | false =>
    rw [if_neg Bool.false_ne_true] at room
    rw [if_neg Bool.false_ne_true, if_neg Bool.false_ne_true, Nat.zero_add]
    have written := @answeredWith_bytes pkt datalen (addressRecords (endianRet 2 (0xC000 ||| 12))
      host.record.inaddrs) host.record.inaddrs.length optQR behind
    have told := recordsAre_addresses (by decide) single.owner written
    rw [inaddrs_records] at told
    refine ⟨_, rfl, ?_⟩
    rw [if_neg Bool.false_ne_true]
    refine ⟨rfl, room, ?_, told⟩
    rw [addressRecords_length (endianRet_length _ _)] at room
    rw [answeredWith, fixHeader_count (by omega), List.length_map, size]
  | true =>
    rw [if_pos rfl] at room
    rw [if_pos rfl, if_pos rfl]
    dsimp only at room asks named ⊢
    have written := @answeredWith_bytes pkt datalen (nameRecord dnsTCname host.ttl
        (printedName zone host.name (zonePointer name)) ++
      addressRecords (endianRet 2 (0xC000 ||| (datalen + 12))) host.record.inaddrs)
      (1 + host.record.inaddrs.length) optQR behind
    obtain ⟨first, others⟩ := readBytes_eq_append.mp written
    obtain ⟨target, same, lies⟩ := nameHere_printed names.name plain.labels
      (nameRecord_printed rfl first) fun known => single.pointed named asks known
    rw [List.length_append, nameRecord_length rfl, addressRecords_length (endianRet_length _ _)]
      at room
    have told := recordsAre_addresses (by omega) lies.2 others
    have told' := @recordIs_name _ _ _ _ _ _ (.cname target) rfl single.owner first (by omega) lies
    refine ⟨target, same, ?_⟩
    rw [if_pos rfl]
    refine ⟨rfl, ?_, ?_, .more told' ?_⟩
    · rw [answeredWith, List.length_append, nameRecord_length rfl,
        addressRecords_length (endianRet_length _ _)]
      exact room
    · rw [answeredWith, fixHeader_count (by omega), List.length_cons, List.length_map, size,
        Nat.add_comm]
    · rw [inaddrs_records, nameRecord_length rfl, ← Nat.add_assoc] at told
      rw [answeredWith, List.length_append, nameRecord_length rfl, ← Nat.add_assoc,
        ← Nat.add_assoc]
      exact told

/-- What is answered to a query for the name of a host. -/
theorem says_name (single : SingleQuestion pkt datalen qlabels type) (plain : zone.Plain)
    (names : host.Plain) (room : datalen + (nameBytes zone host).length ≤ 512) :
    ∃ target, SameLabels target (host.name.full zone.labels) ∧
      Says (answeredWith pkt datalen (nameBytes zone host) 1 (optQR ||| optAA)) datalen
        [⟨qlabels, host.ttl, .ptr target⟩] := by
  have behind : 12 ≤ datalen := by
    have length := single.length
    omega
  have written := @answeredWith_bytes pkt datalen (nameBytes zone host) 1 (optQR ||| optAA) behind
  obtain ⟨target, same, lies⟩ := nameHere_printed names.name plain.labels
    (nameRecord_printed rfl written) fun known => absurd rfl known
  unfold nameBytes at room
  rw [nameRecord_length rfl, ← Nat.add_assoc] at room
  have told := @recordIs_name _ _ _ _ _ _ (.ptr target) rfl single.owner written (by omega) lies
  refine ⟨target, same, rfl, ?_, ?_, .more told ?_⟩
  · rw [answeredWith, nameBytes, nameRecord_length rfl, ← Nat.add_assoc]
    exact room
  · rw [answeredWith, fixHeader_count (by decide), List.length_singleton]
  · rw [answeredWith, nameBytes, nameRecord_length rfl, ← Nat.add_assoc]
    exact .none

end Telling

/-! ### Lookups in a configured database -/

/-- What is written for the host that is found has room. -/
structure AnswerRoom (entries : List ZoneEntry) (qlabels : List (List UInt8)) (type : List UInt8)
    (datalen : Nat) : Prop where
  addresses : type = dnsTA → ∀ zone host which,
    firstAsked (nameAsked qlabels) entries = some (zone, host, which) →
      datalen + (addressBytes datalen zone host which).length ≤ 512
  name : type = dnsTPtr → ∀ zone host which,
    firstAsked (addressAsked qlabels) entries = some (zone, host, which) →
      datalen + (nameBytes zone host).length ≤ 512

/-- No host has the name, or the address, that is asked for. -/
def Unknown (entries : List ZoneEntry) (qlabels : List (List UInt8)) (type : List UInt8) : Prop :=
  ∀ zone host, (zone, host) ∈ searchOrder entries →
    (type = dnsTA → ∀ name ∈ host.name :: host.aliases,
      ¬ SameLabels qlabels (name.full zone.labels)) ∧
    (type = dnsTPtr → ∀ addr ∈ host.addrs, ¬ SameLabels qlabels (arpaName addr).labels)

/-- The reply tells the addresses of the first host with the name, with its canonical name if the
name is an alias; or the canonical name of the first host with the address; or nothing is found. -/
structure RightReply (entries : List ZoneEntry) (qlabels : List (List UInt8)) (type : List UInt8)
    (pkt : Block) (datalen : Nat) (reply : MasterReply) : Prop where
  addresses : type = dnsTA → ∀ zone host viaAlias name,
    firstAsked (nameAsked qlabels) entries = some (zone, host, viaAlias, name) →
      ∃ target, SameLabels target (host.name.full zone.labels) ∧
        Says reply datalen (addressAnswer qlabels host viaAlias target)
  name : type = dnsTPtr → ∀ addr, SameLabels qlabels (arpaName addr).labels → ∀ zone host,
    (searchOrder entries).find? (fun entry => addr ∈ entry.2.addrs) = some (zone, host) →
      ∃ target, SameLabels target (host.name.full zone.labels) ∧
        Says reply datalen [⟨qlabels, host.ttl, .ptr target⟩]
  unknown : Unknown entries qlabels type → reply = ⟨pkt, datalen, false⟩

section Lookups

variable {entries : List ZoneEntry} {qlabels : List (List UInt8)} {type : List UInt8} {pkt : Block}
  {datalen : Nat}

theorem SingleQuestion.queried (single : SingleQuestion pkt datalen qlabels type) :
    readBytes (queriedName pkt) 0 ((wireLabels qlabels).length + 1) = wireLabels qlabels ++ [0] := by
  have asked := single.asked
  rw [List.length_append, List.length_singleton] at asked
  refine Eq.trans (readBytes_congr fun position _ => ?_) asked
  rw [queriedName, Nat.zero_add]

theorem SingleQuestion.info (single : SingleQuestion pkt datalen qlabels type) :
    readBytes pkt (datalen - 4) 4 = type ++ dnsCIn := by
  have question := single.question
  have place : 12 + (wireLabels qlabels ++ [0]).length = datalen - 4 := by
    rw [single.length, List.length_append, List.length_singleton]
    omega
  have size : (wireLabels qlabels ++ [0] ++ (type ++ dnsCIn)).length =
      (wireLabels qlabels).length + 5 := by
    simp [single.word, dnsCIn]
  have four : (type ++ dnsCIn).length = 4 := by simp [single.word, dnsCIn]
  rw [← size] at question
  have behind := (readBytes_eq_append.mp question).2
  rwa [place, four] at behind

theorem SingleQuestion.behind (single : SingleQuestion pkt datalen qlabels type) : 12 ≤ datalen := by
  have length := single.length
  omega

theorem lookup_addresses_right (plain : ∀ zone ∈ entries, zone.Plain)
    (single : SingleQuestion pkt datalen qlabels dnsTA)
    (room : AnswerRoom entries qlabels dnsTA datalen) :
    ∃ reply, Reaches (qxdnsMasterLookup (entries.map ZoneEntry.zone) pkt datalen) reply ∧
      RightReply entries qlabels dnsTA pkt datalen reply := by
  have searched := @reaches_findZone _ _ (fun which : Bool × ConfigName => (which.1, zonePointer which.2))
    _ entries (nameAsked qlabels) grows_hostNamed fun zone present host there =>
      reaches_hostNamed single.name single.queried (plain zone present).labels
        ((plain zone present).hosts host there)
  rw [lookup_address single.behind single.info]
  cases found : firstAsked (nameAsked qlabels) entries with
  | none =>
    rw [found] at searched
    refine ⟨⟨pkt, datalen, false⟩, (reaches_search grows_hostNamed fun zone host which =>
      grows_answerA pkt datalen zone host which.1 which.2).mpr ⟨none, searched, 0, rfl⟩, ?_⟩
    exact ⟨fun _ zone host viaAlias name first => absurd (found.symm.trans first) nofun,
      fun other => absurd other (by decide), fun _ => rfl⟩
  | some first =>
    obtain ⟨zone, host, which⟩ := first
    obtain ⟨member, asked⟩ := firstAsked_spec found
    obtain ⟨present, there⟩ := mem_searchOrder.mp member
    have named := plain zone present
    have fits := room.addresses rfl zone host which found
    rw [found] at searched
    refine ⟨_, (reaches_search grows_hostNamed fun zone host which =>
      grows_answerA pkt datalen zone host which.1 which.2).mpr ⟨_, searched,
        reaches_answerA named (named.hosts host there) fits⟩, ?_⟩
    refine ⟨fun _ zone' host' viaAlias name first => ?_, fun other => absurd other (by decide),
      fun unknown => ?_⟩
    · cases found.symm.trans first
      exact says_addresses single named (named.hosts host there) asked fits
    · obtain ⟨own, asks⟩ := nameAsked_spec asked
      exact absurd (asksFor_iff.mp asks) ((unknown zone host member).1 rfl _ own)

theorem lookup_name_right (plain : ∀ zone ∈ entries, zone.Plain)
    (single : SingleQuestion pkt datalen qlabels dnsTPtr)
    (room : AnswerRoom entries qlabels dnsTPtr datalen) :
    ∃ reply, Reaches (qxdnsMasterLookup (entries.map ZoneEntry.zone) pkt datalen) reply ∧
      RightReply entries qlabels dnsTPtr pkt datalen reply := by
  have searched := @reaches_findZone _ _ zonePointer _ entries (addressAsked qlabels)
    grows_hostAddressed fun zone present host there =>
      reaches_hostAddressed single.name single.queried (plain zone present).labels host
  rw [lookup_name single.behind single.info]
  cases found : firstAsked (addressAsked qlabels) entries with
  | none =>
    rw [found] at searched
    refine ⟨⟨pkt, datalen, false⟩, (reaches_search grows_hostAddressed fun zone host which =>
      grows_answerPtr pkt datalen zone host which).mpr ⟨none, searched, 0, rfl⟩, ?_⟩
    refine ⟨fun other => absurd other (by decide), fun _ addr asks zone host first => ?_, fun _ => rfl⟩
    exact absurd (found.symm.trans (firstAsked_address asks first)) nofun
  | some first =>
    obtain ⟨zone, host, name⟩ := first
    obtain ⟨member, asked⟩ := firstAsked_spec found
    obtain ⟨present, there⟩ := mem_searchOrder.mp member
    have named := plain zone present
    have fits := room.name rfl zone host name found
    obtain ⟨addr, own, rfl⟩ := List.mem_map.mp (List.mem_of_find?_eq_some asked)
    rw [found] at searched
    refine ⟨_, (reaches_search grows_hostAddressed fun zone host which =>
      grows_answerPtr pkt datalen zone host which).mpr ⟨_, searched,
        reaches_answerPtr named (named.hosts host there) fits⟩, ?_⟩
    refine ⟨fun other => absurd other (by decide), fun _ addr' asks zone' host' first => ?_,
      fun unknown => ?_⟩
    · have same := Option.some.inj (found.symm.trans (firstAsked_address asks first))
      obtain ⟨rfl, rest⟩ := Prod.ext_iff.mp same
      obtain ⟨rfl, _⟩ := Prod.ext_iff.mp rest
      exact says_name single named (named.hosts host there) fits
    · exact absurd (asksFor_arpaName.mp (List.find?_some asked))
        ((unknown zone host member).2 rfl addr own)

/-- A lookup among stored zones comes to its end with the right reply. -/
theorem stored_lookup_right (plain : ∀ zone ∈ entries, zone.Plain)
    (single : SingleQuestion pkt datalen qlabels type) (room : AnswerRoom entries qlabels type datalen) :
    ∃ reply, Reaches (qxdnsMasterLookup (entries.map ZoneEntry.zone) pkt datalen) reply ∧
      RightReply entries qlabels type pkt datalen reply := by
  by_cases address : type = dnsTA
  · subst address
    exact lookup_addresses_right plain single room
  · by_cases name : type = dnsTPtr
    · subst name
      exact lookup_name_right plain single room
    · have other (type' : List UInt8) (different : type ≠ type') :
          readBytes pkt (datalen - 4) 4 ≠ type' ++ dnsCIn := by
        rw [single.info]
        exact fun same => different (List.append_cancel_right same)
      exact ⟨_, ⟨0, lookup_other single.behind (other _ address) (other _ name) 0⟩,
        fun address' => absurd address' address, fun name' => absurd name' name, fun _ => rfl⟩

/-- A lookup in a configured database comes to its end with the right reply. -/
theorem configured_lookup_right {rootZone : List MasterZone} (configured : Configured entries rootZone)
    (single : SingleQuestion pkt datalen qlabels type) (room : AnswerRoom entries qlabels type datalen) :
    ∃ reply, Reaches (qxdnsMasterLookup rootZone pkt datalen) reply ∧
      RightReply entries qlabels type pkt datalen reply := by
  obtain ⟨rfl, plain⟩ := configured.stored
  exact stored_lookup_right plain single room

end Lookups

/-- The zone x with the host h and its alias w. -/
def aliasEntry : ZoneEntry where
  labels := [[120]]
  hosts := [{ name := ⟨[[104]], true⟩, ttl := 30, aliases := [⟨[[119]], true⟩], addrs := [⟨10, 0, 0, 1⟩] }]

theorem alias_entry_is_right : ∃ reply,
    Reaches (qxdnsMasterLookup [aliasEntry.zone] aliasQuery 21) reply ∧
      RightReply [aliasEntry] [[119], [120]] dnsTA aliasQuery 21 reply := by
  have plain (letter : UInt8) (same : letter = 104 ∨ letter = 119 ∨ letter = 120) :
      HostName [[letter]] := by
    rcases same with rfl | rfl | rfl <;> exact ⟨by decide, by decide, by decide⟩
  refine configured_lookup_right (.host (.zone .none (plain 120 (by decide)) rfl)
    (.addressed (.aliased (.cname (plain 104 (by decide)) rfl) (plain 119 (by decide)) rfl) rfl))
    ⟨⟨by decide, by decide⟩, rfl, rfl, by decide +kernel⟩ ⟨fun _ zone host which first => ?_, fun other => ?_⟩
  · cases first
    decide +kernel
  · exact absurd other (by decide)

def markedHost : HostEntry where
  name := ⟨[[97, 0xC0, 98]], true⟩
  ttl := 30
  aliases := []
  addrs := []

def markedEntry : ZoneEntry := { labels := [[120]], hosts := [markedHost] }

def markedQuery : Block := fun position =>
  ([1, 2, 1, 0, 0, 1, 0, 0, 0, 0, 0, 0] ++ wireLabels [[97, 1, 120]] ++ [0] ++ dnsTA ++
    dnsCIn).getD position 0

/-- The query for the alias in other letters. -/
def upperQuery : Block := fun position =>
  ([1, 2, 1, 0, 0, 1, 0, 0, 0, 0, 0, 0] ++ wireLabels [[119], [88]] ++ [0] ++ dnsTA ++
    dnsCIn).getD position 0

/-- It is found in the database, although no host has this name. And the name of a zone that is read
behind a pointer has the letters of the query. -/
theorem unknown_name_is_found :
    ((qxdnsNewMz [] (hostText [[120]] false) >>= fun zones =>
      (qxdnsNewMr (hostText [[97, 0xC0, 98]] true) 30).map fun host => zones.map (qxdnsAddMr · host)) =
        .ok [markedEntry.zone] ∧
    SingleQuestion markedQuery 21 [[97, 1, 120]] dnsTA ∧ Unknown [markedEntry] [[97, 1, 120]] dnsTA ∧
    (qxdnsMasterLookup [markedEntry.zone] markedQuery 21 60).map MasterReply.found = .ok true) ∧
    (qxdnsMasterLookup [aliasEntry.zone] upperQuery 21 60).map (fun reply =>
      readBytes reply.pkt 33 4 ++ readBytes reply.pkt 14 3) = .ok [1, 104, 0xC0, 14, 1, 88, 0] := by
  refine ⟨⟨by decide +kernel, ⟨⟨by decide, by decide⟩, rfl, rfl, by decide +kernel⟩, ?_,
    by decide +kernel⟩, by decide +kernel⟩
  intro zone host member
  obtain ⟨present, there⟩ := mem_searchOrder.mp member
  cases List.mem_singleton.mp present
  cases List.mem_singleton.mp there
  exact ⟨fun _ => by decide, fun other => absurd other (by decide)⟩

end QNXStuff.QXDns
