import QNXStuff.QXDns.Master
import QNXStuff.QXDns.NameMatches

/-! What a lookup in the master database returns: the packet with its answer behind it. -/

namespace QNXStuff.QXDns

open Execution Memory
open QXMail (wireLabels)

/-! ### Enough fuel -/

section Growing

variable {Found : Type} {qname : Block} {zname : List UInt8}

theorem grows_matchNames (names : List (List UInt8)) :
    Grows fun fuel => matchNames qname zname fuel names := by
  induction names with
  | nil => exact Grows.const _
  | cons name rest ih =>
    refine Grows.bind (Grows.loop _ _ _) fun compared => ?_
    obtain ⟨same, zonePtr⟩ := compared
    cases same with
    | true => exact Grows.const _
    | false => exact ih

theorem grows_hostNamed (zone : MasterZone) (host : MasterRecord) :
    Grows fun fuel => hostNamed qname fuel zone host := by
  refine Grows.bind (Grows.loop _ _ _) fun compared => ?_
  obtain ⟨same, zonePtr⟩ := compared
  cases same with
  | true => exact Grows.const _
  | false => exact Grows.map (grows_matchNames host.aliases) _

theorem grows_hostAddressed (zone : MasterZone) (host : MasterRecord) :
    Grows fun fuel => hostAddressed qname fuel zone host :=
  grows_matchNames _

theorem grows_findHost {sought : Nat → MasterRecord → Except MasterFault (Option Found)}
    (grows : ∀ host, Grows fun fuel => sought fuel host) (hosts : List MasterRecord) :
    Grows fun fuel => findHost (sought fuel) hosts := by
  induction hosts with
  | nil => exact Grows.const _
  | cons host rest ih =>
    refine Grows.bind (grows host) fun found => ?_
    cases found with
    | some found => exact Grows.const _
    | none => exact ih

theorem grows_findZone {sought : Nat → MasterZone → MasterRecord → Except MasterFault (Option Found)}
    (grows : ∀ zone host, Grows fun fuel => sought fuel zone host) (zones : List MasterZone) :
    Grows fun fuel => findZone (sought fuel) zones := by
  induction zones with
  | nil => exact Grows.const _
  | cons zone rest ih =>
    refine Grows.bind (grows_findHost (grows zone) zone.hosts) fun found => ?_
    cases found with
    | some found => exact Grows.const _
    | none => exact ih

theorem grows_addName (pkt : Block) (datalen : Nat) (type : List UInt8) (zone : MasterZone)
    (host : MasterRecord) (zonePtr : UInt16) : Grows (addName pkt datalen type zone host zonePtr) := by
  refine Grows.bind (Grows.const _) fun pkt => Grows.bind (Grows.loop _ _ _) fun printed => ?_
  obtain ⟨pkt, anPtr⟩ := printed
  cases anPtr with
  | none => exact Grows.const _
  | some anPtr => exact Grows.const _

theorem grows_answerA (pkt : Block) (datalen : Nat) (zone : MasterZone) (host : MasterRecord)
    (addCname : Bool) (zonePtr : UInt16) : Grows (answerA pkt datalen zone host addCname zonePtr) := by
  cases addCname with
  | false => exact Grows.const _
  | true =>
    refine Grows.bind (grows_addName pkt datalen dnsTCname zone host zonePtr) fun named => ?_
    obtain ⟨pkt, anPtr⟩ := named
    cases anPtr with
    | none => exact Grows.const _
    | some anPtr => exact Grows.const _

theorem grows_answerPtr (pkt : Block) (datalen : Nat) (zone : MasterZone) (host : MasterRecord)
    (zonePtr : UInt16) : Grows (answerPtr pkt datalen zone host zonePtr) := by
  refine Grows.bind (grows_addName pkt datalen dnsTPtr zone host zonePtr) fun named => ?_
  obtain ⟨pkt, anPtr⟩ := named
  cases anPtr with
  | none => exact Grows.const _
  | some anPtr => exact Grows.const _

end Growing

theorem pktWrite_room {pkt : Block} {place : Nat} {bytes : List UInt8}
    (room : place + bytes.length ≤ 512) :
    pktWrite pkt place bytes = .ok (writeBytes pkt place bytes) :=
  if_pos room

/-! ### The records of an answer -/

/-- A record whose owner is the name of the question and whose data is a name. -/
def nameRecord (type : List UInt8) (ttl : UInt32) (printed : List UInt8) : List UInt8 :=
  [0xC0, 12] ++ type ++ dnsCIn ++ endianRet 4 ttl.toNat ++ endianRet 2 printed.length ++ printed

def addressRecords (ansPtr : List UInt8) (inaddrs : List MasterInAddr) : List UInt8 :=
  inaddrs.flatMap (ansA ansPtr)

@[simp] theorem endianRet_length (width number : Nat) : (endianRet width number).length = width := by
  rw [endianRet, List.length_reverse, bytesOf_length]

theorem ansA_length {ansPtr : List UInt8} (pointer : ansPtr.length = 2) (inaddr : MasterInAddr) :
    (ansA ansPtr inaddr).length = 16 := by
  simp [ansA, dnsTA, dnsCIn, InAddr.bytes, pointer]

theorem addressRecords_length {ansPtr : List UInt8} (pointer : ansPtr.length = 2)
    (inaddrs : List MasterInAddr) : (addressRecords ansPtr inaddrs).length = 16 * inaddrs.length := by
  induction inaddrs with
  | nil => rfl
  | cons inaddr rest ih =>
    rw [addressRecords, List.flatMap_cons, List.length_append, ansA_length pointer, ← addressRecords,
      ih, List.length_cons]
    omega

theorem nameRecord_length {type : List UInt8} (word : type.length = 2) (ttl : UInt32)
    (printed : List UInt8) : (nameRecord type ttl printed).length = 12 + printed.length := by
  simp [nameRecord, dnsCIn, word]
  omega

/-- What the loop over the addresses has done behind the packet. -/
structure Addressed (ansPtr : List UInt8) (state : Answering) (taken rest : List MasterInAddr)
    (final : Answering) : Prop where
  room : state.datalen + 16 * taken.length ≤ 512
  full : rest ≠ [] → 512 < state.datalen + 16 * taken.length + 16
  pkt : final.pkt = writeBytes state.pkt state.datalen (addressRecords ansPtr taken)
  datalen : final.datalen = state.datalen + 16 * taken.length
  anCount : final.anCount = state.anCount + taken.length

/-- The addresses are added as long as there is room for them. -/
theorem addAddresses_spec {ansPtr : List UInt8} (pointer : ansPtr.length = 2)
    {inaddrs : List MasterInAddr} {state : Answering} (room : state.datalen ≤ 512)
    (len : state.len = 512 - state.datalen) :
    ∃ taken rest final, inaddrs = taken ++ rest ∧
      addAddresses ansPtr inaddrs state = .ok final ∧ Addressed ansPtr state taken rest final := by
  induction inaddrs generalizing state with
  | nil =>
    refine ⟨[], [], state, rfl, rfl, room, fun none => absurd rfl none, ?_, rfl, rfl⟩
    exact (writeBytes_nil _ _).symm
  | cons inaddr rest ih =>
    by_cases full : state.len % 2 ^ 32 < 16
    · refine ⟨[], inaddr :: rest, state, rfl, if_pos full, room, fun _ => ?_, ?_, rfl, rfl⟩
      · rw [List.length_nil]
        omega
      · exact (writeBytes_nil _ _).symm
    · have written : pktWrite state.pkt state.datalen (ansA ansPtr inaddr) =
          .ok (writeBytes state.pkt state.datalen (ansA ansPtr inaddr)) := by
        refine pktWrite_eq_ok.mpr ⟨?_, rfl⟩
        rw [ansA_length pointer]
        omega
      obtain ⟨taken, left, final, split, done, addressed⟩ := @ih
        { pkt := writeBytes state.pkt state.datalen (ansA ansPtr inaddr)
          datalen := state.datalen + 16, len := state.len - 16, anCount := state.anCount + 1 }
        (by simp only; omega) (by simp only [len]; omega)
      have within := addressed.room
      simp only at within
      refine ⟨inaddr :: taken, left, final, by rw [split]; rfl, ?_, ?_, fun some => ?_, ?_, ?_, ?_⟩
      · rw [addAddresses, if_neg full, written]
        exact done
      · rw [List.length_cons]
        omega
      · have more := addressed.full some
        simp only at more
        rw [List.length_cons]
        omega
      · have behind := writeBytes_append state.pkt state.datalen (ansA ansPtr inaddr)
          (addressRecords ansPtr taken)
        rw [ansA_length pointer] at behind
        rw [addressed.pkt, behind]
        rfl
      · rw [addressed.datalen, List.length_cons]
        simp only
        omega
      · rw [addressed.anCount, List.length_cons]
        simp only
        omega

/-! ### A name in an answer -/

section Names

variable {pkt final : Block} {datalen anPtr : Nat} {type : List UInt8} {zone : MasterZone}
  {host : MasterRecord} {zonePtr : UInt16}

/-- The printed name of a host fits behind the packet. -/
def FitsBehind (datalen : Nat) (zone : MasterZone) (host : MasterRecord) (zonePtr : UInt16)
    (printed : List UInt8) : Prop :=
  Printed zone.zoneName host.cname 0 zonePtr printed ∧ datalen + 12 + printed.length ≤ 512

/-- The three parts of a record, of which the length is written last. -/
theorem writeBytes_record {front length back : List UInt8} (start : Nat) (ten : front.length = 10)
    (two : length.length = 2) :
    writeBytes (writeBytes (writeBytes pkt start front) (start + 12) back) (start + 10) length =
      writeBytes pkt start (front ++ length ++ back) := by
  have whole := writeBytes_append pkt start (front ++ length) back
  have begun := writeBytes_append pkt start front length
  rw [List.length_append, ten, two] at whole
  rw [ten] at begun
  rw [writeBytes_comm _ (.inr (by rw [two])), begun, whole]

/-- A name without a mark is printed as it is stored. -/
theorem Printed.of_plain {part zname bytes : List UInt8} {last : Nat} {zonePtr : UInt16}
    (plain : ∀ byte ∈ part, byte ≠ 0 ∧ byte ≠ 0xC0)
    (printed : Printed zname (part ++ [0]) last zonePtr bytes) : bytes = part ++ [0] := by
  induction part generalizing last bytes with
  | nil =>
    cases printed with
    | ended _ => rfl
    | pointed mark _ => cases mark
    | zone mark _ => cases mark
    | byte some _ _ => exact absurd rfl some
  | cons byte part ih =>
    obtain ⟨⟨some, unmarked⟩, others⟩ := List.forall_mem_cons.mp plain
    cases printed with
    | ended zero => exact absurd zero some
    | pointed mark _ => exact absurd mark unmarked
    | zone mark _ => exact absurd mark unmarked
    | byte _ _ rest => rw [ih others rest, List.cons_append]

theorem addName_some (word : type.length = 2) :
    Reaches (addName pkt datalen type zone host zonePtr) (final, some anPtr) ↔
      ∃ printed, FitsBehind datalen zone host zonePtr printed ∧
        final = writeBytes pkt datalen (nameRecord type host.ttl printed) ∧
        anPtr = datalen + 12 + printed.length := by
  have ten : ([0xC0, 12] ++ type ++ dnsCIn ++ endianRet 4 host.ttl.toNat).length = 10 := by
    simp [dnsCIn, word]
  have two (number : Nat) : (endianRet 2 number).length = 2 := endianRet_length 2 number
  constructor
  · rintro ⟨fuel, done⟩
    obtain ⟨begun, written, done⟩ := bind_eq_ok.mp done
    obtain ⟨_, rfl⟩ := pktWrite_eq_ok.mp written
    obtain ⟨⟨named, ended⟩, printing, done⟩ := bind_eq_ok.mp done
    cases ended with
    | none => cases done
    | some ended =>
      rcases printed_of_ends (reaches_loop.mp ⟨fuel, printing⟩) with none | ⟨printed, names, room, same⟩
      · cases none
      · cases same
        obtain ⟨whole, written, done⟩ := bind_eq_ok.mp done
        obtain ⟨_, rfl⟩ := pktWrite_eq_ok.mp written
        cases done
        refine ⟨printed, ⟨names, room⟩, ?_, rfl⟩
        rw [Nat.add_zero, Nat.add_sub_cancel_left, writeBytes_record datalen ten (two _)]
        rfl
  · rintro ⟨printed, ⟨names, room⟩, rfl, rfl⟩
    obtain ⟨fuel, printing⟩ := reaches_loop.mpr (@Printed.ends
      (writeBytes pkt datalen ([0xC0, 12] ++ type ++ dnsCIn ++ endianRet 4 host.ttl.toNat))
      (datalen + 12) zone.zoneName (502 - datalen) _ _ host.cname 0 0 zonePtr names rfl room
      (by omega))
    have begun := @pktWrite_room pkt _ _ (show datalen + ([0xC0, 12] ++ type ++ dnsCIn ++
      endianRet 4 host.ttl.toNat).length ≤ 512 by omega)
    refine ⟨fuel, bind_eq_ok.mpr ⟨_, begun, bind_eq_ok.mpr ⟨_, printing, bind_eq_ok.mpr
      ⟨_, pktWrite_room (by rw [two]; omega), ?_⟩⟩⟩⟩
    rw [Nat.add_zero, Nat.add_sub_cancel_left, writeBytes_record datalen ten (two _)]
    rfl

end Names

/-! ### Records of a message -/

/-- A number of two bytes as it is sent. -/
def sentWord (pkt : Block) (position : Nat) : Nat :=
  (pkt position).toNat * 256 + (pkt (position + 1)).toNat

/-- A name of a message, and where it ends: behind its zero or behind a pointer. -/
inductive NameAt (pkt : Block) : (start stop : Nat) → Prop where
  | ended {start} (zero : pkt start = 0) : NameAt pkt start (start + 1)
  | pointer {start} (high : 0xC0 ≤ pkt start) : NameAt pkt start (start + 2)
  | label {start stop} (some : pkt start ≠ 0) (short : (pkt start).toNat < 64)
      (rest : NameAt pkt (start + 1 + (pkt start).toNat) stop) : NameAt pkt start stop

/-- A complete record: behind its name are type, class and time, and data of the length it tells. -/
def RecordAt (pkt : Block) (start stop : Nat) : Prop :=
  ∃ behind, NameAt pkt start behind ∧ stop = behind + 10 + sentWord pkt (behind + 8)

/-- So many complete records, one behind the other. -/
inductive Records (pkt : Block) : (start stop count : Nat) → Prop where
  | none {start} : Records pkt start start 0
  | more {start middle stop count} (record : RecordAt pkt start middle)
      (rest : Records pkt middle stop count) : Records pkt start stop (count + 1)

section Parsing

variable {pkt : Block} {start stop : Nat}

theorem NameAt.lt (name : NameAt pkt start stop) : start < stop := by
  induction name with
  | ended _ => exact Nat.lt_succ_self _
  | pointer _ => exact Nat.lt_add_of_pos_right Nat.two_pos
  | label _ _ _ ih => omega

theorem RecordAt.lt (record : RecordAt pkt start stop) : start < stop := by
  obtain ⟨behind, name, rfl⟩ := record
  have := name.lt
  omega

theorem Records.le {count : Nat} (records : Records pkt start stop count) : start ≤ stop := by
  induction records with
  | none => exact Nat.le_refl _
  | more record _ ih => exact Nat.le_trans (Nat.le_of_lt record.lt) ih

theorem not_records_empty (count : Nat) : ¬ Records pkt start start (count + 1) := by
  intro records
  cases records with
  | more record rest =>
    have := record.lt
    have := rest.le
    omega

/-- The bytes of a record that begins with a pointer. -/
structure IsRecord (bytes : List UInt8) : Prop where
  parts : ∃ high low fixed data, 0xC0 ≤ high ∧ fixed.length = 8 ∧ data.length < 2 ^ 16 ∧
    bytes = high :: low :: fixed ++ endianRet 2 data.length ++ data

theorem endianRet_two (number : Nat) :
    endianRet 2 number = [UInt8.ofNat (number / 256), UInt8.ofNat number] := rfl

/-- A number that is sent, where it fits in two bytes. -/
theorem sentWord_here {number : Nat}
    (here : readBytes pkt start (endianRet 2 number).length = endianRet 2 number)
    (short : number < 2 ^ 16) : sentWord pkt start = number := by
  rw [endianRet_two] at here
  obtain ⟨first, second⟩ := readBytes_eq_cons.mp here
  obtain ⟨second, _⟩ := readBytes_eq_cons.mp second
  rw [sentWord, first, second, UInt8.toNat_ofNat', UInt8.toNat_ofNat']
  omega

theorem IsRecord.here {bytes : List UInt8} (record : IsRecord bytes)
    (here : readBytes pkt start bytes.length = bytes) : RecordAt pkt start (start + bytes.length) := by
  obtain ⟨high, low, fixed, data, pointer, eight, short, rfl⟩ := record.parts
  have size : (high :: low :: fixed ++ endianRet 2 data.length ++ data).length =
      10 + (2 + data.length) := by
    simp only [List.length_append, List.length_cons, eight, endianRet_length]
    omega
  obtain ⟨front, _⟩ := readBytes_eq_append.mp here
  obtain ⟨front, length⟩ := readBytes_eq_append.mp front
  rw [show (high :: low :: fixed).length = 2 + 8 by simp [eight], ← Nat.add_assoc] at length
  refine ⟨start + 2, .pointer ?_, ?_⟩
  · rw [(readBytes_eq_cons.mp front).1]
    exact pointer
  · rw [sentWord_here length short, size]
    omega

/-- Records that stand one behind the other. -/
theorem records_here {records : List (List UInt8)} (each : ∀ record ∈ records, IsRecord record)
    (here : readBytes pkt start records.flatten.length = records.flatten) :
    Records pkt start (start + records.flatten.length) records.length := by
  induction records generalizing start with
  | nil => exact .none
  | cons record rest ih =>
    obtain ⟨first, others⟩ := List.forall_mem_cons.mp each
    rw [List.flatten_cons] at here
    obtain ⟨this, behind⟩ := readBytes_eq_append.mp here
    rw [List.flatten_cons, List.length_append, ← Nat.add_assoc, List.length_cons]
    exact .more (first.here this) (ih others behind)

theorem nameRecord_isRecord {type : List UInt8} (word : type.length = 2) (ttl : UInt32)
    {printed : List UInt8} (short : printed.length < 2 ^ 16) : IsRecord (nameRecord type ttl printed) :=
  ⟨0xC0, 12, type ++ dnsCIn ++ endianRet 4 ttl.toNat, printed, by decide,
    by simp [word, dnsCIn], short, by simp [nameRecord]⟩

theorem ansA_isRecord {high : UInt8} (pointer : 0xC0 ≤ high) (low : UInt8) (inaddr : MasterInAddr) :
    IsRecord (ansA [high, low] inaddr) :=
  ⟨high, low, dnsTA ++ dnsCIn ++ endianRet 4 inaddr.ttl.toNat, inaddr.addr.bytes, pointer,
    by simp [dnsTA, dnsCIn], Nat.lt_of_le_of_lt (Nat.le_refl 4) (by decide), by simp [ansA, InAddr.bytes]⟩

end Parsing

/-! ### The header -/

section Header

variable {pkt : Block} {count : Nat} {bits : UInt8}

theorem fixHeader_behind {start : Nat} (behind : 12 ≤ start) (length : Nat) :
    readBytes (fixHeader pkt count bits) start length = readBytes pkt start length := by
  refine readBytes_congr fun position _ => ?_
  rw [fixHeader, setOpt, Function.update_of_ne (by omega)]
  exact writeBytes_outside (.inr (by simp; omega))

theorem fixHeader_count (short : count < 2 ^ 16) : sentWord (fixHeader pkt count bits) 6 = count := by
  have first : fixHeader pkt count bits 6 = UInt8.ofNat (count / 256) := rfl
  have second : fixHeader pkt count bits 7 = UInt8.ofNat count := rfl
  rw [sentWord, first, second, UInt8.toNat_ofNat', UInt8.toNat_ofNat']
  omega

theorem truncated_count : sentWord (truncated pkt) 6 = 1 := by
  have first : truncated pkt 6 = 0 := rfl
  have second : truncated pkt 7 = 1 := rfl
  rw [sentWord, first, second]
  rfl

end Header

/-! ### Answers -/

/-- The reply lies in the array, and behind the question it has as many records as its header tells. -/
structure Answered (datalen : Nat) (reply : MasterReply) : Prop where
  room : reply.datalen ≤ 512
  records : reply.found = true → Records reply.pkt datalen reply.datalen (sentWord reply.pkt 6)

section Answers

variable {pkt : Block} {datalen : Nat} {zone : MasterZone} {host : MasterRecord} {zonePtr : UInt16}

/-- The addresses behind records that are there already. -/
theorem finishA_answered (behind : 12 ≤ datalen) {high low : UInt8} (pointer : 0xC0 ≤ high)
    {names : List (List UInt8)} (each : ∀ record ∈ names, IsRecord record)
    (few : names.length ≤ 1) (room : datalen + names.flatten.length ≤ 512) :
    ∃ reply, finishA [high, low] host
        { pkt := writeBytes pkt datalen names.flatten, datalen := datalen + names.flatten.length
          len := 512 - (datalen + names.flatten.length : Nat), anCount := names.length } = .ok reply ∧
      Answered datalen reply := by
  obtain ⟨taken, rest, final, split, done, addressed⟩ := @addAddresses_spec [high, low] rfl
    host.inaddrs { pkt := writeBytes pkt datalen names.flatten
                   datalen := datalen + names.flatten.length
                   len := 512 - (datalen + names.flatten.length : Nat), anCount := names.length }
    room rfl
  have within := addressed.room
  have bytes := addressed.pkt
  have stop := addressed.datalen
  have count := addressed.anCount
  simp only at within bytes stop count
  have all : ∀ record ∈ names ++ taken.map (ansA [high, low]), IsRecord record := by
    intro record member
    rcases List.mem_append.mp member with name | address
    · exact each record name
    · obtain ⟨inaddr, _, rfl⟩ := List.mem_map.mp address
      exact ansA_isRecord pointer low inaddr
  have whole : (names ++ taken.map (ansA [high, low])).flatten =
      names.flatten ++ addressRecords [high, low] taken := by
    rw [List.flatten_append, addressRecords, List.flatMap_def]
  refine ⟨_, by rw [finishA, done]; rfl, ⟨?_, fun _ => ?_⟩⟩
  · show final.datalen ≤ 512
    omega
  · have short : final.anCount < 2 ^ 16 := by omega
    show Records (fixHeader final.pkt final.anCount optQR) datalen final.datalen
      (sentWord (fixHeader final.pkt final.anCount optQR) 6)
    rw [fixHeader_count short, count, stop, Nat.add_assoc]
    have records := @records_here (fixHeader final.pkt final.anCount optQR) datalen _ all (by
      rw [fixHeader_behind behind, bytes, writeBytes_append, whole, readBytes_writeBytes])
    rw [whole, List.length_append, List.length_append, List.length_map,
      addressRecords_length rfl] at records
    rwa [count] at records

theorem not_answered_truncated : ¬ Answered datalen ⟨truncated pkt, datalen, true⟩ := by
  intro answered
  have records := answered.records rfl
  simp only [truncated_count] at records
  exact not_records_empty 0 records

theorem FitsBehind.record {printed : List UInt8} (fits : FitsBehind datalen zone host zonePtr printed)
    {type : List UInt8} (word : type.length = 2) :
    (∀ record ∈ [nameRecord type host.ttl printed], IsRecord record) ∧
      datalen + [nameRecord type host.ttl printed].flatten.length ≤ 512 := by
  obtain ⟨_, room⟩ := fits
  constructor
  · intro record member
    rw [List.mem_singleton.mp member]
    exact nameRecord_isRecord word _ (by omega)
  · simp only [List.flatten_singleton, nameRecord_length word]
    omega

/-- An answer with the name of a host is right if and only if the name fits. -/
theorem answerPtr_answered_iff (behind : 12 ≤ datalen) :
    (∃ reply, Reaches (answerPtr pkt datalen zone host zonePtr) reply ∧ Answered datalen reply) ↔
      ∃ printed, FitsBehind datalen zone host zonePtr printed := by
  constructor
  · rintro ⟨reply, ⟨fuel, done⟩, answered⟩
    obtain ⟨⟨named, ended⟩, adding, done⟩ := bind_eq_ok.mp done
    cases ended with
    | none =>
      cases done
      exact absurd answered not_answered_truncated
    | some ended =>
      obtain ⟨printed, fits, _⟩ := (addName_some rfl).mp ⟨fuel, adding⟩
      exact ⟨printed, fits⟩
  · rintro ⟨printed, fits⟩
    obtain ⟨each, room⟩ := @FitsBehind.record _ _ _ _ _ fits dnsTPtr rfl
    obtain ⟨fuel, adding⟩ := (@addName_some pkt _ datalen _ dnsTPtr zone host zonePtr rfl).mpr
      ⟨printed, fits, rfl, rfl⟩
    refine ⟨_, ⟨fuel, bind_eq_ok.mpr ⟨_, adding, rfl⟩⟩, fits.2, fun _ => ?_⟩
    have records := @records_here (fixHeader (writeBytes pkt datalen
      [nameRecord dnsTPtr host.ttl printed].flatten) 1 (optQR ||| optAA)) datalen _ each (by
        rw [fixHeader_behind behind, readBytes_writeBytes])
    rw [List.flatten_singleton, nameRecord_length rfl, ← Nat.add_assoc] at records
    show Records (fixHeader _ 1 (optQR ||| optAA)) datalen (datalen + 12 + printed.length)
      (sentWord (fixHeader _ 1 (optQR ||| optAA)) 6)
    rw [fixHeader_count (by decide)]
    exact records

/-- An answer with addresses is right if and only if the name fits where one stands before them. -/
theorem answerA_answered_iff (behind : 12 ≤ datalen) (room : datalen ≤ 512) {addCname : Bool} :
    (∃ reply, Reaches (answerA pkt datalen zone host addCname zonePtr) reply ∧
      Answered datalen reply) ↔
      (addCname = true → ∃ printed, FitsBehind datalen zone host zonePtr printed) := by
  cases addCname with
  | false =>
    obtain ⟨reply, done, answered⟩ := @finishA_answered pkt datalen host behind 0xC0 12 (by decide) []
      nofun (Nat.zero_le 1) room
    rw [List.flatten_nil, writeBytes_nil] at done
    exact ⟨nofun, fun _ => ⟨reply, ⟨0, done⟩, answered⟩⟩
  | true =>
    constructor
    · rintro ⟨reply, ⟨fuel, done⟩, answered⟩ _
      obtain ⟨⟨named, ended⟩, adding, done⟩ := bind_eq_ok.mp done
      cases ended with
      | none =>
        cases done
        exact absurd answered not_answered_truncated
      | some ended =>
        obtain ⟨printed, fits, _⟩ := (addName_some rfl).mp ⟨fuel, adding⟩
        exact ⟨printed, fits⟩
    · intro fitting
      obtain ⟨printed, fits⟩ := fitting rfl
      obtain ⟨each, inside⟩ := @FitsBehind.record _ _ _ _ _ fits dnsTCname rfl
      obtain ⟨fuel, adding⟩ := (@addName_some pkt _ datalen _ dnsTCname zone host zonePtr rfl).mpr
        ⟨printed, fits, rfl, rfl⟩
      have pointer : ∀ place < 525, 0xC0 ≤ UInt8.ofNat ((0xC000 ||| place) / 256) := by
        decide +kernel
      obtain ⟨reply, done, answered⟩ := @finishA_answered pkt datalen host behind _
        (UInt8.ofNat (0xC000 ||| (datalen + 12))) (pointer (datalen + 12) (by omega)) _ each
        (Nat.le_refl 1) inside
      rw [List.flatten_singleton, nameRecord_length rfl, ← Nat.add_assoc] at done
      exact ⟨reply, ⟨fuel, bind_eq_ok.mpr ⟨_, adding, done⟩⟩, answered⟩

end Answers

/-! ### Lookups -/

def Searched {Found : Type} (sought : Nat → MasterZone → MasterRecord → Except MasterFault (Option Found))
    (rootZone : List MasterZone) (found : Option (MasterZone × MasterRecord × Found)) : Prop :=
  Reaches (fun fuel => findZone (sought fuel) rootZone) found

/-- A search that a query asks for comes to its end, and if it finds a host whose name is added, the
name fits behind the query. -/
structure AnswerFits (rootZone : List MasterZone) (pkt : Block) (datalen : Nat) : Prop where
  address : readBytes pkt (datalen - 4) 4 = dnsTA ++ dnsCIn →
    ∃ found, Searched (hostNamed (queriedName pkt)) rootZone found ∧
      ∀ zone host zonePtr, found = some (zone, host, true, zonePtr) →
        ∃ printed, FitsBehind datalen zone host zonePtr printed
  name : readBytes pkt (datalen - 4) 4 = dnsTPtr ++ dnsCIn →
    ∃ found, Searched (hostAddressed (queriedName pkt)) rootZone found ∧
      ∀ zone host zonePtr, found = some (zone, host, zonePtr) →
        ∃ printed, FitsBehind datalen zone host zonePtr printed

/-- What follows a search: nothing is found, or an answer is built. -/
def afterSearch {Found : Type} (notFound : MasterReply)
    (answer : MasterZone → MasterRecord → Found → Nat → Except MasterFault MasterReply) :
    Option (MasterZone × MasterRecord × Found) → Nat → Except MasterFault MasterReply
  | none, _ => .ok notFound
  | some (zone, host, which), fuel => answer zone host which fuel

section Lookups

variable {Found : Type} {rootZone : List MasterZone} {pkt : Block} {datalen : Nat}

/-- A search comes to its end, and then what follows it does. -/
theorem reaches_search
    {sought : Nat → MasterZone → MasterRecord → Except MasterFault (Option Found)}
    {answer : MasterZone → MasterRecord → Found → Nat → Except MasterFault MasterReply}
    (grows : ∀ zone host, Grows fun fuel => sought fuel zone host)
    (grows' : ∀ zone host which, Grows (answer zone host which)) {notFound reply : MasterReply} :
    Reaches (fun fuel => findZone (sought fuel) rootZone >>=
        (afterSearch notFound answer · fuel)) reply ↔
      ∃ found, Searched sought rootZone found ∧ Reaches (afterSearch notFound answer found) reply := by
  refine reaches_bind (grows_findZone grows rootZone) fun found => ?_
  cases found with
  | none => exact Grows.const _
  | some found => exact grows' found.1 found.2.1 found.2.2

theorem search_answered_iff
    {sought : Nat → MasterZone → MasterRecord → Except MasterFault (Option Found)}
    {answer : MasterZone → MasterRecord → Found → Nat → Except MasterFault MasterReply}
    {fits : MasterZone → MasterRecord → Found → Prop}
    (grows : ∀ zone host, Grows fun fuel => sought fuel zone host)
    (grows' : ∀ zone host which, Grows (answer zone host which)) (room : datalen ≤ 512)
    (right : ∀ zone host which, (∃ reply, Reaches (answer zone host which) reply ∧
      Answered datalen reply) ↔ fits zone host which) :
    (∃ reply, Reaches (fun fuel => findZone (sought fuel) rootZone >>=
        (afterSearch ⟨pkt, datalen, false⟩ answer · fuel)) reply ∧ Answered datalen reply) ↔
      ∃ found, Searched sought rootZone found ∧
        ∀ zone host which, found = some (zone, host, which) → fits zone host which := by
  constructor
  · rintro ⟨reply, reaches, answered⟩
    obtain ⟨found, searched, replied⟩ := (reaches_search grows grows').mp reaches
    refine ⟨found, searched, ?_⟩
    rintro zone host which rfl
    exact (right zone host which).mp ⟨reply, replied, answered⟩
  · rintro ⟨found, searched, fitting⟩
    cases found with
    | none =>
      exact ⟨⟨pkt, datalen, false⟩, (reaches_search grows grows').mpr ⟨none, searched, 0, rfl⟩,
        room, nofun⟩
    | some found =>
      obtain ⟨reply, replied, answered⟩ := (right _ _ _).mpr (fitting found.1 found.2.1 found.2.2 rfl)
      exact ⟨reply, (reaches_search grows grows').mpr ⟨some found, searched, replied⟩, answered⟩

/-- The last four bytes of a query are its type and its class. -/
theorem query_info_iff (behind : 12 ≤ datalen) {type : List UInt8} (word : type.length = 2) :
    readBytes pkt (datalen - 4) 4 = type ++ dnsCIn ↔
      readBytes pkt (datalen - 4) 2 = type ∧ readBytes pkt (datalen - 2) 2 = dnsCIn := by
  have place : datalen - 4 + 2 = datalen - 2 := by omega
  rw [show 4 = 2 + 2 from rfl, readBytes_append, place]
  constructor
  · intro same
    exact List.append_inj same (by simp [word])
  · rintro ⟨first, second⟩
    rw [first, second]

theorem lookup_address (behind : 12 ≤ datalen)
    (address : readBytes pkt (datalen - 4) 4 = dnsTA ++ dnsCIn) :
    qxdnsMasterLookup rootZone pkt datalen = fun fuel =>
      findZone (hostNamed (queriedName pkt) fuel) rootZone >>= (afterSearch ⟨pkt, datalen, false⟩
        (fun zone host which => answerA pkt datalen zone host which.1 which.2) · fuel) := by
  obtain ⟨type, inClass⟩ := (query_info_iff behind rfl).mp address
  funext fuel
  unfold qxdnsMasterLookup
  rw [if_neg (not_not.mpr inClass), if_pos type]
  refine congrArg _ (funext fun found => ?_)
  cases found <;> rfl

theorem lookup_name (behind : 12 ≤ datalen)
    (name : readBytes pkt (datalen - 4) 4 = dnsTPtr ++ dnsCIn) :
    qxdnsMasterLookup rootZone pkt datalen = fun fuel =>
      findZone (hostAddressed (queriedName pkt) fuel) rootZone >>= (afterSearch ⟨pkt, datalen, false⟩
        (fun zone host which => answerPtr pkt datalen zone host which) · fuel) := by
  obtain ⟨type, inClass⟩ := (query_info_iff behind rfl).mp name
  have other : readBytes pkt (datalen - 4) 2 ≠ dnsTA := by
    rw [type]
    decide
  funext fuel
  unfold qxdnsMasterLookup
  rw [if_neg (not_not.mpr inClass), if_neg other, if_pos type]
  refine congrArg _ (funext fun found => ?_)
  cases found <;> rfl

theorem lookup_address_iff (behind : 12 ≤ datalen) (room : datalen ≤ 512)
    (address : readBytes pkt (datalen - 4) 4 = dnsTA ++ dnsCIn) :
    (∃ reply, Reaches (qxdnsMasterLookup rootZone pkt datalen) reply ∧ Answered datalen reply) ↔
      ∃ found, Searched (hostNamed (queriedName pkt)) rootZone found ∧
        ∀ zone host which, found = some (zone, host, which) → which.1 = true →
          ∃ printed, FitsBehind datalen zone host which.2 printed := by
  rw [lookup_address behind address]
  exact search_answered_iff grows_hostNamed
    (fun zone host which => grows_answerA pkt datalen zone host which.1 which.2) room
    fun zone host which => answerA_answered_iff behind room

theorem lookup_name_iff (behind : 12 ≤ datalen) (room : datalen ≤ 512)
    (name : readBytes pkt (datalen - 4) 4 = dnsTPtr ++ dnsCIn) :
    (∃ reply, Reaches (qxdnsMasterLookup rootZone pkt datalen) reply ∧ Answered datalen reply) ↔
      ∃ found, Searched (hostAddressed (queriedName pkt)) rootZone found ∧
        ∀ zone host which, found = some (zone, host, which) →
          ∃ printed, FitsBehind datalen zone host which printed := by
  rw [lookup_name behind name]
  exact search_answered_iff grows_hostAddressed
    (fun zone host which => grows_answerPtr pkt datalen zone host which) room
    fun zone host which => answerPtr_answered_iff behind

/-- Of a query for something else nothing is found. -/
theorem lookup_other (behind : 12 ≤ datalen)
    (address : readBytes pkt (datalen - 4) 4 ≠ dnsTA ++ dnsCIn)
    (name : readBytes pkt (datalen - 4) 4 ≠ dnsTPtr ++ dnsCIn) (fuel : Nat) :
    qxdnsMasterLookup rootZone pkt datalen fuel = .ok ⟨pkt, datalen, false⟩ := by
  unfold qxdnsMasterLookup
  by_cases inClass : readBytes pkt (datalen - 2) 2 = dnsCIn
  · rw [if_neg (not_not.mpr inClass),
      if_neg fun type => address ((query_info_iff behind rfl).mpr ⟨type, inClass⟩),
      if_neg fun type => name ((query_info_iff behind rfl).mpr ⟨type, inClass⟩)]
  · rw [if_pos inClass]

/-- A lookup ends with a packet that is written to within its array and has as many records behind
the question as its header tells, if and only if the search ends and the name that is added fits. -/
theorem lookup_answered_iff (rootZone : List MasterZone) (pkt : Block) {datalen : Nat}
    (behind : 12 ≤ datalen) (room : datalen ≤ 512) :
    (∃ reply, Reaches (qxdnsMasterLookup rootZone pkt datalen) reply ∧ Answered datalen reply) ↔
      AnswerFits rootZone pkt datalen := by
  by_cases address : readBytes pkt (datalen - 4) 4 = dnsTA ++ dnsCIn
  · rw [lookup_address_iff behind room address]
    constructor
    · rintro ⟨found, searched, fitting⟩
      refine ⟨fun _ => ⟨found, searched, ?_⟩, fun name => ?_⟩
      · rintro zone host zonePtr rfl
        exact fitting zone host (true, zonePtr) rfl rfl
      · exact absurd (address.symm.trans name) (by decide)
    · intro answer
      obtain ⟨found, searched, fitting⟩ := answer.address address
      refine ⟨found, searched, ?_⟩
      rintro zone host ⟨addCname, zonePtr⟩ rfl rfl
      exact fitting zone host zonePtr rfl
  · by_cases name : readBytes pkt (datalen - 4) 4 = dnsTPtr ++ dnsCIn
    · rw [lookup_name_iff behind room name]
      exact ⟨fun right => ⟨fun other => absurd other address, fun _ => right⟩,
        fun answer => answer.name name⟩
    · exact ⟨fun _ => ⟨fun other => absurd other address, fun other => absurd other name⟩,
        fun _ => ⟨_, ⟨0, lookup_other behind address name 0⟩, room, nofun⟩⟩

end Lookups

def longLabels (letter : UInt8) : List (List UInt8) :=
  [List.replicate 62 letter, List.replicate 62 letter, List.replicate 62 letter,
    List.replicate 61 letter]

def longHost : MasterRecord :=
  { ttl := 30, aliases := [storedName (longLabels 97) false], inaddrs := []
    cname := storedName (longLabels 98) false }

def longZone : MasterZone := { hosts := [longHost], zoneName := storedName [[120]] false }

def longQuery : Block := fun position =>
  ([1, 2, 1, 0, 0, 1, 0, 0, 0, 0, 0, 0] ++ wireLabels (longLabels 97) ++ [0] ++ dnsTA ++
    dnsCIn).getD position 0

/-- The alias is found, and the name of its zone does not stand in the query. -/
theorem long_alias_found : findZone (hostNamed (queriedName longQuery) 600) [longZone] =
    .ok (some (longZone, longHost, true, 0)) := by
  decide +kernel

/-- The other name does not fit behind the question: it is written over the end of the packet. -/
theorem long_name_leaves_packet :
    (qxdnsNewMr (hostText (longLabels 98) false) 30 >>=
      (qxdnsAddMrAlias · (hostText (longLabels 97) false))) = .ok longHost ∧
    (qxdnsMasterLookup [longZone] longQuery 268 600).map MasterReply.datalen = .error .outside ∧
    ¬ ∃ reply, Reaches (qxdnsMasterLookup [longZone] longQuery 268) reply ∧ Answered 268 reply := by
  have address : readBytes longQuery (268 - 4) 4 = dnsTA ++ dnsCIn := by decide +kernel
  have searched : Searched (hostNamed (queriedName longQuery)) [longZone]
      (some (longZone, longHost, true, 0)) := ⟨600, long_alias_found⟩
  refine ⟨by decide +kernel, ?_, fun right => ?_⟩
  · rw [lookup_address (by decide) address]
    dsimp only
    rw [long_alias_found]
    decide +kernel
  obtain ⟨found, searched', fits⟩ :=
    (lookup_address_iff (by decide) (by decide) address).mp right
  cases (grows_findZone grows_hostNamed [longZone]).unique searched' searched
  obtain ⟨printed, names, room⟩ := fits _ _ _ rfl rfl
  have plain : ∀ byte ∈ wireLabels (longLabels 98), byte ≠ 0 ∧ byte ≠ 0xC0 := by decide +kernel
  rw [names.of_plain plain] at room
  exact absurd room (by decide +kernel)

/-- The query for the name w.x, an alias of h.x. -/
def aliasQuery : Block := fun position =>
  ([1, 2, 1, 0, 0, 1, 0, 0, 0, 0, 0, 0] ++ wireLabels [[119], [120]] ++ [0] ++ dnsTA ++
    dnsCIn).getD position 0

def aliasHost : MasterRecord :=
  { ttl := 30, aliases := [[1, 119, 0xC0, 0]], inaddrs := [⟨⟨10, 0, 0, 1⟩, 30, []⟩]
    cname := [1, 104, 0xC0, 0] }

def aliasZone : MasterZone := { hosts := [aliasHost], zoneName := [1, 120, 0] }

theorem alias_is_answered : ∃ reply,
    Reaches (qxdnsMasterLookup [aliasZone] aliasQuery 21) reply ∧ Answered 21 reply := by
  refine (lookup_answered_iff _ _ (by decide) (by decide)).mpr ⟨fun _ => ?_, fun name => ?_⟩
  · refine ⟨some (aliasZone, aliasHost, true, 14), ⟨60, by decide +kernel⟩, ?_⟩
    rintro zone host zonePtr ⟨⟩
    exact ⟨_, .byte (by decide) (by decide) (.byte (by decide) (by decide)
      (.pointed rfl (by decide))), by decide⟩
  · exact absurd name (by decide +kernel)

end QNXStuff.QXDns
