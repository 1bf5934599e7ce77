import QNXStuff.QXDns.CacheSlots
import QNXStuff.QXDns.Questions

/-! What a lookup in the cache returns: which response it takes for an answer to the query. -/

namespace QNXStuff.QXDns

open Execution Memory Splitting

/-- A response that was stored. -/
def WasAdded (past : List CacheLabel) (response : Message) : Prop :=
  ∃ fresh, (.add response (some fresh), .added true) ∈ past

structure CacheRecord.Of (record : CacheRecord) (ttl : Int) (response : Message) : Prop where
  expires : record.expires = response.rcvtime + ttl
  datalen : record.datalen = response.datalen
  pkt : ∀ position < response.datalen, record.pkt position = response.pkt position

/-- The answer has the ID of the query and the rest of the response. -/
structure Message.Replies (answer response query : Message) : Prop where
  id : ∀ position < 2, answer.pkt position = query.pkt position
  rest : ∀ position, 2 ≤ position → position < response.datalen →
    answer.pkt position = response.pkt position
  datalen : answer.datalen = response.datalen

/-- A record that can be used has the question of the query. -/
def CacheRecord.Suits (record : CacheRecord) (msg : Message) : Prop :=
  record.InTime msg.rcvtime ∧ SameQuestion msg.pkt msg.datalen record.pkt record.datalen

/-- What a lookup is to return: an earlier response to the same question that has not expired, under
the ID of the query, or the query if there is none. -/
inductive LookedRight (ttl : Int) (past : List CacheLabel) (cache : Cache) (msg : Message) :
    CacheAnswer → Prop where
  | found {response answer} (added : WasAdded past response)
      (inTime : ¬ response.rcvtime + ttl < msg.rcvtime)
      (same : SameQuestion msg.pkt msg.datalen response.pkt response.datalen)
      (replies : answer.Replies response msg) : LookedRight ttl past cache msg (.looked answer true)
  | missing (none : ∀ record, some record ∈ cache.root → ¬ record.Suits msg) :
      LookedRight ttl past cache msg (.looked msg false)

/-- Of the records that have not expired, the first with the text of the query has its question. -/
def FirstSuits (cache : Cache) (msg : Message) : Prop :=
  ∀ before record after, cache.root = before ++ some record :: after →
    (∀ other, some other ∈ before → msg.Passes other) → record.InTime msg.rcvtime →
    sameText msg.pkt record.pkt 500 12 = .ok true →
    SameQuestion msg.pkt msg.datalen record.pkt record.datalen

section Records

variable {ttl : Int} {past : List CacheLabel} {cache next : Cache} {records : List CacheRecord}
  {record : CacheRecord} {msg response : Message}

theorem HasQuestion.congr {pkt pkt' : Block} {datalen : Nat} {question : Question}
    (asks : HasQuestion pkt datalen question)
    (same : ∀ position, 12 ≤ position → position < datalen → pkt position = pkt' position) :
    HasQuestion pkt' datalen question where
  inside := asks.inside
  here := by
    have inside := asks.inside
    refine Eq.trans (readBytes_congr fun position few => ?_) asks.here
    exact (same _ (Nat.le_add_right 12 position) (by omega)).symm

/-- Messages that agree behind their headers have the same question. -/
theorem SameQuestion.congr {pkt pkt' other : Block} {datalen datalen' : Nat}
    (question : SameQuestion other datalen pkt datalen')
    (same : ∀ position, 12 ≤ position → position < datalen' → pkt position = pkt' position) :
    SameQuestion other datalen pkt' datalen' := by
  obtain ⟨asked, answered, asks, answers, alike⟩ := question
  exact ⟨asked, answered, asks, answers.congr same, alike⟩

theorem CacheRecord.Of.sameQuestion (source : record.Of ttl response) :
    SameQuestion msg.pkt msg.datalen record.pkt record.datalen ↔
      SameQuestion msg.pkt msg.datalen response.pkt response.datalen := by
  rw [source.datalen]
  constructor
  · intro question
    exact question.congr fun position _ inside => source.pkt position inside
  · intro question
    exact question.congr fun position _ inside => (source.pkt position inside).symm

theorem CacheRecord.Of.replies (source : record.Of ttl response) (msg : Message) :
    (msg.answered record).Replies response msg where
  id := fun _ few => if_neg fun both => Nat.not_le.mpr few both.1
  rest := fun position some inside =>
    (if_pos ⟨some, source.datalen ▸ inside⟩).trans (source.pkt position inside)
  datalen := source.datalen

/-- Every record is that of a response which was stored. -/
structure Sourced (ttl : Int) (past : List CacheLabel) (cache : Cache)
    (records : List CacheRecord) : Prop where
  holds : Holds cache records
  kept : cache.ttl = ttl
  source : ∀ record ∈ records, ∃ response, WasAdded past response ∧ record.Of ttl response

theorem WasAdded.later (added : WasAdded past response) (label : CacheLabel) :
    WasAdded (past ++ [label]) response := by
  obtain ⟨fresh, member⟩ := added
  exact ⟨fresh, List.mem_append_left [label] member⟩

theorem Message.record_of (msg : Message) (ttl : Int) (fresh : Block) :
    (msg.record ttl fresh).Of ttl msg :=
  ⟨rfl, rfl, fun _ inside => if_pos inside⟩

theorem Sourced.add (sourced : Sourced ttl past cache records) {fresh : Option Block} {done : Bool}
    (answered : qxdnsCacheAdd cache msg fresh = .ok (next, done)) :
    ∃ after, Sourced ttl (past ++ [(.add msg fresh, .added done)]) next after := by
  cases fresh with
  | none =>
    cases answered
    refine ⟨records, sourced.holds, sourced.kept, fun record member => ?_⟩
    obtain ⟨response, added, source⟩ := sourced.source record member
    exact ⟨response, added.later _, source⟩
  | some fresh =>
    rcases sourced.holds.add msg fresh with ⟨_, stored, places⟩ | ⟨_, fault⟩
    · rw [places.done] at answered
      cases answered
      obtain ⟨after, holds, stored⟩ := places.stored
      refine ⟨after, holds, places.ttl.trans sourced.kept, fun record member => ?_⟩
      rcases stored.mem member with rfl | old
      · refine ⟨msg, ⟨fresh, List.mem_append_right past List.mem_cons_self⟩, ?_⟩
        rw [sourced.kept]
        exact msg.record_of ttl fresh
      · obtain ⟨response, added, source⟩ := sourced.source record old
        exact ⟨response, added.later _, source⟩
    · rw [fault] at answered
      cases answered

theorem Sourced.lookup (sourced : Sourced ttl past cache records) {answer : Message} {found : Bool}
    (looked : Looked cache records msg next answer found) (label : CacheLabel) :
    ∃ after, Sourced ttl (past ++ [label]) next after := by
  cases looked with
  | missing _ =>
    refine ⟨records, sourced.holds, sourced.kept, fun record member => ?_⟩
    obtain ⟨response, added, source⟩ := sourced.source record member
    exact ⟨response, added.later _, source⟩
  | @hit before record after _ split _ _ _ max ttl holds =>
    refine ⟨_, holds, ttl.trans sourced.kept, fun other member => ?_⟩
    have old : ∃ origin ∈ records, other.expires = origin.expires ∧
        other.datalen = origin.datalen ∧ other.pkt = origin.pkt := by
      rw [split]
      rcases List.mem_append.mp member with front | rest
      · exact ⟨other, List.mem_append_left _ front, rfl, rfl, rfl⟩
      · rcases List.mem_cons.mp rest with rfl | behind
        · exact ⟨record, List.mem_append_right _ List.mem_cons_self, rfl, rfl, rfl⟩
        · exact ⟨other, List.mem_append_right _ (List.mem_cons_of_mem _ behind), rfl, rfl, rfl⟩
    obtain ⟨origin, inside, expires, datalen, pkt⟩ := old
    obtain ⟨response, added, source⟩ := sourced.source origin inside
    refine ⟨response, added.later _, ?_, ?_, ?_⟩
    · rw [expires, source.expires]
    · rw [datalen, source.datalen]
    · rw [pkt]
      exact source.pkt

theorem run_sourced {max : Nat} (run : Run CacheStep (qxdnsCacheInit max ttl) past cache) :
    ∃ records, Sourced ttl past cache records := by
  have sourced : ∃ records, Sourced ttl ([] ++ past) cache records := by
    refine run.history (motive := fun past cache => ∃ records, Sourced ttl past cache records)
      ⟨[], ⟨by simp [qxdnsCacheInit], rfl, Nat.zero_le _⟩, rfl, nofun⟩ ?_
    rintro past cache ⟨call, answer⟩ next ⟨records, sourced⟩ step
    cases call with
    | add msg fresh =>
      obtain ⟨produced, done, same⟩ := map_eq_ok.mp step
      cases same
      exact sourced.add done
    | lookup msg =>
      obtain ⟨produced, done, same⟩ := map_eq_ok.mp step
      cases same
      exact sourced.lookup (sourced.holds.lookup done) _
  exact sourced

/-- The records are what is in the slots. -/
theorem Holds.mem_root (holds : Holds cache records) {record : CacheRecord} :
    some record ∈ cache.root ↔ record ∈ records := by
  rw [holds.slots, List.mem_append, List.mem_replicate]
  simp

end Records

/-! ### The lookup -/

section Lookup

variable {max : Nat} {ttl : Int} {past : List CacheLabel} {cache next : Cache}
  {records : List CacheRecord} {msg answer : Message} {found : Bool}

theorem Message.not_passes {record : CacheRecord} (inTime : record.InTime msg.rcvtime)
    (same : sameText msg.pkt record.pkt 500 12 = .ok true) : ¬ msg.Passes record := by
  intro passes
  have other := passes inTime
  rw [same] at other
  cases other

theorem LookedRight.response (right : LookedRight ttl past cache msg (.looked answer true)) :
    ∃ response : Message, SameQuestion msg.pkt msg.datalen response.pkt response.datalen ∧
      answer.Replies response msg := by
  cases right with
  | found _ _ same replies => exact ⟨_, same, replies⟩

/-- A record that was rightly returned has the question of the query. -/
theorem LookedRight.question {record : CacheRecord}
    (right : LookedRight ttl past cache msg (.looked (msg.answered record) true)) :
    SameQuestion msg.pkt msg.datalen record.pkt record.datalen := by
  obtain ⟨response, same, replies⟩ := right.response
  have datalen : record.datalen = response.datalen := replies.datalen
  rw [datalen]
  refine same.congr fun position behind inside => ?_
  have some : 2 ≤ position := Nat.le_trans (by decide) behind
  have answered := replies.rest position some inside
  have copied : (msg.answered record).pkt position = record.pkt position :=
    if_pos ⟨some, datalen ▸ inside⟩
  rw [← answered, copied]

theorem Looked.right_iff (sourced : Sourced ttl past cache records)
    (looked : Looked cache records msg next answer found) :
    LookedRight ttl past cache msg (.looked answer found) ↔ FirstSuits cache msg := by
  cases looked with
  | missing passes =>
    constructor
    · intro _ before record after split _ inTime same
      have member : record ∈ records := by
        rw [← sourced.holds.mem_root, split]
        exact List.mem_append_right before List.mem_cons_self
      have other := passes record member inTime
      rw [same] at other
      cases other
    · intro _
      refine .missing fun record member => ?_
      rintro ⟨inTime, question⟩
      have other := passes record (sourced.holds.mem_root.mp member) inTime
      rw [question.sameText msg.fits] at other
      cases other
  | @hit before record after _ split passes inTime same _ _ _ =>
    have slots : cache.root = before.map some ++
        some record :: (after.map some ++ List.replicate (cache.max - records.length) none) := by
      rw [sourced.holds.slots, split, List.map_append, List.append_assoc]
      rfl
    have inside : record ∈ records := by
      rw [split]
      exact List.mem_append_right before List.mem_cons_self
    obtain ⟨response, added, source⟩ := sourced.source record inside
    constructor
    · intro right before' record' after' split' passes' inTime' same'
      have here := @first_split_unique _ (fun slot => ∃ entry, slot = some entry ∧
        ¬ msg.Passes entry) _ _ _ _ _ _ (slots.symm.trans split') (by simpa using passes)
        ⟨record, rfl, Message.not_passes inTime same⟩
        (by
          rintro slot member ⟨entry, rfl, stops⟩
          exact stops (passes' entry member))
        ⟨record', rfl, Message.not_passes inTime' same'⟩
      cases here
      exact right.question
    · intro suits
      have question := suits _ record _ slots
        (fun other member => passes other (by simpa using member)) inTime same
      refine .found added ?_ (source.sameQuestion.mp question) (source.replies msg)
      rw [← source.expires]
      exact inTime

/-- Whatever was stored and looked for before, a lookup returns the right response, or rightly none,
if and only if the first record that it can take has the question of the query. -/
theorem lookup_right_iff (run : Run CacheStep (qxdnsCacheInit max ttl) past cache)
    {reply : CacheAnswer} (step : CacheStep cache (.lookup msg, reply) next) :
    LookedRight ttl past cache msg reply ↔ FirstSuits cache msg := by
  obtain ⟨records, sourced⟩ := run_sourced run
  obtain ⟨produced, done, same⟩ := map_eq_ok.mp step
  cases same
  exact (sourced.holds.lookup done).right_iff sourced

end Lookup

/-- A message with a question of that type about the name of one label, the letter a. -/
def aboutA (id qtype : UInt8) : Message where
  pkt := fun position =>
    [0, id, 0, 0, 0, 1, 0, 0, 0, 0, 0, 0, 1, 97, 0, 0, qtype, 0, 1].getD position 0
  datalen := 19
  rcvtime := 0
  whole := by decide
  fits := by decide

def questionA (qtype : UInt8) : Question where
  labels := [[97]]
  info := [0, qtype, 0, 1]
  sizes := by decide
  words := rfl

theorem aboutA_asks (id qtype : UInt8) : HasQuestion (aboutA id qtype).pkt 19 (questionA qtype) :=
  ⟨Nat.le_refl 19, rfl⟩

/-- A cache with one slot that holds the response. -/
def slotOf (response : Message) (hits : UInt32) : Cache where
  max := 1
  ttl := 10
  root := [some { response.record 10 fun _ => 0 with hits := hits }]
  count := 1

theorem aboutA_added (id qtype : UInt8) :
    Run CacheStep (qxdnsCacheInit 1 10) [(.add (aboutA id qtype) (some fun _ => 0), .added true)]
      (slotOf (aboutA id qtype) 1) :=
  .cons rfl .nil

theorem aboutA_found (id qtype id' qtype' : UInt8) :
    CacheStep (slotOf (aboutA id qtype) 1)
      (.lookup (aboutA id' qtype'),
        .looked ((aboutA id' qtype').answered ((aboutA id qtype).record 10 fun _ => 0)) true)
      (slotOf (aboutA id qtype) 2) := rfl

/-- A query for an address is answered with the address that was stored. -/
theorem stored_address_is_found : LookedRight 10
    [(.add (aboutA 7 1) (some fun _ => 0), .added true)] (slotOf (aboutA 7 1) 1) (aboutA 9 1)
    (.looked ((aboutA 9 1).answered ((aboutA 7 1).record 10 fun _ => 0)) true) := by
  refine (lookup_right_iff (aboutA_added 7 1) (aboutA_found 7 1 9 1)).mpr ?_
  intro before record after split _ _ _
  cases before with
  | nil =>
    cases split
    exact ⟨questionA 1, questionA 1, aboutA_asks 9 1,
      (aboutA_asks 7 1).congr fun _ _ inside => (if_pos inside).symm, rfl, rfl⟩
  | cons first before =>
    obtain ⟨_, rest⟩ := List.cons_eq_cons.mp split
    exact absurd rest (by simp)

/-- A query for an address is answered with the mail exchangers that were stored. -/
theorem stored_exchanger_is_found : ∃ past cache next answer,
    Run CacheStep (qxdnsCacheInit 1 10) past cache ∧
      CacheStep cache (.lookup (aboutA 9 1), answer) next ∧
      ¬ LookedRight 10 past cache (aboutA 9 1) answer := by
  refine ⟨_, _, _, _, aboutA_added 7 15, aboutA_found 7 15 9 1, fun right => ?_⟩
  obtain ⟨question, question', asks, asks', same⟩ := right.question
  have stored : HasQuestion ((aboutA 7 15).record 10 fun _ => 0).pkt 19 (questionA 15) :=
    (aboutA_asks 7 15).congr fun _ _ inside => (if_pos inside).symm
  have kind := (asks.unique (aboutA_asks 9 1)).2
  have kind' := (asks'.unique stored).2
  rw [same.2, kind'] at kind
  exact absurd kind (by decide)

end QNXStuff.QXDns
