import Mathlib.Data.Prod.Lex
import QNXStuff.Library.Splitting
import QNXStuff.QXDns.Cache

/-! Which slots of the cache are used, and which of them a new response gets. -/

namespace QNXStuff.QXDns

open Execution Memory Splitting

/-- The slots of the cache: the records it holds, and empty ones behind them. -/
structure Holds (cache : Cache) (records : List CacheRecord) : Prop where
  slots : cache.root = records.map some ++ List.replicate (cache.max - records.length) none
  count : cache.count = records.length
  room : records.length ≤ cache.max

/-- How many hits a record has, and then when it expires. -/
def CacheRecord.key (record : CacheRecord) : ℕ ×ₗ ℤ := toLex (record.hits.toNat, record.expires)

def Candidate.key (best : Candidate) : ℕ ×ₗ ℤ := toLex (best.minhits.toNat, best.exp)

def CacheRecord.InTime (record : CacheRecord) (rcvtime : Int) : Prop := ¬ record.expires < rcvtime

instance (record : CacheRecord) (rcvtime : Int) : Decidable (record.InTime rcvtime) :=
  inferInstanceAs (Decidable (¬ _))

/-- The records after a new one was stored: in the place of the first that has expired, at the end,
or in the place of one with the fewest hits that expires the earliest of these. -/
inductive Stored (max : Nat) (rcvtime : Int) (record : CacheRecord) :
    List CacheRecord → List CacheRecord → Prop where
  | expired {before old after} (earlier : ∀ other ∈ before, other.InTime rcvtime)
      (lapsed : old.expires < rcvtime) :
      Stored max rcvtime record (before ++ old :: after) (before ++ record :: after)
  | appended {records} (inTime : ∀ other ∈ records, other.InTime rcvtime)
      (room : records.length < max) :
      Stored max rcvtime record records (records ++ [record])
  | replaced {before old after} (inTime : ∀ other ∈ before ++ old :: after, other.InTime rcvtime)
      (full : (before ++ old :: after).length = max)
      (least : ∀ other ∈ before ++ old :: after, old.hits < other.hits ∨
        old.hits = other.hits ∧ old.expires ≤ other.expires) :
      Stored max rcvtime record (before ++ old :: after) (before ++ record :: after)

/-- A record that the scan takes as a candidate whatever there is before it. -/
def CacheRecord.Replaceable (record : CacheRecord) (rcvtime : Int) : Prop :=
  record.hits < intMax ∨ record.hits = intMax ∧ record.expires ≤ rcvtime + 172800

/-- A new response finds an expired record, an empty slot, or a record to be replaced. -/
def HasPlace (max : Nat) (rcvtime : Int) (records : List CacheRecord) : Prop :=
  (∃ record ∈ records, record.expires < rcvtime) ∨ records.length < max ∨
    ∃ record ∈ records, record.Replaceable rcvtime

section Slots

variable {cache : Cache} {records before after : List CacheRecord} {record old : CacheRecord}

theorem Holds.length (holds : Holds cache records) : cache.root.length = cache.max := by
  have room := holds.room
  rw [holds.slots, List.length_append, List.length_map, List.length_replicate]
  omega

theorem Holds.slot (holds : Holds cache (before ++ record :: after)) :
    cache.slot before.length = .ok record := by
  have here : cache.root[before.length]? = some (some record) := by
    rw [holds.slots, List.map_append, List.map_cons, List.append_assoc, List.cons_append]
    exact List.getElem?_append_right (by simp) |>.trans (by simp)
  unfold Cache.slot
  rw [here]

/-- Another record takes the place of one. -/
theorem Holds.set (holds : Holds cache (before ++ old :: after)) (record : CacheRecord) :
    ∃ next, cache.setSlot before.length record = .ok next ∧ next.max = cache.max ∧
      next.ttl = cache.ttl ∧ Holds next (before ++ record :: after) := by
  have room := holds.room
  have inside : before.length < cache.root.length := by
    rw [holds.length]
    simp only [List.length_append, List.length_cons] at room
    omega
  refine ⟨_, if_pos inside, rfl, rfl, ?_, ?_, ?_⟩
  · simp [holds.slots]
  · simpa using holds.count
  · simpa using room

theorem Holds.append (holds : Holds cache records) (room : cache.count < cache.max)
    (record : CacheRecord) :
    ∃ next, cache.setSlot cache.count record = .ok next ∧ next.max = cache.max ∧
      next.ttl = cache.ttl ∧
      Holds { next with count := next.count + 1 } (records ++ [record]) := by
  have inside : cache.count < cache.root.length := by
    rw [holds.length]
    exact room
  rw [holds.count] at room
  obtain ⟨free, split⟩ : ∃ free, cache.max - records.length = free + 1 :=
    Nat.exists_eq_succ_of_ne_zero (Nat.sub_ne_zero_of_lt room)
  have left : cache.max - (records ++ [record]).length = free := by
    rw [List.length_append, List.length_singleton]
    omega
  refine ⟨_, if_pos inside, rfl, rfl, ?_, ?_, ?_⟩
  · simp only [left, holds.slots, holds.count, split]
    simp [List.replicate_succ]
  · simp [holds.count]
  · simp only [List.length_append, List.length_singleton]
    exact room

end Slots

/-! ### The scan -/

section Scan

variable {cache : Cache} {rcvtime : Int} {best : Candidate}

theorem Candidate.notice_eq (best : Candidate) (i : Nat) (record : CacheRecord) :
    best.notice i record =
      if record.key ≤ best.key then ⟨record.hits, record.expires, some i⟩ else best := by
  have order : record.key ≤ best.key ↔ record.hits.toNat < best.minhits.toNat ∨
      record.hits.toNat = best.minhits.toNat ∧ record.expires ≤ best.exp :=
    Prod.Lex.toLex_le_toLex
  unfold Candidate.notice
  by_cases fewer : record.hits ≤ best.minhits
  · rw [if_pos fewer]
    by_cases later : record.hits = best.minhits ∧ best.exp < record.expires
    · rw [if_pos later, if_neg]
      rw [order, later.1]
      omega
    · rw [if_neg later, if_pos]
      rw [order]
      rcases Nat.lt_or_eq_of_le (UInt32.le_iff_toNat_le.mp fewer) with less | same
      · exact .inl less
      · refine .inr ⟨same, Int.not_lt.mp fun early => later ⟨?_, early⟩⟩
        exact UInt32.toNat_inj.mp same
  · rw [if_neg fewer, if_neg]
    rw [order]
    rw [UInt32.le_iff_toNat_le] at fewer
    omega

/-- The scan stops at the first record that has expired. -/
theorem Cache.scan_expired {front before after : List CacheRecord} {old : CacheRecord}
    (holds : Holds cache (front ++ (before ++ old :: after)))
    (earlier : ∀ other ∈ before, other.InTime rcvtime) (lapsed : old.expires < rcvtime) :
    cache.scan rcvtime (before ++ old :: after).length front.length best =
      .ok (front.length + before.length, some (front.length + before.length)) := by
  induction before generalizing front best with
  | nil =>
    have here : cache.slot front.length = .ok old := holds.slot
    simp only [List.nil_append, List.length_cons, Cache.scan, here]
    exact if_pos lapsed
  | cons first before ih =>
    have here : cache.slot front.length = .ok first := holds.slot
    have inTime : ¬ first.expires < rcvtime := earlier first List.mem_cons_self
    have holds' : Holds cache ((front ++ [first]) ++ (before ++ old :: after)) := by
      rw [List.append_assoc]
      exact holds
    have rest := @ih (best.notice front.length first) (front ++ [first]) holds' fun other member =>
      earlier other (List.mem_cons_of_mem first member)
    have behind : (front ++ [first]).length = front.length + 1 := List.length_append
    have place : front.length + (first :: before).length = front.length + 1 + before.length := by
      rw [List.length_cons]
      omega
    rw [behind] at rest
    rw [List.cons_append, List.length_cons, place]
    simp only [Cache.scan, here]
    exact (if_neg inTime).trans rest

/-- What the scan of records in time finds: nothing that is as good as the first candidate, or
the best of the records. -/
inductive Found (base : Nat) (records : List CacheRecord) (best : Candidate) :
    Option Nat → Prop where
  | none (worse : ∀ record ∈ records, best.key < record.key) : Found base records best best.index
  | some {before old after} (split : records = before ++ old :: after) (good : old.key ≤ best.key)
      (least : ∀ record ∈ records, old.key ≤ record.key) :
      Found base records best (some (base + before.length))

theorem Cache.scan_inTime {front records : List CacheRecord}
    (holds : Holds cache (front ++ records)) (inTime : ∀ other ∈ records, other.InTime rcvtime) :
    ∃ index, cache.scan rcvtime records.length front.length best =
      .ok (front.length + records.length, index) ∧ Found front.length records best index := by
  induction records generalizing front best with
  | nil => exact ⟨best.index, rfl, .none nofun⟩
  | cons first records ih =>
    have here : cache.slot front.length = .ok first := holds.slot
    have holds' : Holds cache ((front ++ [first]) ++ records) := by
      rw [List.append_assoc]
      exact holds
    obtain ⟨index, rest, found⟩ := @ih (best.notice front.length first) (front ++ [first]) holds'
      fun other member => inTime other (List.mem_cons_of_mem first member)
    simp only [List.length_append, List.length_singleton] at rest found
    refine ⟨index, ?_, ?_⟩
    · simp only [List.length_cons, Cache.scan, here]
      refine (if_neg (inTime first List.mem_cons_self)).trans (rest.trans ?_)
      rw [Nat.add_assoc, Nat.add_comm 1]
    · rw [Candidate.notice_eq] at found
      split at found
      · rename_i good
        cases found with
        | none worse =>
          refine @Found.some _ _ _ [] first records rfl good fun record member => ?_
          rcases List.mem_cons.mp member with rfl | later
          · exact le_refl _
          · exact le_of_lt (worse record later)
        | @some before old after split better least =>
          have better : old.key ≤ first.key := better
          rw [Nat.add_assoc, Nat.add_comm 1]
          refine @Found.some _ _ _ (first :: before) old after (by rw [split]; rfl) (le_trans better good)
            fun record member => ?_
          rcases List.mem_cons.mp member with rfl | later
          · exact better
          · exact least record later
      · rename_i bad
        cases found with
        | none worse =>
          refine .none fun record member => ?_
          rcases List.mem_cons.mp member with rfl | later
          · exact not_le.mp bad
          · exact worse record later
        | @some before old after split better least =>
          rw [Nat.add_assoc, Nat.add_comm 1]
          refine @Found.some _ _ _ (first :: before) old after (by rw [split]; rfl) better
            fun record member => ?_
          rcases List.mem_cons.mp member with rfl | later
          · exact le_trans better (le_of_lt (not_le.mp bad))
          · exact least record later

end Scan

/-! ### Adding a response -/

section Add

variable {cache next : Cache} {records : List CacheRecord} {msg : Message} {fresh : Block}

theorem key_le_firstCandidate (record : CacheRecord) (rcvtime : Int) :
    record.key ≤ (firstCandidate rcvtime).key ↔ record.Replaceable rcvtime := by
  refine Prod.Lex.toLex_le_toLex.trans (or_congr UInt32.lt_iff_toNat_lt.symm ?_)
  exact and_congr_left fun _ => UInt32.toNat_inj

theorem key_le_iff (record other : CacheRecord) :
    record.key ≤ other.key ↔ record.hits < other.hits ∨
      record.hits = other.hits ∧ record.expires ≤ other.expires := by
  refine Prod.Lex.toLex_le_toLex.trans (or_congr UInt32.lt_iff_toNat_lt.symm ?_)
  exact and_congr_left fun _ => UInt32.toNat_inj

/-- What becomes of a new response that finds a place. -/
structure Places (cache : Cache) (records : List CacheRecord) (msg : Message) (fresh : Block)
    (next : Cache) : Prop where
  done : qxdnsCacheAdd cache msg (some fresh) = .ok (next, true)
  max : next.max = cache.max
  ttl : next.ttl = cache.ttl
  stored : ∃ after, Holds next after ∧
    Stored cache.max msg.rcvtime (msg.record cache.ttl fresh) records after

/-- A response is stored, or there is no place for it and a slot before the first one is
used. -/
theorem Holds.add (holds : Holds cache records) (msg : Message) (fresh : Block) :
    (HasPlace cache.max msg.rcvtime records ∧ ∃ next, Places cache records msg fresh next) ∨
      ¬ HasPlace cache.max msg.rcvtime records ∧
        qxdnsCacheAdd cache msg (some fresh) = .error .outside := by
  by_cases lapsed : ∃ record ∈ records, record.expires < msg.rcvtime
  · obtain ⟨before, old, after, rfl, earlier, expired⟩ := first_split lapsed
    have scanned := @Cache.scan_expired cache msg.rcvtime (firstCandidate msg.rcvtime) [] before after
      old holds earlier expired
    obtain ⟨next, done, max, ttl, held⟩ := holds.set (msg.record cache.ttl fresh)
    refine .inl ⟨.inl lapsed, next, ?_, max, ttl, _, held, .expired earlier expired⟩
    have stops : ¬ (before.length = cache.count ∧ before.length < cache.max) := by
      rw [holds.count, List.length_append, List.length_cons]
      omega
    rw [← holds.count, List.length_nil, Nat.zero_add] at scanned
    simp only [qxdnsCacheAdd, scanned, bind, Except.bind, if_neg stops, done]
  · have inTime : ∀ other ∈ records, other.InTime msg.rcvtime := fun other member expired =>
      lapsed ⟨other, member, expired⟩
    obtain ⟨index, scanned, found⟩ := @Cache.scan_inTime cache msg.rcvtime
      (firstCandidate msg.rcvtime) [] records holds inTime
    rw [← holds.count, List.length_nil, Nat.zero_add] at scanned
    by_cases room : cache.count < cache.max
    · obtain ⟨next, done, max, ttl, held⟩ := holds.append room (msg.record cache.ttl fresh)
      have free : records.length < cache.max := by
        rw [← holds.count]
        exact room
      refine .inl ⟨.inr (.inl free), { next with count := next.count + 1 }, ?_, max, ttl, _, held,
        .appended inTime free⟩
      simp only [qxdnsCacheAdd, scanned, bind, Except.bind, true_and, if_pos room, done]
    · have full : records.length = cache.max := by
        rw [← holds.count]
        exact Nat.le_antisymm (holds.count ▸ holds.room) (Nat.not_lt.mp room)
      cases found with
      | none worse =>
        refine .inr ⟨?_, ?_⟩
        · rintro (expired | free | ⟨record, member, replaceable⟩)
          · exact lapsed expired
          · exact absurd full (Nat.ne_of_lt free)
          · exact absurd ((key_le_firstCandidate record _).mpr replaceable)
              (not_le.mpr (worse record member))
        · have unset : (firstCandidate msg.rcvtime).index = Option.none := rfl
          rw [unset] at scanned
          simp only [qxdnsCacheAdd, scanned, bind, Except.bind, true_and, if_neg room]
      | @some before old after split good least =>
        subst split
        obtain ⟨next, done, max, ttl, held⟩ := holds.set (msg.record cache.ttl fresh)
        have replaceable := (key_le_firstCandidate old _).mp good
        refine .inl ⟨.inr (.inr ⟨old, List.mem_append_right before List.mem_cons_self,
          replaceable⟩), next, ?_, max, ttl, _, held,
          .replaced inTime full fun other member => (key_le_iff old other).mp (least other member)⟩
        simp only [qxdnsCacheAdd, scanned, bind, Except.bind, true_and, if_neg room,
          List.length_nil, Nat.zero_add, done]

end Add

/-! ### Looking for an answer -/

section Lookup

variable {cache next : Cache} {records : List CacheRecord} {msg answer : Message} {found : Bool}

/-- A record that the lookup goes on behind: it has expired, or its text is another one. -/
def Message.Passes (msg : Message) (record : CacheRecord) : Prop :=
  record.InTime msg.rcvtime → sameText msg.pkt record.pkt 500 12 = .ok false

/-- What a lookup finds: no record in time with the text of the query, or the first of them, which
counts one hit more. -/
inductive Looked (cache : Cache) (records : List CacheRecord) (msg : Message) :
    Cache → Message → Bool → Prop where
  | missing (passes : ∀ record ∈ records, msg.Passes record) :
      Looked cache records msg cache msg false
  | hit {before record after next} (split : records = before ++ record :: after)
      (passes : ∀ other ∈ before, msg.Passes other) (inTime : record.InTime msg.rcvtime)
      (same : sameText msg.pkt record.pkt 500 12 = .ok true)
      (max : next.max = cache.max) (ttl : next.ttl = cache.ttl)
      (holds : Holds next (before ++ { record with hits := record.hits + 1 } :: after)) :
      Looked cache records msg next (msg.answered record) true

theorem Cache.find_spec {front : List CacheRecord} {place : Option Nat}
    (holds : Holds cache (front ++ records))
    (done : cache.find msg records.length front.length = .ok place) :
    (place = none ∧ ∀ record ∈ records, msg.Passes record) ∨
      ∃ before record after, records = before ++ record :: after ∧
        place = some (front.length + before.length) ∧ (∀ other ∈ before, msg.Passes other) ∧
        record.InTime msg.rcvtime ∧ sameText msg.pkt record.pkt 500 12 = .ok true := by
  induction records generalizing front with
  | nil =>
    cases done
    exact .inl ⟨rfl, nofun⟩
  | cons first records ih =>
    have here : cache.slot front.length = .ok first := holds.slot
    have holds' : Holds cache ((front ++ [first]) ++ records) := by
      rw [List.append_assoc]
      exact holds
    have behind : (front ++ [first]).length = front.length + 1 := List.length_append
    -- the same search behind a record that is passed
    have goesOn (passes : msg.Passes first)
        (rest : cache.find msg records.length (front.length + 1) = .ok place) :
        (place = none ∧ ∀ record ∈ first :: records, msg.Passes record) ∨
          ∃ before record after, first :: records = before ++ record :: after ∧
            place = some (front.length + before.length) ∧
            (∀ other ∈ before, msg.Passes other) ∧ record.InTime msg.rcvtime ∧
            sameText msg.pkt record.pkt 500 12 = .ok true := by
      rw [← behind] at rest
      rcases ih holds' rest with ⟨none, others⟩ |
        ⟨before, record, after, split, there, others, inTime, same⟩
      · refine .inl ⟨none, fun record member => ?_⟩
        rcases List.mem_cons.mp member with rfl | later
        · exact passes
        · exact others record later
      · refine .inr ⟨first :: before, record, after, by rw [split]; rfl, ?_, ?_, inTime, same⟩
        · rw [there, behind, List.length_cons, Nat.add_assoc, Nat.add_comm 1]
        · intro other member
          rcases List.mem_cons.mp member with rfl | later
          · exact passes
          · exact others other later
    simp only [List.length_cons, Cache.find, here, bind, Except.bind] at done
    by_cases lapsed : first.expires < msg.rcvtime
    · rw [if_pos lapsed] at done
      exact goesOn (fun inTime => absurd lapsed inTime) done
    · rw [if_neg lapsed] at done
      cases same : sameText msg.pkt first.pkt 500 12 with
      | error fault =>
        rw [same] at done
        cases done
      | ok same' =>
        rw [same] at done
        cases same' with
        | true =>
          cases done
          exact .inr ⟨[], first, records, rfl, rfl, nofun, lapsed, same⟩
        | false => exact goesOn (fun _ => same) done

theorem Holds.lookup (holds : Holds cache records)
    (done : qxdnsCacheLookup cache msg = .ok (next, answer, found)) :
    Looked cache records msg next answer found := by
  cases place : cache.find msg cache.count 0 with
  | error fault =>
    simp only [qxdnsCacheLookup, place, bind, Except.bind] at done
    cases done
  | ok place' =>
    have searched := place
    rw [holds.count] at searched
    rcases @Cache.find_spec cache records msg [] place' holds searched with ⟨rfl, passes⟩ |
      ⟨before, record, after, rfl, rfl, passes, inTime, same⟩
    · simp only [qxdnsCacheLookup, place, bind, Except.bind] at done
      cases done
      exact .missing passes
    · obtain ⟨changed, set, max, ttl, held⟩ :=
        holds.set { record with hits := record.hits + 1 }
      simp only [qxdnsCacheLookup, place, bind, Except.bind, List.length_nil, Nat.zero_add,
        holds.slot, set] at done
      cases done
      exact .hit rfl passes inTime same max ttl held

end Lookup

/-! ### Runs -/

def CacheCall.isLookup : CacheCall → Bool
  | .add _ _ => false
  | .lookup _ => true

/-- How many lookups there are in a run. -/
def lookups (past : List CacheLabel) : Nat := past.countP fun label => label.1.isLookup

section Runs

variable {max : Nat} {ttl : Int} {past : List CacheLabel} {cache next : Cache}

/-- What every run keeps: the slots, and that a record has not been hit more often than there were
lookups. -/
structure Kept (max : Nat) (ttl : Int) (past : List CacheLabel) (cache : Cache)
    (records : List CacheRecord) : Prop where
  holds : Holds cache records
  max : cache.max = max
  ttl : cache.ttl = ttl
  hits : ∀ record ∈ records, record.hits.toNat ≤ 1 + lookups past

theorem lookups_append (past : List CacheLabel) (label : CacheLabel) :
    lookups (past ++ [label]) = lookups past + if label.1.isLookup then 1 else 0 := by
  rw [lookups, lookups, List.countP_append, List.countP_singleton]

/-- A stored response is new, and the other records are old ones. -/
theorem Stored.mem {rcvtime : Int} {record other : CacheRecord} {records after : List CacheRecord}
    (stored : Stored max rcvtime record records after) (member : other ∈ after) :
    other = record ∨ other ∈ records := by
  cases stored with
  | expired _ _ | replaced _ _ _ =>
    rcases List.mem_append.mp member with before | rest
    · exact .inr (List.mem_append_left _ before)
    · rcases List.mem_cons.mp rest with rfl | behind
      · exact .inl rfl
      · exact .inr (List.mem_append_right _ (List.mem_cons_of_mem _ behind))
  | appended _ _ =>
    rcases List.mem_append.mp member with before | rest
    · exact .inr before
    · exact .inl (List.mem_singleton.mp rest)

theorem Kept.add {records : List CacheRecord} (kept : Kept max ttl past cache records)
    {msg : Message} {fresh : Option Block} {done : Bool}
    (answered : qxdnsCacheAdd cache msg fresh = .ok (next, done)) (label : CacheLabel) :
    ∃ after, Kept max ttl (past ++ [label]) next after := by
  have more : lookups past ≤ lookups (past ++ [label]) := by
    rw [lookups_append]
    exact Nat.le_add_right _ _
  cases fresh with
  | none =>
    cases answered
    exact ⟨records, kept.holds, kept.max, kept.ttl, fun record member =>
      Nat.le_trans (kept.hits record member) (Nat.add_le_add_left more 1)⟩
  | some fresh =>
    rcases kept.holds.add msg fresh with ⟨_, stored, places⟩ | ⟨_, fault⟩
    · rw [places.done] at answered
      cases answered
      obtain ⟨after, holds, stored⟩ := places.stored
      refine ⟨after, holds, places.max.trans kept.max, places.ttl.trans kept.ttl,
        fun record member => ?_⟩
      rcases stored.mem member with rfl | old
      · exact Nat.le_add_right _ _
      · exact Nat.le_trans (kept.hits record old) (Nat.add_le_add_left more 1)
    · rw [fault] at answered
      cases answered

theorem Kept.lookup {records : List CacheRecord} (kept : Kept max ttl past cache records)
    {msg answer : Message} {found : Bool}
    (answered : qxdnsCacheLookup cache msg = .ok (next, answer, found)) {label : CacheLabel}
    (counts : label.1.isLookup = true) : ∃ after, Kept max ttl (past ++ [label]) next after := by
  have more : lookups (past ++ [label]) = lookups past + 1 := by
    rw [lookups_append, if_pos counts]
  cases kept.holds.lookup answered with
  | missing _ =>
    refine ⟨records, kept.holds, kept.max, kept.ttl, fun record member => ?_⟩
    rw [more]
    exact Nat.le_trans (kept.hits record member) (Nat.add_le_add_left (Nat.le_succ _) 1)
  | @hit before record after _ split _ _ _ max ttl holds =>
    refine ⟨_, holds, max.trans kept.max, ttl.trans kept.ttl, fun other member => ?_⟩
    rw [more]
    have old : ∀ kept' ∈ before ++ record :: after, kept'.hits.toNat ≤ 1 + lookups past := by
      rw [← split]
      exact kept.hits
    rcases List.mem_append.mp member with front | rest
    · exact Nat.le_trans (old other (List.mem_append_left _ front))
        (Nat.add_le_add_left (Nat.le_succ _) 1)
    · rcases List.mem_cons.mp rest with rfl | behind
      · have before := old record (List.mem_append_right _ List.mem_cons_self)
        have counted : (record.hits + 1).toNat ≤ record.hits.toNat + 1 := by
          rw [UInt32.toNat_add]
          exact Nat.mod_le _ _
        exact Nat.le_trans counted (Nat.succ_le_succ before)
      · exact Nat.le_trans (old other (List.mem_append_right _ (List.mem_cons_of_mem _ behind)))
          (Nat.add_le_add_left (Nat.le_succ _) 1)

theorem run_kept (run : Run CacheStep (qxdnsCacheInit max ttl) past cache) :
    ∃ records, Kept max ttl past cache records := by
  have kept : ∃ records, Kept max ttl ([] ++ past) cache records := by
    refine run.history (motive := fun past cache => ∃ records, Kept max ttl past cache records)
      ⟨[], ⟨by simp [qxdnsCacheInit], rfl, Nat.zero_le _⟩, rfl, rfl, nofun⟩ ?_
    rintro past cache ⟨call, answer⟩ next ⟨records, kept⟩ step
    cases call with
    | add msg fresh =>
      obtain ⟨produced, done, same⟩ := map_eq_ok.mp step
      cases same
      exact kept.add done _
    | lookup msg =>
      obtain ⟨produced, done, same⟩ := map_eq_ok.mp step
      cases same
      exact kept.lookup done rfl
  exact kept

/-- Whenever a response is to be stored, the slots are in order, and it is stored in the right one
if there is a place for it, as there is up to 2^31 - 3 lookups. -/
theorem response_is_stored_iff (run : Run CacheStep (qxdnsCacheInit max ttl) past cache) :
    ∃ records, Holds cache records ∧ cache.max = max ∧ cache.ttl = ttl ∧
      (∀ msg fresh, (∃ next, Places cache records msg fresh next) ↔
        HasPlace max msg.rcvtime records) ∧
      (1 ≤ max → lookups past + 2 < 2 ^ 31 → ∀ rcvtime, HasPlace max rcvtime records) := by
  obtain ⟨records, kept⟩ := run_kept run
  refine ⟨records, kept.holds, kept.max, kept.ttl, fun msg fresh => ?_, fun some few rcvtime => ?_⟩
  · have outcome := kept.holds.add msg fresh
    rw [kept.max] at outcome
    constructor
    · rintro ⟨next, places⟩
      rcases outcome with ⟨place, _⟩ | ⟨_, fault⟩
      · exact place
      · have done := places.done
        rw [fault] at done
        cases done
    · intro place
      rcases outcome with ⟨_, stored⟩ | ⟨none, _⟩
      · exact stored
      · exact absurd place none
  · by_cases room : records.length < max
    · exact .inr (.inl room)
    · obtain ⟨record, member⟩ : ∃ record, record ∈ records :=
        List.exists_mem_of_length_pos (Nat.lt_of_lt_of_le some (Nat.not_lt.mp room))
      have bound := kept.hits record member
      have fewer : record.hits < intMax := UInt32.lt_iff_toNat_lt.mpr <| by
        have limit : intMax.toNat = 2 ^ 31 - 1 := rfl
        omega
      exact .inr (.inr ⟨record, member, .inl fewer⟩)

end Runs

def rootMessage : Message where
  pkt := fun _ => 0
  datalen := 17
  rcvtime := 0
  whole := Nat.le_refl 17
  fits := by decide

/-- A cache with one slot, and a response in it that was hit so often. -/
def oneSlot (hits : UInt32) : Cache where
  max := 1
  ttl := 10
  root := [some { rootMessage.record 10 fun _ => 0 with hits := hits }]
  count := 1

theorem rootMessage_added :
    CacheStep (qxdnsCacheInit 1 10) (.add rootMessage (some fun _ => 0), .added true)
      (oneSlot 1) := rfl

/-- The second response takes the place of the first. -/
theorem second_response_is_stored :
    ∃ past cache records next, Run CacheStep (qxdnsCacheInit 1 10) past cache ∧
      lookups past + 2 < 2 ^ 31 ∧ records.length = 1 ∧
      Places cache records rootMessage (fun _ => 0) next := by
  have run := Run.cons rootMessage_added .nil
  obtain ⟨records, holds, _, _, stored, places⟩ := response_is_stored_iff run
  obtain ⟨next, placed⟩ := (stored rootMessage fun _ => 0).mpr
    (places (Nat.le_refl 1) (by decide) _)
  exact ⟨_, _, records, next, run, by decide, holds.count.symm, placed⟩

theorem lookups_hit (hits : UInt32) (times : Nat) :
    ∃ past, Run CacheStep (oneSlot hits) past (oneSlot (hits + UInt32.ofNat times)) ∧
      lookups past = times := by
  induction times generalizing hits with
  | zero => exact ⟨[], by simpa using Run.nil, rfl⟩
  | succ times ih =>
    obtain ⟨past, run, counted⟩ := ih (hits + 1)
    have first : CacheStep (oneSlot hits) (.lookup rootMessage, .looked
        (rootMessage.answered (rootMessage.record 10 fun _ => 0)) true) (oneSlot (hits + 1)) := rfl
    refine ⟨_ :: past, .cons first ?_, ?_⟩
    · rw [Nat.add_comm times, UInt32.ofNat_add, ← UInt32.add_assoc]
      exact run
    · rw [lookups, List.countP_cons_of_pos rfl]
      exact congrArg Nat.succ counted

/-- After 2^31 - 1 lookups of the only response there is no place for another one. -/
theorem busy_response_is_not_replaced :
    ∃ past cache, Run CacheStep (qxdnsCacheInit 1 10) past cache ∧ lookups past < 2 ^ 31 ∧
      qxdnsCacheAdd cache rootMessage (some fun _ => 0) = .error .outside := by
  obtain ⟨past, run, counted⟩ := lookups_hit 1 (2 ^ 31 - 1)
  refine ⟨_ :: past, _, .cons rootMessage_added run, ?_, rfl⟩
  rw [lookups, List.countP_cons_of_neg (by decide), ← lookups, counted]
  decide

end QNXStuff.QXDns
