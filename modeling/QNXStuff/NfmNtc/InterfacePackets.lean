import QNXStuff.NfmNtc.InterfaceRuns

/-! What becomes of a packet while the list of interfaces changes. -/

namespace QNXStuff.NfmNtc

open Execution Registry SharedLock

/-- `io-net` calls an interface by the same numbers each time, and no other one by them. -/
structure Advert.Assigned (numbers : List UInt8 → IfNumbers) (owner : IfNumbers → List UInt8)
    (ad : Advert) : Prop where
  numbers : ad.numbers = numbers ad.key
  owner : owner ad.numbers = ad.key

instance (numbers : List UInt8 → IfNumbers) (owner : IfNumbers → List UInt8) (ad : Advert) :
    Decidable (ad.Assigned numbers owner) :=
  decidable_of_iff (ad.numbers = numbers ad.key ∧ owner ad.numbers = ad.key)
    ⟨fun both => ⟨both.1, both.2⟩, fun assigned => ⟨assigned.numbers, assigned.owner⟩⟩

structure IfRecord.Assigned (numbers : List UInt8 → IfNumbers) (owner : IfNumbers → List UInt8)
    (ifs : IfRecord) : Prop where
  numbers : ifs.numbers = numbers ifs.key
  owner : owner ifs.numbers = ifs.key

/-- The adverts that come have the numbers of their interfaces. -/
def IfInput.Assigned {Thread : Type} (numbers : List UInt8 → IfNumbers)
    (owner : IfNumbers → List UInt8) : IfInput Thread → Prop
  | .comes _ (.advert ad) => ad.Assigned numbers owner
  | _ => True

instance {Thread : Type} (numbers : List UInt8 → IfNumbers) (owner : IfNumbers → List UInt8)
    (input : IfInput Thread) : Decidable (input.Assigned numbers owner) :=
  match input with
  | .comes _ (.advert ad) => inferInstanceAs (Decidable (ad.Assigned numbers owner))
  | .comes _ (.dying _) | .comes _ (.packet _) => isTrue trivial
  | .goOn _ | .asks _ | .serves => isTrue trivial

/-- No record is gone, and what each is called has stayed. -/
def Later (records records' : List IfRecord) : Prop :=
  ∀ (place : Nat) (ifs : IfRecord), records[place]? = some ifs →
    ∃ ifs' : IfRecord, records'[place]? = some ifs' ∧ ifs'.key = ifs.key ∧ ifs'.numbers = ifs.numbers

section Records

variable {records records' : List IfRecord} {place : Nat} {change : IfRecord → IfRecord}

theorem later_rfl : Later records records := fun _ ifs there => ⟨ifs, there, rfl, rfl⟩

theorem Later.trans {records'' : List IfRecord} (later : Later records records')
    (later' : Later records' records'') : Later records records'' := by
  intro place ifs there
  obtain ⟨ifs', there', key, same⟩ := later place ifs there
  obtain ⟨ifs'', there'', key', same'⟩ := later' place ifs' there'
  exact ⟨ifs'', there'', key'.trans key, same'.trans same⟩

theorem Later.length_le (later : Later records records') : records.length ≤ records'.length := by
  by_contra shorter
  obtain ⟨ifs, there, -⟩ := later _ _ (List.getElem?_eq_getElem (Nat.lt_of_not_le shorter))
  rw [List.getElem?_eq_none (Nat.le_refl _)] at there
  cases there

theorem later_append {more : List IfRecord} : Later records (records ++ more) := by
  intro place ifs there
  refine ⟨ifs, ?_, rfl, rfl⟩
  rw [List.getElem?_append_left (List.getElem?_eq_some_iff.mp there).1, there]

theorem later_modify (keeps : ∀ ifs, records[place]? = some ifs →
    (change ifs).key = ifs.key ∧ (change ifs).numbers = ifs.numbers) :
    Later records (records.modify place change) := by
  intro other ifs there
  by_cases same : place = other
  · subst same
    refine ⟨change ifs, by rw [List.getElem?_modify, there]; simp, keeps ifs there⟩
  · exact ⟨ifs, by rw [List.getElem?_modify, there]; simp [same], rfl, rfl⟩

/-- What was at a place, seen from later. -/
theorem Later.before (later : Later records records') (inside : place < records.length)
    {ifs' : IfRecord} (there : records'[place]? = some ifs') :
    ∃ ifs, records[place]? = some ifs ∧ ifs'.key = ifs.key ∧ ifs'.numbers = ifs.numbers := by
  obtain ⟨other, there', key, same⟩ := later place _ (List.getElem?_eq_getElem inside)
  rw [there] at there'
  cases there'
  exact ⟨_, List.getElem?_eq_getElem inside, key, same⟩

end Records

/-- A packet's thread has found none of its records so far above the one it is at. -/
def NetThread.Looks (records : List IfRecord) (numbers : IfNumbers) (head : Nat) : NetThread → Prop
  | .arriving numbers' head' => numbers' = numbers ∧ head' = head
  | .comparing numbers' top field =>
    numbers' = numbers ∧ top ≤ head ∧
      (∀ place ifs, top ≤ place → place < head → records[place]? = some ifs →
        ifs.numbers ≠ numbers) ∧
      ∀ place ifs, top = place + 1 → records[place]? = some ifs → field.Stored numbers ifs
  | _ => False

theorem Field.stored_of_numbers {numbers : IfNumbers} {ifs ifs' : IfRecord} {field : Field}
    (same : ifs'.numbers = ifs.numbers) (stored : field.Stored numbers ifs) :
    field.Stored numbers ifs' := by
  have cell : ifs'.cell = ifs.cell := congrArg IfNumbers.cell same
  have endpoint : ifs'.endpoint = ifs.endpoint := congrArg IfNumbers.endpoint same
  cases field with
  | cell => trivial
  | endpoint => exact cell.trans stored
  | iface => exact ⟨cell.trans stored.1, endpoint.trans stored.2⟩
  | flag => exact same.trans stored

theorem Field.stored_agrees {numbers : IfNumbers} {ifs : IfRecord} {field next : Field}
    (stored : field.Stored numbers ifs) (same : field.agrees numbers ifs = true)
    (goes : field.next = some next) : next.Stored numbers ifs := by
  cases field with
  | cell =>
    cases goes
    exact beq_iff_eq.mp same
  | endpoint =>
    cases goes
    exact ⟨stored, beq_iff_eq.mp same⟩
  | iface =>
    cases goes
    have last : ifs.iface = numbers.iface := beq_iff_eq.mp same
    unfold Field.Stored IfRecord.numbers
    rw [stored.1, stored.2, last]
  | flag => cases goes

theorem Field.differs_numbers {numbers : IfNumbers} {ifs : IfRecord} {field : Field}
    (other : field.agrees numbers ifs = false) : ifs.numbers ≠ numbers := by
  rintro rfl
  cases field <;> simp [Field.agrees, IfRecord.numbers] at other

/-- The records that a packet looks at stay what they are called. -/
theorem NetThread.Looks.later {records records' : List IfRecord} {wanted : IfNumbers} {head : Nat}
    {phase : NetThread} (looks : phase.Looks records wanted head) (later : Later records records')
    (inside : head ≤ records.length) : phase.Looks records' wanted head := by
  cases phase with
  | arriving numbers head' => exact looks
  | comparing numbers top field =>
    obtain ⟨same, below, passed, stored⟩ := looks
    refine ⟨same, below, ?_, ?_⟩
    · intro place ifs above under there
      obtain ⟨before, here, -, called⟩ := later.before (Nat.lt_of_lt_of_le under inside) there
      rw [called]
      exact passed place before above under here
    · intro place ifs at' there
      have under : place < head := Nat.lt_of_lt_of_le (at' ▸ Nat.lt_succ_self place) below
      obtain ⟨before, here, -, called⟩ := later.before (Nat.lt_of_lt_of_le under inside) there
      exact Field.stored_of_numbers called (stored place before at' here)
  | idle => cases looks
  | searching ad head' => cases looks
  | updating ad place field => cases looks
  | adding ad => cases looks
  | dying numbers head' => cases looks

namespace Interfaces

variable {Thread : Type} [DecidableEq Thread] {numbers : List UInt8 → IfNumbers}
  {owner : IfNumbers → List UInt8} {state after : Interfaces Thread} {input : IfInput Thread}
  {event : IfEvent Thread} {past : List (IfLabel Thread)}

/-- What holds besides where adverts have the numbers of their interfaces. -/
structure Stable (numbers : List UInt8 → IfNumbers) (owner : IfNumbers → List UInt8)
    (state : Interfaces Thread) : Prop where
  records : ∀ ifs ∈ state.ntcIfs, ifs.Assigned numbers owner
  adverts : ∀ thread ad, (state.threads thread).advert = some ad → ad.Assigned numbers owner

omit [DecidableEq Thread] in
/-- The records of an advert and of its interface have the same numbers, so that the stores change none. -/
theorem Stable.store (stable : state.Stable numbers owner) (sound : state.Sound past)
    {thread : Thread} {ad : Advert} {place : Nat} {field field' : Field}
    (here : state.threads thread = .updating ad place field) :
    Later state.ntcIfs (state.ntcIfs.modify place (field'.store ad.numbers)) := by
  refine later_modify fun ifs there => ⟨Field.store_key .., ?_⟩
  obtain ⟨mine, entry, named, -⟩ := here ▸ sound.relies thread
  rw [entry] at there
  cases there
  have same : ad.numbers = ifs.numbers := by
    rw [(stable.adverts thread ad (by rw [here]; rfl)).numbers,
      (stable.records ifs (List.mem_of_getElem? entry)).numbers, named]
  rw [same]
  cases field' <;> rfl

theorem Stable.later (stable : state.Stable numbers owner) (sound : state.Sound past)
    (does : Does state input event after) : Later state.ntcIfs after.ntcIfs := by
  cases does with
  | stores here goes => exact stable.store sound here
  | updates here => exact stable.store sound here
  | adds here alone => exact later_append
  | marks here alone => exact later_modify fun _ _ => ⟨rfl, rfl⟩
  | declares said found => exact later_modify fun _ _ => ⟨rfl, rfl⟩
  | _ => exact later_rfl

theorem Does.grows (does : Does state input event after) :
    after.ntcIfs.length = state.ntcIfs.length ∨
      ∃ thread ad, state.threads thread = .adding ad ∧ after.ntcIfs = state.ntcIfs ++ [ad.record] := by
  cases does with
  | stores here goes => exact .inl (List.length_modify ..)
  | updates here => exact .inl (List.length_modify ..)
  | adds here alone => exact .inr ⟨_, _, here, rfl⟩
  | marks here alone => exact .inl (List.length_modify ..)
  | declares said found => exact .inl (List.length_modify ..)
  | _ => exact .inl rfl

/-- An advert that a thread is at has come with the step, or it was at it before. -/
theorem Does.adverts (does : Does state input event after) {thread : Thread} {ad : Advert}
    (under : (after.threads thread).advert = some ad) :
    (state.threads thread).advert = some ad ∨ input = .comes thread (.advert ad) := by
  have moved : ∀ {mid : Interfaces Thread} {mover : Thread} {now : NetThread},
      mid.threads = state.threads → ((mid.move mover now).threads thread).advert = some ad →
      (now.advert = some ad → (state.threads mover).advert = some ad ∨
        input = .comes mover (.advert ad)) →
      (state.threads thread).advert = some ad ∨ input = .comes thread (.advert ad) := by
    intro mid mover now same under mine
    by_cases here : thread = mover
    · rw [here, move_self] at under
      rw [here]
      exact mine under
    · rw [move_of_ne mid here, same] at under
      exact .inl under
  cases does with
  | @comes mover arrival idle =>
    refine moved rfl under fun at' => .inr ?_
    cases arrival with
    | advert other =>
      cases at'
      rfl
    | dying numbers => cases at'
    | packet numbers => cases at'
  | finds here found => exact moved rfl under fun at' => .inl (by rw [here]; exact at')
  | misses here missing => exact moved rfl under fun at' => .inl (by rw [here]; exact at')
  | stores here goes => exact moved rfl under fun at' => .inl (by rw [here]; exact at')
  | updates here => exact moved rfl under fun at' => by cases at'
  | adds here alone => exact moved rfl under fun at' => by cases at'
  | marks here alone => exact moved rfl under fun at' => by cases at'
  | ignores here => exact moved rfl under fun at' => by cases at'
  | enters here => exact moved rfl under fun at' => by cases at'
  | agrees here entry same goes => exact moved rfl under fun at' => by cases at'
  | differs here entry other => exact moved rfl under fun at' => by cases at'
  | judges here entry => exact moved rfl under fun at' => by cases at'
  | ends here => exact moved rfl under fun at' => by cases at'
  | asks => exact .inl under
  | shows => exact .inl under
  | declares said found => exact .inl under
  | declines => exact .inl under

theorem Stable.step (stable : state.Stable numbers owner) (sound : state.Sound past)
    (assigned : input.Assigned numbers owner) (does : Does state input event after) :
    after.Stable numbers owner := by
  constructor
  · intro ifs inside
    obtain ⟨place, there⟩ := List.mem_iff_getElem?.mp inside
    by_cases old : place < state.ntcIfs.length
    · obtain ⟨before, here, key, same⟩ := (stable.later sound does).before old there
      have kept := stable.records before (List.mem_of_getElem? here)
      exact ⟨by rw [same, key]; exact kept.numbers, by rw [same, key]; exact kept.owner⟩
    · rcases does.grows with same | ⟨thread, ad, here, added⟩
      · exact absurd (same ▸ (List.getElem?_eq_some_iff.mp there).1) old
      · rw [added, List.getElem?_append_right (Nat.le_of_not_lt old)] at there
        have kept := stable.adverts thread ad (by rw [here]; rfl)
        have named : ad.record.key = ad.key := Advert.record_key (here ▸ sound.relies thread).1
        rw [List.mem_singleton.mp (List.mem_of_getElem? there)]
        exact ⟨by rw [named]; exact kept.numbers, by rw [named]; exact kept.owner⟩
  · intro thread ad under
    rcases does.adverts under with before | rfl
    · exact stable.adverts thread ad before
    · exact assigned

theorem looks_move (state : Interfaces Thread) {records : List IfRecord} {thread mover : Thread}
    {now : NetThread}
    {wanted : IfNumbers} {head : Nat} (looks : (state.threads thread).Looks records wanted head)
    (mine : (state.threads mover).Looks records wanted head → now.Looks records wanted head) :
    ((state.move mover now).threads thread).Looks records wanted head := by
  by_cases here : thread = mover
  · rw [here, move_self]
    exact mine (here ▸ looks)
  · rw [move_of_ne state here]
    exact looks

/-- A packet on its way through the list, behind a step that does not end it. -/
theorem Does.looks (does : Does state input event after) {thread : Thread} {wanted : IfNumbers}
    {head : Nat} (looks : (state.threads thread).Looks after.ntcIfs wanted head)
    (unjudged : ∀ verdict, event ≠ .judged thread verdict) :
    (after.threads thread).Looks after.ntcIfs wanted head := by
  cases does with
  | comes idle =>
    exact looks_move state looks fun looks => by rw [idle] at looks; cases looks
  | finds here found =>
    exact looks_move state looks fun looks => by rw [here] at looks; cases looks
  | misses here missing =>
    exact looks_move state looks fun looks => by rw [here] at looks; cases looks
  | @stores mover ad place field next here goes =>
    exact looks_move (state.change place (field.store ad.numbers)) looks fun looks => by
      rw [show (state.change _ _).threads mover = _ from here] at looks
      cases looks
  | @updates mover ad place here =>
    exact looks_move (state.change place (Field.flag.store ad.numbers)) looks fun looks => by
      rw [show (state.change _ _).threads mover = _ from here] at looks
      cases looks
  | @adds mover ad here alone =>
    exact looks_move { state with ntcIfs := state.ntcIfs ++ [ad.record] } looks
      fun looks => by
        have looks : (state.threads mover).Looks _ wanted head := looks
        rw [here] at looks
        cases looks
  | @marks mover numbers _ place here alone =>
    exact looks_move (state.change place fun ifs => { ifs with dead := true }) looks
      fun looks => by
        rw [show (state.change _ _).threads mover = _ from here] at looks
        cases looks
  | ignores here =>
    exact looks_move state looks fun looks => by rw [here] at looks; cases looks
  | enters here =>
    refine looks_move state looks fun looks => ?_
    rw [here] at looks
    obtain ⟨rfl, rfl⟩ := looks
    exact ⟨rfl, Nat.le_refl _, fun place ifs above below => absurd below (Nat.not_lt_of_le above),
      fun _ _ _ _ => trivial⟩
  | agrees here entry same goes =>
    refine looks_move state looks fun looks => ?_
    rw [here] at looks
    obtain ⟨rfl, below, passed, stored⟩ := looks
    refine ⟨rfl, below, passed, fun place ifs at' there => ?_⟩
    cases at'
    have there : state.ntcIfs[_]? = some ifs := there
    rw [entry] at there
    cases there
    exact Field.stored_agrees (stored _ _ rfl entry) same goes
  | @differs mover numbers place field ifs here entry other =>
    refine looks_move state looks fun looks => ?_
    rw [here] at looks
    obtain ⟨rfl, below, passed, stored⟩ := looks
    refine ⟨rfl, Nat.le_of_succ_le below, fun place' ifs' above under there => ?_, fun _ _ _ _ => trivial⟩
    rcases Nat.eq_or_lt_of_le above with rfl | above
    · have there : state.ntcIfs[_]? = some ifs' := there
      rw [entry] at there
      cases there
      exact Field.differs_numbers other
    · exact passed place' ifs' above under there
  | @judges mover numbers place ifs here entry =>
    rw [move_of_ne state fun same => unjudged ifs.ofinterest (by rw [same])]
    exact looks
  | @ends mover numbers field here =>
    rw [move_of_ne state fun same => unjudged true (by rw [same])]
    exact looks
  | asks => exact looks
  | shows => exact looks
  | declares said found => exact looks
  | declines => exact looks

variable [Fintype Thread]

/-- The condition on a step: orderly adverts, with the numbers of their interfaces. -/
def Called (numbers : List UInt8 → IfNumbers) (owner : IfNumbers → List UInt8)
    (state : Interfaces Thread) (input : IfInput Thread) : Prop :=
  state.Orderly input ∧ input.Assigned numbers owner

instance (state : Interfaces Thread) (input : IfInput Thread) :
    Decidable (state.Called numbers owner input) :=
  inferInstanceAs (Decidable (state.Orderly input ∧ input.Assigned numbers owner))

theorem run_stable {labels : List (IfLabel Thread)} {final : Interfaces Thread}
    (run : Run (Under IfStep fun state label => state.Called numbers owner label.1) state labels final)
    (sound : state.Sound past) (stable : state.Stable numbers owner) :
    final.Sound (past ++ labels) ∧ final.Stable numbers owner := by
  refine run.history (motive := fun past state => state.Sound past ∧ state.Stable numbers owner)
    ⟨sound, stable⟩ fun past state label next kept step => ?_
  have does := handle_does step.1
  exact ⟨kept.1.step step.2.1 does, kept.2.step kept.1 step.2.2 does⟩

/-- A packet on its way stays on it, and no record that it is to see changes its name. -/
theorem run_looks {labels : List (IfLabel Thread)} {final : Interfaces Thread} {thread : Thread}
    {wanted : IfNumbers} {head : Nat}
    (run : Run (Under IfStep fun state label => state.Called numbers owner label.1) state labels final)
    (sound : state.Sound past) (stable : state.Stable numbers owner)
    (looks : (state.threads thread).Looks state.ntcIfs wanted head)
    (inside : head ≤ state.ntcIfs.length)
    (unjudged : ∀ label ∈ labels, ∀ verdict, label.2 ≠ .judged thread verdict) :
    (final.threads thread).Looks final.ntcIfs wanted head ∧ Later state.ntcIfs final.ntcIfs := by
  induction run generalizing past with
  | nil => exact ⟨looks, later_rfl⟩
  | cons first rest ih =>
    have does := handle_does first.1
    have later := stable.later sound does
    obtain ⟨kept, after⟩ := ih (sound.step first.2.1 does) (stable.step sound first.2.2 does)
      (does.looks (looks.later later inside) (unjudged _ List.mem_cons_self))
      (Nat.le_trans inside later.length_le)
      fun label member => unjudged label (List.mem_cons_of_mem _ member)
    exact ⟨kept, later.trans after⟩

omit [Fintype Thread] in
theorem judged_by {thread : Thread} {wanted : IfNumbers} {head : Nat} {verdict : Bool}
    (does : Does state input (.judged thread verdict) after)
    (looks : (state.threads thread).Looks state.ntcIfs wanted head) :
    (∃ place ifs, place < head ∧ state.ntcIfs[place]? = some ifs ∧ ifs.numbers = wanted ∧
        verdict = ifs.ofinterest) ∨
      verdict = true ∧ ∀ place ifs, place < head → state.ntcIfs[place]? = some ifs →
        ifs.numbers ≠ wanted := by
  cases does with
  | judges here entry =>
    rw [here] at looks
    obtain ⟨rfl, below, passed, stored⟩ := looks
    exact .inl ⟨_, _, below, entry, stored _ _ rfl entry, rfl⟩
  | ends here =>
    rw [here] at looks
    obtain ⟨rfl, below, passed, stored⟩ := looks
    exact .inr ⟨rfl, fun place ifs under there => passed place ifs (Nat.zero_le _) under there⟩

omit [DecidableEq Thread] [Fintype Thread] in
theorem started_stable : Stable numbers owner (started : Interfaces Thread) where
  records := fun _ inside => by cases inside
  adverts := fun _ _ under => by cases under

/-- The list as the filter of whole frames has it, the newest record first. -/
def filterIfs (state : Interfaces Thread) : List IfInfo :=
  state.ntcIfs.reverse.map IfRecord.toIfInfo

omit [Fintype Thread] in
theorem judged_list {thread : Thread} {verdict : Bool}
    (does : Does state input (.judged thread verdict) after) : after.filterIfs = state.filterIfs := by
  cases does with
  | judges here entry => rfl
  | ends here => rfl

omit [DecidableEq Thread] [Fintype Thread] in
/-- Numbers of a record are looked up as that record. -/
theorem Stable.ofInterest (stable : state.Stable numbers owner) (sound : state.Sound past)
    {filter : Filter} (same : filter.ntcIfs = state.filterIfs) {ifs : IfRecord}
    (member : ifs ∈ state.ntcIfs) :
    filter.ofInterest ifs.cell ifs.endpoint ifs.iface = ifs.ofinterest := by
  unfold Filter.ofInterest
  rw [same]
  split
  · next info found =>
    have agrees := List.find?_some found
    obtain ⟨other, inside, rfl⟩ := List.mem_map.mp (List.mem_of_find?_eq_some found)
    have inside : other ∈ state.ntcIfs := List.mem_reverse.mp inside
    have called : other.numbers = ifs.numbers := by
      simp only [Bool.and_eq_true, beq_iff_eq] at agrees
      unfold IfRecord.numbers
      rw [agrees.1.1, agrees.1.2, agrees.2]
    have named : other.key = ifs.key := by
      rw [← (stable.records other inside).owner, called, (stable.records ifs member).owner]
    rw [List.inj_on_of_nodup_map sound.keys inside member named]
  · next missing =>
    have differs := List.find?_eq_none.mp missing ifs.toIfInfo
      (List.mem_map_of_mem (List.mem_reverse.mpr member))
    simp at differs

end Interfaces

/-- `en0` is advertised, and said to be of interest. -/
def enDeclared : List (IfLabel Bool) :=
  [(.comes false (.advert ⟨[69, 110, 48], ⟨1, 2, 3⟩⟩), .silent), (.goOn false, .silent),
    (.goOn false, .advertised false ⟨[69, 110, 48], ⟨1, 2, 3⟩⟩),
    (.asks (.addIf [101, 110, 48]), .silent), (.serves, .answered (.addIf [101, 110, 48]) 1 [])]

/-- It is said to be of none, while a packet is compared. -/
def enDropped : List (IfLabel Bool) :=
  [(.asks (.delIf [101, 110, 48]), .silent), (.goOn true, .silent),
    (.serves, .answered (.delIf [101, 110, 48]) 1 []), (.goOn true, .silent), (.goOn true, .silent),
    (.goOn true, .silent)]

/-- The packet comes between the two, and is judged. -/
def enJudged : List (IfLabel Bool) :=
  enDeclared ++ (.comes true (.packet ⟨1, 2, 3⟩), .silent) ::
    (enDropped ++ [(.goOn true, .judged true false)])

end QNXStuff.NfmNtc
