import QNXStuff.QXBilling.Rules

/-! Which clients pass the filter: those among the rules of the last finished round. -/

namespace QNXStuff.QXBilling

open LinkedList SearchTree
open QXBase (memcmp memcmp_eq_zero)

theorem mac_memcmp (mac mac' : Mac) : memcmp mac.toList mac'.toList 6 = 0 ↔ mac = mac' := by
  rw [memcmp_eq_zero (by simp) (by simp)]
  exact Vector.toList_inj

/-- The nodes of the first `count` rules in a buffer. -/
def nodesOf (buffer : Buffer) (count : Nat) : List NicRef :=
  (List.range count).map fun index => (buffer, index)

theorem mem_nodesOf {buffer : Buffer} {count : Nat} {ref : NicRef} :
    ref ∈ nodesOf buffer count ↔ ref.1 = buffer ∧ ref.2 < count := by
  obtain ⟨buffer', index⟩ := ref
  simp only [nodesOf, List.mem_map, List.mem_range, Prod.mk.injEq]
  constructor
  · rintro ⟨_, inside, rfl, rfl⟩
    exact ⟨rfl, inside⟩
  · rintro ⟨rfl, inside⟩
    exact ⟨index, inside, rfl, rfl⟩

theorem nodesOf_succ (buffer : Buffer) (count : Nat) :
    nodesOf buffer (count + 1) = nodesOf buffer count ++ [(buffer, count)] := by
  simp [nodesOf, List.range_succ]

namespace Rules

def macOf (rules : Rules) (ref : NicRef) : Mac := (rules.node ref).rule.mac

/-- The rules at the start of a buffer, linked into a search tree with the first one as root. -/
structure Holds (rules : Rules) (buffer : Buffer) (root : Option NicRef)
    (entries : List RuleNics) : Prop where
  root_eq : root = if entries.length = 0 then none else some (buffer, 0)
  stored : ∀ index (inside : index < entries.length),
    (rules.node (buffer, index)).rule = entries[index]
  tree : Searchable rules.next rules.macOf root (nodesOf buffer entries.length)

variable {rules : Rules} {buffer : Buffer} {root : Option NicRef} {entries : List RuleNics}

theorem next_congr {other : Rules} {ref : NicRef} (same : other.node ref = rules.node ref)
    (mac : Mac) : other.next mac ref = rules.next mac ref := by
  simp [next, Children.next, below, children, same]

theorem holds_nil (rules : Rules) (buffer : Buffer) : rules.Holds buffer none [] where
  root_eq := rfl
  stored _ inside := absurd inside (Nat.not_lt_zero _)
  tree := searchable_nil

/-- A tree is known by the nodes of its own buffer. -/
theorem Holds.congr (holds : rules.Holds buffer root entries) {other : Rules}
    (same : ∀ index, index < entries.length → other.node (buffer, index) = rules.node (buffer, index)) :
    other.Holds buffer root entries where
  root_eq := holds.root_eq
  stored index inside := by
    rw [same index inside]
    exact holds.stored index inside
  tree := by
    have same : ∀ ref ∈ nodesOf buffer entries.length, other.node ref = rules.node ref := by
      intro ref member
      obtain ⟨rfl, inside⟩ := mem_nodesOf.mp member
      exact same ref.2 inside
    refine holds.tree.congr (fun mac ref member => next_congr (same ref member) mac) ?_
    intro ref member
    simp [macOf, same ref member]

theorem Holds.hits_iff (holds : rules.Holds buffer root entries) (pkt : QxLog) :
    (∃ ref ∈ nodesOf buffer entries.length, rules.hits pkt ref = true) ↔
      ∃ rule ∈ entries, rule.mac = pkt.mac ∧ rule.ipAddr = pkt.ipClnt := by
  simp only [hits, Bool.and_eq_true, decide_eq_true_eq, beq_iff_eq, mac_memcmp]
  constructor
  · rintro ⟨ref, member, hit⟩
    obtain ⟨rfl, inside⟩ := mem_nodesOf.mp member
    rw [holds.stored ref.2 inside] at hit
    exact ⟨entries[ref.2], List.getElem_mem inside, hit⟩
  · rintro ⟨rule, member, hit⟩
    obtain ⟨index, inside, rfl⟩ := List.mem_iff_getElem.mp member
    refine ⟨(buffer, index), mem_nodesOf.mpr ⟨rfl, inside⟩, ?_⟩
    rwa [holds.stored index inside]

/-- `rule_match_client` ends, and it answers for exactly the rules in the tree. -/
theorem Holds.matchClient (holds : rules.Holds buffer rules.ncRulList entries)
    (short : entries.length ≤ rules.ncLimit) (pkt : QxLog) :
    rules.ruleMatchClient pkt =
      some (decide (∃ rule ∈ entries, rule.mac = pkt.mac ∧ rule.ipAddr = pkt.ipClnt)) := by
  have bears : ∀ ref ∈ nodesOf buffer entries.length, rules.hits pkt ref = true →
      rules.macOf ref = pkt.mac := by
    intro ref _ hit
    simp only [hits, Bool.and_eq_true, decide_eq_true_eq, mac_memcmp] at hit
    exact hit.1
  obtain ⟨result, search, found⟩ := holds.tree.find bears
    (Nat.le_trans (by simp [nodesOf]) short)
  rw [holds.hits_iff] at found
  rw [ruleMatchClient, search, Option.map_some, Option.some.injEq]
  exact Bool.eq_iff_iff.mpr (found.trans (decide_eq_true_iff).symm)

theorem link_children (mac : Mac) (nic ref : NicRef) :
    (rules.link mac nic ref).children = rules.children.attach rules.below mac nic ref := by
  unfold Children.attach
  split
  · rename_i below
    refine congrArg₂ Children.mk (funext fun other => ?_) (funext fun other => ?_) <;>
      by_cases same : other = nic <;> simp [link, children, setNode, below, same]
  · rename_i above
    refine congrArg₂ Children.mk (funext fun other => ?_) (funext fun other => ?_) <;>
      by_cases same : other = nic <;> simp [link, children, setNode, above, same]

theorem link_rule (mac : Mac) (nic ref other : NicRef) :
    ((rules.link mac nic ref).node other).rule = (rules.node other).rule := by
  by_cases same : other = nic
  · subst same
    cases below : rules.below mac other <;> simp [link, setNode, below]
  · simp [link, setNode, Function.update_of_ne same]

theorem link_next (mac : Mac) (nic ref : NicRef) :
    (rules.link mac nic ref).next =
      (rules.children.attach rules.below mac nic ref).next rules.below := by
  have sides : (rules.link mac nic ref).below = rules.below := by
    funext mac' other
    simp only [below, link_rule]
  rw [next, link_children, sides]

theorem link_other {mac : Mac} {nic ref other : NicRef} (apart : other ≠ nic) :
    (rules.link mac nic ref).node other = rules.node other :=
  Function.update_of_ne apart ..

/-- What an added rule does to the tree it joins, and that it leaves the other buffer alone. -/
theorem Holds.addNic (holds : rules.Holds rules.ncRulShadow root entries)
    (count : rules.ncCount = entries.length) (room : rules.ncCount ≠ rules.ncLimit)
    (rule : RuleNics) :
    ∃ node, rules.ruleAddNic rule = some (1, { rules with
        node := node, ncCount := rules.ncCount + 1 }) ∧
      (∀ ref : NicRef, ref.1 ≠ rules.ncRulShadow → node ref = rules.node ref) ∧
      ({ rules with node := node } : Rules).Holds rules.ncRulShadow (some (rules.ncRulShadow, 0))
        (entries ++ [rule]) := by
  have outside : (rules.ncRulShadow, rules.ncCount) ∉ nodesOf rules.ncRulShadow entries.length := by
    rw [mem_nodesOf]
    omega
  have copied : ∀ index, index < entries.length →
      (rules.setNode (rules.ncRulShadow, rules.ncCount) ⟨rule, none, none⟩).node
        (rules.ncRulShadow, index) = rules.node (rules.ncRulShadow, index) := by
    intro index inside
    refine Function.update_of_ne (fun same => ?_) ..
    have here := (Prod.mk.inj same).2
    omega
  have kept := holds.congr copied
  have stored : ∀ rules' : Rules,
      (∀ ref, (rules'.node ref).rule =
        ((rules.setNode (rules.ncRulShadow, rules.ncCount) ⟨rule, none, none⟩).node ref).rule) →
      ∀ index (inside : index < (entries ++ [rule]).length),
        (rules'.node (rules.ncRulShadow, index)).rule = (entries ++ [rule])[index] := by
    intro rules' same index inside
    rw [same]
    by_cases earlier : index < entries.length
    · rw [List.getElem_append_left earlier]
      exact kept.stored index earlier
    · have here : index = rules.ncCount := by
        simp only [List.length_append, List.length_singleton] at inside
        omega
      subst here
      simp [setNode, count]
  unfold ruleAddNic
  rw [if_neg room]
  by_cases first : rules.ncCount = 0
  · obtain rfl : entries = [] := List.length_eq_zero_iff.mp (by omega)
    rw [if_pos first]
    refine ⟨_, rfl, fun ref apart => Function.update_of_ne (fun same => apart (by rw [same])) ..,
      ⟨by simp, stored _ fun _ => rfl, ⟨fun mac => ⟨[(rules.ncRulShadow, 0)], ?_, ?_, ?_, ?_⟩⟩⟩⟩
    · refine ⟨rfl, ?_⟩
      simp [next, Children.next, children, setNode, first]
    · simp
    · simp [nodesOf]
    · simp [nodesOf]
  · rw [if_neg first]
    have filled : root ≠ none := by
      rw [holds.root_eq, if_neg (by omega)]
      exact Option.some_ne_none _
    have atRoot : root = some (rules.ncRulShadow, 0) := by
      rw [holds.root_eq, if_neg (by omega)]
    obtain ⟨nic, member, search, -, front, walked⟩ :=
      kept.tree.place rule.mac filled (show _ ≤ rules.ncCount by simp [nodesOf, count])
    rw [atRoot] at search
    simp only [search]
    have apart : nic.1 = rules.ncRulShadow := (mem_nodesOf.mp member).1
    refine ⟨_, rfl, fun ref elsewhere => ?_, by simp, stored _ (link_rule rule.mac nic _), ?_⟩
    · show (link _ rule.mac nic _).node ref = rules.node ref
      rw [link_other (fun same : ref = nic => elsewhere (same ▸ apart))]
      exact Function.update_of_ne (fun same => elsewhere (by rw [same])) ..
    · have own : (rules.setNode (rules.ncRulShadow, rules.ncCount) ⟨rule, none, none⟩).macOf
          (rules.ncRulShadow, rules.ncCount) = rule.mac := by simp [macOf, setNode]
      have attached := kept.tree.attach outside
        (fun mac => by simp [Children.next, children, setNode]) (by rw [own]; exact walked)
      rw [own] at attached
      rw [List.length_append, List.length_singleton, nodesOf_succ, ← atRoot]
      rw [← count] at attached ⊢
      refine attached.congr (fun mac ref _ => ?_) fun ref _ => ?_
      · exact congrFun (congrFun (link_next rule.mac nic _) mac) ref
      · exact congrArg RuleNics.mac (link_rule rule.mac nic _ ref)

end Rules

/-! ### Rounds -/

inductive RuleCall where
  | addExempt (rule : RuleExempt)
  | addNic (rule : RuleNics)
  | swapLists

/-- `none` is a call that does not return. -/
def Rules.call (rules : Rules) : RuleCall → Option Rules
  | .addExempt rule => some (rules.ruleAddExempt rule).2
  | .addNic rule => (rules.ruleAddNic rule).map Prod.snd
  | .swapLists => some rules.ruleSwapLists

/-- The client rules added between the last two swaps, and those added since. -/
structure Rounds where
  last : List RuleNics
  current : List RuleNics

def Rounds.call (rounds : Rounds) : RuleCall → Rounds
  | .addExempt _ => rounds
  | .addNic rule => { rounds with current := rounds.current ++ [rule] }
  | .swapLists => { last := rounds.current, current := [] }

def roundsOf (calls : List RuleCall) : Rounds := calls.foldl Rounds.call ⟨[], []⟩

/-- The tree in use holds the last round and the other buffer the current one, both up to
the limit. -/
structure Rules.Follows (rules : Rules) (limit : Nat) (rounds : Rounds) : Prop where
  apart : rules.ncRulActive ≠ rules.ncRulShadow
  full : rules.ncLimit = limit
  count : rules.ncCount = (rounds.current.take limit).length
  listed : rules.Holds rules.ncRulActive rules.ncRulList (rounds.last.take limit)
  building : rules.Holds rules.ncRulShadow
    (if rules.ncCount = 0 then none else some (rules.ncRulShadow, 0)) (rounds.current.take limit)

namespace Rules.Follows

variable {rules : Rules} {limit : Nat} {rounds : Rounds}

theorem init (exRule : Buffer → Nat → RuleExempt) (node : NicRef → NicNode) (exCnt ncCnt : Nat) :
    (ruleInitLists exRule node exCnt ncCnt).Follows ncCnt ⟨[], []⟩ where
  apart := nofun
  full := rfl
  count := by simp [ruleInitLists]
  listed := by
    rw [List.take_nil]
    exact holds_nil _ _
  building := by
    rw [List.take_nil]
    exact holds_nil _ _

theorem addExempt (follows : rules.Follows limit rounds) (rule : RuleExempt) :
    (rules.ruleAddExempt rule).2.Follows limit rounds := by
  unfold ruleAddExempt
  split
  · exact follows
  · exact ⟨follows.apart, follows.full, follows.count,
      follows.listed.congr fun _ _ => rfl, follows.building.congr fun _ _ => rfl⟩

/-- A rule beyond the limit changes neither the buffer nor the round as far as it counts. -/
theorem addNic (follows : rules.Follows limit rounds) (rule : RuleNics) :
    ∃ added, rules.call (.addNic rule) = some added ∧
      added.Follows limit (rounds.call (.addNic rule)) := by
  have count := follows.count
  rw [List.length_take] at count
  by_cases full : rules.ncCount = rules.ncLimit
  · refine ⟨rules, by simp [call, ruleAddNic, full], ?_⟩
    have same : (rounds.current ++ [rule]).take limit = rounds.current.take limit :=
      List.take_append_of_le_length (by have := follows.full; omega)
    refine ⟨follows.apart, follows.full, ?_, follows.listed, ?_⟩
    · simpa only [Rounds.call, same] using follows.count
    · simpa only [Rounds.call, same] using follows.building
  · have grown : (rounds.current ++ [rule]).take limit = rounds.current.take limit ++ [rule] := by
      have short : rounds.current.length + 1 ≤ limit := by
        have := follows.full
        omega
      rw [List.take_of_length_le (by simpa using short), List.take_of_length_le (by omega)]
    obtain ⟨node, added, kept, holds⟩ := follows.building.addNic follows.count full rule
    refine ⟨{ rules with node := node, ncCount := rules.ncCount + 1 }, by simp [call, added],
      follows.apart, follows.full, ?_, ?_, ?_⟩
    · show rules.ncCount + 1 = ((rounds.current ++ [rule]).take limit).length
      rw [grown, List.length_append, ← follows.count]
      rfl
    · exact follows.listed.congr fun index _ => kept (rules.ncRulActive, index) follows.apart
    · show Holds _ _ _ ((rounds.current ++ [rule]).take limit)
      rw [grown]
      rw [if_neg (Nat.succ_ne_zero _)]
      exact holds.congr fun _ _ => rfl

theorem swapExempts (follows : rules.Follows limit rounds) :
    rules.swapExempts.Follows limit rounds where
  apart := follows.apart
  full := follows.full
  count := follows.count
  listed := follows.listed.congr fun _ _ => rfl
  building := follows.building.congr fun _ _ => rfl

theorem swapNics (follows : rules.Follows limit rounds) :
    rules.swapNics.Follows limit (rounds.call .swapLists) where
  apart := follows.apart.symm
  full := follows.full
  count := by simp [Rounds.call, Rules.swapNics]
  listed := follows.building.congr fun _ _ => rfl
  building := by
    show Holds _ _ none (List.take limit [])
    rw [List.take_nil]
    exact holds_nil _ _

theorem swapLists (follows : rules.Follows limit rounds) :
    rules.ruleSwapLists.Follows limit (rounds.call .swapLists) :=
  follows.swapExempts.swapNics

/-- Every call returns and follows the rounds. -/
theorem call (follows : rules.Follows limit rounds) (call : RuleCall) :
    ∃ next, rules.call call = some next ∧ next.Follows limit (rounds.call call) := by
  cases call with
  | addExempt rule => exact ⟨_, rfl, follows.addExempt rule⟩
  | addNic rule => exact follows.addNic rule
  | swapLists => exact ⟨_, rfl, follows.swapLists⟩

theorem calls (follows : rules.Follows limit rounds) (calls : List RuleCall) :
    ∃ final, calls.foldlM Rules.call rules = some final ∧
      final.Follows limit (calls.foldl Rounds.call rounds) := by
  induction calls generalizing rules rounds with
  | nil => exact ⟨rules, rfl, follows⟩
  | cons call rest ih =>
    obtain ⟨next, called, follows⟩ := follows.call call
    obtain ⟨final, done, follows⟩ := ih follows
    refine ⟨final, ?_, follows⟩
    rw [List.foldlM_cons, called]
    exact done

theorem matchClient (follows : rules.Follows limit rounds) (pkt : QxLog) :
    rules.ruleMatchClient pkt = some (decide (∃ rule ∈ rounds.last.take limit,
      rule.mac = pkt.mac ∧ rule.ipAddr = pkt.ipClnt)) := by
  refine follows.listed.matchClient ?_ pkt
  rw [follows.full, List.length_take]
  exact Nat.min_le_left ..

end Rules.Follows

/-- All calls return, and afterwards a packet passes exactly if its client is among the first
`nc_limit` rules of the round before the last swap. -/
theorem match_client_iff_added (exRule : Buffer → Nat → RuleExempt) (node : NicRef → NicNode)
    (exCnt ncCnt : Nat) (calls : List RuleCall) :
    ∃ rules, calls.foldlM Rules.call (ruleInitLists exRule node exCnt ncCnt) = some rules ∧
      ∀ pkt : QxLog, rules.ruleMatchClient pkt =
        some (decide (∃ rule ∈ (roundsOf calls).last.take ncCnt,
          rule.mac = pkt.mac ∧ rule.ipAddr = pkt.ipClnt)) := by
  obtain ⟨rules, done, follows⟩ := (Rules.Follows.init exRule node exCnt ncCnt).calls calls
  exact ⟨rules, done, follows.matchClient⟩

end QNXStuff.QXBilling
