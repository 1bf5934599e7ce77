import Mathlib.Algebra.BigOperators.Group.List.Basic
import Mathlib.Data.List.Nodup

/-! Items gathered by key: each joins the group that has its key, or begins a new one. -/

namespace QNXStuff.Grouping

universe u v w

/-- What items are gathered by, and what becomes of a group when an item joins it. -/
structure Gathering (Item : Type u) (Key : Type v) where
  key : Item → Key
  join : Item → Item → Item
  join_key : ∀ group item, key (join group item) = key group

namespace Gathering

variable {Item : Type u} {Key : Type v} {Amount : Type w} [DecidableEq Key]
  (gathering : Gathering Item Key)

/-- One item more: the groups are searched from the front. -/
def add (groups : List Item) (item : Item) : List Item :=
  match groups.findIdx? fun group => decide (gathering.key item = gathering.key group) with
  | some index => groups.modify index fun group => gathering.join group item
  | none => groups ++ [item]

def gather (items : List Item) : List Item := items.foldl gathering.add []

/-- The items with one key. -/
def having (key : Key) (items : List Item) : List Item :=
  items.filter fun item => decide (gathering.key item = key)

variable {gathering} {groups items : List Item}

/-- The two ways in which an item is added. -/
theorem add_cases (gathering : Gathering Item Key) (groups : List Item) (item : Item) :
    (∃ front group back, groups = front ++ group :: back ∧
      gathering.key group = gathering.key item ∧
      gathering.add groups item = front ++ gathering.join group item :: back) ∨
    (gathering.key item ∉ groups.map gathering.key ∧ gathering.add groups item = groups ++ [item]) := by
  unfold add
  split
  · next index found =>
    obtain ⟨inside, same, -⟩ := List.findIdx?_eq_some_iff_getElem.mp found
    obtain ⟨front, group, back, split, rfl, modified⟩ :=
      List.exists_of_modify (fun group => gathering.join group item) inside
    refine .inl ⟨front, group, back, split, ?_, modified⟩
    subst split
    simpa using Eq.symm (of_decide_eq_true same)
  · next missing =>
    refine .inr ⟨fun member => ?_, rfl⟩
    obtain ⟨group, present, same⟩ := List.mem_map.mp member
    have differs := List.findIdx?_eq_none_iff.mp missing group present
    simp [same] at differs

/-! ### The keys of the groups -/

theorem add_keys (groups : List Item) (item : Item) :
    (gathering.add groups item).map gathering.key =
      if gathering.key item ∈ groups.map gathering.key then groups.map gathering.key
      else groups.map gathering.key ++ [gathering.key item] := by
  rcases gathering.add_cases groups item with ⟨front, group, back, rfl, same, added⟩ | ⟨fresh, added⟩
  · rw [added, if_pos (by simp [← same])]
    simp [gathering.join_key]
  · rw [added, if_neg fresh]
    simp

theorem foldl_nodup (nodup : (groups.map gathering.key).Nodup) (items : List Item) :
    ((items.foldl gathering.add groups).map gathering.key).Nodup := by
  induction items generalizing groups with
  | nil => exact nodup
  | cons item rest ih =>
    apply ih
    rw [add_keys]
    split
    · exact nodup
    · next fresh =>
      exact List.nodup_append.mpr ⟨nodup, List.nodup_singleton _, fun key member other here same =>
        fresh (by rwa [← List.mem_singleton.mp here, ← same])⟩

theorem foldl_mem (groups items : List Item) (key : Key) :
    key ∈ (items.foldl gathering.add groups).map gathering.key ↔
      key ∈ groups.map gathering.key ∨ key ∈ items.map gathering.key := by
  induction items generalizing groups with
  | nil => simp
  | cons item rest ih =>
    rw [List.foldl_cons, ih, add_keys, List.map_cons, List.mem_cons]
    split
    · next known =>
      constructor
      · rintro (old | later)
        · exact .inl old
        · exact .inr (.inr later)
      · rintro (old | rfl | later)
        · exact .inl old
        · exact .inl known
        · exact .inr later
    · rw [List.mem_append, List.mem_singleton, or_assoc]

/-- Different groups have different keys. -/
theorem gather_nodup (gathering : Gathering Item Key) (items : List Item) :
    ((gathering.gather items).map gathering.key).Nodup := by
  have empty : (([] : List Item).map gathering.key).Nodup := List.nodup_nil
  exact foldl_nodup empty items

/-- There is a group for a key when there is an item with it. -/
theorem mem_gather_keys (gathering : Gathering Item Key) {key : Key} :
    key ∈ (gathering.gather items).map gathering.key ↔ key ∈ items.map gathering.key := by
  unfold gather
  rw [foldl_mem]
  simp

theorem add_length (gathering : Gathering Item Key) (groups : List Item) (item : Item) :
    (gathering.add groups item).length ≤ groups.length + 1 := by
  rcases gathering.add_cases groups item with ⟨front, group, back, rfl, -, added⟩ | ⟨-, added⟩
  · rw [added]
    simp
  · rw [added]
    simp

theorem foldl_length (gathering : Gathering Item Key) (groups items : List Item) :
    (items.foldl gathering.add groups).length ≤ groups.length + items.length := by
  induction items generalizing groups with
  | nil => simp
  | cons item rest ih =>
    have one := gathering.add_length groups item
    have more := ih (gathering.add groups item)
    rw [List.foldl_cons, List.length_cons]
    omega

theorem gather_length (gathering : Gathering Item Key) (items : List Item) :
    (gathering.gather items).length ≤ items.length := by
  have bound := gathering.foldl_length [] items
  rwa [List.length_nil, Nat.zero_add] at bound

/-! ### What the groups add up to -/

section Amounts

variable [AddCommMonoid Amount] {weight : Item → Amount}

/-- What the items with one key weigh together. -/
def total (gathering : Gathering Item Key) (weight : Item → Amount) (items : List Item)
    (key : Key) : Amount :=
  ((gathering.having key items).map weight).sum

theorem total_cons (item : Item) (items : List Item) (key : Key) :
    gathering.total weight (item :: items) key =
      (if gathering.key item = key then weight item else 0) + gathering.total weight items key := by
  unfold total having
  by_cases same : gathering.key item = key
  · simp [same]
  · simp [same]

theorem total_append (items others : List Item) (key : Key) :
    gathering.total weight (items ++ others) key =
      gathering.total weight items key + gathering.total weight others key := by
  unfold total having
  rw [List.filter_append, List.map_append, List.sum_append]

theorem total_perm {others : List Item} (order : items.Perm others) (key : Key) :
    gathering.total weight items key = gathering.total weight others key :=
  ((order.filter _).map weight).sum_eq

variable (additive : ∀ group item, weight (gathering.join group item) = weight group + weight item)
include additive

theorem add_total (groups : List Item) (item : Item) (key : Key) :
    gathering.total weight (gathering.add groups item) key =
      gathering.total weight groups key + (if gathering.key item = key then weight item else 0) := by
  rcases gathering.add_cases groups item with ⟨front, group, back, rfl, same, added⟩ | ⟨-, added⟩
  · rw [added, total_append, total_append, total_cons, total_cons, gathering.join_key, same, additive]
    by_cases here : gathering.key item = key
    · simp only [if_pos here]
      rw [add_right_comm (weight group), ← add_assoc]
    · simp only [if_neg here, add_zero]
  · rw [added, total_append, total_cons]
    simp [total, having]

theorem foldl_total (groups items : List Item) (key : Key) :
    gathering.total weight (items.foldl gathering.add groups) key =
      gathering.total weight groups key + gathering.total weight items key := by
  induction items generalizing groups with
  | nil => simp [total, having]
  | cons item rest ih => rw [List.foldl_cons, ih, add_total additive, total_cons, add_assoc]

/-- A group weighs what the items with its key weigh together. -/
theorem gather_weight {group : Item} (member : group ∈ gathering.gather items) :
    weight group = gathering.total weight items (gathering.key group) := by
  have alone : gathering.total weight (gathering.gather items) (gathering.key group) =
      weight group := by
    obtain ⟨front, back, split⟩ := List.append_of_mem member
    have nodup := gathering.gather_nodup items
    rw [split, List.map_append, List.map_cons] at nodup
    have apart := List.perm_middle.nodup_iff.mp nodup
    rw [List.nodup_cons, ← List.map_append] at apart
    have none : gathering.total weight (front ++ back) (gathering.key group) = 0 := by
      have empty : gathering.having (gathering.key group) (front ++ back) = [] := by
        rw [having, List.filter_eq_nil_iff]
        intro other present same
        exact apart.1 (List.mem_map.mpr ⟨other, present, of_decide_eq_true same⟩)
      simp [total, empty]
    rw [split, total_perm List.perm_middle, total_cons, if_pos rfl, none, add_zero]
  have whole := foldl_total additive [] items (gathering.key group)
  rw [← alone]
  unfold gather
  rw [whole]
  simp [total, having]

/-- The order of the items does not matter for what the groups weigh. -/
theorem gather_perm {others : List Item} (order : items.Perm others) :
    ((gathering.gather items).map fun group => (gathering.key group, weight group)).Perm
      ((gathering.gather others).map fun group => (gathering.key group, weight group)) := by
  have weighed : ∀ list : List Item, list.Perm others →
      ((gathering.gather list).map fun group => (gathering.key group, weight group)) =
        ((gathering.gather list).map gathering.key).map fun key =>
          (key, gathering.total weight others key) := by
    intro list order
    rw [List.map_map]
    refine List.map_congr_left fun group member => ?_
    rw [gather_weight additive member, total_perm order]
    rfl
  rw [weighed items order, weighed others (List.Perm.refl _)]
  refine List.Perm.map _ ?_
  rw [List.perm_ext_iff_of_nodup (gathering.gather_nodup items) (gathering.gather_nodup others)]
  intro key
  rw [mem_gather_keys, mem_gather_keys]
  exact (order.map gathering.key).mem_iff

end Amounts

end Gathering

end QNXStuff.Grouping
