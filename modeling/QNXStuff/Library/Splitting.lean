import Mathlib.Data.List.Basic

/-! Lists that are split at the first item of a kind, or into groups that are taken off one by one. -/

namespace QNXStuff.Splitting

universe u v

variable {Item : Type u} {items : List Item} {holds : Item → Prop}

/-- If something holds of an item of a list, there is a first one. -/
theorem first_split (some : ∃ item ∈ items, holds item) :
    ∃ before first after, items = before ++ first :: after ∧
      (∀ other ∈ before, ¬ holds other) ∧ holds first := by
  induction items with
  | nil =>
    obtain ⟨item, member, _⟩ := some
    cases member
  | cons head items ih =>
    by_cases this : holds head
    · exact ⟨[], head, items, rfl, nofun, this⟩
    · have later : ∃ item ∈ items, holds item := by
        obtain ⟨item, member, held⟩ := some
        rcases List.mem_cons.mp member with rfl | later
        · exact absurd held this
        · exact ⟨item, later, held⟩
      obtain ⟨before, first, after, split, none, held⟩ := ih later
      refine ⟨head :: before, first, after, by rw [split]; rfl, fun other member => ?_, held⟩
      rcases List.mem_cons.mp member with rfl | inside
      · exact this
      · exact none other inside

/-- There is only one first item of which something holds. -/
theorem first_split_unique {before before' after after' : List Item} {first first' : Item}
    (same : before ++ first :: after = before' ++ first' :: after')
    (none : ∀ other ∈ before, ¬ holds other) (this : holds first)
    (none' : ∀ other ∈ before', ¬ holds other) (this' : holds first') : first = first' := by
  induction before generalizing before' with
  | nil =>
    cases before' with
    | nil =>
      cases same
      rfl
    | cons head before' =>
      cases same
      exact absurd this (none' first List.mem_cons_self)
  | cons head before ih =>
    cases before' with
    | nil =>
      cases same
      exact absurd this' (none first' List.mem_cons_self)
    | cons head' before' =>
      obtain ⟨_, rest⟩ := List.cons_eq_cons.mp same
      exact ih rest (List.forall_mem_cons.mp none).2 (List.forall_mem_cons.mp none').2

/-- A scan that counts items until one stops it ends there, however far an item ends it. -/
theorem scan_eq_ok {Error : Type v} {scan : List Item → Nat → Except Error Nat}
    {ending : Item → Nat} (empty : ∀ here stop, scan [] here ≠ .ok stop)
    (ends : ∀ item rest here, holds item → scan (item :: rest) here = .ok (here + ending item))
    (goes : ∀ item rest here, ¬ holds item → scan (item :: rest) here = scan rest (here + 1))
    {here stop : Nat} :
    scan items here = .ok stop ↔ ∃ before last after, items = before ++ last :: after ∧
      (∀ other ∈ before, ¬ holds other) ∧ holds last ∧
      stop = here + before.length + ending last := by
  induction items generalizing here with
  | nil =>
    constructor
    · intro done
      exact absurd done (empty here stop)
    · rintro ⟨before, last, after, split, -⟩
      cases before <;> cases split
  | cons head items ih =>
    by_cases this : holds head
    · rw [ends head items here this]
      constructor
      · intro done
        exact ⟨[], head, items, rfl, nofun, this, (Except.ok.inj done).symm⟩
      · rintro ⟨before, last, after, split, none, -, rfl⟩
        cases before with
        | nil =>
          cases split
          rfl
        | cons first before =>
          cases split
          exact absurd this (none head List.mem_cons_self)
    · rw [goes head items here this, ih]
      constructor
      · rintro ⟨before, last, after, rfl, none, held, rfl⟩
        refine ⟨head :: before, last, after, rfl, ?_, held, ?_⟩
        · exact List.forall_mem_cons.mpr ⟨this, none⟩
        · rw [List.length_cons, Nat.add_assoc here 1, Nat.add_comm 1]
      · rintro ⟨before, last, after, split, none, held, rfl⟩
        cases before with
        | nil =>
          cases split
          exact absurd held this
        | cons first before =>
          cases split
          refine ⟨before, last, after, rfl, (List.forall_mem_cons.mp none).2, held, ?_⟩
          rw [List.length_cons, Nat.add_assoc here 1, Nat.add_comm 1]

/-- Groups that have been taken off a list, one for a key, and what is left of the list. -/
structure Grouped {Key : Type v} (key : Item → Key) (items left : List Item)
    (groups : List (List Item)) : Prop where
  once : (groups.flatten ++ left).Perm items
  same : ∀ group ∈ groups, ∀ item ∈ group, ∀ other ∈ group, key item = key other
  apart : groups.Pairwise fun group group' => ∀ item ∈ group, ∀ other ∈ group',
    key item ≠ key other
  fresh : ∀ group ∈ groups, ∀ item ∈ group, ∀ other ∈ left, key item ≠ key other

namespace Grouped

variable {Key : Type v} {key : Item → Key} {left rest group : List Item} {groups : List (List Item)}

theorem start (key : Item → Key) (items : List Item) : Grouped key items items [] :=
  ⟨List.Perm.refl _, nofun, .nil, nofun⟩

/-- All items of a key are taken off together. -/
theorem peel (grouped : Grouped key items left groups) {shared : Key}
    (parts : (group ++ rest).Perm left) (all : ∀ item ∈ group, key item = shared)
    (none : ∀ item ∈ rest, key item ≠ shared) : Grouped key items rest (groups ++ [group]) := by
  have from_left : ∀ item ∈ group, item ∈ left := fun item member =>
    parts.subset (List.mem_append_left rest member)
  refine ⟨?_, ?_, ?_, ?_⟩
  · rw [List.flatten_append, List.flatten_singleton, List.append_assoc]
    exact (parts.append_left groups.flatten).trans grouped.once
  · intro gathered member item inside other inside'
    rcases List.mem_append.mp member with earlier | last
    · exact grouped.same gathered earlier item inside other inside'
    · rw [List.mem_singleton.mp last] at inside inside'
      rw [all item inside, all other inside']
  · refine List.pairwise_append.mpr ⟨grouped.apart, List.pairwise_singleton _ _, ?_⟩
    intro earlier member last here item inside other inside'
    rw [List.mem_singleton.mp here] at inside'
    exact grouped.fresh earlier member item inside other (from_left other inside')
  · intro gathered member item inside other inside'
    rcases List.mem_append.mp member with earlier | last
    · exact grouped.fresh gathered earlier item inside other
        (parts.subset (List.mem_append_right group inside'))
    · rw [List.mem_singleton.mp last] at inside
      rw [all item inside]
      exact (none other inside').symm

end Grouped

end QNXStuff.Splitting
