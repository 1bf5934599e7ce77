import Mathlib.Data.List.Perm.Basic
import Mathlib.Data.List.Nodup

/-! References that lie with one owner at a time: in a list of the program, or in the
local variables of one thread. -/

namespace QNXStuff.Ownership

universe u v

variable {Owner : Type u} {Ref : Type v}

/-- Every reference lies with at most one owner, and there once. -/
structure Separate (regions : Owner → List Ref) : Prop where
  nodup : ∀ owner, (regions owner).Nodup
  single : ∀ {owner other ref}, ref ∈ regions owner → ref ∈ regions other → owner = other

/-- One reference passes from its owner to another. -/
structure Passes (giver taker : Owner) (ref : Ref) (before after : Owner → List Ref) : Prop where
  apart : giver ≠ taker
  given : (before giver).Perm (ref :: after giver)
  taken : (after taker).Perm (ref :: before taker)
  kept : ∀ owner, owner ≠ giver → owner ≠ taker → after owner = before owner

/-- An owner takes a new reference. -/
structure Joins (taker : Owner) (ref : Ref) (before after : Owner → List Ref) : Prop where
  taken : (after taker).Perm (ref :: before taker)
  kept : ∀ owner, owner ≠ taker → after owner = before owner

section Passes

variable {giver taker : Owner} {ref : Ref} {before after : Owner → List Ref}

theorem Passes.given_mem (passes : Passes giver taker ref before after) : ref ∈ before giver :=
  passes.given.mem_iff.mpr List.mem_cons_self

/-- What an owner holds afterwards is what it was given or what it held before. -/
theorem Passes.mem_after (passes : Passes giver taker ref before after)
    (separate : Separate before) {owner : Owner} {other : Ref} (member : other ∈ after owner) :
    (other = ref ∧ owner = taker) ∨ (other ≠ ref ∧ other ∈ before owner) := by
  have held := passes.given_mem
  by_cases here : owner = taker
  · subst here
    rcases List.mem_cons.mp (passes.taken.mem_iff.mp member) with same | earlier
    · exact .inl ⟨same, rfl⟩
    · refine .inr ⟨?_, earlier⟩
      rintro rfl
      exact passes.apart (separate.single held earlier)
  · by_cases there : owner = giver
    · subst there
      have nodup := passes.given.nodup_iff.mp (separate.nodup owner)
      refine .inr ⟨?_, passes.given.mem_iff.mpr (List.mem_cons_of_mem ref member)⟩
      rintro rfl
      exact (List.nodup_cons.mp nodup).1 member
    · rw [passes.kept owner there here] at member
      refine .inr ⟨?_, member⟩
      rintro rfl
      exact there (separate.single member held)

/-- A reference that lies elsewhere afterwards is not the one that was passed on. -/
theorem Passes.ne_of_mem (passes : Passes giver taker ref before after)
    (separate : Separate before) {owner : Owner} {other : Ref} (member : other ∈ after owner)
    (elsewhere : owner ≠ taker) : other ≠ ref := by
  rcases passes.mem_after separate member with ⟨-, same⟩ | ⟨apart, -⟩
  · exact absurd same elsewhere
  · exact apart

theorem Passes.separate (passes : Passes giver taker ref before after)
    (separate : Separate before) : Separate after where
  nodup owner := by
    by_cases here : owner = taker
    · subst here
      have fresh : ref ∉ before owner := fun member =>
        passes.apart (separate.single passes.given_mem member)
      exact passes.taken.nodup_iff.mpr (List.nodup_cons.mpr ⟨fresh, separate.nodup owner⟩)
    · by_cases there : owner = giver
      · subst there
        exact (List.nodup_cons.mp (passes.given.nodup_iff.mp (separate.nodup owner))).2
      · rw [passes.kept owner there here]
        exact separate.nodup owner
  single member member' := by
    rcases passes.mem_after separate member with ⟨same, here⟩ | ⟨apart, earlier⟩
    · rcases passes.mem_after separate member' with ⟨_, there⟩ | ⟨apart', _⟩
      · exact here.trans there.symm
      · exact absurd same apart'
    · rcases passes.mem_after separate member' with ⟨same', _⟩ | ⟨_, earlier'⟩
      · exact absurd same' apart
      · exact separate.single earlier earlier'

end Passes

section Joins

variable {taker : Owner} {ref : Ref} {before after : Owner → List Ref}

theorem Joins.mem_after (joins : Joins taker ref before after) {owner : Owner} {other : Ref}
    (member : other ∈ after owner) : (other = ref ∧ owner = taker) ∨ other ∈ before owner := by
  by_cases here : owner = taker
  · subst here
    rcases List.mem_cons.mp (joins.taken.mem_iff.mp member) with same | earlier
    · exact .inl ⟨same, rfl⟩
    · exact .inr earlier
  · rw [joins.kept owner here] at member
    exact .inr member

theorem Joins.separate (joins : Joins taker ref before after) (separate : Separate before)
    (fresh : ∀ owner, ref ∉ before owner) : Separate after where
  nodup owner := by
    by_cases here : owner = taker
    · subst here
      exact joins.taken.nodup_iff.mpr (List.nodup_cons.mpr ⟨fresh owner, separate.nodup owner⟩)
    · rw [joins.kept owner here]
      exact separate.nodup owner
  single member member' := by
    rcases joins.mem_after member with ⟨same, here⟩ | earlier
    · rcases joins.mem_after member' with ⟨_, there⟩ | earlier'
      · exact here.trans there.symm
      · exact absurd (same ▸ earlier') (fresh _)
    · rcases joins.mem_after member' with ⟨same', _⟩ | earlier'
      · exact absurd (same' ▸ earlier) (fresh _)
      · exact separate.single earlier earlier'

end Joins

end QNXStuff.Ownership
