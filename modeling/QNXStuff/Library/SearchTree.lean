import Mathlib.Data.List.Perm.Subperm
import QNXStuff.Library.LinkedList

/-! Search trees that are known by the child pointers of their nodes. For one key such a tree
is a list: the nodes which a search for the key visits. -/

namespace QNXStuff.SearchTree

open LinkedList

universe u v

variable {Ref : Type u} {Key : Type v}

structure Children (Ref : Type u) where
  left : Ref → Option Ref
  right : Ref → Option Ref

/-- Where a search for `key` goes on from a node; `side key ref` says that it goes left. -/
def Children.next (children : Children Ref) (side : Key → Ref → Bool) (key : Key) (ref : Ref) :
    Option Ref :=
  if side key ref then children.left ref else children.right ref

/-- Every key has a search path, and the path of a key visits all nodes that bear it. -/
structure Searchable (next : Key → Ref → Option Ref) (keyOf : Ref → Key) (root : Option Ref)
    (nodes : List Ref) : Prop where
  path : ∀ key, ∃ refs, Chain (next key) root refs ∧ refs.Nodup ∧ refs ⊆ nodes ∧
    ∀ ref ∈ nodes, keyOf ref = key → ref ∈ refs

variable {next : Key → Ref → Option Ref} {keyOf : Ref → Key} {root : Option Ref}
  {nodes : List Ref}

theorem searchable_nil : Searchable next keyOf none [] where
  path _ := ⟨[], rfl, List.nodup_nil, nofun, nofun⟩

/-- A search reads the children and the keys of the nodes only. -/
theorem Searchable.congr (searchable : Searchable next keyOf root nodes)
    {next' : Key → Ref → Option Ref} {keyOf' : Ref → Key}
    (sameNext : ∀ key, ∀ ref ∈ nodes, next' key ref = next key ref)
    (sameKey : ∀ ref ∈ nodes, keyOf' ref = keyOf ref) : Searchable next' keyOf' root nodes where
  path key := by
    obtain ⟨refs, walked, nodup, inside, all⟩ := searchable.path key
    refine ⟨refs, walked.congr fun ref member => sameNext key ref (inside member), nodup, inside, ?_⟩
    intro ref member bears
    exact all ref member ((sameKey ref member).symm.trans bears)

/-- A search for a key ends, and it finds a node with the key if there is one that passes
the test. -/
theorem Searchable.find (searchable : Searchable next keyOf root nodes) {key : Key}
    {found : Ref → Bool} (bears : ∀ ref ∈ nodes, found ref = true → keyOf ref = key)
    {fuel : Nat} (enough : nodes.length ≤ fuel) :
    ∃ result, findFrom (next key) found fuel root = some result ∧
      (result.isSome = true ↔ ∃ ref ∈ nodes, found ref = true) := by
  obtain ⟨refs, walked, nodup, inside, all⟩ := searchable.path key
  have short : refs.length ≤ nodes.length := (List.subperm_of_subset nodup inside).length_le
  refine ⟨refs.find? found, findFrom_chain walked found (Nat.le_trans short enough), ?_⟩
  rw [List.find?_isSome]
  constructor
  · rintro ⟨ref, member, passes⟩
    exact ⟨ref, inside member, passes⟩
  · rintro ⟨ref, member, passes⟩
    exact ⟨ref, all ref member (bears ref member passes), passes⟩

/-- The search for a place ends at a node that has no child on the side of the key. -/
theorem Searchable.place (searchable : Searchable next keyOf root nodes) (key : Key)
    (filled : root ≠ none) {fuel : Nat} (enough : nodes.length ≤ fuel) :
    ∃ last ∈ nodes, findFrom (next key) (fun ref => (next key ref).isNone) fuel root =
      some (some last) ∧ next key last = none ∧
      ∃ front, Chain (next key) root (front ++ [last]) := by
  obtain ⟨refs, walked, nodup, inside, -⟩ := searchable.path key
  have short : refs.length ≤ nodes.length := (List.subperm_of_subset nodup inside).length_le
  have search := findFrom_chain walked (fun ref => (next key ref).isNone) (Nat.le_trans short enough)
  rcases List.eq_nil_or_concat' refs with rfl | ⟨front, last, rfl⟩
  · exact absurd walked filled
  · have ended := (segment_concat.mp walked).2
    cases place : (front ++ [last]).find? fun ref => (next key ref).isNone with
    | none =>
      have passed := List.find?_eq_none.mp place last (by simp)
      simp [ended] at passed
    | some other =>
      have member := List.mem_of_find?_eq_some place
      have open' : next key other = none := by
        simpa using List.find?_some place
      refine ⟨other, inside member, by rw [search, place], open', ?_⟩
      obtain ⟨before, behind, split⟩ := List.append_of_mem member
      rw [split] at walked
      obtain ⟨middle, walked, rfl, -⟩ := segment_append.mp walked
      exact ⟨before, segment_concat.mpr ⟨walked, open'⟩⟩

section Attach

variable [DecidableEq Ref] {children : Children Ref} {side : Key → Ref → Bool}

/-- Hang `ref` under `last`, on the side of `key`. -/
def Children.attach (children : Children Ref) (side : Key → Ref → Bool) (key : Key)
    (last ref : Ref) : Children Ref :=
  if side key last then { children with left := Function.update children.left last (some ref) }
  else { children with right := Function.update children.right last (some ref) }

theorem attach_next_other {key other : Key} {last ref at' : Ref}
    (elsewhere : at' ≠ last ∨ side other last ≠ side key last) :
    (children.attach side key last ref).next side other at' = children.next side other at' := by
  unfold Children.attach Children.next
  by_cases same : at' = last
  · subst same
    have sides := elsewhere.resolve_left (fun apart => apart rfl)
    cases way : side key at' <;> cases way' : side other at' <;> simp_all
  · cases way : side key last <;> simp [Function.update_of_ne same]

theorem attach_next_same {key other : Key} {last ref : Ref}
    (same : side other last = side key last) :
    (children.attach side key last ref).next side other last = some ref := by
  unfold Children.attach Children.next
  cases way : side key last <;> simp [same, way, Function.update_self]

/-- A node without children is put where the search for its key ended. -/
theorem Searchable.attach (searchable : Searchable (children.next side) keyOf root nodes)
    {last ref : Ref} {front : List Ref} (outside : ref ∉ nodes)
    (bare : ∀ key, children.next side key ref = none)
    (walked : Chain (children.next side (keyOf ref)) root (front ++ [last])) :
    Searchable ((children.attach side (keyOf ref) last ref).next side) keyOf root
      (nodes ++ [ref]) where
  path key := by
    obtain ⟨refs, path, nodup, inside, all⟩ := searchable.path key
    have new : ref ∉ refs := fun member => outside (inside member)
    have ended := (segment_concat.mp walked).2
    by_cases reached : last ∈ refs ∧ side key last = side (keyOf ref) last
    · -- the paths of both keys end at `last`, so that of `key` goes on to the new node
      obtain ⟨member, same⟩ := reached
      have stop : children.next side key last = none := by
        rw [← ended]
        simp [Children.next, same]
      obtain ⟨before, behind, rfl⟩ := List.append_of_mem member
      obtain ⟨middle, reach, rfl, rest⟩ := segment_append.mp path
      rw [stop] at rest
      obtain rfl : behind = [] := by simpa using rest.head_eq.symm
      have apart : ref ≠ last := fun equal => new (by simp [equal])
      have lastBefore : last ∉ before := fun earlier =>
        List.disjoint_of_nodup_append nodup earlier List.mem_cons_self
      refine ⟨before ++ [last, ref], segment_append.mpr ⟨some last, ?_, rfl, ?_⟩, ?_, ?_, ?_⟩
      · exact reach.congr fun other earlier =>
          attach_next_other (.inl fun (equal : other = last) => lastBefore (equal ▸ earlier))
      · rw [attach_next_same same]
        exact ⟨rfl, (attach_next_other (.inl apart)).trans (bare key)⟩
      · have grown := nodup.append (List.nodup_singleton ref) (List.disjoint_singleton.mpr new)
        simpa using grown
      · intro other visited
        rcases List.mem_append.mp visited with earlier | final
        · exact List.mem_append_left _ (inside (List.mem_append_left _ earlier))
        · rcases List.mem_cons.mp final with rfl | final
          · exact List.mem_append_left _ (inside (by simp))
          · exact List.mem_append_right _ (by simpa using final)
      · intro other known bears
        rcases List.mem_append.mp known with earlier | final
        · have visited := all other earlier bears
          simp only [List.mem_append, List.mem_cons] at visited ⊢
          tauto
        · simp only [List.mem_append, List.mem_cons]
          exact .inr (.inr (.inl (List.mem_singleton.mp final)))
    · -- the path of `key` does not use the new link
      refine ⟨refs, path.congr fun other member => attach_next_other ?_, nodup,
        fun other member => List.mem_append_left _ (inside member), ?_⟩
      · by_cases here : other = last
        · subst here
          exact .inr fun same => reached ⟨member, same⟩
        · exact .inl here
      · intro other known bears
        rcases List.mem_append.mp known with earlier | final
        · exact all other earlier bears
        · obtain rfl := List.mem_singleton.mp final
          subst bears
          have same := path.unique walked
          exact absurd ⟨same ▸ by simp, rfl⟩ reached

end Attach

end QNXStuff.SearchTree
