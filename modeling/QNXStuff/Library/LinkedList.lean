import Mathlib.Data.List.Basic
import Mathlib.Data.List.Nodup
import Mathlib.Logic.Function.Basic

/-! Pointer lists over an arbitrary type of references. A list is known only by
the `next` and `prev` fields of its nodes; the lemmas say which sequence of
nodes a walk visits before and after the usual pointer assignments. -/

namespace QNXStuff.LinkedList

universe u

variable {Ref : Type u}

/-- Following `next` from `start` visits exactly `refs` and arrives at `stop`. -/
def Segment (next : Ref → Option Ref) : Option Ref → List Ref → Option Ref → Prop
  | start, [], stop => start = stop
  | start, ref :: rest, stop => start = some ref ∧ Segment next (next ref) rest stop

/-- Following `next` from `start` visits exactly `refs` and ends in NULL. -/
abbrev Chain (next : Ref → Option Ref) (start : Option Ref) (refs : List Ref) : Prop :=
  Segment next start refs none

@[simp] theorem segment_nil {next : Ref → Option Ref} {start stop : Option Ref} :
    Segment next start [] stop ↔ start = stop := Iff.rfl

@[simp] theorem segment_cons {next : Ref → Option Ref} {start stop : Option Ref}
    {ref : Ref} {rest : List Ref} :
    Segment next start (ref :: rest) stop ↔
      start = some ref ∧ Segment next (next ref) rest stop := Iff.rfl

theorem segment_append {next : Ref → Option Ref} {start stop : Option Ref}
    {front back : List Ref} :
    Segment next start (front ++ back) stop ↔
      ∃ middle, Segment next start front middle ∧ Segment next middle back stop := by
  induction front generalizing start with
  | nil => simp
  | cons ref rest ih => simp [ih, and_assoc]

theorem segment_concat {next : Ref → Option Ref} {start stop : Option Ref}
    {front : List Ref} {ref : Ref} :
    Segment next start (front ++ [ref]) stop ↔
      Segment next start front (some ref) ∧ next ref = stop := by
  rw [segment_append]
  constructor
  · rintro ⟨middle, walked, rfl, final⟩
    exact ⟨walked, final⟩
  · rintro ⟨walked, final⟩
    exact ⟨some ref, walked, rfl, final⟩

/-- A walk reads `next` only at the nodes it visits. -/
theorem Segment.congr {next next' : Ref → Option Ref} {start stop : Option Ref}
    {refs : List Ref} (walked : Segment next start refs stop)
    (same : ∀ ref ∈ refs, next' ref = next ref) : Segment next' start refs stop := by
  induction refs generalizing start with
  | nil => exact walked
  | cons ref rest ih =>
    obtain ⟨first, walked⟩ := walked
    refine ⟨first, ?_⟩
    rw [same ref List.mem_cons_self]
    exact ih walked (fun other member => same other (List.mem_cons_of_mem ref member))

theorem Segment.update [DecidableEq Ref] {next : Ref → Option Ref} {start stop : Option Ref}
    {refs : List Ref} (walked : Segment next start refs stop) {changed : Ref}
    (outside : changed ∉ refs) (target : Option Ref) :
    Segment (Function.update next changed target) start refs stop :=
  walked.congr fun ref member =>
    Function.update_of_ne (show ref ≠ changed from fun same => outside (same ▸ member)) target next

/-- Two walks to NULL from one start visit the same nodes. -/
theorem Segment.unique {next : Ref → Option Ref} {start : Option Ref}
    {refs others : List Ref} (walked : Chain next start refs) (other : Chain next start others) :
    refs = others := by
  induction refs generalizing start others with
  | nil =>
    cases others with
    | nil => rfl
    | cons ref rest =>
      have empty : start = none := walked
      have full : start = some ref := other.1
      rw [empty] at full
      cases full
  | cons ref rest ih =>
    cases others with
    | nil =>
      have full : start = some ref := walked.1
      have empty : start = none := other
      rw [empty] at full
      cases full
    | cons ref' rest' =>
      have same : ref = ref' := Option.some.inj (walked.1.symm.trans other.1)
      subst ref'
      exact congrArg (ref :: ·) (ih walked.2 other.2)

theorem Segment.visits_once {next : Ref → Option Ref} {start : Option Ref} {refs : List Ref}
    (walked : Chain next start refs) : refs.Nodup := by
  induction refs generalizing start with
  | nil => exact List.nodup_nil
  | cons ref rest ih =>
    refine List.nodup_cons.mpr ⟨fun again => ?_, ih walked.2⟩
    obtain ⟨front, back, rfl⟩ := List.append_of_mem again
    obtain ⟨_, _, _, second⟩ := segment_append.mp walked.2
    -- from the second visit on the walk would be the same as from the first
    have lengths := congrArg List.length (Segment.unique walked.2 second)
    simp only [List.length_cons, List.length_append] at lengths
    omega

theorem Segment.head_eq {next : Ref → Option Ref} {start : Option Ref} {refs : List Ref}
    (walked : Chain next start refs) : start = refs.head? := by
  cases refs with
  | nil => exact walked
  | cons ref rest => exact walked.1

/-- A walk along `next` from `start` comes to `ref`. -/
def Reachable (next : Ref → Option Ref) (start : Option Ref) (ref : Ref) : Prop :=
  ∃ refs, Segment next start refs (some ref)

/-- What can be reached in a list that ends in NULL are its nodes. -/
theorem Segment.reachable_iff {next : Ref → Option Ref} {start : Option Ref} {refs : List Ref}
    (walked : Chain next start refs) {ref : Ref} : Reachable next start ref ↔ ref ∈ refs := by
  constructor
  · rintro ⟨front, before⟩
    induction front generalizing start refs with
    | nil =>
      have first : start = some ref := before
      cases refs with
      | nil =>
        have empty : start = none := walked
        rw [first] at empty
        cases empty
      | cons other rest =>
        have same : ref = other := Option.some.inj (first.symm.trans walked.1)
        exact same ▸ List.mem_cons_self
    | cons visited front ih =>
      obtain ⟨first, before⟩ := before
      cases refs with
      | nil =>
        have empty : start = none := walked
        rw [first] at empty
        cases empty
      | cons other rest =>
        have same : visited = other := Option.some.inj (first.symm.trans walked.1)
        subst same
        exact List.mem_cons_of_mem visited (ih walked.2 before)
  · intro member
    obtain ⟨front, back, rfl⟩ := List.append_of_mem member
    obtain ⟨middle, before, rfl, -⟩ := segment_append.mp walked
    exact ⟨front, before⟩

/-- Put `ref` in front of a list that ends in NULL. -/
theorem Segment.push [DecidableEq Ref] {next : Ref → Option Ref} {start : Option Ref}
    {refs : List Ref} (walked : Chain next start refs) {ref : Ref} (outside : ref ∉ refs) :
    Chain (Function.update next ref start) (some ref) (ref :: refs) := by
  refine ⟨rfl, ?_⟩
  rw [Function.update_self]
  exact walked.update outside start

/-- The assignment `if (before != NULL) before->next = target; else head = target;`
of a list whose last node is `before`, seen by the nodes that stay in place. -/
theorem Segment.redirect [DecidableEq Ref] {next : Ref → Option Ref}
    {start stop : Option Ref} {refs : List Ref} (walked : Segment next start refs stop)
    (nodup : refs.Nodup) (target : Option Ref) :
    match refs.getLast? with
    | some before => Segment (Function.update next before target) start refs target
    | none => Segment next target refs target := by
  rcases List.eq_nil_or_concat' refs with empty | ⟨front, last, split⟩
  · subst empty
    simp
  · subst split
    obtain ⟨walked, final⟩ := segment_concat.mp walked
    have outside : last ∉ front := fun member => by
      have disjoint := List.disjoint_of_nodup_append nodup
      exact disjoint member (List.mem_singleton_self last)
    simp only [List.getLast?_concat]
    exact segment_concat.mpr ⟨walked.update outside target, Function.update_self ..⟩

/-- Walk at most `fuel` nodes to the first one that satisfies `found`;
`none` says that the fuel ran out before the walk ended. -/
def findFrom (next : Ref → Option Ref) (found : Ref → Bool) :
    Nat → Option Ref → Option (Option Ref)
  | _, none => some none
  | 0, some _ => none
  | fuel + 1, some ref =>
    if found ref then some (some ref) else findFrom next found fuel (next ref)

/-- On a finite list the walk ends at the first node that satisfies the test. -/
theorem findFrom_chain {next : Ref → Option Ref} {start : Option Ref} {refs : List Ref}
    (walked : Chain next start refs) (found : Ref → Bool) {fuel : Nat}
    (enough : refs.length ≤ fuel) :
    findFrom next found fuel start = some (refs.find? found) := by
  induction refs generalizing start fuel with
  | nil =>
    have empty : start = none := walked
    subst empty
    cases fuel <;> rfl
  | cons ref rest ih =>
    obtain ⟨first, walked⟩ := walked
    subst first
    cases fuel with
    | zero => simp at enough
    | succ fuel =>
      have rest := ih walked (by simpa using enough)
      by_cases here : found ref = true
      · simp [findFrom, here]
      · simp [findFrom, here, rest]

/-- The nodes met by a walk of at most `fuel` steps. -/
def walk (next : Ref → Option Ref) : Nat → Option Ref → List Ref
  | _, none => []
  | 0, some _ => []
  | fuel + 1, some ref => ref :: walk next fuel (next ref)

theorem walk_chain {next : Ref → Option Ref} {start : Option Ref} {refs : List Ref}
    (walked : Chain next start refs) {fuel : Nat} (enough : refs.length ≤ fuel) :
    walk next fuel start = refs := by
  induction refs generalizing start fuel with
  | nil =>
    have empty : start = none := walked
    subst empty
    cases fuel <;> rfl
  | cons ref rest ih =>
    obtain ⟨first, walked⟩ := walked
    subst first
    cases fuel with
    | zero => simp at enough
    | succ fuel => simp [walk, ih walked (by simpa using enough)]

/-- The four places that hold the pointers of a doubly linked list. -/
structure Links (Ref : Type u) where
  head : Option Ref
  tail : Option Ref
  next : Ref → Option Ref
  prev : Ref → Option Ref

namespace Links

/-- `next` leads from `head` over `refs` to NULL, and `prev` leads back from `tail`. -/
structure Represents (links : Links Ref) (refs : List Ref) : Prop where
  nodup : refs.Nodup
  forward : Chain links.next links.head refs
  backward : Chain links.prev links.tail refs.reverse

theorem Represents.head_eq {links : Links Ref} {refs : List Ref}
    (list : links.Represents refs) : links.head = refs.head? := list.forward.head_eq

theorem Represents.tail_eq {links : Links Ref} {refs : List Ref}
    (list : links.Represents refs) : links.tail = refs.getLast? := by
  simpa using list.backward.head_eq

/-- A list is known by its ends and the fields of its nodes. -/
theorem Represents.congr {links other : Links Ref} {refs : List Ref}
    (list : links.Represents refs) (head : other.head = links.head) (tail : other.tail = links.tail)
    (next : ∀ ref ∈ refs, other.next ref = links.next ref)
    (prev : ∀ ref ∈ refs, other.prev ref = links.prev ref) : other.Represents refs where
  nodup := list.nodup
  forward := head ▸ list.forward.congr next
  backward := tail ▸ list.backward.congr fun ref member => prev ref (List.mem_reverse.mp member)

/-- Both directions of a list split at one of its nodes. -/
theorem represents_split {links : Links Ref} {front back : List Ref} {ref : Ref} :
    links.Represents (front ++ ref :: back) ↔
      (front ++ ref :: back).Nodup ∧
      (Segment links.next links.head front (some ref) ∧ Chain links.next (links.next ref) back) ∧
      Segment links.prev links.tail back.reverse (some ref) ∧
        Chain links.prev (links.prev ref) front.reverse := by
  constructor
  · intro list
    obtain ⟨middle, walked, first, rest⟩ := segment_append.mp list.forward
    have backward := list.backward
    rw [List.reverse_append, List.reverse_cons, List.append_assoc] at backward
    obtain ⟨middle', walked', first', rest'⟩ := segment_append.mp backward
    subst first first'
    exact ⟨list.nodup, ⟨walked, rest⟩, walked', rest'⟩
  · rintro ⟨nodup, ⟨walked, rest⟩, walked', rest'⟩
    refine ⟨nodup, segment_append.mpr ⟨some ref, walked, rfl, rest⟩, ?_⟩
    rw [List.reverse_append, List.reverse_cons, List.append_assoc]
    exact segment_append.mpr ⟨some ref, walked', rfl, rest'⟩

/-- Inside a list, `prev` is the inverse of `next`. -/
theorem Represents.prev_iff_next {links : Links Ref} {refs : List Ref}
    (list : links.Represents refs) {first second : Ref} (member : first ∈ refs)
    (member' : second ∈ refs) :
    links.next first = some second ↔ links.prev second = some first := by
  constructor
  · intro step
    obtain ⟨front, back, rfl⟩ := List.append_of_mem member
    obtain ⟨_, ⟨_, rest⟩, walked', _⟩ := represents_split.mp list
    have follows := rest.head_eq
    rw [step] at follows
    cases back with
    | nil => cases follows
    | cons next back =>
      cases follows
      rw [List.reverse_cons] at walked'
      exact (segment_concat.mp walked').2
  · intro step
    obtain ⟨front, back, rfl⟩ := List.append_of_mem member'
    obtain ⟨_, ⟨walked, _⟩, _, rest'⟩ := represents_split.mp list
    have precedes := rest'.head_eq
    rw [step, List.head?_reverse] at precedes
    rcases List.eq_nil_or_concat' front with rfl | ⟨front, last, rfl⟩
    · cases precedes
    · simp only [List.getLast?_concat, Option.some.injEq] at precedes
      subst precedes
      exact (segment_concat.mp walked).2

theorem Represents.prev_eq {links : Links Ref} {front back : List Ref} {ref : Ref}
    (list : links.Represents (front ++ ref :: back)) : links.prev ref = front.getLast? := by
  obtain ⟨_, _, _, rest⟩ := represents_split.mp list
  simpa using rest.head_eq

theorem Represents.next_eq {links : Links Ref} {front back : List Ref} {ref : Ref}
    (list : links.Represents (front ++ ref :: back)) : links.next ref = back.head? := by
  obtain ⟨_, ⟨_, rest⟩, _⟩ := represents_split.mp list
  exact rest.head_eq

variable [DecidableEq Ref]

/-- `if (before != NULL) before->next = target; else head = target;` -/
def redirectNext (links : Links Ref) (before target : Option Ref) : Links Ref :=
  match before with
  | some ref => { links with next := Function.update links.next ref target }
  | none => { links with head := target }

/-- `if (after != NULL) after->prev = target; else tail = target;` -/
def redirectPrev (links : Links Ref) (after target : Option Ref) : Links Ref :=
  match after with
  | some ref => { links with prev := Function.update links.prev ref target }
  | none => { links with tail := target }

@[simp] theorem redirectNext_prev (links : Links Ref) (before target : Option Ref) :
    (links.redirectNext before target).prev = links.prev := by cases before <;> rfl

@[simp] theorem redirectNext_tail (links : Links Ref) (before target : Option Ref) :
    (links.redirectNext before target).tail = links.tail := by cases before <;> rfl

@[simp] theorem redirectPrev_next (links : Links Ref) (after target : Option Ref) :
    (links.redirectPrev after target).next = links.next := by cases after <;> rfl

@[simp] theorem redirectPrev_head (links : Links Ref) (after target : Option Ref) :
    (links.redirectPrev after target).head = links.head := by cases after <;> rfl

/-- The nodes in front of a redirected link now lead to its new target. -/
theorem redirectNext_segment {front : List Ref} {stop : Option Ref}
    (links : Links Ref) (walked : Segment links.next links.head front stop) (nodup : front.Nodup)
    (target : Option Ref) :
    Segment (links.redirectNext front.getLast? target).next
      (links.redirectNext front.getLast? target).head front target := by
  have moved := walked.redirect nodup target
  cases last : front.getLast? with
  | none => simpa only [last, redirectNext] using moved
  | some ref => simpa only [last, redirectNext] using moved

theorem redirectNext_frame {front refs : List Ref} {start stop : Option Ref}
    (links : Links Ref) (walked : Segment links.next start refs stop) (disjoint : front.Disjoint refs)
    (target : Option Ref) :
    Segment (links.redirectNext front.getLast? target).next start refs stop := by
  cases last : front.getLast? with
  | none => exact walked
  | some ref =>
    exact walked.update (fun member => disjoint (List.mem_of_getLast? last) member) target

theorem redirectPrev_segment {back : List Ref} {stop : Option Ref}
    (links : Links Ref) (walked : Segment links.prev links.tail back.reverse stop) (nodup : back.Nodup)
    (target : Option Ref) :
    Segment (links.redirectPrev back.head? target).prev
      (links.redirectPrev back.head? target).tail back.reverse target := by
  have moved := walked.redirect (List.nodup_reverse.mpr nodup) target
  rw [List.getLast?_reverse] at moved
  cases first : back.head? with
  | none => simpa only [first, redirectPrev] using moved
  | some ref => simpa only [first, redirectPrev] using moved

theorem redirectPrev_frame {back refs : List Ref} {start stop : Option Ref}
    (links : Links Ref) (walked : Segment links.prev start refs stop) (disjoint : back.Disjoint refs)
    (target : Option Ref) :
    Segment (links.redirectPrev back.head? target).prev start refs stop := by
  cases first : back.head? with
  | none => exact walked
  | some ref =>
    exact walked.update (fun member => disjoint (List.mem_of_head? first) member) target

/-- Take `ref` out of the list by joining its neighbours. -/
def unlink (links : Links Ref) (ref : Ref) : Links Ref :=
  (links.redirectNext (links.prev ref) (links.next ref)).redirectPrev
    (links.next ref) (links.prev ref)

theorem Represents.unlink {links : Links Ref} {front back : List Ref} {ref : Ref}
    (list : links.Represents (front ++ ref :: back)) :
    (links.unlink ref).Represents (front ++ back) := by
  have before := list.prev_eq
  have after := list.next_eq
  obtain ⟨nodup, ⟨walked, rest⟩, walked', rest'⟩ := represents_split.mp list
  have nodupFront := nodup.of_append_left
  have nodupBack := (List.nodup_cons.mp nodup.of_append_right).2
  have disjoint : front.Disjoint back := fun other member member' =>
    List.disjoint_of_nodup_append nodup member (List.mem_cons_of_mem ref member')
  refine ⟨nodup.sublist (by simp), segment_append.mpr ⟨links.next ref, ?_, ?_⟩, ?_⟩
  · simpa [Links.unlink, before] using redirectNext_segment _ walked nodupFront (links.next ref)
  · simpa [Links.unlink, before] using redirectNext_frame _ rest disjoint (links.next ref)
  · rw [List.reverse_append]
    refine segment_append.mpr ⟨links.prev ref, ?_, ?_⟩
    · have moved := redirectPrev_segment (links.redirectNext (links.prev ref) (links.next ref))
        (by simpa using walked') nodupBack (links.prev ref)
      simpa only [Links.unlink, after] using moved
    · have kept := redirectPrev_frame (links.redirectNext (links.prev ref) (links.next ref))
        (by simpa using rest')
        (fun other member member' => disjoint (List.mem_reverse.mp member') member) (links.prev ref)
      simpa only [Links.unlink, after] using kept

/-- Taking a node out changes `next` only in front of it. -/
theorem Represents.unlink_next {links : Links Ref} {front back : List Ref} {ref other : Ref}
    (list : links.Represents (front ++ ref :: back)) (outside : other ∉ front) :
    (links.unlink ref).next other = links.next other := by
  have before := list.prev_eq
  cases last : front.getLast? with
  | none => simp [Links.unlink, before, last, redirectNext]
  | some node =>
    have apart : other ≠ node := fun same =>
      outside (same ▸ List.mem_of_getLast? last)
    simp [Links.unlink, before, last, redirectNext, Function.update_of_ne apart]

/-- Add `ref` behind the last node. The `next` field of `ref` is left alone. -/
def append (links : Links Ref) (ref : Ref) : Links Ref :=
  { ({ links with prev := Function.update links.prev ref links.tail }).redirectNext
      links.tail (some ref) with tail := some ref }

theorem Represents.append {links : Links Ref} {refs : List Ref} {ref : Ref}
    (list : links.Represents refs) (outside : ref ∉ refs) (last : links.next ref = none) :
    (links.append ref).Represents (refs ++ [ref]) := by
  have ending := list.tail_eq
  have apart : refs.Disjoint [ref] := List.disjoint_singleton.mpr outside
  refine ⟨list.nodup.append (List.nodup_singleton ref) apart,
    segment_append.mpr ⟨some ref, ?_, ?_⟩, ?_⟩
  · simpa [Links.append, ending] using
      redirectNext_segment { links with prev := Function.update links.prev ref links.tail }
        list.forward list.nodup (some ref)
  · have single : Segment links.next (some ref) [ref] none := ⟨rfl, last⟩
    simpa only [Links.append, ending] using
      redirectNext_frame { links with prev := Function.update links.prev ref links.tail }
        single apart (some ref)
  · rw [List.reverse_append]
    refine ⟨rfl, ?_⟩
    have kept := list.backward.update (by simpa using outside) links.tail
    simpa [Links.append, Function.update_self] using kept

/-- Adding a node changes `next` only in the node before it. -/
theorem Represents.append_next {links : Links Ref} {refs : List Ref} {ref other : Ref}
    (list : links.Represents refs) (outside : other ∉ refs) :
    (links.append ref).next other = links.next other := by
  have ending := list.tail_eq
  cases last : refs.getLast? with
  | none => simp [Links.append, ending, last, redirectNext]
  | some node =>
    have apart : other ≠ node := fun same =>
      outside (same ▸ List.mem_of_getLast? last)
    simp [Links.append, ending, last, redirectNext, Function.update_of_ne apart]

/-- Add `ref` in front of the first node. The `prev` field of `ref` is left alone. -/
def pushFront (links : Links Ref) (ref : Ref) : Links Ref :=
  { ({ links with next := Function.update links.next ref links.head }).redirectPrev
      links.head (some ref) with head := some ref }

theorem Represents.pushFront {links : Links Ref} {refs : List Ref} {ref : Ref}
    (list : links.Represents refs) (outside : ref ∉ refs) (first : links.prev ref = none) :
    (links.pushFront ref).Represents (ref :: refs) := by
  have beginning := list.head_eq
  have apart : refs.Disjoint [ref] := List.disjoint_singleton.mpr outside
  refine ⟨List.nodup_cons.mpr ⟨outside, list.nodup⟩, ⟨rfl, ?_⟩, ?_⟩
  · have kept := list.forward.update outside links.head
    simpa [Links.pushFront, Function.update_self] using kept
  · rw [List.reverse_cons]
    refine segment_append.mpr ⟨some ref, ?_, ?_⟩
    · simpa [Links.pushFront, beginning] using
        redirectPrev_segment { links with next := Function.update links.next ref links.head }
          list.backward list.nodup (some ref)
    · have single : Segment links.prev (some ref) [ref] none := ⟨rfl, first⟩
      simpa only [Links.pushFront, beginning] using
        redirectPrev_frame { links with next := Function.update links.next ref links.head }
          single apart (some ref)

/-- Put `ref` directly in front of `place`. -/
def insertBefore (links : Links Ref) (ref place : Ref) : Links Ref :=
  let joined := links.redirectNext (links.prev place) (some ref)
  { joined with
    next := Function.update joined.next ref (some place)
    prev := Function.update (Function.update links.prev ref (links.prev place)) place (some ref) }

theorem Represents.insertBefore {links : Links Ref} {front back : List Ref} {ref place : Ref}
    (list : links.Represents (front ++ place :: back)) (outside : ref ∉ front ++ place :: back) :
    (links.insertBefore ref place).Represents (front ++ ref :: place :: back) := by
  have before := list.prev_eq
  obtain ⟨nodup, ⟨walked, rest⟩, walked', rest'⟩ := represents_split.mp list
  have nodupFront := nodup.of_append_left
  have apart := List.disjoint_of_nodup_append nodup
  have placeFront : place ∉ front := fun member => apart member List.mem_cons_self
  have placeBack := (List.nodup_cons.mp nodup.of_append_right).1
  simp only [List.mem_append, List.mem_cons, not_or] at outside
  obtain ⟨refFront, refPlace, refBack⟩ := outside
  have afterPlace : Chain links.next (some place) (place :: back) := ⟨rfl, rest⟩
  refine represents_split.mpr ⟨?_, ⟨?_, ?_⟩, ?_, ?_⟩
  · refine (List.perm_middle.nodup_iff).mpr (List.nodup_cons.mpr ⟨?_, nodup⟩)
    simp [refFront, refPlace, refBack]
  · have moved := redirectNext_segment _ walked nodupFront (some ref)
    simpa [Links.insertBefore, before] using moved.update refFront (some place)
  · have kept := redirectNext_frame _ afterPlace apart (some ref)
    have kept := kept.update (show ref ∉ place :: back by simp [refPlace, refBack]) (some place)
    simpa [Links.insertBefore, before, Function.update_self] using kept
  · rw [List.reverse_cons]
    refine segment_concat.mpr ⟨?_, Function.update_self ..⟩
    have kept := walked'.update (by simpa using refBack) (links.prev place)
    simpa [Links.insertBefore] using kept.update (by simpa using placeBack) (some ref)
  · have kept := rest'.update (by simpa using refFront) (links.prev place)
    have kept := kept.update (by simpa using placeFront) (some ref)
    simpa [Links.insertBefore, Function.update_of_ne refPlace, Function.update_self] using kept

end Links

end QNXStuff.LinkedList
