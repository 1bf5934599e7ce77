import Mathlib.Algebra.Order.BigOperators.Group.Finset
import Mathlib.Data.Fintype.Basic

/-! Threads that each are somewhere in their code: a reader-writer lock that they share, what a
reader has seen of a value that only a writer changes, and how many of them are where. -/

namespace QNXStuff.SharedLock

open Function

universe u v w

/-- How a thread holds the lock. -/
inductive Hold where
  | free
  | shared
  | exclusive
  deriving DecidableEq

variable {Thread : Type u} {Phase : Type v}

/-- What holds of all threads when one of them has moved. -/
theorem all_move [DecidableEq Thread] {motive : Phase → Prop} {threads : Thread → Phase}
    {thread : Thread} {now : Phase} (mine : motive now) (others : ∀ other, motive (threads other)) :
    ∀ other, motive (update threads thread now other) := by
  intro other
  by_cases here : other = thread
  · rw [here, update_self]
    exact mine
  · rw [update_of_ne here]
    exact others other

section Lock

variable (hold : Phase → Hold)

/-- The lock is not withheld from a thread that asks for it. -/
def MayTake (threads : Thread → Phase) : Hold → Prop
  | .free => True
  | .shared => ∀ thread, hold (threads thread) ≠ .exclusive
  | .exclusive => ∀ thread, hold (threads thread) = .free

instance [Fintype Thread] (threads : Thread → Phase) (asked : Hold) :
    Decidable (MayTake hold threads asked) :=
  match asked with
  | .free => isTrue trivial
  | .shared => inferInstanceAs (Decidable (∀ thread, hold (threads thread) ≠ .exclusive))
  | .exclusive => inferInstanceAs (Decidable (∀ thread, hold (threads thread) = .free))

/-- Who has the lock for itself is the only one that has it. -/
def Excludes (threads : Thread → Phase) : Prop :=
  ∀ thread other, hold (threads thread) = .exclusive → hold (threads other) ≠ .free →
    other = thread

variable {hold} {threads : Thread → Phase} {thread other : Thread} {now : Phase}

theorem excludes_free (free : ∀ thread, hold (threads thread) = .free) : Excludes hold threads := by
  intro thread other mine
  rw [free thread] at mine
  cases mine

theorem Excludes.alone (excludes : Excludes hold threads)
    (mine : hold (threads thread) = .exclusive) (apart : other ≠ thread) :
    hold (threads other) = .free := by
  by_contra held
  exact apart (excludes thread other mine held)

/-- While one thread reads, no other writes. -/
theorem Excludes.no_writer (excludes : Excludes hold threads)
    (mine : hold (threads thread) = .shared) (other : Thread) :
    hold (threads other) ≠ .exclusive := by
  intro writes
  have same : thread = other := excludes other thread writes (by rw [mine]; decide)
  rw [same, writes] at mine
  cases mine

variable [DecidableEq Thread]

/-- A thread moves on: it keeps its hold, gives it up, or takes one that it may take. -/
theorem Excludes.move (excludes : Excludes hold threads)
    (fair : hold now = hold (threads thread) ∨ hold now = .free ∨ MayTake hold threads (hold now)) :
    Excludes hold (update threads thread now) := by
  intro first second mine held
  by_cases here : first = thread
  · subst here
    rw [update_self] at mine
    by_contra apart
    rw [update_of_ne apart] at held
    rcases fair with same | free | may
    · exact apart (excludes first second (same ▸ mine) held)
    · rw [free] at mine
      cases mine
    · rw [mine] at may
      exact held (may second)
  · rw [update_of_ne here] at mine
    by_cases there : second = thread
    · subst there
      rw [update_self] at held
      rcases fair with same | free | may
      · exact excludes first second mine (same ▸ held)
      · exact absurd free held
      · cases now' : hold now with
        | free => exact absurd now' held
        | shared =>
          rw [now'] at may
          exact absurd mine (may first)
        | exclusive =>
          rw [now'] at may
          rw [may first] at mine
          cases mine
    · rw [update_of_ne there] at held
      exact excludes first second mine held

end Lock

section Watching

variable {Value : Type w}

/-- What the threads have seen of a value is what it is. -/
def Watches (seen : Phase → Option Value) (threads : Thread → Phase) (value : Value) : Prop :=
  ∀ thread found, seen (threads thread) = some found → found = value

variable {hold : Phase → Hold} {seen : Phase → Option Value} {threads : Thread → Phase}
  {thread : Thread} {now : Phase} {value : Value} [DecidableEq Thread]

/-- A thread looks, or goes on with what it has seen. -/
theorem Watches.move (watches : Watches seen threads value)
    (fair : ∀ found, seen now = some found → found = value ∨ seen (threads thread) = some found) :
    Watches seen (update threads thread now) value := by
  intro other found looked
  by_cases here : other = thread
  · subst here
    rw [update_self] at looked
    exact (fair found looked).elim id (watches other found)
  · rw [update_of_ne here] at looked
    exact watches other found looked

/-- A thread that has the lock for itself changes the value: nobody else looks at it. -/
theorem Watches.write (excludes : Excludes hold threads)
    (mine : hold (threads thread) = .exclusive)
    (locked : ∀ phase, seen phase ≠ none → hold phase ≠ .free) (unseen : seen now = none)
    (value : Value) : Watches seen (update threads thread now) value := by
  intro other found looked
  by_cases here : other = thread
  · subst here
    rw [update_self, unseen] at looked
    cases looked
  · rw [update_of_ne here] at looked
    have held := locked (threads other) (by rw [looked]; simp)
    exact absurd (excludes.alone mine here) held

/-- A reader changes the value, which is looked at by who has the lock for itself. -/
theorem Watches.beside (excludes : Excludes hold threads) (mine : hold (threads thread) = .shared)
    (locked : ∀ phase, seen phase ≠ none → hold phase = .exclusive) (unseen : seen now = none)
    (value : Value) : Watches seen (update threads thread now) value := by
  intro other found looked
  by_cases here : other = thread
  · subst here
    rw [update_self, unseen] at looked
    cases looked
  · rw [update_of_ne here] at looked
    have held := locked (threads other) (by rw [looked]; simp)
    exact absurd held (excludes.no_writer mine other)

end Watching

section Census

variable {Amount : Type w} [AddCommMonoid Amount] [Fintype Thread]

/-- The weight of the threads where they are. -/
def census (weight : Phase → Amount) (threads : Thread → Phase) : Amount :=
  ∑ thread, weight (threads thread)

theorem census_zero {weight : Phase → Amount} {threads : Thread → Phase}
    (none : ∀ thread, weight (threads thread) = 0) : census weight threads = 0 :=
  Finset.sum_eq_zero fun thread _ => none thread

theorem weight_le_census (weight : Phase → Nat) (threads : Thread → Phase) (thread : Thread) :
    weight (threads thread) ≤ census weight threads :=
  Finset.single_le_sum_of_canonicallyOrdered (f := fun thread => weight (threads thread))
    (Finset.mem_univ thread)

variable [DecidableEq Thread]

theorem census_split (weight : Phase → Amount) (threads : Thread → Phase) (thread : Thread) :
    census weight threads =
      weight (threads thread) + ∑ other ∈ Finset.univ.erase thread, weight (threads other) :=
  (Finset.add_sum_erase _ (fun other => weight (threads other)) (Finset.mem_univ thread)).symm

/-- One thread moves on: its old weight goes and its new weight comes. -/
theorem census_move (weight : Phase → Amount) (threads : Thread → Phase) (thread : Thread)
    (now : Phase) :
    census weight (update threads thread now) + weight (threads thread) =
      census weight threads + weight now := by
  have others : ∑ other ∈ Finset.univ.erase thread, weight (update threads thread now other) =
      ∑ other ∈ Finset.univ.erase thread, weight (threads other) := by
    refine Finset.sum_congr rfl fun other member => ?_
    rw [update_of_ne (Finset.ne_of_mem_erase member)]
  rw [census_split weight (update threads thread now) thread, census_split weight threads thread,
    others, update_self]
  ac_rfl

/-- A thread moves on and weighs the same. -/
theorem census_same {weight : Phase → Amount} {threads : Thread → Phase} {thread : Thread}
    {now : Phase} (same : weight now = weight (threads thread)) :
    census weight (update threads thread now) = census weight threads := by
  refine Finset.sum_congr rfl fun other _ => ?_
  by_cases here : other = thread
  · rw [here, update_self, same]
  · rw [update_of_ne here]

/-- The thread that moves to where it weighs nothing was the only one that weighed. -/
theorem census_only {weight : Phase → Nat} {threads : Thread → Phase} {thread other : Thread}
    (all : census weight threads = weight (threads thread)) (apart : other ≠ thread) :
    weight (threads other) = 0 := by
  rw [census_split weight threads thread] at all
  have none : ∑ other ∈ Finset.univ.erase thread, weight (threads other) = 0 := by omega
  exact Finset.sum_eq_zero_iff.mp none other
    (Finset.mem_erase.mpr ⟨apart, Finset.mem_univ other⟩)

end Census

end QNXStuff.SharedLock
