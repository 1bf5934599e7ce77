import Mathlib.Data.List.Basic

/-! Resources that are opened, used and closed: what a trace of such events leaves open, unless it
uses or closes what is not open. -/

namespace QNXStuff.Lifetimes

variable {Ref : Type} [DecidableEq Ref]

inductive Event (Ref : Type) where
  | opened (ref : Ref)
  | used (ref : Ref)
  | closed (ref : Ref)
  deriving DecidableEq

/-- What is open after a trace; `none` if it uses or closes what is not open. -/
def track : List (Event Ref) → List Ref → Option (List Ref)
  | [], refs => some refs
  | .opened ref :: rest, refs => track rest (ref :: refs)
  | .used ref :: rest, refs => if ref ∈ refs then track rest refs else none
  | .closed ref :: rest, refs => if ref ∈ refs then track rest (refs.erase ref) else none

/-- A trace that closes everything that it opens, once, and touches nothing else. -/
def Clean (events : List (Event Ref)) : Prop := track events [] = some []

instance (events : List (Event Ref)) : Decidable (Clean events) :=
  inferInstanceAs (Decidable (track events [] = some []))

theorem track_append (events later : List (Event Ref)) (refs : List Ref) :
    track (events ++ later) refs = (track events refs).bind (track later) := by
  induction events generalizing refs with
  | nil => rfl
  | cons event events ih =>
    cases event with
    | opened ref => exact ih _
    | used ref =>
      by_cases held : ref ∈ refs
      · simp only [List.cons_append, track, if_pos held, ih]
      · simp only [List.cons_append, track, if_neg held, Option.bind_none]
    | closed ref =>
      by_cases held : ref ∈ refs
      · simp only [List.cons_append, track, if_pos held, ih]
      · simp only [List.cons_append, track, if_neg held, Option.bind_none]

theorem track_used {events : List (Event Ref)} {ref : Ref} {refs : List Ref} (held : ref ∈ refs)
    (uses : ∀ event ∈ events, event = .used ref) : track events refs = some refs := by
  induction events with
  | nil => rfl
  | cons event events ih =>
    rw [uses event List.mem_cons_self]
    simp only [track, if_pos held]
    exact ih fun other member => uses other (List.mem_cons_of_mem _ member)

theorem Clean.nil : Clean ([] : List (Event Ref)) := rfl

theorem Clean.append {events later : List (Event Ref)} (clean : Clean events)
    (clean' : Clean later) : Clean (events ++ later) := by
  unfold Clean at *
  rw [track_append, clean]
  exact clean'

/-- A resource from its opening to its closing. -/
theorem Clean.life {uses : List (Event Ref)} {ref : Ref}
    (all : ∀ event ∈ uses, event = .used ref) :
    Clean (.opened ref :: uses ++ [.closed ref]) := by
  have held : ref ∈ [ref] := List.mem_singleton.mpr rfl
  unfold Clean
  rw [List.cons_append, track, track_append, track_used held all, Option.bind_some]
  simp [track]

/-- Behind a clean trace nothing can be closed. -/
theorem Clean.closed_again {events : List (Event Ref)} (clean : Clean events) (ref : Ref) :
    track (events ++ [.closed ref]) [] = none := by
  unfold Clean at clean
  rw [track_append, clean, Option.bind_some, track, if_neg List.not_mem_nil]

end QNXStuff.Lifetimes
