/-! Computations that may end in a fault, and what keeps them from one of them. -/

namespace QNXStuff.Execution

universe u v w

section Faults

variable {Error : Type u} {Value : Type v} {Result : Type v} {fault error : Error}
  {post : Value → Prop}

/-- The computation does not end in the fault, and what it yields has a property. -/
def Avoids (fault : Error) (post : Value → Prop) : Except Error Value → Prop
  | .error error => error ≠ fault
  | .ok value => post value

@[simp] theorem avoids_ok {value : Value} : Avoids fault post (.ok value) ↔ post value := .rfl

@[simp] theorem avoids_error : Avoids fault post (.error error) ↔ error ≠ fault := .rfl

theorem Avoids.ne {source : Except Error Value} (avoids : Avoids fault post source) :
    source ≠ .error fault := by
  intro same
  rw [same] at avoids
  exact avoids rfl

theorem Avoids.holds {source : Except Error Value} {value : Value}
    (avoids : Avoids fault post source) (done : source = .ok value) : post value := by
  rw [done] at avoids
  exact avoids

theorem Avoids.mono {post' : Value → Prop} {source : Except Error Value}
    (avoids : Avoids fault post source) (weaker : ∀ value, post value → post' value) :
    Avoids fault post' source := by
  cases source with
  | error error => exact avoids
  | ok value => exact weaker value avoids

theorem Avoids.bind {middle : Value → Prop} {post : Result → Prop} {source : Except Error Value}
    {next : Value → Except Error Result} (first : Avoids fault middle source)
    (rest : ∀ value, middle value → Avoids fault post (next value)) :
    Avoids fault post (source >>= next) := by
  cases source with
  | error error => exact first
  | ok value => exact rest value first

theorem Avoids.map {post : Result → Prop} {source : Except Error Value} {make : Value → Result}
    (avoids : Avoids fault (fun value => post (make value)) source) :
    Avoids fault post (source.map make) := by
  cases source with
  | error error => exact avoids
  | ok value => exact avoids

theorem Avoids.ite {condition : Prop} [Decidable condition] {first second : Except Error Value}
    (yes : condition → Avoids fault post first) (no : ¬ condition → Avoids fault post second) :
    Avoids fault post (if condition then first else second) := by
  split
  · exact yes ‹_›
  · exact no ‹_›

/-- Go on only if a condition holds. -/
def check (condition : Prop) [Decidable condition] (error : Error) : Except Error Unit :=
  if condition then .ok () else .error error

theorem Avoids.check {Value : Type} {post : Value → Prop} {condition : Prop} [Decidable condition]
    {next : Unit → Except Error Value} (holds : fault = error → condition)
    (rest : condition → Avoids fault post (next ())) :
    Avoids fault post (check condition error >>= next) := by
  unfold Execution.check
  split
  · exact rest ‹_›
  · next fails => exact fun same => fails (holds same.symm)

/-- The steps of a fold, with a property of the state before each of the items. -/
theorem Avoids.foldlM {Item : Type w} {State : Type v} {step : State → Item → Except Error State}
    {motive : Nat → State → Prop} {items : List Item} {start : Nat} {state : State}
    (first : motive start state)
    (steps : ∀ place item state, items[place]? = some item → motive (start + place) state →
      Avoids fault (motive (start + place + 1)) (step state item)) :
    Avoids fault (motive (start + items.length)) (items.foldlM step state) := by
  induction items generalizing start state with
  | nil => exact first
  | cons item rest ih =>
    rw [List.foldlM_cons]
    refine Avoids.bind (steps 0 item state rfl first) fun next holds => ?_
    have later := ih holds fun place other state found before => by
      have shift : start + 0 + 1 + place = start + (place + 1) := by omega
      rw [shift] at before ⊢
      exact steps (place + 1) other state found before
    have whole : start + (item :: rest).length = start + 0 + 1 + rest.length := by
      rw [List.length_cons]
      omega
    rw [whole]
    exact later

end Faults

end QNXStuff.Execution
