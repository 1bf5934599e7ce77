/-! Loops that may fail or run out of fuel, and runs of a labelled step relation. -/

namespace QNXStuff.Execution

universe u v w

section Loop

variable {State : Type u} {Result : Type v} {Error : Type w}

/-- How one pass through the body of a loop ends. -/
inductive Pass (State : Type u) (Result : Type v) where
  | again (state : State)
  | stop (result : Result)

/-- Repeat `body` until it stops or fails, for at most `fuel` passes. -/
def loop (body : State → Except Error (Pass State Result)) (spent : Error) :
    Nat → State → Except Error Result
  | 0, _ => .error spent
  | fuel + 1, state =>
    match body state with
    | .error error => .error error
    | .ok (.stop result) => .ok result
    | .ok (.again next) => loop body spent fuel next

/-- The states in which the body is entered. -/
def passes (body : State → Except Error (Pass State Result)) : Nat → State → List State
  | 0, _ => []
  | fuel + 1, state =>
    state ::
      match body state with
      | .ok (.again next) => passes body fuel next
      | _ => []

/-- What one pass must establish for `invariant`, the variant `measure` and `post`. -/
def PassSpec (invariant : State → Prop) (measure : State → Nat)
    (post : Except Error Result → Prop) (state : State) :
    Except Error (Pass State Result) → Prop
  | .error error => post (.error error)
  | .ok (.stop result) => post (.ok result)
  | .ok (.again next) => invariant next ∧ measure next < measure state

/-- The invariant rule with a variant: enough fuel never runs out. `guard` may be
assumed of every state in which the body is entered. -/
theorem loop_rule {body : State → Except Error (Pass State Result)} {spent : Error}
    {invariant guard : State → Prop} {measure : State → Nat} {post : Except Error Result → Prop}
    (pass : ∀ state, invariant state → guard state →
      PassSpec invariant measure post state (body state))
    {fuel : Nat} {state : State} (start : invariant state) (enough : measure state < fuel)
    (guarded : ∀ entered ∈ passes body fuel state, guard entered) :
    post (loop body spent fuel state) := by
  induction fuel generalizing state with
  | zero => exact absurd enough (Nat.not_lt_zero _)
  | succ fuel ih =>
    have spec := pass state start (guarded state List.mem_cons_self)
    simp only [passes] at guarded
    simp only [loop]
    cases outcome : body state with
    | error error => simpa only [outcome, PassSpec] using spec
    | ok ending =>
      cases ending with
      | stop result => simpa only [outcome, PassSpec] using spec
      | again next =>
        simp only [outcome, PassSpec] at spec
        simp only [outcome] at guarded
        exact ih spec.1 (Nat.lt_of_lt_of_le spec.2 (Nat.le_of_lt_succ enough))
          (fun entered member => guarded entered (List.mem_cons_of_mem _ member))

/-- The invariant rule of a loop that needs no guard. -/
theorem loop_rule_free {body : State → Except Error (Pass State Result)} {spent : Error}
    {invariant : State → Prop} {measure : State → Nat} {post : Except Error Result → Prop}
    (pass : ∀ state, invariant state → PassSpec invariant measure post state (body state))
    {fuel : Nat} {state : State} (start : invariant state) (enough : measure state < fuel) :
    post (loop body spent fuel state) :=
  loop_rule (fun state holds _ => pass state holds) start enough
    (fun _ _ => trivial)

/-- Bodies that do the same wherever the loop enters them. -/
theorem loop_congr {body body' : State → Except Error (Pass State Result)} {spent : Error}
    {invariant : State → Prop} {measure : State → Nat} {post : Except Error Result → Prop}
    (pass : ∀ state, invariant state → PassSpec invariant measure post state (body state))
    (same : ∀ state, invariant state → body' state = body state) {fuel : Nat} {state : State}
    (start : invariant state) : loop body' spent fuel state = loop body spent fuel state := by
  induction fuel generalizing state with
  | zero => rfl
  | succ fuel ih =>
    have spec := pass state start
    simp only [loop]
    rw [same state start]
    cases outcome : body state with
    | error error => rfl
    | ok ending =>
      cases ending with
      | stop result => rfl
      | again next =>
        simp only [outcome, PassSpec] at spec
        exact ih spec.1

/-- A loop fails whose passes go on from bad states to bad ones, or fail. -/
theorem loop_fails {body : State → Except Error (Pass State Result)} {spent : Error}
    {bad : State → Prop}
    (pass : ∀ state, bad state → (∃ error, body state = .error error) ∨
      ∃ next, body state = .ok (.again next) ∧ bad next)
    {fuel : Nat} {state : State} (start : bad state) :
    ∃ error, loop body spent fuel state = .error error := by
  induction fuel generalizing state with
  | zero => exact ⟨spent, rfl⟩
  | succ fuel ih =>
    simp only [loop]
    rcases pass state start with ⟨error, failed⟩ | ⟨next, again, stays⟩
    · exact ⟨error, by rw [failed]⟩
    · rw [again]
      exact ih stays

/-- More fuel does not change what a loop comes to. -/
theorem loop_more {body : State → Except Error (Pass State Result)} {spent : Error}
    {fuel more : Nat} {state : State} {result : Result}
    (done : loop body spent fuel state = .ok result) (enough : fuel ≤ more) :
    loop body spent more state = .ok result := by
  induction fuel generalizing more state with
  | zero => cases done
  | succ fuel ih =>
    obtain ⟨more, rfl⟩ := Nat.exists_eq_add_of_le' (Nat.lt_of_lt_of_le (Nat.succ_pos fuel) enough)
    simp only [loop] at done ⊢
    cases outcome : body state with
    | error error =>
      rw [outcome] at done
      cases done
    | ok ending =>
      rw [outcome] at done
      cases ending with
      | stop result => exact done
      | again next => exact ih done (Nat.le_of_succ_le_succ enough)

/-- An invariant of the passes holds wherever the body is entered. -/
theorem passes_invariant {body : State → Except Error (Pass State Result)}
    {invariant : State → Prop} {measure : State → Nat} {post : Except Error Result → Prop}
    (pass : ∀ state, invariant state → PassSpec invariant measure post state (body state))
    {fuel : Nat} {state : State} (start : invariant state) :
    ∀ entered ∈ passes body fuel state, invariant entered := by
  induction fuel generalizing state with
  | zero => nofun
  | succ fuel ih =>
    intro entered member
    rcases List.mem_cons.mp member with rfl | later
    · exact start
    · have spec := pass state start
      cases outcome : body state with
      | error error => simp [outcome] at later
      | ok ending =>
        cases ending with
        | stop result => simp [outcome] at later
        | again next =>
          simp only [outcome, PassSpec] at spec later
          exact ih spec.1 entered later

end Loop

/-- A computation under a function succeeds where the computation does. -/
theorem map_eq_ok {Error : Type u} {Value : Type v} {Result : Type w} {source : Except Error Value}
    {value : Value → Result} {result : Result} :
    source.map value = .ok result ↔ ∃ produced, source = .ok produced ∧ value produced = result := by
  cases source with
  | error error => simp [Except.map]
  | ok produced => simp [Except.map]

section Fold

variable {Item : Type u} {State : Type v} {Error : Type w}

/-- A property that every successful step of a fold preserves holds of its result. -/
theorem foldlM_invariant {step : State → Item → Except Error State} {motive : State → Prop}
    {items : List Item} {state final : State} (start : motive state)
    (keeps : ∀ state, ∀ item ∈ items, motive state →
      ∀ next, step state item = .ok next → motive next)
    (done : items.foldlM step state = .ok final) : motive final := by
  induction items generalizing state with
  | nil =>
    cases done
    exact start
  | cons item rest ih =>
    rw [List.foldlM_cons] at done
    cases moved : step state item with
    | error error =>
      rw [moved] at done
      cases done
    | ok next =>
      rw [moved] at done
      exact ih (keeps state item List.mem_cons_self start next moved)
        (fun state other member => keeps state other (List.mem_cons_of_mem item member)) done

theorem foldlM_fixed {step : State → Item → Except Error State} {items : List Item}
    {state : State} (fixed : ∀ item ∈ items, step state item = .ok state) :
    items.foldlM step state = .ok state := by
  induction items with
  | nil => rfl
  | cons item rest ih =>
    rw [List.foldlM_cons, fixed item List.mem_cons_self]
    exact ih fun other member => fixed other (List.mem_cons_of_mem item member)

end Fold

section Run

variable {State : Type u} {Label : Type v} {step : State → Label → State → Prop}

/-- A finite run of a labelled step relation. -/
inductive Run (step : State → Label → State → Prop) : State → List Label → State → Prop where
  | nil : Run step state [] state
  | cons (first : step state label next) (rest : Run step next labels final) :
      Run step state (label :: labels) final

/-- The steps of a relation that are taken under a condition on the state before. -/
def Under (step : State → Label → State → Prop) (condition : State → Label → Prop) :
    State → Label → State → Prop :=
  fun state label next => step state label next ∧ condition state label

/-- What every step preserves holds at the end of every run. -/
theorem Run.invariant {motive : State → Prop} {state final : State} {labels : List Label}
    (run : Run step state labels final) (start : motive state)
    (keeps : ∀ state label next, motive state → step state label next → motive next) :
    motive final := by
  induction run with
  | nil => exact start
  | cons first _ ih => exact ih (keeps _ _ _ start first)

theorem Run.append {state middle final : State} {labels labels' : List Label}
    (run : Run step state labels middle) (rest : Run step middle labels' final) :
    Run step state (labels ++ labels') final := by
  induction run with
  | nil => exact rest
  | cons first _ ih => exact .cons first (ih rest)

/-- A run comes past every state in between. -/
theorem Run.split {state final : State} {labels labels' : List Label}
    (run : Run step state (labels ++ labels') final) :
    ∃ middle, Run step state labels middle ∧ Run step middle labels' final := by
  induction labels generalizing state with
  | nil => exact ⟨state, .nil, run⟩
  | cons label labels ih =>
    cases run with
    | cons first rest =>
      obtain ⟨middle, before, behind⟩ := ih rest
      exact ⟨middle, .cons first before, behind⟩

theorem Run.mono {step' : State → Label → State → Prop} {state final : State}
    {labels : List Label} (run : Run step state labels final)
    (weaker : ∀ state label next, step state label next → step' state label next) :
    Run step' state labels final := by
  induction run with
  | nil => exact .nil
  | cons first _ ih => exact .cons (weaker _ _ _ first) ih

/-- Steps that are those of another relation as long as an invariant holds. -/
theorem Run.under_invariant {step' : State → Label → State → Prop} {motive : State → Prop}
    {state final : State} {labels : List Label} (run : Run step state labels final)
    (start : motive state)
    (moves : ∀ state label next, motive state → step state label next →
      step' state label next ∧ motive next) : Run step' state labels final ∧ motive final := by
  induction run with
  | nil => exact ⟨.nil, start⟩
  | cons first _ ih =>
    obtain ⟨moved, kept⟩ := moves _ _ _ start first
    obtain ⟨rest, ending⟩ := ih kept
    exact ⟨.cons moved rest, ending⟩

/-- A run whose labels meet a condition in every state. -/
theorem Run.under {condition : State → Label → Prop} {state final : State} {labels : List Label}
    (run : Run step state labels final)
    (meets : ∀ label ∈ labels, ∀ state, condition state label) :
    Run (Under step condition) state labels final := by
  induction run with
  | nil => exact .nil
  | @cons state label next labels final first _ ih =>
    exact .cons ⟨first, meets label List.mem_cons_self state⟩
      (ih fun other member => meets other (List.mem_cons_of_mem label member))

/-- What the labels so far and the state have in common, step after step. -/
theorem Run.history {motive : List Label → State → Prop} {state final : State}
    {past labels : List Label} (run : Run step state labels final) (start : motive past state)
    (keeps : ∀ past state label next, motive past state → step state label next →
      motive (past ++ [label]) next) : motive (past ++ labels) final := by
  induction run generalizing past with
  | nil => simpa using start
  | @cons state label next labels final first _ ih =>
    have later := ih (keeps past state label next start first)
    simpa using later

/-- Forward simulation: a relation kept by every step, with the same labels on
both sides, is kept by every run. -/
theorem Run.simulate {Abstract : Type w} {abstractStep : Abstract → Label → Abstract → Prop}
    {related : State → Abstract → Prop} {state final : State} {labels : List Label}
    {source : Abstract} (run : Run step state labels final) (start : related state source)
    (simulates : ∀ state label next source, related state source → step state label next →
      ∃ target, abstractStep source label target ∧ related next target) :
    ∃ target, Run abstractStep source labels target ∧ related final target := by
  induction run generalizing source with
  | nil => exact ⟨source, .nil, start⟩
  | cons first _ ih =>
    obtain ⟨middle, moved, near⟩ := simulates _ _ _ _ start first
    obtain ⟨target, rest, ended⟩ := ih near
    exact ⟨target, .cons moved rest, ended⟩

end Run

section Replay

variable {State : Type u} {Input Output : Type v} {Error : Type w}

/-- The steps of a machine that answers every input or fails. -/
def Answers (handle : State → Input → Except Error (State × Output)) (state : State)
    (exchange : Input × Output) (next : State) : Prop :=
  handle state exchange.1 = .ok (next, exchange.2)

/-- The answers to a list of inputs. -/
def replay (handle : State → Input → Except Error (State × Output)) :
    State → List Input → Except Error (State × List Output)
  | state, [] => .ok (state, [])
  | state, input :: rest =>
    match handle state input with
    | .error error => .error error
    | .ok (next, output) =>
      (replay handle next rest).map fun final => (final.1, output :: final.2)

/-- A machine has one run for each list of inputs it answers. -/
theorem run_iff_replay {handle : State → Input → Except Error (State × Output)}
    {state final : State} {exchanges : List (Input × Output)} :
    Run (Answers handle) state exchanges final ↔
      replay handle state (exchanges.map Prod.fst) = .ok (final, exchanges.map Prod.snd) := by
  induction exchanges generalizing state with
  | nil =>
    constructor
    · rintro ⟨⟩
      rfl
    · intro done
      cases done
      exact .nil
  | cons exchange rest ih =>
    constructor
    · rintro (_ | ⟨first, later⟩)
      have first : handle state exchange.1 = .ok (_, exchange.2) := first
      simp only [List.map_cons, replay, first, ih.mp later]
      rfl
    · intro done
      simp only [List.map_cons, replay] at done
      cases first : handle state exchange.1 with
      | error error =>
        rw [first] at done
        cases done
      | ok answer =>
        obtain ⟨next, output⟩ := answer
        rw [first] at done
        simp only at done
        cases later : replay handle next (rest.map Prod.fst) with
        | error error =>
          rw [later] at done
          cases done
        | ok ending =>
          rw [later] at done
          simp only [Except.map, Except.ok.injEq, Prod.mk.injEq, List.cons.injEq] at done
          obtain ⟨rfl, rfl, outputs⟩ := done
          refine .cons first (ih.mpr ?_)
          rw [later, ← outputs]

/-- The outputs of a replay are one for each input. -/
theorem replay_length {handle : State → Input → Except Error (State × Output)}
    {state : State} {inputs : List Input} {final : State × List Output}
    (done : replay handle state inputs = .ok final) : final.2.length = inputs.length := by
  induction inputs generalizing state final with
  | nil =>
    cases done
    rfl
  | cons input rest ih =>
    simp only [replay] at done
    cases first : handle state input with
    | error error =>
      rw [first] at done
      cases done
    | ok answer =>
      rw [first] at done
      simp only at done
      cases later : replay handle answer.1 rest with
      | error error =>
        rw [later] at done
        cases done
      | ok ending =>
        rw [later] at done
        cases done
        simp [ih later]

/-- A replay, with something to be seen of its final state, is a run. -/
theorem replay_run {Value : Type v} (handle : State → Input → Except Error (State × Output))
    (state : State) (inputs : List Input) (outputs : List Output) (probe : State → Value)
    (value : Value)
    (seen : (replay handle state inputs).map (fun final => (final.2, probe final.1)) =
      .ok (outputs, value)) :
    ∃ final, Run (Answers handle) state (inputs.zip outputs) final ∧ probe final = value := by
  cases done : replay handle state inputs with
  | error error =>
    rw [done] at seen
    cases seen
  | ok ending =>
    have length := replay_length done
    rw [done] at seen
    cases seen
    refine ⟨ending.1, run_iff_replay.mpr ?_, rfl⟩
    rw [List.map_fst_zip (Nat.le_of_eq length.symm), List.map_snd_zip (Nat.le_of_eq length), done]

/-- A replay that succeeds is a run, of which the replay shows what is asked for. -/
theorem replay_reaches {Value : Type v} (handle : State → Input → Except Error (State × Output))
    (state : State) (inputs : List Input) (probe : State → List (Input × Output) → Value)
    (value : Value)
    (seen : (replay handle state inputs).map (fun final => probe final.1 (inputs.zip final.2)) =
      .ok value) :
    ∃ labels final, Run (Answers handle) state labels final ∧ probe final labels = value := by
  obtain ⟨ending, done, shown⟩ := map_eq_ok.mp seen
  have length := replay_length done
  refine ⟨inputs.zip ending.2, ending.1, run_iff_replay.mpr ?_, shown⟩
  rw [List.map_fst_zip (Nat.le_of_eq length.symm), List.map_snd_zip (Nat.le_of_eq length), done]

/-- A machine that stops before an input that does not meet a condition. -/
def guarded (handle : State → Input → Except Error (State × Output))
    (condition : State → Input → Prop) [∀ state input, Decidable (condition state input)]
    (state : State) (input : Input) : Except (Option Error) (State × Output) :=
  if condition state input then (handle state input).mapError some else .error none

theorem run_guarded {handle : State → Input → Except Error (State × Output)}
    {condition : State → Input → Prop} [∀ state input, Decidable (condition state input)]
    {state final : State} {labels : List (Input × Output)}
    (run : Run (Answers (guarded handle condition)) state labels final) :
    Run (Under (Answers handle) fun state label => condition state label.1) state labels final := by
  refine run.mono fun state label next step => ?_
  have step : guarded handle condition state label.1 = .ok (next, label.2) := step
  unfold guarded at step
  split at step
  · rename_i meets
    refine ⟨?_, meets⟩
    show handle state label.1 = .ok (next, label.2)
    cases done : handle state label.1 with
    | error error =>
      rw [done] at step
      cases step
    | ok answer =>
      rw [done] at step
      cases step
      rfl
  · cases step

end Replay

section Collect

variable {State : Type u} {Item : Type v} {next : State → Option (Item × State)}
  {measure : State → Nat}

/-- What `next` yields until it yields nothing, with what is left behind each item. -/
def collect (next : State → Option (Item × State)) : Nat → State → List (Item × State)
  | 0, _ => []
  | fuel + 1, state =>
    match next state with
    | none => []
    | some (item, rest) => (item, rest) :: collect next fuel rest

/-- Fuel for every step that a measure allows. -/
def collectAll (next : State → Option (Item × State)) (measure : State → Nat) (state : State) :
    List (Item × State) :=
  collect next (measure state + 1) state

theorem collect_fuel
    (shrinks : ∀ state item rest, next state = some (item, rest) → measure rest < measure state)
    {fuel fuel' : Nat} {state : State} (enough : measure state < fuel)
    (enough' : measure state < fuel') : collect next fuel state = collect next fuel' state := by
  induction fuel generalizing state fuel' with
  | zero => exact absurd enough (Nat.not_lt_zero _)
  | succ fuel ih =>
    cases fuel' with
    | zero => exact absurd enough' (Nat.not_lt_zero _)
    | succ fuel' =>
      simp only [collect]
      cases yielded : next state with
      | none => rfl
      | some result =>
        have less := shrinks state result.1 result.2 yielded
        simp only
        rw [ih (Nat.lt_of_lt_of_le less (Nat.le_of_lt_succ enough))
          (Nat.lt_of_lt_of_le less (Nat.le_of_lt_succ enough'))]

theorem collectAll_none {state : State} (none : next state = none) :
    collectAll next measure state = [] := by
  simp [collectAll, collect, none]

theorem collectAll_some
    (shrinks : ∀ state item rest, next state = some (item, rest) → measure rest < measure state)
    {state rest : State} {item : Item} (yielded : next state = some (item, rest)) :
    collectAll next measure state = (item, rest) :: collectAll next measure rest := by
  have less := shrinks state item rest yielded
  calc collectAll next measure state
      = (item, rest) :: collect next (measure state) rest := by
        simp only [collectAll, collect, yielded]
    _ = (item, rest) :: collectAll next measure rest :=
        congrArg _ (collect_fuel shrinks less (Nat.lt_succ_self _))

end Collect

end QNXStuff.Execution
