import QNXStuff.Library.Execution

/-! Computations that are given fuel: what they come to when there is enough of it. -/

namespace QNXStuff.Execution

universe u v

variable {Error : Type u} {Value Result : Type v}

/-- More fuel does not change a result. -/
def Grows (run : Nat → Except Error Value) : Prop :=
  ∀ fuel more value, run fuel = .ok value → fuel ≤ more → run more = .ok value

/-- What a computation comes to, with enough fuel. -/
def Reaches (run : Nat → Except Error Value) (value : Value) : Prop := ∃ fuel, run fuel = .ok value

section Reaching

variable {run : Nat → Except Error Value} {value other : Value}

theorem Grows.unique (grows : Grows run) (first : Reaches run value) (second : Reaches run other) :
    value = other := by
  obtain ⟨fuel, done⟩ := first
  obtain ⟨fuel', done'⟩ := second
  have more := grows fuel (fuel + fuel') value done (Nat.le_add_right fuel fuel')
  have more' := grows fuel' (fuel + fuel') other done' (Nat.le_add_left fuel' fuel)
  exact Except.ok.inj (more.symm.trans more')

theorem Grows.const (source : Except Error Value) : Grows fun _ => source :=
  fun _ _ _ done _ => done

@[simp] theorem reaches_const {source : Except Error Value} :
    Reaches (fun _ => source) value ↔ source = .ok value :=
  ⟨fun reaches => reaches.choose_spec, fun done => ⟨0, done⟩⟩

theorem bind_eq_ok {source : Except Error Value} {next : Value → Except Error Result}
    {result : Result} :
    (source >>= next) = .ok result ↔ ∃ value, source = .ok value ∧ next value = .ok result := by
  cases source with
  | error fault => exact ⟨nofun, nofun⟩
  | ok value =>
    constructor
    · intro done
      exact ⟨value, rfl, done⟩
    · rintro ⟨_, ⟨⟩, done⟩
      exact done

theorem Grows.bind {next : Value → Nat → Except Error Result} (first : Grows run)
    (rest : ∀ value, Grows (next value)) : Grows fun fuel => run fuel >>= (next · fuel) := by
  intro fuel more result done enough
  obtain ⟨value, begun, ended⟩ := bind_eq_ok.mp done
  exact bind_eq_ok.mpr ⟨value, first fuel more value begun enough,
    rest value fuel more result ended enough⟩

theorem Grows.map (grows : Grows run) (change : Value → Result) :
    Grows fun fuel => (run fuel).map change := by
  intro fuel more result done enough
  obtain ⟨value, found, same⟩ := map_eq_ok.mp done
  exact map_eq_ok.mpr ⟨value, grows fuel more value found enough, same⟩

theorem reaches_map {change : Value → Result} {result : Result} :
    Reaches (fun fuel => (run fuel).map change) result ↔
      ∃ value, Reaches run value ∧ change value = result := by
  constructor
  · rintro ⟨fuel, done⟩
    obtain ⟨value, found, same⟩ := map_eq_ok.mp done
    exact ⟨value, ⟨fuel, found⟩, same⟩
  · rintro ⟨value, ⟨fuel, found⟩, same⟩
    exact ⟨fuel, map_eq_ok.mpr ⟨value, found, same⟩⟩

theorem reaches_bind {next : Value → Nat → Except Error Result} {result : Result}
    (first : Grows run) (rest : ∀ value, Grows (next value)) :
    Reaches (fun fuel => run fuel >>= (next · fuel)) result ↔
      ∃ value, Reaches run value ∧ Reaches (next value) result := by
  constructor
  · rintro ⟨fuel, done⟩
    obtain ⟨value, begun, ended⟩ := bind_eq_ok.mp done
    exact ⟨value, ⟨fuel, begun⟩, fuel, ended⟩
  · rintro ⟨value, ⟨fuel, begun⟩, fuel', ended⟩
    refine ⟨fuel + fuel', bind_eq_ok.mpr ⟨value, ?_, ?_⟩⟩
    · exact first fuel _ value begun (Nat.le_add_right fuel fuel')
    · exact rest value fuel' _ result ended (Nat.le_add_left fuel' fuel)

end Reaching

section Loops

variable {State : Type v}

theorem Grows.loop (body : State → Except Error (Pass State Result)) (spent : Error)
    (state : State) : Grows fun fuel => Execution.loop body spent fuel state :=
  fun _ _ _ done enough => loop_more done enough

/-- The passes of a loop that comes to its end. -/
inductive Ends (body : State → Except Error (Pass State Result)) : State → Result → Prop where
  | stop {state result} (done : body state = .ok (.stop result)) : Ends body state result
  | again {state next result} (done : body state = .ok (.again next)) (rest : Ends body next result) :
      Ends body state result

variable {body : State → Except Error (Pass State Result)} {spent : Error} {state : State}
  {result : Result}

theorem reaches_loop :
    Reaches (fun fuel => Execution.loop body spent fuel state) result ↔ Ends body state result := by
  constructor
  · rintro ⟨fuel, done⟩
    induction fuel generalizing state with
    | zero => cases done
    | succ fuel ih =>
      simp only [Execution.loop] at done
      cases pass : body state with
      | error fault =>
        rw [pass] at done
        cases done
      | ok ending =>
        rw [pass] at done
        cases ending with
        | stop stopped =>
          cases done
          exact .stop pass
        | again next => exact .again pass (ih done)
  · intro ends
    induction ends with
    | stop done => exact ⟨1, by simp only [Execution.loop, done]⟩
    | again done _ ih =>
      obtain ⟨fuel, rest⟩ := ih
      exact ⟨fuel + 1, by simp only [Execution.loop, done, rest]⟩

end Loops

end QNXStuff.Execution
