import QNXStuff.QXAvird.Reloads

/-! Runs of Qavird: its engines are accounted for exactly while no reload replaces an engine that it
has not read, which holds where reloads do not overlap. -/

namespace QNXStuff.QXAvird

open Execution SharedLock

namespace Qavird

variable {Thread : Type} {state after : Qavird Thread} {thread : Thread} {input : AvInput Thread}
  {root : Node} {info : QavirdInfo}

theorem started_sound [Fintype Thread] (root : Node) (info : QavirdInfo) :
    (started root info : Qavird Thread).Sound where
  excludes := excludes_free fun _ => rfl
  accounted := by
    intro node
    have none : census (owns node) (fun _ : Thread => .idle) = 0 := census_zero fun _ => rfl
    by_cases same : node = root
    · subst same
      simp [none, started]
    · simp [none, started, Function.update_of_ne same, Ne.symm same]
  scans := nofun
  drafts := nofun
  current := ⟨info.signum, by simp [started], nofun, fun _ => rfl⟩

/-! ### What the threads meet -/

theorem clFree_not_wild [DecidableEq Thread] {node : Node} {answer : Answer}
    (live : state.engines node ≠ none) :
    ((state.clFree node).bind fun state => state.reply thread answer) ≠ .error .wild := by
  unfold clFree
  rw [if_neg live]
  nofun

theorem Sound.owned_live [Fintype Thread] [DecidableEq Thread] (sound : state.Sound)
    {phase : AvThread} {node : Node} (here : state.threads thread = phase)
    (mine : phase.owned = some node) :
    state.engines node ≠ none :=
  (sound.accounted.only (here ▸ mine : (state.threads thread).owned = some node)).2.1

/-- A scan uses the current engine, which is built. -/
theorem Sound.scanned [Fintype Thread] (sound : state.Sound) {node : Node} {size : Nat}
    (here : state.threads thread = .scanning node size) :
    node = state.clRootNode ∧ ∃ signum, state.engines node = some ⟨signum, true⟩ := by
  have same : node = state.clRootNode := sound.scans thread node (by rw [here]; rfl)
  obtain ⟨signum, live, -⟩ := sound.current
  exact ⟨same, signum, same ▸ live⟩

/-- Without a reload under way only the current engine is allocated. -/
theorem Sound.only_current [Fintype Thread] (sound : state.Sound)
    (quiet : ∀ thread, (state.threads thread).owned = none) (node : Node) :
    state.engines node ≠ none ↔ node = state.clRootNode := by
  have whole := sound.accounted node
  have zero : census (owns node) state.threads = 0 := by
    refine census_zero fun thread => if_neg ?_
    rw [quiet thread]
    nofun
  rw [zero] at whole
  constructor
  · intro live
    rw [if_neg live] at whole
    by_contra apart
    rw [if_neg (Ne.symm apart)] at whole
    cases whole
  · rintro rfl gone
    rw [if_pos rfl, if_pos gone] at whole
    cases whole

/-! ### Reloads that do not overlap -/

/-- At most one call is going to replace an engine, and that is the current one. -/
structure Lone (state : Qavird Thread) : Prop where
  current : ∀ thread node, (state.threads thread).reads = some node → node = state.clRootNode
  alone : ∀ thread other, (state.threads thread).reads ≠ none →
    (state.threads other).reads ≠ none → thread = other

theorem started_lone (root : Node) (info : QavirdInfo) :
    (started root info : Qavird Thread).Lone where
  current := nofun
  alone := fun _ _ reads => absurd rfl reads

/-- A thread that goes on with what it has read, or with nothing. -/
theorem Lone.move [DecidableEq Thread] (lone : state.Lone) {engines : Node → Option Engine} {info : QavirdInfo}
    {now : AvThread}
    (reads : ∀ node, now.reads = some node → (state.threads thread).reads = some node) :
    ({ state with engines := engines, stateInfo := info }.move thread now).Lone := by
  have kept : ∀ other node, (Function.update state.threads thread now other).reads = some node →
      (state.threads other).reads = some node := by
    intro other node here
    by_cases same : other = thread
    · subst same
      rw [Function.update_self] at here
      exact reads node here
    · rwa [Function.update_of_ne same] at here
  have some' : ∀ other, (Function.update state.threads thread now other).reads ≠ none →
      (state.threads other).reads ≠ none := by
    intro other here
    obtain ⟨node, held⟩ := Option.ne_none_iff_exists'.mp here
    rw [kept other node held]
    nofun
  exact {
    current := fun other node here => lone.current other node (kept other node here)
    alone := fun first second here there => lone.alone first second (some' first here)
      (some' second there) }

theorem Lone.step [DecidableEq Thread] (lone : state.Lone) {event : AvEvent Thread}
    (does : Does state input event after)
    (alone : state.Alone input) : after.Lone := by
  cases does with
  | walks unscanned walks => exact lone.move walks.reads
  | @begins garbage info asked idle =>
    rw [asked] at alone
    have mine : ∀ other node,
        (Function.update state.threads input.thread (.loading state.clRootNode info) other).reads =
          some node → other = input.thread ∧ node = state.clRootNode := by
      intro other node here
      by_cases same : other = input.thread
      · rw [same, Function.update_self] at here
        cases here
        exact ⟨same, rfl⟩
      · rw [Function.update_of_ne same, alone other] at here
        cases here
    constructor
    · exact fun other node here => (mine other node here).2
    · intro first second here there
      obtain ⟨_, held⟩ := Option.ne_none_iff_exists'.mp here
      obtain ⟨_, held'⟩ := Option.ne_none_iff_exists'.mp there
      exact (mine first _ held).1.trans (mine second _ held').1.symm
  | loads here fresh => exact lone.move (here ▸ fun _ => id)
  | builds here held => exact lone.move (here ▸ fun _ => id)
  | frees unscanned mine quits live => exact lone.move nofun
  | @switches oldNode newNode info here =>
    have mine : (state.threads input.thread).reads ≠ none := by
      rw [here]
      nofun
    have others : ∀ other,
        (Function.update state.threads input.thread (.carrying oldNode info) other).reads = none := by
      intro other
      by_cases same : other = input.thread
      · rw [same, Function.update_self]
        rfl
      · rw [Function.update_of_ne same]
        by_contra reads
        exact same (lone.alone other input.thread reads mine)
    constructor
    · intro other node here
      exact absurd ((others other).symm.trans here) nofun
    · exact fun first second here => absurd (others first) here
  | stores here => exact lone.move nofun
  | finds here => exact lone.move nofun
  | finishes here => exact lone.move nofun
  | answers here => exact lone.move nofun

/-! ### Runs -/

variable [Fintype Thread] [DecidableEq Thread]

instance {input : AvInput Thread} : Decidable (state.Alone input) :=
  match input with
  | .reload _ _ => inferInstanceAs (Decidable (∀ other, (state.threads other).reads = none))
  | .info .. | .scanFile .. | .other .. | .scan .. | .load .. | .build .. | .header .. | .time ..
  | .goOn .. => isTrue trivial

theorem Sound.next {label : AvLabel Thread} (sound : state.Sound) (step : AvStep state label after)
    (calm : state.Calm label.1) : after.Sound := by
  refine sound.step (handle_does step) fun oldNode newNode info here => ?_
  obtain ⟨input, event⟩ := label
  cases input with
  | goOn thread => exact calm oldNode newNode info here
  | _ =>
    -- no other input comes to a thread that switches
    simp only [AvInput.thread] at here
    simp [Answers, handle, here] at step

/-- A reload that replaces another engine than it frees: one is left to nobody. -/
theorem Sound.calm_of_accounted {label : AvLabel Thread} (sound : state.Sound)
    (step : AvStep state label after) (accounted : after.Accounted) : state.Calm label.1 := by
  obtain ⟨input, event⟩ := label
  cases input with
  | goOn thread =>
    intro oldNode newNode info here
    simp only [Answers, handle, goOn, here] at step
    rw [(quiet_eq_ok step).1] at accounted
    have balance := (sound.accounted.move_iff here).mp accounted oldNode
    simp only [owns, AvThread.owned, if_true, Option.some.injEq] at balance
    by_contra apart
    rw [if_neg (Ne.symm apart)] at balance
    omega
  | _ => trivial

abbrev AccountedRun (state : Qavird Thread) (labels : List (AvLabel Thread))
    (final : Qavird Thread) : Prop :=
  Run (Under AvStep fun state _ => state.Accounted) state labels final ∧ final.Accounted

abbrev CalmRun (state : Qavird Thread) (labels : List (AvLabel Thread))
    (final : Qavird Thread) : Prop :=
  Run (Under AvStep fun state label => state.Calm label.1) state labels final

theorem CalmRun.sound {labels : List (AvLabel Thread)} {final : Qavird Thread}
    (run : CalmRun state labels final) (sound : state.Sound) : final.Sound :=
  run.invariant sound fun _ _ _ sound step => sound.next step.1 step.2

theorem CalmRun.accounted {labels : List (AvLabel Thread)} {final : Qavird Thread}
    (run : CalmRun state labels final) (sound : state.Sound) : AccountedRun state labels final := by
  induction run with
  | nil => exact ⟨.nil, sound.accounted⟩
  | cons first rest ih =>
    have later := ih (sound.next first.1 first.2)
    exact ⟨.cons ⟨first.1, sound.accounted⟩ later.1, later.2⟩

theorem AccountedRun.start {labels : List (AvLabel Thread)} {final : Qavird Thread}
    (run : AccountedRun state labels final) : state.Accounted := by
  obtain ⟨run, ended⟩ := run
  cases run with
  | nil => exact ended
  | cons first _ => exact first.2

theorem AccountedRun.calm {labels : List (AvLabel Thread)} {final : Qavird Thread}
    (run : AccountedRun state labels final) (sound : state.Sound) : CalmRun state labels final := by
  obtain ⟨run, ended⟩ := run
  induction run with
  | nil => exact .nil
  | cons first rest ih =>
    have accounted := AccountedRun.start ⟨rest, ended⟩
    have calm := sound.calm_of_accounted first.1 accounted
    exact .cons ⟨first.1, calm⟩ (ih (sound.next first.1 calm) ended)

/-- In a run every engine is the current one or one reload's exactly if no reload replaces another
engine than the one that it has read and frees. -/
theorem engines_accounted_iff (root : Node) (info : QavirdInfo) (labels : List (AvLabel Thread))
    (final : Qavird Thread) :
    AccountedRun (started root info) labels final ↔ CalmRun (started root info) labels final :=
  ⟨fun run => run.calm (started_sound root info), fun run => run.accounted (started_sound root info)⟩

/-- Reloads of which each starts behind the switch of the one before are calm. -/
theorem Lone.calm {labels : List (AvLabel Thread)} {final : Qavird Thread} (lone : state.Lone)
    (run : Run (Under AvStep fun state label => state.Alone label.1) state labels final) :
    CalmRun state labels final := by
  induction run with
  | nil => exact .nil
  | @cons state label next labels final first rest ih =>
    refine .cons ⟨first.1, ?_⟩ (ih (lone.step (handle_does first.1) first.2))
    obtain ⟨input, event⟩ := label
    cases input with
    | goOn thread =>
      intro oldNode newNode info here
      exact lone.current thread oldNode (by rw [here]; rfl)
    | _ => trivial

omit [Fintype Thread] [DecidableEq Thread] in
@[simp] theorem quiet_ne_error {fault : AvFault} : state.quiet ≠ .error fault := by
  unfold quiet
  simp

omit [Fintype Thread] in
@[simp] theorem reply_ne_error {thread : Thread} {answer : Answer} {fault : AvFault} :
    state.reply thread answer ≠ .error fault := by
  unfold reply
  simp

theorem take_not_wild (thread : Thread) (now : AvThread) :
    state.take thread now ≠ .error .wild := by
  unfold take
  split <;> simp

/-- No use and no release of an engine that is not allocated. -/
theorem Sound.not_wild (sound : state.Sound) (input : AvInput Thread) :
    state.handle input ≠ .error .wild := by
  cases input with
  | info thread nbytes =>
    simp only [handle]
    split
    · simp
    · split
      · simp
      · exact take_not_wild _ _
  | scanFile thread nbytes =>
    simp only [handle]
    split
    · simp
    · split
      · simp
      · exact take_not_wild _ _
  | reload thread garbage =>
    simp only [handle]
    split <;> simp
  | other thread =>
    simp only [handle]
    split <;> simp
  | scan thread code virname strerror =>
    cases here : state.threads thread with
    | scanning node size =>
      obtain ⟨-, signum, live⟩ := sound.scanned here
      simp only [handle, here, live]
      simp
    | _ =>
      simp only [handle, here]
      simp
  | load thread result =>
    cases here : state.threads thread with
    | loading oldNode info =>
      cases result with
      | error code =>
        simp only [handle, here]
        simp
      | ok loaded =>
        simp only [handle, here]
        split <;> simp
    | _ =>
      simp only [handle, here]
      simp
  | build thread code =>
    cases here : state.threads thread with
    | building oldNode newNode info =>
      have live := sound.owned_live here rfl
      obtain ⟨engine, held⟩ := Option.ne_none_iff_exists'.mp live
      simp only [handle, here, held]
      split
      · exact clFree_not_wild live
      · simp
    | _ =>
      simp only [handle, here]
      simp
  | header thread cvd =>
    cases here : state.threads thread with
    | mainHeader oldNode newNode info =>
      cases cvd with
      | none =>
        simp only [handle, here]
        exact clFree_not_wild (sound.owned_live here rfl)
      | some cvd =>
        simp only [handle, here]
        simp
    | dailyHeader oldNode newNode info =>
      cases cvd with
      | none =>
        simp only [handle, here]
        exact clFree_not_wild (sound.owned_live here rfl)
      | some cvd =>
        simp only [handle, here]
        simp
    | _ =>
      simp only [handle, here]
      simp
  | time thread now =>
    cases here : state.threads thread with
    | timing oldNode newNode info =>
      simp only [handle, here]
      simp
    | _ =>
      simp only [handle, here]
      simp
  | goOn thread =>
    cases here : state.threads thread with
    | ready oldNode newNode info =>
      simp only [handle, goOn, here]
      exact take_not_wild _ _
    | freeing oldNode =>
      simp only [handle, goOn, here]
      exact clFree_not_wild (sound.owned_live here rfl)
    | _ =>
      simp only [handle, goOn, here]
      simp

/-- Where reloads do not overlap, nothing touches an engine that is not allocated, every scan goes
through the current engine, and between reloads no other engine is allocated. -/
theorem scans_find_their_engine (root : Node) (info : QavirdInfo) (labels : List (AvLabel Thread))
    (final : Qavird Thread)
    (run : Run (Under AvStep fun state label => state.Alone label.1) (started root info) labels
      final) :
    (∀ input, final.handle input ≠ .error .wild) ∧
    (∀ thread node size, final.threads thread = .scanning node size →
      node = final.clRootNode ∧ ∃ signum, final.engines node = some ⟨signum, true⟩) ∧
    ((∀ thread, (final.threads thread).owned = none) →
      ∀ node, final.engines node ≠ none ↔ node = final.clRootNode) := by
  have sound := ((started_lone root info).calm run).sound (started_sound root info)
  exact ⟨sound.not_wild, fun _ _ _ => sound.scanned, sound.only_current⟩

end Qavird

/-- A request that a thread goes on with by itself. -/
def walk (thread : Bool) (steps : Nat) : List (AvInput Bool) := List.replicate steps (.goOn thread)

/-- A reload up to the lock. -/
def prepare (thread : Bool) (newNode : Node) (signum : Int) : List (AvInput Bool) :=
  [.load thread (.ok (newNode, signum)), .build thread 0, .header thread (some ⟨1, 1, 1, 1⟩),
    .header thread (some ⟨2, 2, 2, 2⟩), .time thread 5]

def noInfo : QavirdInfo := ⟨0, 0, 0, 0, 0, 0, 0, 0, 0, 0, 0, 0, 0⟩

/-- One thread scans while the other loads a new engine, and then with the new one. -/
theorem scans_around_a_reload : ∃ labels, ∃ final : Qavird Bool,
    Run (Under AvStep fun state label => state.Alone label.1) (Qavird.started 0 noInfo) labels
      final ∧ final.threads true = .scanning 1 9 ∧
      (∀ input, final.handle input ≠ .error .wild) ∧
      ∀ node, final.engines node ≠ none ↔ node = final.clRootNode := by
  obtain ⟨labels, final, run, seen⟩ := replay_reaches (guarded Qavird.handle Qavird.Alone)
    (Qavird.started 0 noInfo : Qavird Bool)
    ([.scanFile true 9] ++ walk true 1 ++ [.reload false noInfo] ++ prepare false 1 7 ++
      [.scan true 1 [65] []] ++ walk true 3 ++ walk false 6 ++ [.scanFile true 9] ++ walk true 1)
    (fun final _ => (final.threads true, final.threads false)) (.scanning 1 9, .idle)
    (by decide +kernel)
  have run := run_guarded run
  obtain ⟨never, -, single⟩ := Qavird.scans_find_their_engine 0 noInfo labels final run
  have scans : final.threads true = .scanning 1 9 := congrArg Prod.fst seen
  have idle : final.threads false = .idle := congrArg Prod.snd seen
  refine ⟨labels, final, run, scans, never, single fun thread => ?_⟩
  cases thread with
  | false => exact congrArg AvThread.owned idle
  | true => exact congrArg AvThread.owned scans

/-- Two reloads that have both read the first engine free it twice. -/
theorem overlapping_reloads_free_twice : ∃ labels, ∃ final : Qavird Bool,
    Run AvStep (Qavird.started 0 noInfo) labels final ∧
      final.handle (.goOn true) = .error .wild := by
  obtain ⟨labels, final, run, seen⟩ := replay_reaches Qavird.handle
    (Qavird.started 0 noInfo : Qavird Bool)
    ([.reload false noInfo, .reload true noInfo] ++ prepare false 1 7 ++ prepare true 2 8 ++
      walk false 6 ++ walk true 5)
    (fun final _ => (final.threads true, final.engines 0)) (.freeing 0, none) (by decide +kernel)
  refine ⟨labels, final, run, ?_⟩
  have here : final.threads true = .freeing 0 := congrArg Prod.fst seen
  have gone : final.engines 0 = none := congrArg Prod.snd seen
  simp only [Qavird.handle, Qavird.goOn, here, Qavird.clFree, gone, if_true]
  rfl

end QNXStuff.QXAvird
