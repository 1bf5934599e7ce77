import QNXStuff.QXAvird.Accounts

/-! The counters of Qavird and what INFO tells: no update is lost in a reload, and no answer is half
of one database and half of another. -/

namespace QNXStuff.QXAvird

open Execution SharedLock

def scansOf {Thread : Type} (labels : List (AvLabel Thread)) : List Answer :=
  labels.filterMap fun label => label.2.scanned?

def Answer.infected (answer : Answer) : Bool := answer.retval = .virus

theorem infected_ite (answer : Answer) :
    (if answer.retval = .virus then 1 else 0) = [answer].countP Answer.infected := by
  by_cases virus : answer.retval = .virus <;> simp [Answer.infected, virus]

theorem shows_of_bases {info info' : QavirdInfo} (same : info'.bases = info.bases)
    {phase : AvThread} (shows : phase.Shows info) : phase.Shows info' := by
  cases phase with
  | copying signum virfound => exact shows.trans (congrArg QavirdInfo.signum same).symm
  | informed data => exact shows.trans same.symm
  | _ => trivial

theorem shows_of_free {info : QavirdInfo} {phase : AvThread} (free : phase.hold = .free) :
    phase.Shows info := by
  cases phase <;> trivial

theorem saved_locked (phase : AvThread) (seen : phase.saved ≠ none) : phase.hold = .exclusive := by
  cases phase <;> first | rfl | exact absurd rfl seen

theorem tally_of_owned {phase : AvThread} {node : Node} (mine : phase.owned = some node) :
    phase.tally = (0, 0) := by
  cases phase <;> first | rfl | cases mine

namespace Qavird

variable {Thread : Type} [Fintype Thread] {state after : Qavird Thread} {thread : Thread}
  {input : AvInput Thread} {labels : List (AvLabel Thread)} {start : QavirdInfo}

/-- The scans that are counted are those answered and those to be answered. -/
structure Tallied (start : QavirdInfo) (labels : List (AvLabel Thread)) (state : Qavird Thread) :
    Prop where
  excludes : Excludes AvThread.hold state.threads
  saved : Watches AvThread.saved state.threads state.stateInfo.kept
  found : ∀ thread answer, state.threads thread = .found answer → answer.retval = .virus
  shows : ∀ thread, (state.threads thread).Shows state.stateInfo
  fdone : state.stateInfo.fdone = UInt32.ofNat ((scansOf labels).length +
    census (fun phase => phase.tally.2) state.threads)
  virfound : state.stateInfo.virfound = UInt32.ofNat ((scansOf labels).countP Answer.infected +
    census (fun phase => phase.tally.1) state.threads)
  startup : state.stateInfo.startup = start.startup

theorem started_tallied (root : Node) (info : QavirdInfo) :
    (started root info : Qavird Thread).Tallied info [] := by
  have none (weight : AvThread → Nat) (idle : weight .idle = 0) :
      census weight (started root info : Qavird Thread).threads = 0 := census_zero fun _ => idle
  constructor
  · exact excludes_free fun _ => rfl
  · nofun
  · nofun
  · exact fun _ => trivial
  · rw [none _ rfl]
    rfl
  · rw [none _ rfl]
    rfl
  · rfl

variable [DecidableEq Thread]

/-- The numbers behind a step that counts `more` scans and infected ones. -/
theorem Tallied.next (tallied : state.Tallied start labels) {now : AvThread} {root : Node}
    {engines : Node → Option Engine} {info : QavirdInfo} {event : AvEvent Thread}
    (excludes : Excludes AvThread.hold (Function.update state.threads thread now))
    (saved : Watches AvThread.saved (Function.update state.threads thread now) info.kept)
    (found : ∀ answer, now = .found answer → answer.retval = .virus)
    (shows : ∀ other, (Function.update state.threads thread now other).Shows info)
    (startup : info.startup = state.stateInfo.startup) (more infected : Nat)
    (fdone : info.fdone = state.stateInfo.fdone + UInt32.ofNat more)
    (virfound : info.virfound = state.stateInfo.virfound + UInt32.ofNat infected)
    (balance : now.tally.2 + event.scanned?.toList.length =
      (state.threads thread).tally.2 + more)
    (balance' : now.tally.1 + event.scanned?.toList.countP Answer.infected =
      (state.threads thread).tally.1 + infected) :
    ({ clRootNode := root, engines := engines, stateInfo := info,
       threads := Function.update state.threads thread now } : Qavird Thread).Tallied start
      (labels ++ [(input, event)]) := by
  have scans : scansOf (labels ++ [(input, event)]) = scansOf labels ++ event.scanned?.toList := by
    simp only [scansOf, List.filterMap_append, List.filterMap_cons, List.filterMap_nil]
    cases event.scanned? <;> rfl
  have moved := census_move (fun phase => phase.tally.2) state.threads thread now
  have moved' := census_move (fun phase => phase.tally.1) state.threads thread now
  constructor
  · exact excludes
  · exact saved
  · intro other answer here
    by_cases same : other = thread
    · subst same
      exact found answer (by simpa using here)
    · exact tallied.found other answer (by simpa [Function.update_of_ne same] using here)
  · exact shows
  · dsimp only
    rw [fdone, tallied.fdone, ← UInt32.ofNat_add, scans, List.length_append]
    congr 1
    omega
  · dsimp only
    rw [virfound, tallied.virfound, ← UInt32.ofNat_add, scans, List.countP_append]
    congr 1
    omega
  · exact startup.trans tallied.startup

/-- A step that leaves `state_info` alone and counts nothing. -/
theorem Tallied.pass (tallied : state.Tallied start labels) {now : AvThread} {root : Node}
    {engines : Node → Option Engine} {event : AvEvent Thread}
    (fair : now.hold = (state.threads thread).hold ∨ now.hold = .free ∨
      MayTake AvThread.hold state.threads now.hold)
    (saved : ∀ kept, now.saved = some kept → kept = state.stateInfo.kept)
    (found : ∀ answer, now = .found answer → answer.retval = .virus)
    (shows : now.Shows state.stateInfo) (tally : now.tally = (state.threads thread).tally)
    (unscanned : event.scanned? = none) :
    ({ clRootNode := root, engines := engines, stateInfo := state.stateInfo,
       threads := Function.update state.threads thread now } : Qavird Thread).Tallied start
      (labels ++ [(input, event)]) := by
  refine tallied.next (tallied.excludes.move fair)
    (tallied.saved.move fun kept here => .inl (saved kept here)) found
    (all_move shows tallied.shows) rfl 0 0 (by simp) (by simp) ?_ ?_
  · rw [tally, unscanned]
    rfl
  · rw [tally, unscanned]
    rfl

theorem Tallied.step {event : AvEvent Thread} (tallied : state.Tallied start labels)
    (does : Does state input event after) : after.Tallied start (labels ++ [(input, event)]) := by
  cases does with
  | walks unscanned walks =>
    exact tallied.pass walks.hold walks.saved walks.found (walks.shows (tallied.shows _))
      walks.tally unscanned
  | begins asked idle =>
    exact tallied.pass (.inr (.inl rfl)) (by rintro _ ⟨⟩) (by rintro _ ⟨⟩) trivial (idle ▸ rfl) rfl
  | loads here fresh =>
    exact tallied.pass (.inr (.inl rfl)) (by rintro _ ⟨⟩) (by rintro _ ⟨⟩) trivial (here ▸ rfl) rfl
  | builds here held =>
    exact tallied.pass (.inr (.inl rfl)) (by rintro _ ⟨⟩) (by rintro _ ⟨⟩) trivial (here ▸ rfl) rfl
  | frees unscanned mine quits live =>
    exact tallied.pass (.inr (.inl rfl)) (by rintro _ ⟨⟩) (by rintro _ ⟨⟩) trivial
      (tally_of_owned mine).symm unscanned
  | switches here =>
    exact tallied.pass (.inl (here ▸ rfl)) (by rintro _ ⟨⟩) (by rintro _ ⟨⟩) trivial (here ▸ rfl) rfl
  | @stores oldNode info here =>
    have mine : (state.threads input.thread).hold = .exclusive := by rw [here]; rfl
    have kept : info.kept = state.stateInfo.kept :=
      tallied.saved input.thread info.kept (by rw [here]; rfl)
    simp only [QavirdInfo.kept, Prod.mk.injEq] at kept
    refine tallied.next (tallied.excludes.move (.inl (by rw [here]; rfl)))
      (Watches.write tallied.excludes mine (fun phase seen => ?_) rfl _) (by rintro _ ⟨⟩) ?_ kept.2.2 0 0
      (by simpa using kept.2.1) (by simpa using kept.1) (by rw [here]; rfl) (by rw [here]; rfl)
    · rw [saved_locked phase seen]
      simp
    · -- nobody else has the lock
      intro other
      by_cases same : other = input.thread
      · rw [same, Function.update_self]
        trivial
      · rw [Function.update_of_ne same]
        exact shows_of_free (tallied.excludes.alone mine same)
  | @finds answer here =>
    have mine : (state.threads input.thread).hold = .shared := by rw [here]; rfl
    have virus := tallied.found _ _ here
    refine tallied.next (tallied.excludes.move (.inl (by rw [here]; rfl)))
      (Watches.beside tallied.excludes mine saved_locked rfl _) (by rintro _ ⟨⟩)
      (all_move trivial fun other => shows_of_bases rfl (tallied.shows other)) rfl 0 1
      (by simp) rfl (by rw [here]; rfl) ?_
    rw [here]
    simp [AvThread.tally, virus, AvEvent.scanned?]
  | @finishes answer here =>
    have mine : (state.threads input.thread).hold = .shared := by rw [here]; rfl
    exact tallied.next (tallied.excludes.move (.inl (by rw [here]; rfl)))
      (Watches.beside tallied.excludes mine saved_locked rfl _) (by rintro _ ⟨⟩)
      (all_move trivial fun other => shows_of_bases rfl (tallied.shows other)) rfl 1 0
      rfl (by simp) (by rw [here]; rfl) (by rw [here]; rfl)
  | @answers answer here =>
    refine tallied.next (tallied.excludes.move (.inr (.inl rfl)))
      (tallied.saved.move (by rintro _ ⟨⟩)) (by rintro _ ⟨⟩)
      (all_move trivial tallied.shows) rfl 0 0 (by simp) (by simp) (by rw [here]; rfl) ?_
    rw [here]
    simp only [AvThread.tally, AvEvent.scanned?, Option.toList_some, infected_ite]
    omega

theorem run_tallied {root : Node} {info : QavirdInfo} {final : Qavird Thread}
    (run : Run AvStep (started root info) labels final) : final.Tallied info labels := by
  have done := run.history (motive := fun labels state => state.Tallied info labels)
    (started_tallied root info)
    fun past state label next tallied step => tallied.step (handle_does step)
  simpa using done

/-- In every run, whatever is reloaded meanwhile, `fdone` is the number of scans that were answered or
are counted in it, `virfound` that of the infected ones that were answered or are counted there, and
`startup` is what it was. A scan is counted in `virfound` first. -/
theorem counters_count_scans (root : Node) (info : QavirdInfo) (labels : List (AvLabel Thread))
    (final : Qavird Thread) (run : Run AvStep (started root info) labels final) :
    final.stateInfo.fdone = UInt32.ofNat ((scansOf labels).length +
        census (fun phase => phase.tally.2) final.threads) ∧
      final.stateInfo.virfound = UInt32.ofNat ((scansOf labels).countP Answer.infected +
        census (fun phase => phase.tally.1) final.threads) ∧
      final.stateInfo.startup = info.startup :=
  ⟨(run_tallied run).fdone, (run_tallied run).virfound, (run_tallied run).startup⟩

/-- Where reloads do not overlap, what an INFO call has copied, whatever scans and reloads go on
meanwhile, is of the database in use: what `state_info` says of it apart from the counters, with as
many signatures as the current engine has. -/
theorem info_is_of_current_engine (root : Node) (info : QavirdInfo) (labels : List (AvLabel Thread))
    (final : Qavird Thread)
    (run : Run (Under AvStep fun state label => state.Alone label.1) (started root info) labels
      final)
    (thread : Thread) (data : QavirdInfo) (here : final.threads thread = .informed data) :
    data.bases = final.stateInfo.bases ∧ data.startup = info.startup ∧
      ∃ engine, final.engines final.clRootNode = some engine ∧ data.signum = engine.signum := by
  have tallied := run_tallied (run.mono fun _ _ _ step => step.1)
  obtain ⟨signum, live, -, told⟩ :=
    (((started_lone root info).calm run).sound (started_sound root info)).current
  have bases : data.bases = final.stateInfo.bases := by
    have shows := tallied.shows thread
    rw [here] at shows
    exact shows
  have reads : (final.threads thread).hold = .shared := by rw [here]; rfl
  refine ⟨bases, (congrArg QavirdInfo.startup bases).trans tallied.startup, _, live, ?_⟩
  refine (congrArg QavirdInfo.signum bases).trans (told fun other => ?_)
  have never := tallied.excludes.no_writer reads other
  cases phase : final.threads other with
  | carrying | storing =>
    rw [phase] at never
    exact absurd rfl never
  | _ => rfl

end Qavird

/-- A scan is counted and one is answered while an engine is exchanged. -/
theorem counters_across_a_reload : ∃ labels, ∃ final : Qavird Bool,
    Run AvStep (Qavird.started 0 noInfo) labels final ∧
      (scansOf labels).map Answer.retval = [.virus] ∧ final.threads true = .counted ⟨.clean, []⟩ ∧
      final.stateInfo.fdone = UInt32.ofNat ((scansOf labels).length +
        census (fun phase => phase.tally.2) final.threads) := by
  obtain ⟨labels, final, run, seen⟩ := replay_reaches Qavird.handle
    (Qavird.started 0 noInfo : Qavird Bool)
    ([.scanFile true 9] ++ walk true 1 ++ [.reload false noInfo] ++ prepare false 1 7 ++
      [.scan true 1 [65] []] ++ walk true 3 ++ walk false 6 ++ [.scanFile true 9] ++ walk true 1 ++
      [.scan true 0 [] []] ++ walk true 1)
    (fun final labels => ((scansOf labels).map Answer.retval, final.threads true))
    ([.virus], .counted ⟨.clean, []⟩) (by decide +kernel)
  exact ⟨labels, final, run, congrArg Prod.fst seen, congrArg Prod.snd seen,
    (Qavird.counters_count_scans 0 noInfo labels final run).1⟩

/-- INFO behind a reload, beside a scan. -/
theorem info_beside_a_scan : ∃ labels, ∃ final : Qavird Bool, ∃ data,
    Run (Under AvStep fun state label => state.Alone label.1) (Qavird.started 0 noInfo) labels
      final ∧ final.threads false = .informed data ∧ data.mVer = 1 ∧
      ∃ engine, final.engines final.clRootNode = some engine ∧ data.signum = engine.signum := by
  obtain ⟨labels, final, run, seen⟩ := replay_reaches (guarded Qavird.handle Qavird.Alone)
    (Qavird.started 0 noInfo : Qavird Bool)
    ([.reload false noInfo] ++ prepare false 1 7 ++ walk false 6 ++ [.scanFile true 9, .info false 52] ++
      walk true 1 ++ walk false 1 ++ [.scan true 1 [65] []] ++ walk true 2 ++ walk false 1)
    (fun final _ => final.threads false) (.informed ⟨7, 0, 1, 0, 5, 1, 1, 1, 1, 2, 2, 2, 2⟩)
    (by decide +kernel)
  have run := run_guarded run
  have told := Qavird.info_is_of_current_engine 0 noInfo labels final run false _ seen
  exact ⟨labels, final, _, run, seen, rfl, told.2.2⟩

end QNXStuff.QXAvird
