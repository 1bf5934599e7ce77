import QNXStuff.QXAvird.Engines

/-! What a reload does to the engine that others scan with, in every order of the threads' steps. -/

namespace QNXStuff.QXAvird

open Execution SharedLock

/-- What a reload keeps of `state_info`. -/
def QavirdInfo.kept (info : QavirdInfo) : UInt32 × UInt32 × Int :=
  (info.virfound, info.fdone, info.startup)

/-- What scans do not change of `state_info`. -/
def QavirdInfo.bases (info : QavirdInfo) : QavirdInfo := { info with virfound := 0, fdone := 0 }

namespace AvThread

/-- The engine that a call has to install or to free. -/
def owned : AvThread → Option Node
  | .building _ newNode _ | .mainHeader _ newNode _ | .dailyHeader _ newNode _ => some newNode
  | .timing _ newNode _ | .ready _ newNode _ | .switching _ newNode _ => some newNode
  | .carrying oldNode _ | .storing oldNode _ | .stored oldNode | .freeing oldNode => some oldNode
  | _ => none

/-- The engine that a call has loaded, as it is by then. -/
def draft : AvThread → Option (Node × Engine)
  | .building _ newNode info => some (newNode, ⟨info.signum, false⟩)
  | .mainHeader _ newNode info | .dailyHeader _ newNode info | .timing _ newNode info
  | .ready _ newNode info | .switching _ newNode info => some (newNode, ⟨info.signum, true⟩)
  | _ => none

def scanner : AvThread → Option Node
  | .scanning node _ => some node
  | _ => none

/-- The signatures of an engine that is installed while `state_info` tells about another one. -/
def carried : AvThread → Option Int
  | .carrying _ info | .storing _ info => some info.signum
  | _ => none

/-- The engine that a call has found and is going to replace. -/
def reads : AvThread → Option Node
  | .loading oldNode _ | .building oldNode _ _ | .mainHeader oldNode _ _ => some oldNode
  | .dailyHeader oldNode _ _ | .timing oldNode _ _ | .ready oldNode _ _ => some oldNode
  | .switching oldNode _ _ => some oldNode
  | _ => none

/-- What a scan has counted, in `virfound` and in `fdone`, and not yet answered. -/
def tally : AvThread → Nat × Nat
  | .scanned answer => (if answer.retval = .virus then 1 else 0, 0)
  | .counted answer => (if answer.retval = .virus then 1 else 0, 1)
  | _ => (0, 0)

/-- What a reload has copied from `state_info`. -/
def saved : AvThread → Option (UInt32 × UInt32 × Int)
  | .storing _ info => some info.kept
  | _ => none

/-- The engine that a call has loaded is in memory. -/
def Prepared (engines : Node → Option Engine) (phase : AvThread) : Prop :=
  ∀ node engine, phase.draft = some (node, engine) → engines node = some engine

/-- What a call has copied of `state_info` is still there. -/
def Shows (info : QavirdInfo) : AvThread → Prop
  | .copying signum _ => signum = info.signum
  | .informed data => data.bases = info.bases
  | _ => True

/-- An engine that a call has installed has as many signatures as the call has counted. -/
def Carries (signum : Int) (phase : AvThread) : Prop :=
  ∀ found, phase.carried = some found → found = signum

end AvThread

/-- Whether a thread has to install or to free the engine. -/
def owns (node : Node) (phase : AvThread) : Nat := if phase.owned = some node then 1 else 0

namespace Qavird

variable {Thread : Type} {state after : Qavird Thread} {thread : Thread}

/-- Every engine that is allocated is the current one or belongs to one reload, and nothing else
does. -/
def Accounted [Fintype Thread] (state : Qavird Thread) : Prop :=
  ∀ node, (if state.clRootNode = node then 1 else 0) + census (owns node) state.threads =
    if state.engines node = none then 0 else 1

/-- The engine that a reload replaces is the one that it has read at its start. -/
def Calm (state : Qavird Thread) : AvInput Thread → Prop
  | .goOn thread => ∀ oldNode newNode info,
      state.threads thread = .switching oldNode newNode info → oldNode = state.clRootNode
  | _ => True

/-- No reload starts while another one has not yet installed its engine. -/
def Alone (state : Qavird Thread) : AvInput Thread → Prop
  | .reload _ _ => ∀ other, (state.threads other).reads = none
  | _ => True

/-- What the threads rely on. -/
structure Sound [Fintype Thread] (state : Qavird Thread) : Prop where
  excludes : Excludes AvThread.hold state.threads
  accounted : state.Accounted
  scans : Watches AvThread.scanner state.threads state.clRootNode
  drafts : ∀ thread, (state.threads thread).Prepared state.engines
  current : ∃ signum, state.engines state.clRootNode = some ⟨signum, true⟩ ∧
    (∀ thread, (state.threads thread).Carries signum) ∧
    ((∀ thread, (state.threads thread).carried = none) → state.stateInfo.signum = signum)

section

variable [Fintype Thread]

/-- `state_info` gets new counters. -/
theorem Sound.count (sound : state.Sound) (info : QavirdInfo)
    (same : info.signum = state.stateInfo.signum) : { state with stateInfo := info }.Sound where
  excludes := sound.excludes
  accounted := sound.accounted
  scans := sound.scans
  drafts := sound.drafts
  current := by
    obtain ⟨signum, live, carried, told⟩ := sound.current
    exact ⟨signum, live, carried, fun none => same.trans (told none)⟩

/-- While a thread has the lock for itself, no other carries anything. -/
theorem Sound.carried_alone (sound : state.Sound) (mine : (state.threads thread).hold = .exclusive)
    {other : Thread} (apart : other ≠ thread) : (state.threads other).carried = none := by
  have free := sound.excludes.alone mine apart
  cases here : state.threads other with
  | carrying | storing =>
    rw [here] at free
    cases free
  | _ => rfl

end

structure Moves (state : Qavird Thread) (before now : AvThread) : Prop where
  hold : now.hold = before.hold ∨ now.hold = .free ∨ MayTake AvThread.hold state.threads now.hold
  owned : now.owned = before.owned
  draft : now.draft = before.draft
  scanner : ∀ node, now.scanner = some node → node = state.clRootNode ∨ before.scanner = some node
  carried : now.carried = before.carried

/-- A thread moves on that does not look at the current engine to replace it, and counts nothing. -/
structure Walks (state : Qavird Thread) (before now : AvThread) : Prop
    extends state.Moves before now where
  reads : ∀ node, now.reads = some node → before.reads = some node
  tally : now.tally = before.tally
  saved : ∀ kept, now.saved = some kept → kept = state.stateInfo.kept
  found : ∀ answer, now = .found answer → answer.retval = .virus
  shows : before.Shows state.stateInfo → now.Shows state.stateInfo

end Qavird

def AvInput.thread {Thread : Type} : AvInput Thread → Thread
  | .info thread _ | .scanFile thread _ | .reload thread _ | .other thread => thread
  | .scan thread _ _ _ | .load thread _ | .build thread _ | .header thread _ => thread
  | .time thread _ | .goOn thread => thread

def AvEvent.scanned? {Thread : Type} : AvEvent Thread → Option Answer
  | .scanned _ answer => some answer
  | _ => none

namespace Qavird

variable {Thread : Type} {state after : Qavird Thread} {thread : Thread} {input : AvInput Thread}

/-- What a step does to the engines and to `state_info`. -/
inductive Does [DecidableEq Thread] (state : Qavird Thread) (input : AvInput Thread) :
    AvEvent Thread → Qavird Thread → Prop where
  | walks {now : AvThread} {event : AvEvent Thread} (unscanned : event.scanned? = none)
      (walks : state.Walks (state.threads input.thread) now) :
      Does state input event (state.move input.thread now)
  | begins {garbage info : QavirdInfo} (asked : input = .reload input.thread garbage)
      (idle : state.threads input.thread = .idle) :
      Does state input .silent (state.move input.thread (.loading state.clRootNode info))
  | loads {oldNode newNode : Node} {info : QavirdInfo} {signum : Int}
      (here : state.threads input.thread = .loading oldNode info)
      (fresh : state.engines newNode = none) :
      Does state input .silent ({ state with
        engines := Function.update state.engines newNode (some ⟨signum, false⟩) }.move input.thread
          (.building oldNode newNode { info with signum := signum }))
  | builds {oldNode newNode : Node} {info : QavirdInfo} {engine : Engine}
      (here : state.threads input.thread = .building oldNode newNode info)
      (held : state.engines newNode = some engine) :
      Does state input .silent ({ state with
        engines := Function.update state.engines newNode (some { engine with built := true }) }.move
          input.thread (.mainHeader oldNode newNode info))
  | frees {node : Node} {event : AvEvent Thread} (unscanned : event.scanned? = none)
      (mine : (state.threads input.thread).owned = some node)
      (quits : (state.threads input.thread).hold = .free) (live : state.engines node ≠ none) :
      Does state input event ({ state with
        engines := Function.update state.engines node none }.move input.thread .idle)
  | switches {oldNode newNode : Node} {info : QavirdInfo}
      (here : state.threads input.thread = .switching oldNode newNode info) :
      Does state input .silent
        ({ state with clRootNode := newNode }.move input.thread (.carrying oldNode info))
  | stores {oldNode : Node} {info : QavirdInfo}
      (here : state.threads input.thread = .storing oldNode info) :
      Does state input .silent ({ state with stateInfo := info }.move input.thread (.stored oldNode))
  | finds {answer : Answer} (here : state.threads input.thread = .found answer) :
      Does state input .silent ({ state with
        stateInfo := { state.stateInfo with virfound := state.stateInfo.virfound + 1 } }.move
          input.thread (.scanned answer))
  | finishes {answer : Answer} (here : state.threads input.thread = .scanned answer) :
      Does state input .silent ({ state with
        stateInfo := { state.stateInfo with fdone := state.stateInfo.fdone + 1 } }.move
          input.thread (.counted answer))
  | answers {answer : Answer} (here : state.threads input.thread = .counted answer) :
      Does state input (.scanned input.thread answer) (state.move input.thread .idle)

theorem quiet_eq_ok {event : AvEvent Thread} (done : state.quiet = .ok (after, event)) :
    after = state ∧ event = .silent := by
  cases done
  exact ⟨rfl, rfl⟩

theorem clFree_ok {node : Node} (freed : state.clFree node = .ok after) :
    state.engines node ≠ none ∧
      after = { state with engines := Function.update state.engines node none } := by
  unfold clFree at freed
  split at freed
  · cases freed
  · next live =>
    cases freed
    exact ⟨live, rfl⟩

/-- A step with which a thread takes or keeps what it has. -/
theorem Walks.of_eq {before now : AvThread} (hold : now.hold = before.hold ∨ now.hold = .free)
    (owned : now.owned = before.owned) (draft : now.draft = before.draft)
    (scanner : now.scanner = none) (carried : now.carried = before.carried)
    (reads : ∀ node, now.reads = some node → before.reads = some node)
    (tally : now.tally = before.tally) (saved : now.saved = none)
    (found : ∀ answer, now ≠ .found answer) (shows : now.Shows state.stateInfo) :
    state.Walks before now where
  hold := hold.imp_right .inl
  owned := owned
  draft := draft
  scanner := by
    intro node scans
    rw [scanner] at scans
    cases scans
  carried := carried
  reads := reads
  tally := tally
  saved := by
    intro kept here
    rw [saved] at here
    cases here
  found := fun answer here => absurd here (found answer)
  shows := fun _ => shows

variable [DecidableEq Thread]

/-- The end of a call that frees an engine. -/
theorem freed_ok {node : Node} {answer : Answer} {event : AvEvent Thread}
    (done : ((state.clFree node).bind fun state => state.reply thread answer) = .ok (after, event)) :
    state.engines node ≠ none ∧ event.scanned? = none ∧
      after = { state with engines := Function.update state.engines node none }.move thread .idle := by
  cases freed : state.clFree node with
  | error fault =>
    rw [freed] at done
    cases done
  | ok middle =>
    obtain ⟨live, rfl⟩ := clFree_ok freed
    rw [freed] at done
    cases done
    exact ⟨live, rfl, rfl⟩

theorem reply_does {before : AvThread} {answer : Answer} {event : AvEvent Thread}
    (here : state.threads input.thread = before)
    (done : state.reply input.thread answer = .ok (after, event)) (owned : before.owned = none)
    (draft : before.draft = none) (carried : before.carried = none) (tally : before.tally = (0, 0)) :
    Does state input event after := by
  subst here
  cases done
  exact .walks rfl
    (.of_eq (.inr rfl) owned.symm draft.symm rfl carried.symm nofun tally.symm rfl nofun trivial)

theorem giveUp_does {before : AvThread} {newNode : Node} {event : AvEvent Thread}
    (here : state.threads input.thread = before)
    (done : state.giveUp input.thread newNode = .ok (after, event)) (mine : before.owned = some newNode)
    (quits : before.hold = .free) : Does state input event after := by
  subst here
  obtain ⟨live, unscanned, rfl⟩ := freed_ok done
  exact .frees unscanned mine quits live

variable [Fintype Thread]

theorem take_does {before now : AvThread} {event : AvEvent Thread}
    (here : state.threads input.thread = before)
    (done : state.take input.thread now = .ok (after, event))
    (owned : now.owned = before.owned) (draft : now.draft = before.draft)
    (scanner : now.scanner = none) (carried : now.carried = before.carried)
    (reads : ∀ node, now.reads = some node → before.reads = some node)
    (tally : now.tally = before.tally) (saved : now.saved = none)
    (found : ∀ answer, now ≠ .found answer) (shows : now.Shows state.stateInfo) :
    Does state input event after := by
  subst here
  unfold take at done
  split at done
  · next may =>
    obtain ⟨rfl, rfl⟩ := quiet_eq_ok done
    refine .walks rfl ⟨⟨.inr (.inr may), owned, draft, ?_, carried⟩, reads, tally, ?_, ?_, fun _ => shows⟩
    · intro node scans
      rw [scanner] at scans
      cases scans
    · intro kept here
      rw [saved] at here
      cases here
    · exact fun answer here => absurd here (found answer)
  · cases done

theorem goOn_does {event : AvEvent Thread} (done : state.goOn thread = .ok (after, event)) :
    Does state (.goOn thread) event after := by
  cases here : state.threads thread with
  | informing =>
    simp only [goOn, here] at done
    obtain ⟨rfl, rfl⟩ := quiet_eq_ok done
    exact .walks rfl (here ▸ .of_eq (.inl rfl) rfl rfl rfl rfl (fun _ => id) rfl rfl nofun rfl)
  | copying signum virfound =>
    simp only [goOn, here] at done
    obtain ⟨rfl, rfl⟩ := quiet_eq_ok done
    refine .walks rfl (here ▸ ⟨⟨.inl rfl, rfl, rfl, nofun, rfl⟩, nofun, rfl, nofun, nofun, ?_⟩)
    -- the rest of `memcpy` is from the same `state_info`
    rintro rfl
    rfl
  | informed data =>
    simp only [goOn, here] at done
    cases done
    exact .walks rfl (here ▸ .of_eq (.inr rfl) rfl rfl rfl rfl (fun _ => id) rfl rfl nofun trivial)
  | entered size =>
    simp only [goOn, here] at done
    obtain ⟨rfl, rfl⟩ := quiet_eq_ok done
    refine .walks rfl (here ▸ ⟨⟨.inl rfl, rfl, rfl, ?_, rfl⟩, nofun, rfl, nofun, nofun, fun _ => trivial⟩)
    rintro node ⟨⟩
    exact .inl rfl
  | found answer =>
    simp only [goOn, here] at done
    obtain ⟨rfl, rfl⟩ := quiet_eq_ok done
    exact .finds here
  | scanned answer =>
    simp only [goOn, here] at done
    obtain ⟨rfl, rfl⟩ := quiet_eq_ok done
    exact .finishes here
  | counted answer =>
    simp only [goOn, here] at done
    cases done
    exact .answers here
  | ready oldNode newNode info =>
    simp only [goOn, here] at done
    exact take_does here done rfl rfl rfl rfl (fun _ => id) rfl rfl nofun trivial
  | switching oldNode newNode info =>
    simp only [goOn, here] at done
    obtain ⟨rfl, rfl⟩ := quiet_eq_ok done
    exact .switches here
  | carrying oldNode info =>
    simp only [goOn, here] at done
    obtain ⟨rfl, rfl⟩ := quiet_eq_ok done
    refine .walks rfl (here ▸ ⟨⟨.inl rfl, rfl, rfl, nofun, rfl⟩, nofun, rfl, ?_, nofun, fun _ => trivial⟩)
    rintro kept ⟨⟩
    rfl
  | storing oldNode info =>
    simp only [goOn, here] at done
    obtain ⟨rfl, rfl⟩ := quiet_eq_ok done
    exact .stores here
  | stored oldNode =>
    simp only [goOn, here] at done
    obtain ⟨rfl, rfl⟩ := quiet_eq_ok done
    exact .walks rfl (here ▸ .of_eq (.inr rfl) rfl rfl rfl rfl (fun _ => id) rfl rfl nofun trivial)
  | freeing oldNode =>
    simp only [goOn, here] at done
    obtain ⟨live, unscanned, rfl⟩ := freed_ok done
    exact .frees unscanned (congrArg AvThread.owned here) (congrArg AvThread.hold here) live
  | _ =>
    simp only [goOn, here] at done
    cases done

theorem other_does {event : AvEvent Thread}
    (done : state.handle (.other thread) = .ok (after, event)) :
    Does state (.other thread) event after := by
  simp only [handle, ne_eq, ite_not] at done
  split at done
  · next idle =>
    cases done
    have same : state.move thread .idle = state := by
      unfold move
      rw [← idle, Function.update_eq_self]
    have stays : Does state (.other thread) (.refused thread) (state.move thread .idle) := by
      refine @Does.walks _ _ _ (.other thread) .idle _ rfl ?_
      rw [AvInput.thread, idle]
      exact .of_eq (.inl rfl) rfl rfl rfl rfl (by rintro _ ⟨⟩) rfl rfl (by rintro _ ⟨⟩) trivial
    rwa [same] at stays
  · cases done

/-- `cl_scanfile` comes back. -/
theorem scan_does {code : Int} {virname strerror : List UInt8} {event : AvEvent Thread}
    (done : state.handle (.scan thread code virname strerror) = .ok (after, event)) :
    Does state (.scan thread code virname strerror) event after := by
  cases here : state.threads thread with
  | scanning node size =>
    simp only [handle, here] at done
    split at done
    · obtain ⟨rfl, rfl⟩ := quiet_eq_ok done
      by_cases virus : code = clVirus
      · rw [if_pos virus]
        refine .walks rfl (here ▸ ⟨⟨.inl rfl, rfl, rfl, (by rintro _ ⟨⟩), rfl⟩,
          (by rintro _ ⟨⟩), rfl, (by rintro _ ⟨⟩), ?_, fun _ => trivial⟩)
        rintro _ ⟨⟩
        simp [scanResult, virus]
      · rw [if_neg virus]
        refine .walks rfl (here ▸ ⟨⟨.inl rfl, rfl, rfl, (by rintro _ ⟨⟩), rfl⟩,
          (by rintro _ ⟨⟩), ?_, (by rintro _ ⟨⟩), (by rintro _ ⟨⟩), fun _ => trivial⟩)
        have clean : (scanResult size code virname strerror).retval ≠ .virus := by
          unfold scanResult
          rw [if_neg virus]
          split <;> simp
        simp [AvThread.tally, clean]
    · cases done
  | _ =>
    simp only [handle, here] at done
    cases done

theorem load_does {result : Except Int (Node × Int)} {event : AvEvent Thread}
    (done : state.handle (.load thread result) = .ok (after, event)) :
    Does state (.load thread result) event after := by
  cases here : state.threads thread with
  | loading oldNode info =>
    cases result with
    | error code =>
      simp only [handle, here] at done
      exact reply_does here done rfl rfl rfl rfl
    | ok loaded =>
      simp only [handle, here, ne_eq, ite_not] at done
      split at done
      · next fresh =>
        obtain ⟨rfl, rfl⟩ := quiet_eq_ok done
        exact .loads here fresh
      · cases done
  | _ =>
    simp only [handle, here] at done
    cases done

theorem build_does {code : Int} {event : AvEvent Thread}
    (done : state.handle (.build thread code) = .ok (after, event)) :
    Does state (.build thread code) event after := by
  cases here : state.threads thread with
  | building oldNode newNode info =>
    simp only [handle, here] at done
    split at done
    · cases done
    · next engine held =>
      split at done
      · exact giveUp_does here done rfl rfl
      · obtain ⟨rfl, rfl⟩ := quiet_eq_ok done
        exact .builds here held
  | _ =>
    simp only [handle, here] at done
    cases done

/-- The head of a database is read, or the reload is given up. -/
theorem header_does {cvd : Option ClCvd} {event : AvEvent Thread}
    (done : state.handle (.header thread cvd) = .ok (after, event)) :
    Does state (.header thread cvd) event after := by
  cases here : state.threads thread with
  | mainHeader oldNode newNode info =>
    cases cvd with
    | none =>
      simp only [handle, here] at done
      exact giveUp_does here done rfl rfl
    | some cvd =>
      simp only [handle, here] at done
      obtain ⟨rfl, rfl⟩ := quiet_eq_ok done
      exact .walks rfl (here ▸ .of_eq (.inl rfl) rfl rfl rfl rfl (fun _ => id) rfl rfl
        (by rintro _ ⟨⟩) trivial)
  | dailyHeader oldNode newNode info =>
    cases cvd with
    | none =>
      simp only [handle, here] at done
      exact giveUp_does here done rfl rfl
    | some cvd =>
      simp only [handle, here] at done
      obtain ⟨rfl, rfl⟩ := quiet_eq_ok done
      exact .walks rfl (here ▸ .of_eq (.inl rfl) rfl rfl rfl rfl (fun _ => id) rfl rfl
        (by rintro _ ⟨⟩) trivial)
  | _ =>
    simp only [handle, here] at done
    cases done

theorem handle_does {input : AvInput Thread} {event : AvEvent Thread}
    (done : state.handle input = .ok (after, event)) : Does state input event after := by
  cases input with
  | info thread nbytes =>
    simp only [handle, ne_eq, ite_not] at done
    split at done
    · next idle =>
      split at done
      · exact reply_does idle done rfl rfl rfl rfl
      · exact take_does idle done rfl rfl rfl rfl (by rintro _ ⟨⟩) rfl rfl (by rintro _ ⟨⟩) trivial
    · cases done
  | scanFile thread nbytes =>
    simp only [handle, ne_eq, ite_not] at done
    split at done
    · next idle =>
      split at done
      · exact reply_does idle done rfl rfl rfl rfl
      · exact take_does idle done rfl rfl rfl rfl (by rintro _ ⟨⟩) rfl rfl (by rintro _ ⟨⟩) trivial
    · cases done
  | reload thread garbage =>
    simp only [handle, ne_eq, ite_not] at done
    split at done
    · next idle =>
      obtain ⟨rfl, rfl⟩ := quiet_eq_ok done
      exact .begins rfl idle
    · cases done
  | other thread => exact other_does done
  | scan thread code virname strerror => exact scan_does done
  | load thread result => exact load_does done
  | build thread code => exact build_does done
  | header thread cvd => exact header_does done
  | time thread now =>
    cases here : state.threads thread with
    | timing oldNode newNode info =>
      simp only [handle, here] at done
      obtain ⟨rfl, rfl⟩ := quiet_eq_ok done
      exact .walks rfl (here ▸ .of_eq (.inl rfl) rfl rfl rfl rfl (fun _ => id) rfl rfl
        (by rintro _ ⟨⟩) trivial)
    | _ =>
      simp only [handle, here] at done
      cases done
  | goOn thread => exact goOn_does done

/-! ### One step -/

theorem owns_self {node : Node} {phase : AvThread} (mine : phase.owned = some node) :
    owns node phase = 1 := if_pos mine

theorem owned_of_draft {phase : AvThread} {node : Node} {engine : Engine}
    (draft : phase.draft = some (node, engine)) : phase.owned = some node := by
  cases phase <;> cases draft <;> rfl

/-- A thread moves on and changes what it can: the engines are accounted for as before where it
pays with what it owns. -/
theorem Accounted.move_iff (accounted : state.Accounted) {before now : AvThread}
    (here : state.threads thread = before) {root : Node} {engines : Node → Option Engine}
    {info : QavirdInfo} :
    ({ clRootNode := root, engines := engines, stateInfo := info,
       threads := Function.update state.threads thread now } : Qavird Thread).Accounted ↔
      ∀ node, (if root = node then 1 else 0) + owns node now +
          (if state.engines node = none then 0 else 1) =
        (if state.clRootNode = node then 1 else 0) + owns node before +
          if engines node = none then 0 else 1 := by
  subst here
  refine forall_congr' fun node => ?_
  have moved := census_move (owns node) state.threads thread now
  have whole := accounted node
  show (if root = node then 1 else 0) +
      census (owns node) (Function.update state.threads thread now) =
    (if engines node = none then 0 else 1) ↔ _
  omega

theorem Accounted.only (accounted : state.Accounted) {node : Node}
    (mine : (state.threads thread).owned = some node) :
    state.clRootNode ≠ node ∧ state.engines node ≠ none ∧
      ∀ other, other ≠ thread → (state.threads other).owned ≠ some node := by
  have whole := accounted node
  have weight := weight_le_census (owns node) state.threads thread
  rw [owns_self mine] at weight
  have apart : state.clRootNode ≠ node := by
    intro same
    rw [if_pos same] at whole
    split at whole <;> omega
  have live : state.engines node ≠ none := by
    intro none
    rw [if_pos none] at whole
    omega
  refine ⟨apart, live, fun other different owned => ?_⟩
  rw [if_neg apart, if_neg live, Nat.zero_add, ← owns_self mine] at whole
  have zero := census_only whole different
  rw [owns_self owned] at zero
  cases zero

theorem Sound.walk (sound : state.Sound) {now : AvThread}
    (walks : state.Moves (state.threads thread) now) : (state.move thread now).Sound where
  excludes := sound.excludes.move walks.hold
  accounted := by
    refine (sound.accounted.move_iff rfl).mpr fun node => ?_
    have same : owns node now = owns node (state.threads thread) := by
      unfold owns
      rw [walks.owned]
    rw [same]
  scans := sound.scans.move walks.scanner
  drafts := by
    refine all_move (fun node engine here => ?_) sound.drafts
    rw [walks.draft] at here
    exact sound.drafts thread node engine here
  current := by
    obtain ⟨signum, live, carried, told⟩ := sound.current
    refine ⟨signum, live, ?_, fun none => told ?_⟩
    · refine all_move (fun found here => ?_) carried
      rw [walks.carried] at here
      exact carried thread found here
    · intro other
      by_cases same : other = thread
      · have mine := none thread
        simp only [move, Function.update_self] at mine
        rw [same, ← walks.carried, mine]
      · have others := none other
        simp only [move, Function.update_of_ne same] at others
        exact others

/-- What the drafts of others are is not changed with an engine that is not theirs. -/
theorem Sound.drafts_update (sound : state.Sound) {node : Node} {engine : Option Engine}
    {now : AvThread} (mine : now.Prepared (Function.update state.engines node engine))
    (apart : ∀ other, other ≠ thread → (state.threads other).owned ≠ some node) (other : Thread) :
    (Function.update state.threads thread now other).Prepared
      (Function.update state.engines node engine) := by
  by_cases same : other = thread
  · rw [same, Function.update_self]
    exact mine
  · rw [Function.update_of_ne same]
    intro draft prepared here
    have different : draft ≠ node := by
      rintro rfl
      exact apart other same (owned_of_draft here)
    rw [Function.update_of_ne different]
    exact sound.drafts other draft prepared here

/-- The current engine stays while another one is changed by a thread that carries nothing. -/
theorem Sound.current_update (sound : state.Sound) {node : Node} {engine : Option Engine}
    {now : AvThread} (apart : state.clRootNode ≠ node)
    (before : (state.threads thread).carried = none) (after : now.carried = none) :
    ∃ signum, Function.update state.engines node engine state.clRootNode = some ⟨signum, true⟩ ∧
      (∀ other, (Function.update state.threads thread now other).Carries signum) ∧
      ((∀ other, (Function.update state.threads thread now other).carried = none) →
        state.stateInfo.signum = signum) := by
  obtain ⟨signum, live, carried, told⟩ := sound.current
  refine ⟨signum, by rw [Function.update_of_ne apart, live], ?_, fun none => told fun other => ?_⟩
  · refine all_move (fun found here => ?_) carried
    rw [after] at here
    cases here
  · by_cases same : other = thread
    · rw [same, before]
    · have others := none other
      rwa [Function.update_of_ne same] at others

theorem Sound.load (sound : state.Sound) {oldNode newNode : Node} {info : QavirdInfo} {signum : Int}
    (here : state.threads thread = .loading oldNode info) (fresh : state.engines newNode = none) :
    ({ state with
      engines := Function.update state.engines newNode (some ⟨signum, false⟩) }.move thread
        (.building oldNode newNode { info with signum := signum })).Sound where
  excludes := sound.excludes.move (.inr (.inl rfl))
  accounted := by
    refine (sound.accounted.move_iff here).mpr fun node => ?_
    by_cases same : node = newNode
    · subst same
      simp [owns, AvThread.owned, fresh]
    · simp [owns, AvThread.owned, Function.update_of_ne same, Ne.symm same]
  scans := sound.scans.move nofun
  drafts := by
    refine sound.drafts_update ?_ fun other _ owned => (sound.accounted.only owned).2.1 fresh
    rintro _ _ ⟨⟩
    exact Function.update_self ..
  current := by
    refine sound.current_update ?_ (by rw [here]; rfl) rfl
    rintro rfl
    obtain ⟨signum, live, -⟩ := sound.current
    rw [live] at fresh
    cases fresh

theorem Sound.build (sound : state.Sound) {oldNode newNode : Node} {info : QavirdInfo}
    {engine : Engine} (here : state.threads thread = .building oldNode newNode info)
    (held : state.engines newNode = some engine) :
    ({ state with
      engines := Function.update state.engines newNode (some { engine with built := true }) }.move
        thread (.mainHeader oldNode newNode info)).Sound := by
  have mine : (state.threads thread).owned = some newNode := by rw [here]; rfl
  have only := sound.accounted.only mine
  have draft := sound.drafts thread newNode ⟨info.signum, false⟩ (by rw [here]; rfl)
  rw [held, Option.some.injEq] at draft
  constructor
  · exact sound.excludes.move (.inr (.inl rfl))
  · refine (sound.accounted.move_iff here).mpr fun node => ?_
    by_cases same : node = newNode
    · subst same
      simp [owns, AvThread.owned, held]
    · simp [owns, AvThread.owned, Function.update_of_ne same]
  · exact sound.scans.move nofun
  · refine sound.drafts_update ?_ only.2.2
    rintro _ _ ⟨⟩
    rw [Function.update_self, draft]
  · exact sound.current_update only.1 (by rw [here]; rfl) rfl

theorem Sound.free (sound : state.Sound) {node : Node}
    (mine : (state.threads thread).owned = some node)
    (quits : (state.threads thread).hold = .free) :
    ({ state with engines := Function.update state.engines node none }.move thread .idle).Sound := by
  have only := sound.accounted.only mine
  constructor
  · exact sound.excludes.move (.inr (.inl rfl))
  · refine (sound.accounted.move_iff rfl).mpr fun other => ?_
    have idle : owns other .idle = 0 := rfl
    by_cases same : other = node
    · subst same
      simp [owns_self mine, idle, only.1, only.2.1]
    · have others : owns other (state.threads thread) = 0 := by
        refine if_neg fun owned => same ?_
        rw [mine, Option.some.injEq] at owned
        exact owned.symm
      simp [others, idle, Function.update_of_ne same]
  · exact sound.scans.move nofun
  · exact sound.drafts_update nofun only.2.2
  · refine sound.current_update only.1 ?_ rfl
    cases here : state.threads thread with
    | carrying | storing =>
      rw [here] at quits
      cases quits
    | _ => rfl

theorem Sound.switch (sound : state.Sound) {oldNode newNode : Node} {info : QavirdInfo}
    (here : state.threads thread = .switching oldNode newNode info)
    (calm : oldNode = state.clRootNode) :
    ({ state with clRootNode := newNode }.move thread (.carrying oldNode info)).Sound := by
  have mine : (state.threads thread).hold = .exclusive := by rw [here]; rfl
  constructor
  · exact sound.excludes.move (.inl (by rw [here]; rfl))
  · refine (sound.accounted.move_iff here).mpr fun node => ?_
    simp only [owns, AvThread.owned, Option.some.injEq, calm]
    omega
  · refine Watches.write sound.excludes mine ?_ rfl _
    intro phase scans
    cases phase with
    | scanning => nofun
    | _ => exact absurd rfl scans
  · exact all_move nofun sound.drafts
  · have live := sound.drafts thread newNode ⟨info.signum, true⟩ (by rw [here]; rfl)
    refine ⟨info.signum, live, fun other found carries => ?_, fun none => ?_⟩
    · by_cases same : other = thread
      · subst same
        simp only [move, Function.update_self] at carries
        cases carries
        rfl
      · simp only [move, Function.update_of_ne same, sound.carried_alone mine same] at carries
        cases carries
    · have carries := none thread
      simp only [move, Function.update_self] at carries
      cases carries

theorem Sound.store (sound : state.Sound) {oldNode : Node} {info : QavirdInfo}
    (here : state.threads thread = .storing oldNode info) :
    ({ state with stateInfo := info }.move thread (.stored oldNode)).Sound := by
  have mine : (state.threads thread).hold = .exclusive := by rw [here]; rfl
  obtain ⟨signum, live, carried, -⟩ := sound.current
  have told := carried thread info.signum (by rw [here]; rfl)
  constructor
  · exact sound.excludes.move (.inl (by rw [here]; rfl))
  · refine (sound.accounted.move_iff here).mpr fun node => ?_
    rfl
  · exact sound.scans.move nofun
  · exact all_move nofun sound.drafts
  · exact ⟨signum, live, all_move nofun carried, fun _ => told⟩

theorem Sound.step (sound : state.Sound) {event : AvEvent Thread} (does : Does state input event after)
    (calm : ∀ oldNode newNode info, state.threads input.thread = .switching oldNode newNode info →
      oldNode = state.clRootNode) : after.Sound := by
  cases does with
  | walks unscanned walks => exact sound.walk walks.toMoves
  | begins asked idle => exact sound.walk (idle ▸ ⟨.inl rfl, rfl, rfl, nofun, rfl⟩)
  | loads here fresh => exact sound.load here fresh
  | builds here held => exact sound.build here held
  | frees unscanned mine quits live => exact sound.free mine quits
  | switches here => exact sound.switch here (calm _ _ _ here)
  | stores here => exact sound.store here
  | finds here =>
    let info := { state.stateInfo with virfound := state.stateInfo.virfound + 1 }
    refine (sound.count info rfl).walk ?_
    dsimp only
    rw [here]
    exact ⟨.inl rfl, rfl, rfl, nofun, rfl⟩
  | finishes here =>
    let info := { state.stateInfo with fdone := state.stateInfo.fdone + 1 }
    refine (sound.count info rfl).walk ?_
    dsimp only
    rw [here]
    exact ⟨.inl rfl, rfl, rfl, nofun, rfl⟩
  | answers here => exact sound.walk (here ▸ ⟨.inr (.inl rfl), rfl, rfl, nofun, rfl⟩)

end Qavird

end QNXStuff.QXAvird
