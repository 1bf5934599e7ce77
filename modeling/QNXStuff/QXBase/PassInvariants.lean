import QNXStuff.QXBase.Lifecycle

/-! What the page loops keep true of a table on any run, also when a page with changes
is taken over, and why a scan from a clean pool never takes one over. -/

namespace QNXStuff.QXBase

open Memory Execution

section Loops

variable {start : Table} {ocb : Ocb} {change : Change}

/-- The table of a loop that has come to the page `pIndex`. -/
structure Visited (start : Table) (holds : Nat → Table → Prop) (pIndex : Nat) (table : Table) :
    Prop where
  ok : table.Ok
  kept : Kept start table
  holds : holds pIndex table

/-- A page is locked and keeps a property of the table. -/
def LockKeeps (holds : Nat → Table → Prop) : Prop :=
  ∀ {nPageID table locked rPage}, table.Ok → holds nPageID table →
    Locked table nPageID locked rPage → holds nPageID locked

/-- A page that was locked is scanned, and the loop goes to the next page. -/
def ScanKeeps (holds : Nat → Table → Prop) (desc : TableDesc) (filters : List Filter)
    (change : Change) : Prop :=
  ∀ {nPageID table rPage rIndex tIndex scanned left}, table.Ok → holds nPageID table →
    table.layout.toTableDesc = desc → rPage ∈ table.refs → (table.body rPage).index = nPageID →
    changePage desc filters change ((table.body rPage).lastRow - rIndex) rIndex tIndex
      (table.body rPage) = .ok (scanned, left) →
    holds (nPageID + 1) (table.setBody rPage scanned)

/-- A result of a loop. -/
def VisitedEnd {Result : Type} (start : Table) (holds : Nat → Table → Prop)
    (result : Except Fault (Table × Result)) : Prop :=
  ∀ table rest, result = .ok (table, rest) → ∃ pIndex, Visited start holds pIndex table

theorem readPass_keeps {holds : Nat → Table → Prop} (locks : LockKeeps holds)
    (next : ∀ nPageID table, holds nPageID table → holds (nPageID + 1) table) {state : ReadState}
    (visited : Visited start holds state.pIndex state.table) :
    PassSpec (fun state => Visited start holds state.pIndex state.table) ReadState.ahead
      (VisitedEnd start holds) state (readPass state) := by
  have stay : ∀ {rest : Ocb × Option Row},
      VisitedEnd start holds (.ok (state.table, rest)) := by
    intro rest table rest' same
    cases same
    exact ⟨_, visited⟩
  unfold readPass
  by_cases more : state.ocb.record < state.table.index
  · rw [if_pos more]
    rcases lockTablePage_spec visited.ok state.pIndex with
      ⟨_, missing⟩ | ⟨inside, locked, rPage, found, lock⟩
    · rw [missing]
      exact stay
    · have arrived : Visited start holds state.pIndex locked :=
        ⟨lock.ok, visited.kept.trans lock.kept, locks visited.ok visited.holds lock⟩
      have leave : ∀ {rest : Ocb × Option Row}, VisitedEnd start holds (.ok (locked, rest)) := by
        intro rest table rest' same
        cases same
        exact ⟨_, arrived⟩
      rw [found]
      simp only
      split
      · exact leave
      · exact leave
      · refine ⟨⟨arrived.ok, arrived.kept, next _ _ arrived.holds⟩, ?_⟩
        unfold ReadState.ahead
        simp only [lock.lastIndex]
        omega
  · rw [if_neg more]
    exact stay

theorem changePage_touched {desc : TableDesc} {filters : List Filter} {count rIndex tIndex : Nat}
    {page scanned : PageBody} {left : Nat}
    (done : changePage desc filters change count rIndex tIndex page = .ok (scanned, left)) :
    Touched page scanned := by
  induction count generalizing rIndex tIndex page with
  | zero =>
    cases done
    exact Touched.refl _
  | succ count ih =>
    cases tIndex with
    | zero =>
      cases done
      exact Touched.refl _
    | succ tIndex =>
      simp only [changePage] at done
      cases verdict : dataFilter filters (page.row desc.rowLen rIndex) with
      | broken =>
        rw [verdict] at done
        cases done
        exact Touched.refl _
      | skip =>
        simp only [verdict] at done
        split at done
        · cases done
          exact Touched.refl _
        · exact ih done
      | pass =>
        simp only [verdict] at done
        split at done
        · cases done
        · split at done
          · cases done
            exact (Touched.refl _).putRow
          · exact (ih done).putRow

theorem changePass_keeps {holds : Nat → Table → Prop} (locks : LockKeeps holds)
    (scans : ScanKeeps holds start.layout.toTableDesc ocb.filters change) {state : ScanState}
    (visited : Visited start holds state.pIndex state.table) :
    PassSpec (fun state => Visited start holds state.pIndex state.table) ScanState.ahead
      (VisitedEnd start holds) state (changePass ocb change state) := by
  have stay : ∀ {code : ErrorCode}, VisitedEnd start holds (.ok (state.table, code)) := by
    intro code table rest same
    cases same
    exact ⟨_, visited⟩
  unfold changePass
  by_cases done : state.tIndex = 0
  · rw [if_pos done]
    exact stay
  · rw [if_neg done]
    rcases lockTablePage_spec visited.ok state.pIndex with
      ⟨_, missing⟩ | ⟨inside, locked, rPage, found, lock⟩
    · rw [missing]
      exact stay
    · have kept := visited.kept.trans lock.kept
      have arrived := locks visited.ok visited.holds lock
      have inv : PoolInv locked locked.refs := lock.ok
      rw [found]
      simp only
      cases page : changePage locked.layout.toTableDesc ocb.filters change
          ((locked.body rPage).lastRow - state.rIndex) state.rIndex state.tIndex
          (locked.body rPage) with
      | error fault => nofun
      | ok result =>
        obtain ⟨scanned, left⟩ := result
        have touched := changePage_touched page
        rw [kept.layout] at page
        refine ⟨⟨(inv.touch touched).ok, kept.trans touched.kept,
          scans lock.ok arrived (by rw [kept.layout]) lock.member lock.index page⟩, ?_⟩
        unfold ScanState.ahead
        simp only [(PoolInv.touch_stored touched).1, lock.lastIndex]
        omega

theorem visited_start {holds : Nat → Table → Prop} {pIndex : Nat} (ok : start.Ok)
    (first : holds pIndex start) : Visited start holds pIndex start :=
  ⟨ok, Kept.refl start, first⟩

theorem read_keeps {holds : Nat → Table → Prop} (ok : start.Ok) (locks : LockKeeps holds)
    (next : ∀ nPageID table, holds nPageID table → holds (nPageID + 1) table)
    (first : holds (readStart start ocb).pIndex start) :
    VisitedEnd start holds (loop readPass .hang (pageFuel start) (readStart start ocb)) ∧
      ∀ entered ∈ passes readPass (pageFuel start) (readStart start ocb),
        Visited start holds entered.pIndex entered.table :=
  have begins : Visited start holds (readStart start ocb).pIndex (readStart start ocb).table :=
    visited_start ok first
  ⟨loop_rule_free (fun _ visited => readPass_keeps locks next visited) begins
      (pageFuel_enough ..),
    passes_invariant (fun _ visited => readPass_keeps locks next visited) begins⟩

theorem change_keeps {holds : Nat → Table → Prop} (ok : start.Ok) (locks : LockKeeps holds)
    (scans : ScanKeeps holds start.layout.toTableDesc ocb.filters change)
    (first : holds (changeStart start ocb change).pIndex start) :
    VisitedEnd start holds
        (loop (changePass ocb change) .hang (pageFuel start) (changeStart start ocb change)) ∧
      ∀ entered ∈ passes (changePass ocb change) (pageFuel start) (changeStart start ocb change),
        Visited start holds entered.pIndex entered.table :=
  have begins : Visited start holds (changeStart start ocb change).pIndex
      (changeStart start ocb change).table := visited_start ok first
  ⟨loop_rule_free (fun _ visited => changePass_keeps locks scans visited) begins
      (pageFuel_enough ..),
    passes_invariant (fun _ visited => changePass_keeps locks scans visited) begins⟩

/-! ### Scans from a clean pool -/

/-- Only pages that the loop has passed hold changes. -/
def DirtyBelow (nPageID : Nat) (table : Table) : Prop :=
  ∀ ref ∈ table.refs, (table.body ref).needSync = true → (table.body ref).index < nPageID

theorem Table.AllClean.dirtyBelow {table : Table} (clean : table.AllClean) (nPageID : Nat) :
    DirtyBelow nPageID table := fun ref member dirty => by
  rw [clean ref member] at dirty
  cases dirty

/-- A page is taken over in place only in front of the pages with larger indices. -/
theorem DirtyBelow.saved {table : Table} {nPageID : Nat} (below : DirtyBelow nPageID table)
    (ok : table.Ok) : Saved table nPageID := by
  refine saved_of_clean ok ?_
  unfold dirtyTakeover
  split
  · next ref takes =>
    obtain ⟨member, _, larger⟩ := takenOver_larger ok takes
    cases dirty : (table.body ref).needSync with
    | false => rfl
    | true =>
      have less := below ref member dirty
      omega
  · rfl

theorem allClean_locks : LockKeeps fun _ table => table.AllClean := by
  intro nPageID table locked rPage _ clean lock ref member
  rcases lock.pages ref member with ⟨present, same⟩ | ⟨_, _, loaded, _⟩
  · rw [same]
    exact clean ref present
  · exact loaded

theorem dirtyBelow_locks : LockKeeps DirtyBelow := by
  intro nPageID table locked rPage _ below lock ref member dirty
  rcases lock.pages ref member with ⟨present, same⟩ | ⟨_, _, loaded, _⟩
  · rw [same] at dirty ⊢
    exact below ref present dirty
  · rw [loaded] at dirty
    cases dirty

theorem dirtyBelow_scans (desc : TableDesc) (filters : List Filter) :
    ScanKeeps DirtyBelow desc filters change := by
  intro nPageID table rPage rIndex tIndex scanned left ok below _ _ index page ref member dirty
  have inv : PoolInv table table.refs := ok
  have touched := changePage_touched page
  have refs : (table.setBody rPage scanned).refs = table.refs := (inv.touch touched).refs_eq
  rw [(body_touched touched ref).1]
  rw [Table.setBody_body] at dirty
  by_cases here : ref = rPage
  · rw [here, index]
    exact Nat.lt_succ_self _
  · rw [Function.update_of_ne here] at dirty
    exact Nat.lt_succ_of_lt (below ref (refs ▸ member) dirty)

/-- Reading from a clean pool loses nothing and leaves it clean. -/
theorem read_clean (ok : start.Ok) (clean : start.AllClean) :
    ReadSaved start ocb ∧
      VisitedEnd start (fun _ table => table.AllClean)
        (loop readPass .hang (pageFuel start) (readStart start ocb)) := by
  obtain ⟨ending, entries⟩ := read_keeps ok
    allClean_locks (fun _ _ clean => clean) clean
  refine ⟨fun entered member _ => ?_, ending⟩
  have visited := entries entered member
  exact (visited.holds.dirtyBelow _).saved visited.ok

/-- A scan from a clean pool loses nothing. -/
theorem change_clean (ocb : Ocb) (ok : start.Ok) (clean : start.AllClean) :
    ChangeSaved start ocb change := by
  obtain ⟨_, entries⟩ := change_keeps ok dirtyBelow_locks
    (dirtyBelow_scans start.layout.toTableDesc ocb.filters)
    (clean.dirtyBelow _)
  intro entered member _
  have visited := entries entered member
  exact visited.holds.saved visited.ok

end Loops

end QNXStuff.QXBase
