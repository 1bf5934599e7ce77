import QNXStuff.QXBase.TableList
import QNXStuff.Library.Holding

/-! Runs in which no failed request loses the list of tables: the list is well formed and
every lock is held by a connection. -/

namespace QNXStuff.QXBase

open Execution LinkedList Holding Memory

namespace TableServer

/-- The list of tables; there is no pointer to its end, so any will do. -/
def links (server : TableServer) (tail : Option TableRef) : Links TableRef where
  head := server.tables
  tail := tail
  next := fun ref => (server.heap ref).next
  prev := fun ref => (server.heap ref).prev

def selected (server : TableServer) (conn : ConnId) : Option TableRef := (server.conns conn).table

end TableServer

/-- The list of tables is well formed, its tables are complete, and the locks of a table
are the connections that have selected it, and `extra` that the request at work holds. -/
structure TablesInv (server : TableServer) (holds : ConnId → Option TableRef)
    (extra : Option TableRef) (refs : List TableRef) : Prop where
  listed : ∃ tail, (server.links tail).Represents refs
  live : ∀ ref ∈ refs, ref < server.fresh
  whole : ∀ ref ∈ refs, (∃ desc, (server.heap ref).table = .to desc) ∧
    (server.heap ref).pages = .to ()
  held : ∀ conn ref, holds conn = some ref → ref ∈ refs
  finite : ∀ ref, (holders holds ref).Finite
  counted : ∀ ref ∈ refs, (server.heap ref).locks =
    (holders holds ref).ncard + if extra = some ref then 1 else 0
  used : ∀ ref ∈ refs, 0 < (server.heap ref).locks
  bounded : ∀ ref ∈ refs, (server.heap ref).locks < 2 ^ 32

def SameEntry (entry other : TableEntry) : Prop :=
  other.table = entry.table ∧ other.pages = entry.pages ∧ other.locks = entry.locks

section Links

variable {server : TableServer} {ref : TableRef}

theorem setEntry_links (entry : TableEntry) (tail : Option TableRef) :
    (server.setEntry ref entry).links tail =
      { server.links tail with
        next := Function.update (server.links tail).next ref entry.next
        prev := Function.update (server.links tail).prev ref entry.prev } := by
  have nexts : (fun other => ((server.setEntry ref entry).heap other).next) =
      Function.update (fun other => (server.heap other).next) ref entry.next := by
    funext other
    by_cases here : other = ref
    · simp [TableServer.setEntry, here]
    · simp [TableServer.setEntry, here]
  have prevs : (fun other => ((server.setEntry ref entry).heap other).prev) =
      Function.update (fun other => (server.heap other).prev) ref entry.prev := by
    funext other
    by_cases here : other = ref
    · simp [TableServer.setEntry, here]
    · simp [TableServer.setEntry, here]
  simp only [TableServer.links, nexts, prevs]
  rfl

theorem setEntry_links_same (entry : TableEntry) (next : entry.next = (server.heap ref).next)
    (prev : entry.prev = (server.heap ref).prev) (tail : Option TableRef) :
    (server.setEntry ref entry).links tail = server.links tail := by
  have nexts : Function.update (server.links tail).next ref entry.next =
      (server.links tail).next := by
    rw [next]
    exact Function.update_eq_self ..
  have prevs : Function.update (server.links tail).prev ref entry.prev =
      (server.links tail).prev := by
    rw [prev]
    exact Function.update_eq_self ..
  rw [setEntry_links, nexts, prevs]

theorem setLocks_links (server : TableServer) (ref : TableRef) (locks : Nat)
    (tail : Option TableRef) : (server.setLocks ref locks).links tail = server.links tail :=
  setEntry_links_same { server.heap ref with locks := locks } rfl rfl tail

theorem setLocks_here (server : TableServer) (ref : TableRef) (locks : Nat) :
    (server.setLocks ref locks).heap ref = { server.heap ref with locks := locks } :=
  Function.update_self ..

theorem setLocks_other (server : TableServer) (ref : TableRef) (locks : Nat) {other : TableRef}
    (apart : other ≠ ref) : (server.setLocks ref locks).heap other = server.heap other :=
  Function.update_of_ne apart ..

theorem redirectNext_links (before target tail : Option TableRef) :
    (server.redirectNext before target).links tail =
      (server.links tail).redirectNext before target := by
  cases before with
  | none => rfl
  | some ref =>
    show (server.setEntry ref _).links tail = _
    rw [setEntry_links, show (server.heap ref).prev = (server.links tail).prev ref from rfl,
      Function.update_eq_self]
    rfl

theorem redirectPrev_links (after target tail : Option TableRef) :
    ∃ tail', (server.redirectPrev after target).links tail' =
      (server.links tail).redirectPrev after target := by
  cases after with
  | none => exact ⟨target, rfl⟩
  | some ref =>
    refine ⟨tail, ?_⟩
    show (server.setEntry ref _).links tail = _
    rw [setEntry_links, show (server.heap ref).next = (server.links tail).next ref from rfl,
      Function.update_eq_self]
    rfl

theorem setEntry_same (entry : TableEntry) (same : SameEntry (server.heap ref) entry)
    (other : TableRef) : SameEntry (server.heap other) ((server.setEntry ref entry).heap other) := by
  by_cases here : other = ref
  · subst here
    simpa [TableServer.setEntry] using same
  · simp [TableServer.setEntry, here, SameEntry]

theorem redirectNext_same (before target : Option TableRef) (other : TableRef) :
    SameEntry (server.heap other) ((server.redirectNext before target).heap other) := by
  cases before with
  | none => exact ⟨rfl, rfl, rfl⟩
  | some ref =>
    exact setEntry_same { server.heap ref with next := target } ⟨rfl, rfl, rfl⟩ other

theorem redirectPrev_same (after target : Option TableRef) (other : TableRef) :
    SameEntry (server.heap other) ((server.redirectPrev after target).heap other) := by
  cases after with
  | none => exact ⟨rfl, rfl, rfl⟩
  | some ref =>
    exact setEntry_same { server.heap ref with prev := target } ⟨rfl, rfl, rfl⟩ other

theorem SameEntry.trans {first second third : TableEntry} (left : SameEntry first second)
    (right : SameEntry second third) : SameEntry first third :=
  ⟨right.1.trans left.1, right.2.1.trans left.2.1, right.2.2.trans left.2.2⟩

/-- "fix global tables list" takes the table out of the list. -/
theorem fixTables_links (server : TableServer) (ref : TableRef) (tail : Option TableRef) :
    ∃ tail', (fixTables server ref).links tail' = (server.links tail).unlink ref := by
  have front := @redirectNext_links server (server.heap ref).prev
    (server.heap ref).next tail
  -- the links of the table itself are still what they were
  have next : ((server.redirectNext (server.heap ref).prev (server.heap ref).next).heap ref).next =
      (server.heap ref).next := by
    cases precedes : (server.heap ref).prev with
    | none => rfl
    | some before =>
      by_cases here : ref = before
      · simp [TableServer.redirectNext, TableServer.setEntry, here]
      · simp [TableServer.redirectNext, TableServer.setEntry, here]
  have prev : ((server.redirectNext (server.heap ref).prev (server.heap ref).next).heap ref).prev =
      (server.heap ref).prev := by
    cases precedes : (server.heap ref).prev with
    | none => exact precedes
    | some before =>
      by_cases here : ref = before
      · subst here
        simp [TableServer.redirectNext, TableServer.setEntry, precedes]
      · simp [TableServer.redirectNext, TableServer.setEntry, here, precedes]
  obtain ⟨tail', back⟩ := redirectPrev_links
    (server.heap ref).next (server.heap ref).prev tail
  refine ⟨tail', ?_⟩
  unfold fixTables
  dsimp only
  rw [next, prev, back, front]
  rfl

theorem fixTables_same (server : TableServer) (ref other : TableRef) :
    SameEntry (server.heap other) ((fixTables server ref).heap other) :=
  (redirectNext_same _ _ other).trans (redirectPrev_same _ _ other)

/-- "add table to tables list" puts the table in front. -/
theorem addTable_links (server : TableServer) (ref : TableRef) (tail : Option TableRef) :
    ∃ tail', (addTable server ref).links tail' = (server.links tail).pushFront ref := by
  have front := @setEntry_links server ref
    { server.heap ref with next := server.tables } tail
  rw [show (server.heap ref).prev = (server.links tail).prev ref from rfl,
    Function.update_eq_self] at front
  obtain ⟨tail', back⟩ := redirectPrev_links
    server.tables (some ref) tail
  refine ⟨tail', ?_⟩
  have pushed : (addTable server ref).links tail' =
      { ((server.setEntry ref { server.heap ref with next := server.tables }).redirectPrev
          server.tables (some ref)).links tail' with head := some ref } := rfl
  rw [pushed, back, front]
  rfl

theorem addTable_same (server : TableServer) (ref other : TableRef) :
    SameEntry (server.heap other) ((addTable server ref).heap other) :=
  (setEntry_same { server.heap ref with next := server.tables }
    ⟨rfl, rfl, rfl⟩ other).trans (redirectPrev_same _ _ other)

theorem redirect_rest (server : TableServer) (place target : Option TableRef) :
    ((server.redirectNext place target).conns = server.conns ∧
      (server.redirectNext place target).fresh = server.fresh) ∧
    (server.redirectPrev place target).conns = server.conns ∧
      (server.redirectPrev place target).fresh = server.fresh := by
  cases place <;> exact ⟨⟨rfl, rfl⟩, rfl, rfl⟩

theorem fixTables_rest (server : TableServer) (ref : TableRef) :
    (fixTables server ref).conns = server.conns ∧ (fixTables server ref).fresh = server.fresh := by
  have front := (redirect_rest server (server.heap ref).prev (server.heap ref).next).1
  exact ⟨(redirect_rest _ _ _).2.1.trans front.1, (redirect_rest _ _ _).2.2.trans front.2⟩

theorem addTable_rest (server : TableServer) (ref : TableRef) :
    (addTable server ref).conns = server.conns ∧ (addTable server ref).fresh = server.fresh :=
  (redirect_rest (server.setEntry ref { server.heap ref with next := server.tables })
    server.tables (some ref)).2

/-- An entry that is no neighbour of the table stays as it is. -/
theorem fixTables_frame (server : TableServer) {ref other : TableRef}
    (before : (server.heap ref).prev ≠ some other) (after : (server.heap ref).next ≠ some other) :
    (fixTables server ref).heap other = server.heap other := by
  have front : ∀ target, (server.redirectNext (server.heap ref).prev target).heap other =
      server.heap other := by
    intro target
    cases precedes : (server.heap ref).prev with
    | none => rfl
    | some place =>
      rw [precedes] at before
      have apart : other ≠ place := fun same => before (same ▸ rfl)
      simp [TableServer.redirectNext, TableServer.setEntry, apart]
  have back : ∀ (state : TableServer) (target : Option TableRef),
      (state.redirectPrev (server.heap ref).next target).heap other = state.heap other := by
    intro state target
    cases follows : (server.heap ref).next with
    | none => rfl
    | some place =>
      rw [follows] at after
      have apart : other ≠ place := fun same => after (same ▸ rfl)
      simp [TableServer.redirectPrev, TableServer.setEntry, apart]
  have next : ((server.redirectNext (server.heap ref).prev (server.heap ref).next).heap ref).next =
      (server.heap ref).next := by
    cases precedes : (server.heap ref).prev with
    | none => rfl
    | some place =>
      by_cases here : ref = place
      · simp [TableServer.redirectNext, TableServer.setEntry, here]
      · simp [TableServer.redirectNext, TableServer.setEntry, here]
  unfold fixTables
  dsimp only
  rw [next, back, front]

end Links

section Keeps

variable {server : TableServer} {holds : ConnId → Option TableRef} {extra : Option TableRef}
  {refs : List TableRef} {conn : ConnId} {ref : TableRef}

/-- A complete table that is released: the two files and the list are put in order. -/
theorem tableRelease_whole {desc : TableDesc} (table : (server.heap ref).table = .to desc)
    (pages : (server.heap ref).pages = .to ()) :
    ∃ synced : TableServer, tableRelease server ref = .ok (fixTables synced ref) ∧
      synced.heap = server.heap ∧ synced.tables = server.tables ∧ synced.conns = server.conns ∧
      synced.fresh = server.fresh := by
  cases header : (server.heap ref).hFile with
  | none =>
    simp only [tableRelease, syncHeader, table, pages, header]
    exact ⟨server, rfl, rfl, rfl, rfl, rfl⟩
  | some name =>
    simp only [tableRelease, syncHeader, table, pages, header]
    exact ⟨_, rfl, rfl, rfl, rfl, rfl⟩

/-- What a connection leaves behind that goes to another table or ends. -/
structure Left (server : TableServer) (holds : ConnId → Option TableRef)
    (extra : Option TableRef) (refs : List TableRef) (conn : ConnId) (left : TableServer)
    (refs' : List TableRef) : Prop where
  inv : TablesInv left (Function.update holds conn none) extra refs'
  conns : left.conns = server.conns
  fresh : left.fresh = server.fresh
  kept : ∀ ref ∈ refs, holds conn ≠ some ref → ref ∈ refs'
  subset : ∀ ref ∈ refs', ref ∈ refs
  frame : ∀ ref, ref ∉ refs → left.heap ref = server.heap ref
  locks : ∀ ref ∈ refs', (left.heap ref).locks ≤ (server.heap ref).locks

theorem lowered_locks {locks : Nat} (used : 0 < locks) (bounded : locks < 2 ^ 32) :
    (locks + (2 ^ 32 - 1)) % 2 ^ 32 = locks - 1 := by
  omega

/-- A server after a table has lost one of its locks. -/
structure Lowered (server : TableServer) (old : TableRef) (lowered : TableServer) : Prop where
  links : ∀ tail, lowered.links tail = server.links tail
  here : lowered.heap old = { server.heap old with locks := (server.heap old).locks - 1 }
  other : ∀ ref, ref ≠ old → lowered.heap ref = server.heap ref
  conns : lowered.conns = server.conns
  fresh : lowered.fresh = server.fresh

theorem setLocks_lowered (server : TableServer) (old : TableRef) :
    Lowered server old (server.setLocks old ((server.heap old).locks - 1)) where
  links := setLocks_links server old _
  here := setLocks_here server old _
  other := fun _ apart => setLocks_other server old _ apart
  conns := rfl
  fresh := rfl

variable {old : TableRef} {lowered : TableServer}

/-- A table that has other locks stays in the list. -/
theorem Lowered.keeps_table (lower : Lowered server old lowered)
    (inv : TablesInv server holds extra refs) (held : holds conn = some old)
    (others : (server.heap old).locks - 1 ≠ 0) :
    Left server holds extra refs conn lowered refs := by
  have member := inv.held conn old held
  have bounded := inv.bounded old member
  have counted := inv.counted old member
  have fewer := ncard_leave (inv.finite old) held
  obtain ⟨tail, listed⟩ := inv.listed
  have left : TablesInv lowered (Function.update holds conn none) extra refs := by
    refine
      { listed := ⟨tail, lower.links tail ▸ listed⟩
        live := fun ref member => lower.fresh ▸ inv.live ref member
        whole := fun ref member => ?_
        held := fun client ref held' => ?_
        finite := fun ref => finite_leave (inv.finite ref)
        counted := fun ref member => ?_
        used := fun ref member => ?_
        bounded := fun ref member => ?_ }
    · by_cases equal : ref = old
      · rw [equal, lower.here]
        exact inv.whole old (inv.held conn old held)
      · rw [lower.other ref equal]
        exact inv.whole ref member
    · by_cases same : client = conn
      · rw [same, Function.update_self] at held'
        cases held'
      · rw [Function.update_of_ne same] at held'
        exact inv.held client ref held'
    · by_cases equal : ref = old
      · subst equal
        rw [lower.here]
        show (server.heap ref).locks - 1 = _
        omega
      · rw [lower.other ref equal, inv.counted ref member, holders_leave_other]
        rw [held]
        exact fun same => equal (Option.some.inj same).symm
    · by_cases equal : ref = old
      · rw [equal, lower.here]
        exact Nat.pos_of_ne_zero others
      · rw [lower.other ref equal]
        exact inv.used ref member
    · by_cases equal : ref = old
      · rw [equal, lower.here]
        exact Nat.lt_of_le_of_lt (Nat.sub_le ..) bounded
      · rw [lower.other ref equal]
        exact inv.bounded ref member
  refine ⟨left, lower.conns, lower.fresh, fun _ member _ => member, fun _ member => member,
    fun ref outside => lower.other ref fun equal => outside (equal ▸ member), fun ref _ => ?_⟩
  by_cases equal : ref = old
  · rw [equal, lower.here]
    exact Nat.sub_le ..
  · exact Nat.le_of_eq (by rw [lower.other ref equal])

/-- "fix global tables list" behind the last lock of a table changes no other entry but for its
links. -/
theorem Lowered.fixed_entry (lower : Lowered server old lowered) {synced : TableServer}
    (heap : synced.heap = lowered.heap) {ref : TableRef} (apart : ref ≠ old) :
    SameEntry (server.heap ref) ((fixTables synced old).heap ref) := by
  have kept := fixTables_same synced old ref
  rwa [heap, lower.other ref apart] at kept

theorem Lowered.fixed_frame (lower : Lowered server old lowered) {synced : TableServer}
    (heap : synced.heap = lowered.heap) {front back : List TableRef} {tail : Option TableRef}
    (listed : (server.links tail).Represents (front ++ old :: back)) {ref : TableRef}
    (outside : ref ∉ front ++ old :: back) : (fixTables synced old).heap ref = server.heap ref := by
  have outside' : ref ∉ front ∧ ref ≠ old ∧ ref ∉ back := by simpa using outside
  rw [fixTables_frame, heap, lower.other ref outside'.2.1]
  · have prev : (synced.heap old).prev = front.getLast? := by
      rw [heap, lower.here]
      exact listed.prev_eq
    rw [prev]
    exact fun equal => outside'.1 (List.mem_of_getLast? equal)
  · have next : (synced.heap old).next = back.head? := by
      rw [heap, lower.here]
      exact listed.next_eq
    rw [next]
    exact fun equal => outside'.2.2 (List.mem_of_head? equal)

/-- The table that lost its last lock is taken out of the list. -/
theorem Lowered.takes_out (lower : Lowered server old lowered)
    (inv : TablesInv server holds extra refs) (held : holds conn = some old)
    (last : (server.heap old).locks - 1 = 0) :
    ∃ left refs', tableRelease lowered old = .ok left ∧
      Left server holds extra refs conn left refs' := by
  have member := inv.held conn old held
  have counted := inv.counted old member
  have finite := inv.finite old
  have fewer := ncard_leave finite held
  obtain ⟨tail, listed⟩ := inv.listed
  obtain ⟨⟨desc, table⟩, pages⟩ := inv.whole old member
  obtain ⟨synced, released, heap, tables, conns, fresh⟩ :=
    tableRelease_whole (by rw [lower.here]; exact table) (by rw [lower.here]; exact pages)
  obtain ⟨front, back, rfl⟩ := List.append_of_mem member
  have single : (holders holds old).ncard ≤ 1 := by omega
  have syncedLinks : synced.links tail = server.links tail := by
    rw [← lower.links tail]
    simp only [TableServer.links, heap, tables]
  obtain ⟨tail', fixed⟩ := fixTables_links synced old tail
  have nodup := listed.nodup
  have apart : ∀ ref ∈ front ++ back, ref ≠ old := by
    intro ref inside equal
    subst equal
    exact (List.nodup_cons.mp (List.perm_middle.nodup_iff.mp nodup)).1 inside
  have inside : ∀ ref ∈ front ++ back, ref ∈ front ++ old :: back := by
    intro ref member
    rcases List.mem_append.mp member with early | late <;> simp [*]
  have entry (ref : TableRef) (member : ref ∈ front ++ back) :
      SameEntry (server.heap ref) ((fixTables synced old).heap ref) :=
    lower.fixed_entry heap (apart ref member)
  have rest : (fixTables synced old).conns = server.conns ∧
      (fixTables synced old).fresh = server.fresh :=
    ⟨(fixTables_rest ..).1.trans (conns.trans lower.conns),
      (fixTables_rest ..).2.trans (fresh.trans lower.fresh)⟩
  have left : TablesInv (fixTables synced old) (Function.update holds conn none) extra
      (front ++ back) := by
    refine
      { listed := ⟨tail', by rw [fixed, syncedLinks]; exact listed.unlink⟩
        live := fun ref member => rest.2 ▸ inv.live ref (inside ref member)
        whole := fun ref member => ?_
        held := fun client ref held' => ?_
        finite := fun ref => finite_leave (inv.finite ref)
        counted := fun ref member => ?_
        used := fun ref member => ?_
        bounded := fun ref member => ?_ }
    · obtain ⟨table', pages', _⟩ := entry ref member
      rw [table', pages']
      exact inv.whole ref (inside ref member)
    · by_cases same : client = conn
      · rw [same, Function.update_self] at held'
        cases held'
      · rw [Function.update_of_ne same] at held'
        have present := inv.held client ref held'
        have apart' : ref ≠ old := fun equal =>
          same (only_holder finite held single (equal ▸ held'))
        simpa [apart'] using present
    · rw [(entry ref member).2.2, inv.counted ref (inside ref member), holders_leave_other]
      rw [held]
      exact fun equal => apart ref member (Option.some.inj equal).symm
    · rw [(entry ref member).2.2]
      exact inv.used ref (inside ref member)
    · rw [(entry ref member).2.2]
      exact inv.bounded ref (inside ref member)
  refine ⟨fixTables synced old, front ++ back, released, left, rest.1, rest.2, ?_, inside,
    fun ref => lower.fixed_frame heap listed, fun ref member => Nat.le_of_eq (entry ref member).2.2⟩
  intro ref member apart'
  have apart' : ref ≠ old := fun equal => apart' (equal ▸ held)
  simpa [apart'] using member

theorem leave_keeps (conn : ConnId) (inv : TablesInv server holds extra refs)
    (same : (server.conns conn).table = holds conn) :
    ∃ left refs', leaveTable server conn = .ok left ∧
      Left server holds extra refs conn left refs' := by
  unfold leaveTable
  rw [same]
  cases held : holds conn with
  | none =>
    have unchanged : Function.update holds conn none = holds := by
      rw [← held]
      exact Function.update_eq_self ..
    exact ⟨server, refs, rfl, unchanged.symm ▸ inv, rfl, rfl, fun _ member _ => member,
      fun _ member => member, fun _ _ => rfl, fun _ _ => Nat.le_refl _⟩
  | some old =>
    have member := inv.held conn old held
    simp only [lowered_locks (inv.used old member) (inv.bounded old member)]
    have lower := setLocks_lowered server old
    by_cases last : (server.heap old).locks - 1 = 0
    · rw [if_pos last]
      exact lower.takes_out inv held last
    · rw [if_neg last]
      exact ⟨_, refs, rfl, lower.keeps_table inv held last⟩

/-- A new entry that is not in the list yet. -/
theorem fresh_keeps (inv : TablesInv server holds extra refs) {changed : TableServer}
    (heap : ∀ ref ∈ refs, changed.heap ref = server.heap ref)
    (tables : changed.tables = server.tables) (fresh : server.fresh ≤ changed.fresh) :
    TablesInv changed holds extra refs := by
  obtain ⟨tail, listed⟩ := inv.listed
  refine
    { listed := ⟨tail, listed.congr tables rfl (fun ref member => ?_) fun ref member => ?_⟩
      live := fun ref member => Nat.lt_of_lt_of_le (inv.live ref member) fresh
      whole := fun ref member => by rw [heap ref member]; exact inv.whole ref member
      held := inv.held
      finite := inv.finite
      counted := fun ref member => by rw [heap ref member]; exact inv.counted ref member
      used := fun ref member => by rw [heap ref member]; exact inv.used ref member
      bounded := fun ref member => by rw [heap ref member]; exact inv.bounded ref member }
  · exact congrArg TableEntry.next (heap ref member)
  · exact congrArg TableEntry.prev (heap ref member)

/-- A complete new table that the request at work holds. -/
theorem add_keeps (inv : TablesInv server holds none refs) (outside : ref ∉ refs)
    (live : ref < server.fresh) {desc : TableDesc} (table : (server.heap ref).table = .to desc)
    (pages : (server.heap ref).pages = .to ()) (prev : (server.heap ref).prev = none)
    (locks : (server.heap ref).locks = 1) :
    TablesInv (addTable server ref) holds (some ref) (ref :: refs) := by
  obtain ⟨tail, listed⟩ := inv.listed
  obtain ⟨tail', links⟩ := addTable_links server ref tail
  have free : holders holds ref = ∅ := by
    ext client
    simp only [holders, Set.mem_ofPred_eq, Set.mem_empty_iff_false, iff_false]
    exact fun held => outside (inv.held client ref held)
  have entry := addTable_same server ref
  refine
    { listed := ⟨tail', by rw [links]; exact listed.pushFront outside prev⟩
      live := fun other member => ?_
      whole := fun other member => ?_
      held := fun client other held => List.mem_cons_of_mem ref (inv.held client other held)
      finite := inv.finite
      counted := fun other member => ?_
      used := fun other member => ?_
      bounded := fun other member => ?_ }
  · rw [(addTable_rest ..).2]
    rcases List.mem_cons.mp member with rfl | member
    · exact live
    · exact inv.live other member
  · rw [(entry other).1, (entry other).2.1]
    rcases List.mem_cons.mp member with rfl | member
    · exact ⟨⟨desc, table⟩, pages⟩
    · exact inv.whole other member
  · rw [(entry other).2.2]
    rcases List.mem_cons.mp member with rfl | member
    · rw [locks, free, Set.ncard_empty, if_pos rfl]
    · have apart : some ref ≠ some other := fun same =>
        outside (Option.some.inj same ▸ member)
      rw [inv.counted other member, if_neg apart]
      rfl
  · rw [(entry other).2.2]
    rcases List.mem_cons.mp member with rfl | member
    · rw [locks]
      exact Nat.one_pos
    · exact inv.used other member
  · rw [(entry other).2.2]
    rcases List.mem_cons.mp member with rfl | member
    · rw [locks]
      decide
    · exact inv.bounded other member

/-- The request at work takes a lock of a loaded table. -/
theorem take_keeps (inv : TablesInv server holds none refs) (member : ref ∈ refs)
    (small : (server.heap ref).locks + 1 < 2 ^ 32) :
    TablesInv (server.setLocks ref (((server.heap ref).locks + 1) % 2 ^ 32)) holds (some ref)
      refs := by
  obtain ⟨tail, listed⟩ := inv.listed
  rw [Nat.mod_eq_of_lt small]
  have here := setLocks_here server ref ((server.heap ref).locks + 1)
  have other : ∀ place, place ≠ ref →
      (server.setLocks ref ((server.heap ref).locks + 1)).heap place = server.heap place :=
    fun place apart => setLocks_other server ref _ apart
  refine
    { listed := ⟨tail, by rw [setLocks_links]; exact listed⟩
      live := inv.live
      whole := fun place inside => ?_
      held := inv.held
      finite := inv.finite
      counted := fun place inside => ?_
      used := fun place inside => ?_
      bounded := fun place inside => ?_ }
  · by_cases same : place = ref
    · rw [same, here]
      exact inv.whole ref member
    · rw [other place same]
      exact inv.whole place inside
  · by_cases same : place = ref
    · rw [same, here, if_pos rfl]
      exact congrArg (· + 1) (inv.counted ref member)
    · rw [other place same, inv.counted place inside,
        if_neg fun equal => same (Option.some.inj equal).symm]
      rfl
  · by_cases same : place = ref
    · rw [same, here]
      exact Nat.succ_pos _
    · rw [other place same]
      exact inv.used place inside
  · by_cases same : place = ref
    · rw [same, here]
      exact small
    · rw [other place same]
      exact inv.bounded place inside

/-- The lock of the request becomes the lock of its connection. -/
theorem enter_keeps (inv : TablesInv server holds (some ref) refs) (member : ref ∈ refs)
    (free : holds conn = none) :
    TablesInv server (Function.update holds conn (some ref)) none refs := by
  refine
    { listed := inv.listed
      live := inv.live
      whole := inv.whole
      held := fun client other held => ?_
      finite := fun other => ?_
      counted := fun other inside => ?_
      used := inv.used
      bounded := inv.bounded }
  · by_cases same : client = conn
    · rw [same, Function.update_self] at held
      exact Option.some.inj held ▸ member
    · rw [Function.update_of_ne same] at held
      exact inv.held client other held
  · by_cases same : other = ref
    · rw [same]
      exact finite_take (inv.finite ref)
    · rw [holders_take_other free same]
      exact inv.finite other
  · rw [inv.counted other inside]
    by_cases same : other = ref
    · rw [same, ncard_take (inv.finite ref) free]
      simp
    · rw [holders_take_other free same, if_neg fun equal => same (Option.some.inj equal).symm]
      rfl

theorem empty_keeps (inv : TablesInv server holds none refs) (none : server.tables = none)
    {after : TableServer} (tables : after.tables = Option.none) :
    TablesInv after holds Option.none [] := by
  obtain ⟨tail, listed⟩ := inv.listed
  have empty : refs = [] := List.head?_eq_none_iff.mp (listed.head_eq.symm.trans none)
  subst empty
  refine
    { listed := ⟨Option.none, List.nodup_nil, tables, rfl⟩
      live := List.forall_mem_nil _
      whole := List.forall_mem_nil _
      held := inv.held
      finite := inv.finite
      counted := List.forall_mem_nil _
      used := List.forall_mem_nil _
      bounded := List.forall_mem_nil _ }

end Keeps

/-! ### Requests -/

section Requests

variable {server next : TableServer} {refs : List TableRef} {conn : ConnId}
  {outcomes : Outcomes} {code : ErrorCode}

theorem selected_setConn (server : TableServer) (conn : ConnId) (ocb : Connection) :
    (server.setConn conn ocb).selected = Function.update server.selected conn ocb.table := by
  funext other
  by_cases same : other = conn
  · simp [TableServer.selected, TableServer.setConn, same]
  · simp [TableServer.selected, TableServer.setConn, same]

theorem selected_of_conns {other : TableServer} (conns : other.conns = server.conns) :
    other.selected = server.selected := by
  unfold TableServer.selected
  rw [conns]

theorem findTable_mem {name : String} {ref : TableRef} {fuel : Nat} {start : Option TableRef}
    (walked : Chain (fun ref => (server.heap ref).next) start refs)
    (found : findTable server name fuel start = .ok (some ref)) : ref ∈ refs := by
  induction refs generalizing start fuel with
  | nil =>
    have ending : start = none := walked
    subst ending
    cases fuel <;> cases found
  | cons first rest ih =>
    obtain ⟨rfl, walked⟩ := walked
    cases fuel with
    | zero => cases found
    | succ fuel =>
      simp only [findTable] at found
      split at found
      · split at found
        · cases found
          exact List.mem_cons_self
        · exact List.mem_cons_of_mem first (ih walked found)
      · cases found

theorem TablesInv.loaded {holds : ConnId → Option TableRef} {extra : Option TableRef}
    (inv : TablesInv server holds extra refs) : server.loaded = refs := by
  obtain ⟨tail, listed⟩ := inv.listed
  have bound := listed.nodup.length_le_of_subset
    fun ref member => List.mem_range.mpr (inv.live ref member)
  rw [List.length_range] at bound
  exact walk_chain listed.forward (by omega)

/-- Leaving one table and entering another. -/
theorem moved_selected (server : TableServer) (conn : ConnId) (ocb : Connection) :
    Function.update (Function.update server.selected conn none) conn ocb.table =
      (server.setConn conn ocb).selected := by
  rw [Function.update_idem, selected_setConn]

theorem selectLoaded_keeps (inv : TablesInv server server.selected none refs) {curTbl : TableRef}
    (member : curTbl ∈ refs) (small : (server.heap curTbl).locks + 1 < 2 ^ 32)
    (done : selectLoaded server conn curTbl = .ok (next, code)) :
    ∃ refs', TablesInv next next.selected none refs' := by
  unfold selectLoaded at done
  by_cases here : (server.conns conn).table = some curTbl
  · simp only [here, ↓reduceIte] at done
    cases done
    exact ⟨refs, inv⟩
  · obtain ⟨left, refs', moved, leaves⟩ := leave_keeps conn inv rfl
    simp only [if_neg here, moved] at done
    cases done
    have member' := leaves.kept curTbl member here
    have taken := take_keeps leaves.inv member'
      (Nat.lt_of_le_of_lt (Nat.succ_le_succ (leaves.locks curTbl member')) small)
    have entered := enter_keeps taken member' (Function.update_self ..)
    generalize tables : ({ server.conns conn with
      table := some curTbl
      filters := if (server.conns conn).table = none then (server.conns conn).filters else [] } :
        Connection) = ocb
    have table : ocb.table = some curTbl := by rw [← tables]
    refine ⟨refs', ?_⟩
    have selected : ((left.setConn conn ocb).setLocks curTbl
        (((left.heap curTbl).locks + 1) % 2 ^ 32)).selected =
        Function.update (Function.update server.selected conn none) conn (some curTbl) := by
      rw [← selected_of_conns leaves.conns, ← table, moved_selected]
      rfl
    have final := @fresh_keeps _ _ _ _ entered ((left.setConn conn ocb).setLocks curTbl
      (((left.heap curTbl).locks + 1) % 2 ^ 32)) (fun _ _ => rfl) rfl (Nat.le_refl _)
    rw [← selected] at final
    exact final

theorem releaseFailed_code {ref : TableRef} {exit : ErrorCode}
    (done : releaseFailed server ref exit = .ok (next, code)) : code = exit := by
  unfold releaseFailed at done
  cases released : tableRelease server ref with
  | error fault =>
    rw [released] at done
    cases done
  | ok after =>
    rw [released] at done
    cases done
    rfl

/-- A new table entry with everything in it. -/
structure Built (entry : TableEntry) (desc : TableDesc) (hFile : Option String) : Prop where
  table : entry.table = .to desc
  pages : entry.pages = .to ()
  prev : entry.prev = none
  locks : entry.locks = 1
  hFile : entry.hFile = hFile

theorem selectFile_ok {name : String} {header : HeaderFile}
    (done : selectFile server conn outcomes name header = .ok (next, .ok)) :
    ∃ entry left, Built entry header.desc (some name) ∧
      leaveTable (addTable (({ server with fresh := server.fresh + 1 } : TableServer).setEntry
        server.fresh entry) server.fresh) conn = .ok left ∧
      next = enterTable left conn server.fresh := by
  unfold selectFile at done
  dsimp only at done
  split at done
  · cases releaseFailed_code done
  · split at done
    · cases releaseFailed_code done
    · split at done
      · cases releaseFailed_code done
      · split at done
        · cases releaseFailed_code done
        · split at done
          · cases done
          · cases left : leaveTable (addTable _ server.fresh) conn with
            | error fault =>
              rw [left] at done
              cases done
            | ok after =>
              rw [left] at done
              cases done
              exact ⟨_, after, ⟨rfl, rfl, rfl, rfl, rfl⟩, left, rfl⟩

/-- The header files after `TBLCREATE`, when the file could be created or not. -/
def createdFiles (server : TableServer) (creates : Bool) (desc : TableDesc) :
    String → Option HeaderFile :=
  if creates then
    Function.update server.files desc.name (some { size := desc.size, desc := desc })
  else server.files

theorem createNew_ok {desc : TableDesc}
    (done : createNew server conn outcomes desc = .ok (next, .ok)) :
    ∃ entry left, Built entry desc (if outcomes.creates then some desc.name else none) ∧
      leaveTable (({ server with
        fresh := server.fresh + 1, files := createdFiles server outcomes.creates desc } :
        TableServer).setEntry server.fresh entry) conn = .ok left ∧
      next = enterTable (addTable left server.fresh) conn server.fresh := by
  unfold createNew at done
  dsimp only at done
  split at done
  · cases releaseFailed_code done
  · split at done
    · cases releaseFailed_code done
    · split at done
      · cases releaseFailed_code done
      · split at done
        · cases releaseFailed_code done
        · cases left : leaveTable (TableServer.setEntry _ server.fresh _) conn with
          | error fault =>
            rw [left] at done
            cases done
          | ok after =>
            rw [left] at done
            cases done
            refine ⟨⟨.to desc, .to (), none, none, 1, if outcomes.creates then _ else _⟩, after,
              ⟨rfl, rfl, rfl, rfl, rfl⟩, ?_, rfl⟩
            rw [← left, createdFiles]
            split <;> rfl

/-- The new entry is not one of the tables. -/
theorem TablesInv.fresh_outside {holds : ConnId → Option TableRef} {extra : Option TableRef}
    (inv : TablesInv server holds extra refs) : server.fresh ∉ refs :=
  fun member => Nat.lt_irrefl _ (inv.live _ member)

theorem built_keeps (inv : TablesInv server server.selected none refs) (entry : TableEntry)
    (files : String → Option HeaderFile) :
    TablesInv (({ server with fresh := server.fresh + 1, files := files } :
      TableServer).setEntry server.fresh entry) server.selected none refs :=
  fresh_keeps inv
    (fun ref member => Function.update_of_ne
      (fun same : ref = server.fresh => inv.fresh_outside (same ▸ member)) ..)
    rfl (Nat.le_succ _)

theorem selectFile_keeps (inv : TablesInv server server.selected none refs) {name : String}
    {header : HeaderFile} (done : selectFile server conn outcomes name header = .ok (next, .ok)) :
    ∃ refs', TablesInv next next.selected none refs' := by
  obtain ⟨entry, left, built, moved, rfl⟩ := selectFile_ok done
  have whole := built_keeps inv entry server.files
  have here : (({ server with fresh := server.fresh + 1 } : TableServer).setEntry
      server.fresh entry).heap server.fresh = entry := Function.update_self ..
  have added := add_keeps whole inv.fresh_outside (Nat.lt_succ_self _)
    (by rw [here]; exact built.table) (by rw [here]; exact built.pages)
    (by rw [here]; exact built.prev) (by rw [here]; exact built.locks)
  have conns := (addTable_rest (({ server with fresh := server.fresh + 1 } :
    TableServer).setEntry server.fresh entry) server.fresh).1
  obtain ⟨left', refs', moved', leaves⟩ := leave_keeps _ added
    (congrArg (fun conns => (conns conn).table) conns)
  rw [moved] at moved'
  cases moved'
  have apart : server.selected conn ≠ some server.fresh := fun held =>
    inv.fresh_outside (inv.held conn _ held)
  have member := leaves.kept server.fresh List.mem_cons_self apart
  have entered := enter_keeps leaves.inv member (Function.update_self ..)
  have same := selected_of_conns (leaves.conns.trans conns)
  refine ⟨refs', ?_⟩
  have selected : (enterTable left conn server.fresh).selected =
      Function.update (Function.update server.selected conn none) conn (some server.fresh) := by
    rw [show server.selected = left.selected from same.symm]
    exact (moved_selected left conn _).symm
  rw [selected]
  exact fresh_keeps entered (fun _ _ => rfl) rfl (Nat.le_refl _)

theorem createNew_keeps (inv : TablesInv server server.selected none refs) {desc : TableDesc}
    (done : createNew server conn outcomes desc = .ok (next, .ok)) :
    ∃ refs', TablesInv next next.selected none refs' := by
  obtain ⟨entry, left, built, moved, rfl⟩ := createNew_ok done
  have whole := built_keeps inv entry (createdFiles server outcomes.creates desc)
  obtain ⟨left', refs', moved', leaves⟩ := leave_keeps _ whole rfl
  rw [moved] at moved'
  cases moved'
  have outside : server.fresh ∉ refs' := fun member =>
    inv.fresh_outside (leaves.subset _ member)
  have here : left.heap server.fresh = entry :=
    (leaves.frame _ inv.fresh_outside).trans (Function.update_self ..)
  have added := add_keeps leaves.inv outside (leaves.fresh ▸ Nat.lt_succ_self _)
    (by rw [here]; exact built.table) (by rw [here]; exact built.pages)
    (by rw [here]; exact built.prev) (by rw [here]; exact built.locks)
  have entered := enter_keeps added List.mem_cons_self (Function.update_self ..)
  have same : (addTable left server.fresh).selected = server.selected :=
    selected_of_conns ((addTable_rest left server.fresh).1.trans leaves.conns)
  refine ⟨server.fresh :: refs', ?_⟩
  have selected : (enterTable (addTable left server.fresh) conn server.fresh).selected =
      Function.update (Function.update server.selected conn none) conn (some server.fresh) := by
    rw [← same]
    exact (moved_selected (addTable left server.fresh) conn _).symm
  rw [selected]
  exact fresh_keeps entered (fun _ _ => rfl) rfl (Nat.le_refl _)

/-- A request that fails does not release its half-built table while there are tables to be lost. -/
def LosesNone (server : TableServer) : (ConnId × TableEvent) × ErrorCode → Prop
  | ((_, .request outcomes request), code) =>
    code ≠ .ok → HalfBuilt server outcomes request → server.tables = none
  | _ => True

/-- What a step must meet; no lock is taken 2^32 times. -/
structure Sparing (server : TableServer) (exchange : (ConnId × TableEvent) × ErrorCode) : Prop where
  failed : LosesNone server exchange
  few : ∀ ref ∈ server.loaded, (server.heap ref).locks + 1 < 2 ^ 32

/-- The code of the request is kept in `Qerrno`. -/
theorem keep_keeps (inv : TablesInv server server.selected none refs) :
    TablesInv (server.setConn conn { server.conns conn with qerrno := code })
      (server.setConn conn { server.conns conn with qerrno := code }).selected none refs := by
  have same : Function.update server.selected conn (server.conns conn).table = server.selected :=
    Function.update_eq_self ..
  rw [selected_setConn, same]
  exact fresh_keeps inv (fun _ _ => rfl) rfl (Nat.le_refl _)

/-- An error exit keeps the invariant when it loses nothing. -/
theorem error_keeps (inv : TablesInv server server.selected none refs) {half : Prop}
    (spares : half → server.tables = none)
    (exits : (¬ half ∧ next = server) ∨
      (half ∧ next.tables = none ∧ next.conns = server.conns)) :
    ∃ refs', TablesInv next next.selected none refs' := by
  rcases exits with ⟨_, rfl⟩ | ⟨half, tables, conns⟩
  · exact ⟨refs, inv⟩
  · rw [selected_of_conns conns]
    exact ⟨[], empty_keeps inv (spares half) tables⟩

theorem tblselect_keeps (inv : TablesInv server server.selected none refs) {nbytes : Nat}
    {name : String}
    (spares : Sparing server ((conn, .request outcomes (.tblselect nbytes name)), code))
    (done : tblselect server conn outcomes nbytes name = .ok (next, code)) :
    ∃ refs', TablesInv next next.selected none refs' := by
  by_cases failed : code ≠ .ok
  · exact error_keeps inv (spares.failed failed) (tblselect_error failed done)
  · have fine : code = .ok := not_not.mp failed
    subst fine
    obtain ⟨tail, listed⟩ := inv.listed
    unfold tblselect at done
    split at done
    · cases done
    · split at done
      · cases done
      · next curTbl found =>
        have member := findTable_mem listed.forward found
        exact selectLoaded_keeps inv member (spares.few _ (inv.loaded.symm ▸ member)) done
      · split at done
        · cases done
        · split at done
          · cases done
          · split at done
            · cases done
            · exact selectFile_keeps inv done

theorem tblcreate_keeps (inv : TablesInv server server.selected none refs) {nbytes : Nat}
    {desc : TableDesc}
    (spares : Sparing server ((conn, .request outcomes (.tblcreate nbytes desc)), code))
    (done : tblcreate server conn outcomes nbytes desc = .ok (next, code)) :
    ∃ refs', TablesInv next next.selected none refs' := by
  by_cases failed : code ≠ .ok
  · exact error_keeps inv (spares.failed failed) (tblcreate_error failed done)
  · have fine : code = .ok := not_not.mp failed
    subst fine
    unfold tblcreate at done
    split at done
    · cases done
    · split at done
      · cases done
      · split at done
        · cases done
        · exact createNew_keeps inv done

theorem closeConn_keeps (inv : TablesInv server server.selected none refs)
    (done : closeConn server conn = .ok (next, code)) :
    ∃ refs', TablesInv next next.selected none refs' := by
  obtain ⟨left, refs', moved, leaves⟩ := leave_keeps _ inv rfl
  unfold closeConn at done
  rw [moved] at done
  cases done
  refine ⟨refs', ?_⟩
  rw [selected_setConn, selected_of_conns leaves.conns]
  exact fresh_keeps leaves.inv (fun _ _ => rfl) rfl (Nat.le_refl _)

/-- Every request that loses no tables keeps the list in order. -/
theorem handle_tables (inv : TablesInv server server.selected none refs)
    {request : TableRequest} (spares : Sparing server ((conn, .request outcomes request), code))
    (answered : server.handle conn outcomes request = .ok (next, code)) :
    ∃ refs', TablesInv next next.selected none refs' := by
  cases request with
  | tblselect nbytes name =>
    have answered : (tblselect server conn outcomes nbytes name).map
      (TableServer.handle.keep conn) = .ok (next, code) := answered
    cases done : tblselect server conn outcomes nbytes name with
    | error fault =>
      rw [done] at answered
      cases answered
    | ok result =>
      rw [done] at answered
      cases answered
      obtain ⟨refs', after⟩ := tblselect_keeps inv spares done
      exact ⟨refs', keep_keeps after⟩
  | tblcreate nbytes desc =>
    have answered : (tblcreate server conn outcomes nbytes desc).map
      (TableServer.handle.keep conn) = .ok (next, code) := answered
    cases done : tblcreate server conn outcomes nbytes desc with
    | error fault =>
      rw [done] at answered
      cases answered
    | ok result =>
      rw [done] at answered
      cases answered
      obtain ⟨refs', after⟩ := tblcreate_keeps inv spares done
      exact ⟨refs', keep_keeps after⟩
  | close => exact closeConn_keeps inv answered

theorem describe_keeps {holds : ConnId → Option TableRef} {extra : Option TableRef}
    (inv : TablesInv server holds extra refs) (ref : TableRef) (desc : TableDesc) :
    TablesInv (server.setEntry ref { server.heap ref with table := .to desc }) holds extra refs := by
  obtain ⟨tail, listed⟩ := inv.listed
  have here : (server.setEntry ref { server.heap ref with table := .to desc }).heap ref =
      { server.heap ref with table := .to desc } := Function.update_self ..
  have other : ∀ place, place ≠ ref → (server.setEntry ref
      { server.heap ref with table := .to desc }).heap place = server.heap place :=
    fun place apart => Function.update_of_ne apart ..
  have locks : ∀ place, ((server.setEntry ref
      { server.heap ref with table := .to desc }).heap place).locks =
      (server.heap place).locks := by
    intro place
    by_cases same : place = ref
    · rw [same, here]
    · rw [other place same]
  refine
    { listed := ⟨tail, by rw [setEntry_links_same]; exacts [listed, rfl, rfl]⟩
      live := inv.live
      whole := fun place member => ?_
      held := inv.held
      finite := inv.finite
      counted := fun place member => by rw [locks]; exact inv.counted place member
      used := fun place member => by rw [locks]; exact inv.used place member
      bounded := fun place member => by rw [locks]; exact inv.bounded place member }
  by_cases same : place = ref
  · rw [same, here]
    exact ⟨⟨desc, rfl⟩, (inv.whole ref (same ▸ member)).2⟩
  · rw [other place same]
    exact inv.whole place member

/-- A connection gets an answer and keeps its table. -/
theorem answer_keeps (inv : TablesInv server server.selected none refs) (ocb : Connection)
    (table : ocb.table = server.selected conn) :
    TablesInv (server.setConn conn ocb) (server.setConn conn ocb).selected none refs := by
  rw [selected_setConn, table, Function.update_eq_self]
  exact fresh_keeps inv (fun _ _ => rfl) rfl (Nat.le_refl _)

/-- An event about rows keeps the list of tables. -/
theorem countInserted_keeps (inv : TablesInv server server.selected none refs) {nbytes : Nat}
    {arrived : Bool} (done : countInserted server conn nbytes arrived = .ok (next, code)) :
    TablesInv next next.selected none refs := by
  unfold countInserted at done
  dsimp only at done
  split at done
  · cases done
    exact answer_keeps inv _ rfl
  · next ref held =>
    split at done
    · next desc table =>
      split at done
      · cases done
        exact answer_keeps inv _ rfl
      · have whole := describe_keeps inv ref { desc with index := (desc.index + 1) % 2 ^ 32 }
        split at done
        · cases done
          exact answer_keeps whole _ rfl
        · cases done
          exact answer_keeps whole _ rfl
    · cases done

/-- A command answers the connection, and does nothing else. -/
theorem controlRows_answers {request : Control}
    (done : controlRows server conn request = .ok (next, code)) :
    ∃ ocb : Connection, next = server.setConn conn ocb ∧ ocb.table = server.selected conn := by
  unfold controlRows at done
  have answered {desc : TableDesc} (done : (control desc (server.conns conn).ocb request).map
      (fun answer => (server.setConn conn
        { server.conns conn with
          qerrno := answer.1.qerrno, record := answer.1.record, filters := answer.1.filters },
        answer.1.qerrno)) = .ok (next, code)) :
      ∃ ocb : Connection, next = server.setConn conn ocb ∧ ocb.table = server.selected conn := by
    obtain ⟨answer, -, same⟩ := map_eq_ok.mp done
    cases same
    exact ⟨_, rfl, rfl⟩
  dsimp only at done
  split at done
  · exact answered done
  · split at done
    · exact answered done
    · cases done

theorem scanEnd_answers (server : TableServer) (conn : ConnId) (record : Nat) (code : ErrorCode) :
    ∃ ocb : Connection, (scanEnd server conn record code).1 = server.setConn conn ocb ∧
      ocb.table = server.selected conn := by
  unfold scanEnd
  dsimp only
  split
  · exact ⟨_, rfl, rfl⟩
  · exact ⟨_, rfl, rfl⟩

theorem syncHeader_files {synced : TableServer} {entry : TableEntry}
    (done : syncHeader server entry = .ok synced) :
    ∃ files, synced = { server with files := files } := by
  unfold syncHeader at done
  split at done <;> cases done <;> exact ⟨_, rfl⟩

theorem flushHeader_answers (done : flushHeader server conn = .ok (next, code)) :
    ∃ files, ∃ ocb : Connection,
      next = ({ server with files := files } : TableServer).setConn conn ocb ∧
        ocb.table = server.selected conn := by
  unfold flushHeader at done
  dsimp only at done
  split at done
  · cases done
    exact ⟨server.files, _, rfl, rfl⟩
  · obtain ⟨synced, written, same⟩ := map_eq_ok.mp done
    obtain ⟨files, rfl⟩ := syncHeader_files written
    cases same
    exact ⟨files, _, rfl, rfl⟩

theorem flushHeader_keeps (inv : TablesInv server server.selected none refs)
    (done : flushHeader server conn = .ok (next, code)) :
    TablesInv next next.selected none refs := by
  obtain ⟨files, ocb, rfl, table⟩ := flushHeader_answers done
  have synced : TablesInv ({ server with files := files } : TableServer)
      ({ server with files := files } : TableServer).selected none refs :=
    fresh_keeps inv (fun _ _ => rfl) rfl (Nat.le_refl _)
  exact answer_keeps synced ocb table

/-- Every event that loses no tables keeps the list in order. -/
theorem serve_tables (inv : TablesInv server server.selected none refs) {event : TableEvent}
    (spares : Sparing server ((conn, event), code))
    (served : server.serve conn event = .ok (next, code)) :
    ∃ refs', TablesInv next next.selected none refs' := by
  cases event with
  | request outcomes request => exact handle_tables inv spares served
  | insert nbytes arrived => exact ⟨refs, countInserted_keeps inv served⟩
  | control request kept =>
    obtain ⟨ocb, rfl, table⟩ := controlRows_answers served
    exact ⟨refs, answer_keeps inv ocb table⟩
  | scan record code' =>
    obtain ⟨ocb, same, table⟩ := scanEnd_answers server conn record code'
    have served : scanEnd server conn record code' = (next, code) := Except.ok.inj served
    rw [served] at same
    have same : next = server.setConn conn ocb := same
    exact ⟨refs, same ▸ answer_keeps inv ocb table⟩
  | flush => exact ⟨refs, flushHeader_keeps inv served⟩

end Requests

/-! ### Runs -/

theorem TableServer.Start.inv {server : TableServer} (start : server.Start) :
    TablesInv server server.selected none [] := by
  have free : ∀ conn, server.selected conn = none := by
    intro conn
    unfold TableServer.selected
    rw [start.conns]
    rfl
  have nobody : ∀ ref, holders server.selected ref = ∅ := by
    intro ref
    ext conn
    simp [holders, free conn]
  refine
    { listed := ⟨none, List.nodup_nil, start.tables, rfl⟩
      live := List.forall_mem_nil _
      whole := List.forall_mem_nil _
      held := fun conn ref held => ?_
      finite := fun ref => by
        rw [nobody]
        exact Set.finite_empty
      counted := List.forall_mem_nil _
      used := List.forall_mem_nil _
      bounded := List.forall_mem_nil _ }
  rw [free] at held
  cases held

/-- In a run whose failed requests lose no tables the list of tables is in order, and there
a failed request leaves the server as it was exactly when it has not got a new table entry
or there are no tables to be lost. -/
theorem failed_requests_keep_tables {start server : TableServer}
    {exchanges : List ((ConnId × TableEvent) × ErrorCode)} (begins : start.Start)
    (run : Run (Under ServeStep Sparing) start exchanges server) :
    TablesInv server server.selected none server.loaded ∧
      ∀ conn outcomes request next code, code ≠ .ok →
        server.handle conn outcomes request = .ok (next, code) →
        (Undone server next conn ↔
          (HalfBuilt server outcomes request → server.tables = none)) := by
  obtain ⟨refs, inv⟩ := run.invariant
    (motive := fun state => ∃ refs, TablesInv state state.selected none refs)
    ⟨[], begins.inv⟩ (by
      rintro state ⟨⟨conn, event⟩, code⟩ next ⟨refs, inv⟩ ⟨served, spares⟩
      exact serve_tables inv spares served)
  exact ⟨inv.loaded.symm ▸ inv, fun conn outcomes request next code failed answered =>
    failed_request_undone_iff failed answered⟩

/-! ### Two tables of pairs -/

def allWell : Outcomes := ⟨true, true, true, true, true, true⟩

/-- Memory that `malloc` hands out for the first time. -/
def blankTables : TableServer where
  heap := fun _ => { table := .null, pages := .null, next := none, prev := none, locks := 0, hFile := none }
  fresh := 0
  tables := none
  files := fun _ => none
  conns := fun _ => Connection.calloc

theorem blankTables_start : blankTables.Start := ⟨rfl, rfl⟩

/-- `TBLCREATE` of pairs with so many pages in the pool. -/
def createPairs (name : String) (lockPages : Nat) : TableRequest :=
  .tblcreate 92 (newTbldesc 1 1 lockPages name)

/-- A second client asks for a table with two pages in the pool. -/
theorem refused_table_empties_list :
    ∃ server next, Run (Under ServeStep Sparing) blankTables
        [((0, .request allWell (createPairs "pairs" 3)), .ok)] server ∧
      server.handle 1 allWell (createPairs "others" 2) = .ok (next, .fewplocks) ∧
      server.loaded = [0] ∧ next.loaded = [] ∧ ¬ Undone server next 1 := by
  refine ⟨_, _, .cons ⟨rfl, nofun, nofun⟩ .nil, rfl, rfl, rfl, fun undone => ?_⟩
  cases undone.loaded

/-- Only pairs whose number is this one. -/
def onlyNumber (number : Nat) : List UInt8 :=
  bytesOf 4 0 ++ bytesOf 4 1 ++ List.replicate 8 0 ++ bytesOf 4 4 ++ List.replicate 8 0 ++
    bytesOf 4 number

/-- Requests that come while no table has too many locks. -/
def spared (server : TableServer) (input : ConnId × TableEvent) :
    Except (Option Fault) (TableServer × ErrorCode) :=
  guarded (fun server input => TableServer.serve server input.1 input.2)
    (fun server _ => ∀ ref ∈ server.loaded, (server.heap ref).locks + 1 < 2 ^ 32) server input

/-- Where no request fails, none loses a table. -/
theorem spared_run {start server : TableServer}
    {exchanges : List ((ConnId × TableEvent) × ErrorCode)}
    (run : Run (Answers spared) start exchanges server)
    (fine : ∀ exchange ∈ exchanges, exchange.2 = .ok) :
    Run (Under ServeStep Sparing) start exchanges server := by
  refine (@Run.under _ _ _ LosesNone _ _ _ (run_guarded run) ?_).mono ?_
  · rintro ⟨⟨conn, event⟩, code⟩ member state
    have code_ok : code = .ok := fine _ member
    subst code_ok
    cases event with
    | request outcomes request => exact fun failed => absurd rfl failed
    | insert nbytes arrived => trivial
    | control request kept => trivial
    | scan record code => trivial
    | flush => trivial
  · rintro state exchange next ⟨⟨served, few⟩, failed⟩
    exact ⟨served, failed, few⟩

/-- A second client inserts two pairs, asks for some of them only, and then selects a table that
does not exist. -/
theorem missing_table_keeps_list :
    ∃ server next, server.loaded = [0] ∧ (server.conns 1).record = 1 ∧
      (server.conns 1).filters.length = 1 ∧
      server.handle 1 allWell (.tblselect 6 "others") = .ok (next, .notblexist) ∧
      Undone server next 1 := by
  obtain ⟨server, run, seen⟩ := replay_run spared blankTables
    [(0, .request allWell (createPairs "pairs" 3)), (1, .request allWell (.tblselect 6 "pairs")),
      (1, .insert 8 true), (1, .insert 8 true), (1, .control (.fltrdefine (onlyNumber 5)) rfl),
      (1, .scan 1 .ok)]
    (List.replicate 6 .ok)
    (fun server => (server.loaded, (server.conns 1).record, (server.conns 1).filters.length,
      (server.files "others").isNone &&
        decide ((server.handle 1 allWell (.tblselect 6 "others")).map Prod.snd = .ok .notblexist)))
    ([0], 1, 1, true) (by decide +kernel)
  simp only [Prod.mk.injEq, Bool.and_eq_true, decide_eq_true_eq] at seen
  obtain ⟨loaded, record, filters, absent, answer⟩ := seen
  obtain ⟨⟨next, code⟩, answered, failed⟩ := map_eq_ok.mp answer
  have failed : code = .notblexist := failed
  subst failed
  refine ⟨server, next, loaded, record, filters, answered, ((failed_requests_keep_tables
    blankTables_start (spared_run run ?_)).2 1 allWell (.tblselect 6 "others") next .notblexist
      nofun answered).mpr fun half => ?_⟩
  · intro exchange member
    exact List.eq_of_mem_replicate (List.of_mem_zip member).2
  · have present := half.2.2.1
    rw [Option.isNone_iff_eq_none.mp absent] at present
    cases present

end QNXStuff.QXBase
