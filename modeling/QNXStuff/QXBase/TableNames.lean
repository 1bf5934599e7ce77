import QNXStuff.QXBase.TableRuns

/-! One table object for each name, and the release of a table with its last connection. -/

namespace QNXStuff.QXBase

open Execution LinkedList Holding

def TableServer.name (server : TableServer) (ref : TableRef) : Option String :=
  match (server.heap ref).table with
  | .to desc => some desc.name
  | _ => none

/-- Entries with the same descriptor and the same header file. -/
def SameFile (entry other : TableEntry) : Prop :=
  other.table = entry.table ∧ other.hFile = entry.hFile

theorem SameFile.trans {first second third : TableEntry} (left : SameFile first second)
    (right : SameFile second third) : SameFile first third :=
  ⟨right.1.trans left.1, right.2.trans left.2⟩

section Frames

variable {server next : TableServer} {ref : TableRef} {conn : ConnId}

theorem SameFile.name (same : SameFile (server.heap ref) (next.heap ref)) :
    next.name ref = server.name ref := by
  unfold TableServer.name
  rw [same.1]

theorem setEntry_file (entry : TableEntry) (same : SameFile (server.heap ref) entry)
    (other : TableRef) : SameFile (server.heap other) ((server.setEntry ref entry).heap other) := by
  by_cases here : other = ref
  · subst here
    simpa [TableServer.setEntry] using same
  · simp [TableServer.setEntry, here, SameFile]

theorem redirectNext_file (before target : Option TableRef) (other : TableRef) :
    SameFile (server.heap other) ((server.redirectNext before target).heap other) := by
  cases before with
  | none => exact ⟨rfl, rfl⟩
  | some ref =>
    exact setEntry_file { server.heap ref with next := target } ⟨rfl, rfl⟩ other

theorem redirectPrev_file (after target : Option TableRef) (other : TableRef) :
    SameFile (server.heap other) ((server.redirectPrev after target).heap other) := by
  cases after with
  | none => exact ⟨rfl, rfl⟩
  | some ref =>
    exact setEntry_file { server.heap ref with prev := target } ⟨rfl, rfl⟩ other

theorem fixTables_file (server : TableServer) (ref other : TableRef) :
    SameFile (server.heap other) ((fixTables server ref).heap other) :=
  (redirectNext_file _ _ other).trans (redirectPrev_file _ _ other)

theorem addTable_file (server : TableServer) (ref other : TableRef) :
    SameFile (server.heap other) ((addTable server ref).heap other) :=
  (setEntry_file { server.heap ref with next := server.tables }
    ⟨rfl, rfl⟩ other).trans (redirectPrev_file _ _ other)

theorem redirect_files (server : TableServer) (place target : Option TableRef) :
    (server.redirectNext place target).files = server.files ∧
      (server.redirectPrev place target).files = server.files := by
  cases place <;> exact ⟨rfl, rfl⟩

theorem fixTables_files (server : TableServer) (ref : TableRef) :
    (fixTables server ref).files = server.files :=
  (redirect_files _ _ _).2.trans (redirect_files _ _ _).1

theorem addTable_files (server : TableServer) (ref : TableRef) :
    (addTable server ref).files = server.files :=
  (redirect_files (server.setEntry ref { server.heap ref with next := server.tables })
    server.tables (some ref)).2

theorem tableRelease_file {desc : TableDesc} {name : String}
    (table : (server.heap ref).table = .to desc) (hFile : (server.heap ref).hFile = some name)
    (released : tableRelease server ref = .ok next) :
    (∃ size, next.files = Function.update server.files name (some ⟨size, desc⟩)) ∧
      next.conns = server.conns ∧ ∀ other, SameFile (server.heap other) (next.heap other) := by
  simp only [tableRelease, syncHeader, table, hFile] at released
  split at released
  · cases released
  · cases released
  · cases released
    exact ⟨⟨_, fixTables_files ..⟩, (fixTables_rest ..).1, fixTables_file _ ref⟩

/-- What leaving a table does to the header files. -/
structure LeftFile (server : TableServer) (conn : ConnId) (left : TableServer) : Prop where
  entries : ∀ ref, SameFile (server.heap ref) (left.heap ref)
  conns : left.conns = server.conns
  files : left.files = server.files ∨ ∃ old desc name size, server.selected conn = some old ∧
    (server.heap old).table = .to desc ∧ (server.heap old).hFile = some name ∧
    left.files = Function.update server.files name (some ⟨size, desc⟩)
  synced : ∀ old desc name, server.selected conn = some old → (server.heap old).locks = 1 →
    (server.heap old).table = .to desc → (server.heap old).hFile = some name →
    ∃ size, left.files name = some ⟨size, desc⟩

theorem leaveTable_file
    (filed : ∀ old, server.selected conn = some old → ∃ desc name,
      (server.heap old).table = .to desc ∧ (server.heap old).hFile = some name)
    {left : TableServer} (done : leaveTable server conn = .ok left) :
    LeftFile server conn left := by
  unfold leaveTable at done
  cases held : (server.conns conn).table with
  | none =>
    rw [held] at done
    cases done
    refine ⟨fun _ => ⟨rfl, rfl⟩, rfl, .inl rfl, fun old _ _ selected => ?_⟩
    rw [TableServer.selected, held] at selected
    cases selected
  | some old =>
    obtain ⟨desc, name, table, hFile⟩ := filed old held
    simp only [held] at done
    have here := setLocks_here server old (((server.heap old).locks + (2 ^ 32 - 1)) % 2 ^ 32)
    have lowered : ∀ other, SameFile (server.heap other)
        ((server.setLocks old (((server.heap old).locks + (2 ^ 32 - 1)) % 2 ^ 32)).heap other) :=
      setEntry_file { server.heap old with locks := _ } ⟨rfl, rfl⟩
    split at done
    · obtain ⟨⟨size, files⟩, conns, entries⟩ := tableRelease_file (by rw [here]; exact table)
        (by rw [here]; exact hFile) done
      refine ⟨fun ref => (lowered ref).trans (entries ref), conns,
        .inr ⟨old, desc, name, size, held, table, hFile, files⟩, ?_⟩
      intro old' desc' name' selected _ table' hFile'
      cases held.symm.trans selected
      cases table.symm.trans table'
      cases hFile.symm.trans hFile'
      exact ⟨size, by rw [files, Function.update_self]⟩
    · next more =>
      cases done
      refine ⟨lowered, rfl, .inl rfl, ?_⟩
      intro old' _ _ selected last
      cases held.symm.trans selected
      rw [last] at more
      exact absurd rfl more

end Frames

/-! ### Names -/

/-- The header files carry the names they are stored under. -/
def Carried (files : String → Option HeaderFile) : Prop :=
  ∀ name header, files name = some header → header.desc.name = name

/-- Writing the descriptor of a table under its name. -/
theorem Carried.update {files : String → Option HeaderFile} (carried : Carried files) (size : Nat)
    (desc : TableDesc) : Carried (Function.update files desc.name (some ⟨size, desc⟩)) := by
  intro name header found
  by_cases here : name = desc.name
  · rw [here, Function.update_self] at found
    cases found
    exact here.symm
  · rw [Function.update_of_ne here] at found
    exact carried name header found

theorem isSome_update {files : String → Option HeaderFile} (name : String) (header : HeaderFile)
    (other : String) (filed : (files other).isSome) :
    (Function.update files name (some header) other).isSome := by
  by_cases here : other = name
  · rw [here, Function.update_self]
    rfl
  · rwa [Function.update_of_ne here]

/-- The loaded tables have different names, and the files of these names are open. -/
structure Named (server : TableServer) : Prop where
  carried : Carried server.files
  filed : ∀ ref ∈ server.loaded, ∃ name, server.name ref = some name ∧
    (server.heap ref).hFile = some name ∧ (server.files name).isSome
  unique : ∀ ref ∈ server.loaded, ∀ other ∈ server.loaded,
    server.name ref = server.name other → ref = other

/-- A table that was not loaded before, under a name that no loaded table has. -/
def NewTable (server next : TableServer) (ref : TableRef) : Prop :=
  ∃ name, next.name ref = some name ∧ (next.heap ref).hFile = some name ∧
    (next.files name).isSome ∧ ∀ other ∈ server.loaded, server.name other ≠ some name

/-- What a connection does to the tables and their files. -/
structure Moves (server : TableServer) (conn : ConnId) (next : TableServer) : Prop where
  others : ∀ other, other ≠ conn → next.selected other = server.selected other
  entries : ∀ ref ∈ server.loaded, next.name ref = server.name ref ∧
    (next.heap ref).hFile = (server.heap ref).hFile
  carried : Carried next.files
  kept : ∀ name, (server.files name).isSome → (next.files name).isSome
  target : ∀ ref, next.selected conn = some ref → ref ∈ server.loaded ∨ NewTable server next ref
  synced : ∀ old desc, server.selected conn = some old → next.selected conn ≠ some old →
    (server.heap old).locks = 1 → (server.heap old).table = .to desc →
    ∃ size, next.files desc.name = some ⟨size, desc⟩

section Steps

variable {server next : TableServer} {conn : ConnId} {refs : List TableRef}

/-- The loaded tables are those that somebody has selected. -/
theorem TablesInv.loaded_iff (inv : TablesInv server server.selected none refs)
    (ref : TableRef) : ref ∈ server.loaded ↔ ∃ conn, server.selected conn = some ref := by
  rw [inv.loaded]
  constructor
  · intro member
    have used := inv.used ref member
    rw [inv.counted ref member, if_neg (by nofun), Nat.add_zero] at used
    exact (Set.ncard_pos (inv.finite ref)).mp used
  · rintro ⟨conn, held⟩
    exact inv.held conn ref held

theorem Named.step (inv : TablesInv server server.selected none refs) {refs' : List TableRef}
    (after : TablesInv next next.selected none refs') (named : Named server)
    (moves : Moves server conn next) : Named next := by
  -- a table that is loaded now was loaded before or is the one the connection brought
  have origin : ∀ ref ∈ next.loaded, ref ∈ server.loaded ∨
      (next.selected conn = some ref ∧ NewTable server next ref) := by
    intro ref member
    obtain ⟨client, held⟩ := (after.loaded_iff ref).mp member
    by_cases same : client = conn
    · subst same
      exact (moves.target ref held).imp_right fun brought => ⟨held, brought⟩
    · left
      rw [moves.others client same] at held
      exact (inv.loaded_iff ref).mpr ⟨client, held⟩
  have only : ∀ ref, NewTable server next ref → ∀ other ∈ server.loaded,
      next.name ref ≠ next.name other := by
    rintro ref ⟨name, here, _, _, free⟩ other member same
    rw [here, (moves.entries other member).1] at same
    exact free other member same.symm
  refine ⟨moves.carried, fun ref member => ?_, fun ref member other member' same => ?_⟩
  · rcases origin ref member with old | ⟨_, name, here, hFile, filed, _⟩
    · obtain ⟨name, here, hFile, filed⟩ := named.filed ref old
      obtain ⟨name', hFile'⟩ := moves.entries ref old
      exact ⟨name, name'.trans here, hFile'.trans hFile, moves.kept name filed⟩
    · exact ⟨name, here, hFile, filed⟩
  · rcases origin ref member with old | ⟨held, brought⟩
    · rcases origin other member' with old' | ⟨_, brought'⟩
      · rw [(moves.entries ref old).1, (moves.entries other old').1] at same
        exact named.unique ref old other old' same
      · exact absurd same.symm (only other brought' ref old)
    · rcases origin other member' with old' | ⟨held', _⟩
      · exact absurd same (only ref brought other old')
      · exact Option.some.inj (held.symm.trans held')

/-- A loaded table is complete, and its header file is open under its name. -/
theorem Named.complete (named : Named server) {ref : TableRef} (member : ref ∈ server.loaded) :
    ∃ desc, (server.heap ref).table = .to desc ∧ server.name ref = some desc.name ∧
      (server.heap ref).hFile = some desc.name ∧ (server.files desc.name).isSome := by
  obtain ⟨name, here, hFile, filed⟩ := named.filed ref member
  unfold TableServer.name at here ⊢
  split at here
  · next desc table =>
    cases here
    exact ⟨desc, table, rfl, hFile, filed⟩
  · cases here

/-- A connection that leaves its table, after the request has or has not added a new one. -/
structure LeftMoves (server : TableServer) (conn : ConnId) (state left : TableServer) : Prop where
  entries : ∀ ref, SameFile (state.heap ref) (left.heap ref)
  conns : left.conns = server.conns
  carried : Carried left.files
  kept : ∀ name, (state.files name).isSome → (left.files name).isSome
  synced : ∀ old desc, server.selected conn = some old → (server.heap old).locks = 1 →
    (server.heap old).table = .to desc → ∃ size, left.files desc.name = some ⟨size, desc⟩

theorem leave_moves (inv : TablesInv server server.selected none refs) (named : Named server)
    {state left : TableServer}
    (same : ∀ ref ∈ server.loaded, SameFile (server.heap ref) (state.heap ref) ∧
      (state.heap ref).locks = (server.heap ref).locks)
    (conns : state.conns = server.conns) (carried : Carried state.files)
    (done : leaveTable state conn = .ok left) : LeftMoves server conn state left := by
  have selected : state.selected = server.selected := selected_of_conns conns
  have complete : ∀ old, server.selected conn = some old → old ∈ server.loaded ∧
      ∃ desc, (state.heap old).table = .to desc ∧ (state.heap old).hFile = some desc.name := by
    intro old held
    have member := (inv.loaded_iff old).mpr ⟨conn, held⟩
    obtain ⟨desc, table, _, hFile, _⟩ := named.complete member
    obtain ⟨⟨table', hFile'⟩, _⟩ := same old member
    exact ⟨member, desc, table'.trans table, hFile'.trans hFile⟩
  have leaves := leaveTable_file (fun old held => by
    rw [selected] at held
    obtain ⟨_, desc, table, hFile⟩ := complete old held
    exact ⟨desc, desc.name, table, hFile⟩) done
  refine ⟨leaves.entries, leaves.conns.trans conns, ?_, ?_, ?_⟩
  · rcases leaves.files with files | ⟨old, desc, name, size, held, table, hFile, files⟩
    · rwa [files]
    · rw [selected] at held
      obtain ⟨_, desc', table', hFile'⟩ := complete old held
      cases table.symm.trans table'
      cases hFile.symm.trans hFile'
      rw [files]
      exact carried.update size desc
  · rcases leaves.files with files | ⟨old, desc, name, size, _, _, _, files⟩
    · rw [files]
      exact fun _ filed => filed
    · rw [files]
      exact isSome_update name _
  · intro old desc held last table
    obtain ⟨member, desc', table', hFile'⟩ := complete old held
    obtain ⟨entry, locks⟩ := same old member
    cases (entry.1.trans table).symm.trans table'
    exact leaves.synced old desc desc.name (by rwa [selected]) (by rwa [locks]) table' hFile'

theorem Moves.refl (inv : TablesInv server server.selected none refs) (named : Named server) :
    Moves server conn server where
  others _ _ := rfl
  entries _ _ := ⟨rfl, rfl⟩
  carried := named.carried
  kept _ filed := filed
  target ref held := .inl ((inv.loaded_iff ref).mpr ⟨conn, held⟩)
  synced _ _ held moved := absurd held moved

/-- The connection gets an answer and keeps its table. -/
theorem Moves.answer (moves : Moves server conn next) (ocb : Connection)
    (table : ocb.table = next.selected conn) : Moves server conn (next.setConn conn ocb) := by
  have selected : (next.setConn conn ocb).selected = next.selected := by
    rw [selected_setConn, table, Function.update_eq_self]
  refine ⟨?_, moves.entries, moves.carried, moves.kept, ?_, ?_⟩
  · rw [selected]
    exact moves.others
  · rw [selected]
    exact moves.target
  · rw [selected]
    exact moves.synced

/-- Once the old table is left, the connection goes to another one or to none. -/
theorem LeftMoves.moves {state left : TableServer} (leaves : LeftMoves server conn state left)
    (same : ∀ ref ∈ server.loaded, SameFile (server.heap ref) (state.heap ref))
    (kept : ∀ name, (server.files name).isSome → (state.files name).isSome)
    (entries : ∀ ref, SameFile (left.heap ref) (next.heap ref)) (files : next.files = left.files)
    (others : ∀ other, other ≠ conn → next.selected other = left.selected other)
    (target : ∀ ref, next.selected conn = some ref →
      ref ∈ server.loaded ∨ NewTable server next ref) : Moves server conn next where
  others other apart := (others other apart).trans
    (congrFun (selected_of_conns leaves.conns) other)
  entries ref member := by
    have chain := ((same ref member).trans (leaves.entries ref)).trans (entries ref)
    exact ⟨chain.name, chain.2⟩
  carried := by
    rw [files]
    exact leaves.carried
  kept name filed := by
    rw [files]
    exact leaves.kept name (kept name filed)
  target := target
  synced old desc held _ last table := by
    rw [files]
    exact leaves.synced old desc held last table

theorem setConn_others (server : TableServer) (conn : ConnId) (ocb : Connection) (other : ConnId)
    (apart : other ≠ conn) : (server.setConn conn ocb).selected other = server.selected other := by
  rw [selected_setConn, Function.update_of_ne apart]

theorem setConn_target (server : TableServer) (conn : ConnId) (ocb : Connection) :
    (server.setConn conn ocb).selected conn = ocb.table := by
  rw [selected_setConn, Function.update_self]

theorem selectLoaded_moves (inv : TablesInv server server.selected none refs)
    (named : Named server) {curTbl : TableRef} (member : curTbl ∈ server.loaded)
    {code : ErrorCode} (done : selectLoaded server conn curTbl = .ok (next, code)) :
    Moves server conn next := by
  unfold selectLoaded at done
  dsimp only at done
  split at done
  · cases done
    exact .refl inv named
  · split at done
    · cases done
    · next left moved =>
      cases done
      have leaves := leave_moves inv named (fun _ _ => ⟨⟨rfl, rfl⟩, rfl⟩) rfl named.carried moved
      apply leaves.moves (fun _ _ => ⟨rfl, rfl⟩) (fun _ filed => filed)
      · exact setEntry_file { left.heap curTbl with locks := _ } ⟨rfl, rfl⟩
      · rfl
      · exact setConn_others left conn _
      · intro ref held
        have held : (left.setConn conn _).selected conn = some ref := held
        rw [setConn_target] at held
        cases held
        exact .inl member

theorem closeConn_moves (inv : TablesInv server server.selected none refs)
    (named : Named server) {code : ErrorCode} (done : closeConn server conn = .ok (next, code)) :
    Moves server conn next := by
  unfold closeConn at done
  cases moved : leaveTable server conn with
  | error fault =>
    rw [moved] at done
    cases done
  | ok left =>
    rw [moved] at done
    cases done
    have leaves := leave_moves inv named (fun _ _ => ⟨⟨rfl, rfl⟩, rfl⟩) rfl named.carried moved
    apply leaves.moves (fun _ _ => ⟨rfl, rfl⟩) (fun _ filed => filed)
    · exact fun _ => ⟨rfl, rfl⟩
    · rfl
    · exact setConn_others left conn _
    · intro ref held
      rw [setConn_target] at held
      cases held

/-- A search without a result has seen all the names. -/
theorem findTable_absent {name : String} {fuel : Nat} {start : Option TableRef}
    (absent : findTable server name fuel start = .ok none) :
    ∀ ref ∈ walk (fun ref => (server.heap ref).next) fuel start, server.name ref ≠ some name := by
  induction fuel generalizing start with
  | zero =>
    cases start with
    | none => nofun
    | some first => cases absent
  | succ fuel ih =>
    cases start with
    | none => nofun
    | some first =>
      simp only [findTable] at absent
      split at absent
      · next desc table =>
        split at absent
        · cases absent
        · next other =>
          intro ref member
          rcases List.mem_cons.mp member with rfl | later
          · unfold TableServer.name
            rw [table]
            exact fun same => other (Option.some.inj same)
          · exact ih absent ref later
      · cases absent

theorem selectFile_moves (inv : TablesInv server server.selected none refs)
    (named : Named server) {outcomes : Outcomes} {name : String} {header : HeaderFile}
    (present : server.files name = some header)
    (absent : ∀ ref ∈ server.loaded, server.name ref ≠ some name)
    (done : selectFile server conn outcomes name header = .ok (next, .ok)) :
    Moves server conn next := by
  obtain ⟨entry, left, built, moved, rfl⟩ := selectFile_ok done
  generalize grown : ({ server with fresh := server.fresh + 1 } : TableServer).setEntry
    server.fresh entry = state at moved
  have here : state.heap server.fresh = entry := by
    rw [← grown]
    exact Function.update_self ..
  have entries : ∀ ref ∈ server.loaded, state.heap ref = server.heap ref := by
    intro ref member
    rw [← grown]
    exact Function.update_of_ne (fun same : ref = server.fresh =>
      inv.fresh_outside (same ▸ inv.loaded ▸ member)) ..
  have files : (addTable state server.fresh).files = server.files := by
    rw [addTable_files, ← grown]
    rfl
  have same : ∀ ref ∈ server.loaded,
      SameFile (server.heap ref) ((addTable state server.fresh).heap ref) := by
    intro ref member
    have kept := addTable_file state server.fresh ref
    rwa [entries ref member] at kept
  have leaves := @leave_moves server conn refs inv named _ left
    (fun ref member => ⟨same ref member, by
      rw [(addTable_same state server.fresh ref).2.2, entries ref member]⟩)
    (by rw [(addTable_rest ..).1, ← grown]; rfl) (by rw [files]; exact named.carried) moved
  apply leaves.moves same
  · rw [files]
    exact fun _ filed => filed
  · exact fun _ => ⟨rfl, rfl⟩
  · rfl
  · exact setConn_others left conn _
  · intro ref held
    have held : (left.setConn conn _).selected conn = some ref := held
    rw [setConn_target] at held
    cases held
    right
    have chain := (addTable_file state server.fresh server.fresh).trans
      (leaves.entries server.fresh)
    rw [here] at chain
    refine ⟨name, ?_, ?_, ?_, absent⟩
    · show left.name server.fresh = some name
      unfold TableServer.name
      rw [chain.1, built.table]
      exact congrArg some (named.carried name header present)
    · exact chain.2.trans built.hFile
    · apply leaves.kept
      rw [files, present]
      rfl

theorem createNew_moves (inv : TablesInv server server.selected none refs)
    (named : Named server) {outcomes : Outcomes} {desc : TableDesc}
    (absent : server.files desc.name = none) (creates : outcomes.creates = true)
    (done : createNew server conn outcomes desc = .ok (next, .ok)) :
    Moves server conn next := by
  obtain ⟨entry, left, built, moved, rfl⟩ := createNew_ok done
  rw [creates] at moved built
  have hFile : entry.hFile = some desc.name := built.hFile
  have free : ∀ ref ∈ server.loaded, server.name ref ≠ some desc.name := by
    intro ref member same
    obtain ⟨name, here, _, filed⟩ := named.filed ref member
    rw [Option.some.inj (here.symm.trans same), absent] at filed
    cases filed
  generalize grown : (({ server with
    fresh := server.fresh + 1, files := createdFiles server true desc } :
      TableServer).setEntry server.fresh entry) = state at moved
  have here : state.heap server.fresh = entry := by
    rw [← grown]
    exact Function.update_self ..
  have entries : ∀ ref ∈ server.loaded, state.heap ref = server.heap ref := by
    intro ref member
    rw [← grown]
    exact Function.update_of_ne (fun same : ref = server.fresh =>
      inv.fresh_outside (same ▸ inv.loaded ▸ member)) ..
  have files : state.files =
      Function.update server.files desc.name (some ⟨desc.size, desc⟩) := by
    rw [← grown]
    rfl
  have carried : Carried state.files := by
    intro name header found
    rw [files] at found
    by_cases same : name = desc.name
    · rw [same, Function.update_self] at found
      cases found
      exact same.symm
    · rw [Function.update_of_ne same] at found
      exact named.carried name header found
  have kept : ∀ name, (server.files name).isSome → (state.files name).isSome := by
    intro name filed
    rw [files]
    by_cases same : name = desc.name
    · rw [same, Function.update_self]
      rfl
    · rwa [Function.update_of_ne same]
  have same : ∀ ref ∈ server.loaded, SameFile (server.heap ref) (state.heap ref) := by
    intro ref member
    rw [entries ref member]
    exact ⟨rfl, rfl⟩
  have leaves := @leave_moves server conn refs inv named state left
    (fun ref member => ⟨same ref member, by rw [entries ref member]⟩)
    (by rw [← grown]; rfl) carried moved
  apply leaves.moves same kept
  · exact addTable_file left server.fresh
  · exact addTable_files left server.fresh
  · intro other apart
    have added := selected_of_conns (addTable_rest left server.fresh).1
    exact (setConn_others (addTable left server.fresh) conn _ other apart).trans
      (congrFun added other)
  · intro ref held
    have held : ((addTable left server.fresh).setConn conn _).selected conn = some ref := held
    rw [setConn_target] at held
    cases held
    right
    have chain := (leaves.entries server.fresh).trans
      (addTable_file left server.fresh server.fresh)
    rw [here] at chain
    refine ⟨desc.name, ?_, chain.2.trans hFile, ?_, free⟩
    · show (addTable left server.fresh).name server.fresh = some desc.name
      unfold TableServer.name
      rw [chain.1, built.table]
    · show ((addTable left server.fresh).files desc.name).isSome
      rw [addTable_files]
      apply leaves.kept
      rw [files, Function.update_self]
      rfl

/-- The connection of an `INSERT` keeps its table, whose descriptor keeps its name. -/
theorem countInserted_moves (inv : TablesInv server server.selected none refs)
    (named : Named server) {nbytes : Nat} {arrived : Bool} {code : ErrorCode}
    (done : countInserted server conn nbytes arrived = .ok (next, code)) :
    Moves server conn next := by
  unfold countInserted at done
  dsimp only at done
  split at done
  · cases done
    exact (Moves.refl inv named).answer _ rfl
  · next ref held =>
    split at done
    · next desc table =>
      split at done
      · cases done
        exact (Moves.refl inv named).answer _ rfl
      · have counted : Moves server conn (server.setEntry ref { server.heap ref with
            table := .to { desc with index := (desc.index + 1) % 2 ^ 32 } }) := by
          have self := @Moves.refl server conn refs inv named
          refine ⟨self.others, fun place _ => ?_, self.carried, self.kept, fun place held => ?_,
            fun old _ held moved => absurd held moved⟩
          · unfold TableServer.name
            by_cases same : place = ref
            · rw [same]
              simp [TableServer.setEntry, table]
            · simp [TableServer.setEntry, same]
          · exact .inl ((inv.loaded_iff place).mpr ⟨conn, held⟩)
        split at done
        · cases done
          exact counted.answer _ rfl
        · cases done
          exact counted.answer _ rfl
    · cases done

/-- Writing the header of a loaded table moves no connection. -/
theorem flushHeader_moves (inv : TablesInv server server.selected none refs)
    (named : Named server) {code : ErrorCode}
    (done : flushHeader server conn = .ok (next, code)) : Moves server conn next := by
  have same : Moves server conn server := .refl inv named
  unfold flushHeader at done
  dsimp only at done
  split at done
  · cases done
    exact same.answer _ rfl
  · next ref held =>
    obtain ⟨synced, written, reply⟩ := map_eq_ok.mp done
    cases reply
    obtain ⟨desc, table, hFile⟩ := named.complete ((inv.loaded_iff ref).mpr ⟨conn, held⟩)
    simp only [syncHeader, table, hFile] at written
    cases written
    have moves : Moves server conn { server with
        files := Function.update server.files desc.name
          (some ⟨max (((server.files desc.name).map HeaderFile.size).getD 0) desc.size, desc⟩) } :=
      ⟨same.others, same.entries, named.carried.update _ desc, isSome_update _ _,
        fun ref held => .inl ((inv.loaded_iff ref).mpr ⟨conn, held⟩),
        fun _ _ held moved => absurd held moved⟩
    exact moves.answer _ rfl

/-! ### Runs -/

/-- A request that fails has not got a new table entry. -/
def RefusedEarly (server : TableServer) : (ConnId × TableEvent) × ErrorCode → Prop
  | ((_, .request outcomes request), code) => code ≠ .ok → ¬ HalfBuilt server outcomes request
  | _ => True

/-- A `TBLCREATE` that is answered with success has found no header file and could create it. -/
def HeaderCreated (server : TableServer) : (ConnId × TableEvent) × ErrorCode → Prop
  | ((_, .request outcomes (.tblcreate _ desc)), .ok) =>
    server.files desc.name = none ∧ outcomes.creates = true
  | _ => True

/-- No table is selected by 2^32 - 1 connections. -/
def FewLocks (server : TableServer) : Prop :=
  ∀ ref ∈ server.loaded, (server.heap ref).locks + 1 < 2 ^ 32

structure Orderly (server : TableServer) (exchange : (ConnId × TableEvent) × ErrorCode) :
    Prop where
  refused : RefusedEarly server exchange
  created : HeaderCreated server exchange
  few : FewLocks server

/-- What the clients rely on in every state. -/
structure TablesOrdered (server : TableServer) : Prop where
  unique : ∀ ref ∈ server.loaded, ∀ other ∈ server.loaded,
    server.name ref = server.name other → ref = other
  listed : ∃ tail, (server.links tail).Represents server.loaded
  locks : ∀ ref ∈ server.loaded, (holders server.selected ref).Finite ∧
    (server.heap ref).locks = (holders server.selected ref).ncard
  selected : ∀ conn ref, server.selected conn = some ref → ref ∈ server.loaded

/-- A table leaves the list in the step after which nobody has it selected, and its header
file then has its descriptor. -/
structure ReleasedWithLast (server next : TableServer) : Prop where
  released : ∀ ref ∈ server.loaded, ref ∉ next.loaded ↔ ∀ conn, next.selected conn ≠ some ref
  synced : ∀ ref ∈ server.loaded, ref ∉ next.loaded → ∃ desc size,
    (server.heap ref).table = .to desc ∧ next.files desc.name = some ⟨size, desc⟩

theorem tblselect_moves (inv : TablesInv server server.selected none refs)
    (named : Named server) {outcomes : Outcomes} {nbytes : Nat} {name : String}
    {code : ErrorCode}
    (orderly : Orderly server ((conn, .request outcomes (.tblselect nbytes name)), code))
    (done : tblselect server conn outcomes nbytes name = .ok (next, code)) :
    Moves server conn next := by
  by_cases failed : code ≠ .ok
  · rcases tblselect_error failed done with ⟨_, rfl⟩ | ⟨half, _⟩
    · exact .refl inv named
    · exact absurd half (orderly.refused failed)
  · have fine : code = .ok := not_not.mp failed
    subst fine
    obtain ⟨tail, listed⟩ := inv.listed
    unfold tblselect at done
    split at done
    · cases done
    · split at done
      · cases done
      · next curTbl found =>
        have member := findTable_mem listed.forward found
        exact selectLoaded_moves inv named (inv.loaded.symm ▸ member) done
      · next absent =>
        split at done
        · cases done
        · next header present =>
          split at done
          · cases done
          · split at done
            · cases done
            · exact selectFile_moves inv named present (findTable_absent absent) done

theorem tblcreate_moves (inv : TablesInv server server.selected none refs)
    (named : Named server) {outcomes : Outcomes} {nbytes : Nat} {desc : TableDesc}
    {code : ErrorCode}
    (orderly : Orderly server ((conn, .request outcomes (.tblcreate nbytes desc)), code))
    (done : tblcreate server conn outcomes nbytes desc = .ok (next, code)) :
    Moves server conn next := by
  by_cases failed : code ≠ .ok
  · rcases tblcreate_error failed done with ⟨_, rfl⟩ | ⟨half, _⟩
    · exact .refl inv named
    · exact absurd half (orderly.refused failed)
  · have fine : code = .ok := not_not.mp failed
    subst fine
    obtain ⟨absent, creates⟩ := orderly.created
    unfold tblcreate at done
    split at done
    · cases done
    · split at done
      · cases done
      · split at done
        · cases done
        · exact createNew_moves inv named absent creates done

/-- Every event of an orderly run keeps the list, the names and the files in order. -/
theorem serve_moves (inv : TablesInv server server.selected none refs) (named : Named server)
    {event : TableEvent} {code : ErrorCode} (orderly : Orderly server ((conn, event), code))
    (served : server.serve conn event = .ok (next, code)) :
    Moves server conn next ∧ ∃ refs', TablesInv next next.selected none refs' := by
  cases event with
  | insert nbytes arrived =>
    exact ⟨countInserted_moves inv named served, refs, countInserted_keeps inv served⟩
  | control request kept =>
    obtain ⟨ocb, rfl, table⟩ := controlRows_answers served
    exact ⟨(Moves.refl inv named).answer ocb table, refs, answer_keeps inv ocb table⟩
  | scan record code' =>
    have served : scanEnd server conn record code' = (next, code) := Except.ok.inj served
    obtain ⟨ocb, same, table⟩ := scanEnd_answers server conn record code'
    rw [served] at same
    have same : next = server.setConn conn ocb := same
    subst same
    exact ⟨(Moves.refl inv named).answer ocb table, refs, answer_keeps inv ocb table⟩
  | flush => exact ⟨flushHeader_moves inv named served, refs, flushHeader_keeps inv served⟩
  | request outcomes request =>
    have served : server.handle conn outcomes request = .ok (next, code) := served
    have spares : Sparing server ((conn, .request outcomes request), code) :=
      ⟨fun failed half => absurd half (orderly.refused failed), orderly.few⟩
    refine ⟨?_, handle_tables inv spares served⟩
    cases request with
    | tblselect nbytes name =>
      have served : (tblselect server conn outcomes nbytes name).map
        (TableServer.handle.keep conn) = .ok (next, code) := served
      cases done : tblselect server conn outcomes nbytes name with
      | error fault =>
        rw [done] at served
        cases served
      | ok result =>
        rw [done] at served
        cases served
        exact (tblselect_moves inv named orderly done).answer _ rfl
    | tblcreate nbytes desc =>
      have served : (tblcreate server conn outcomes nbytes desc).map
        (TableServer.handle.keep conn) = .ok (next, code) := served
      cases done : tblcreate server conn outcomes nbytes desc with
      | error fault =>
        rw [done] at served
        cases served
      | ok result =>
        rw [done] at served
        cases served
        exact (tblcreate_moves inv named orderly done).answer _ rfl
    | close => exact closeConn_moves inv named served

/-- A table that leaves the list was selected by the connection at work alone. -/
theorem Moves.released (inv : TablesInv server server.selected none refs) (named : Named server)
    (moves : Moves server conn next) {refs' : List TableRef}
    (after : TablesInv next next.selected none refs') : ReleasedWithLast server next where
  released ref _ := by
    rw [after.loaded_iff]
    exact not_exists
  synced ref member gone := by
    have nobody : ∀ client, next.selected client ≠ some ref := by
      intro client held
      exact gone ((after.loaded_iff ref).mpr ⟨client, held⟩)
    have alone : ∀ client, server.selected client = some ref → client = conn := by
      intro client held
      by_contra apart
      rw [← moves.others client apart] at held
      exact nobody client held
    obtain ⟨client, held⟩ := (inv.loaded_iff ref).mp member
    have single : holders server.selected ref = {conn} := by
      ext other
      constructor
      · exact alone other
      · intro here
        rw [Set.mem_singleton_iff.mp here, ← alone client held]
        exact held
    have last : (server.heap ref).locks = 1 := by
      rw [inv.counted ref (inv.loaded ▸ member), single, Set.ncard_singleton]
      rfl
    obtain ⟨desc, table, _⟩ := named.complete member
    obtain ⟨size, filed⟩ := moves.synced ref desc (alone client held ▸ held) (nobody conn)
      last table
    exact ⟨desc, size, table, filed⟩

end Steps

theorem TableServer.Start.named {server : TableServer} (start : server.Start)
    (carried : Carried server.files) : Named server := by
  have empty := loaded_nil start.tables
  refine ⟨carried, fun ref member => ?_, fun ref member => ?_⟩
  · rw [empty] at member
    cases member
  · rw [empty] at member
    cases member

/-- A `TBLCREATE` finds no header file and can create it. -/
def HeaderAbsent (server : TableServer) : TableEvent → Prop
  | .request outcomes (.tblcreate _ desc) =>
    (server.files desc.name).isNone = true ∧ outcomes.creates = true
  | _ => True

instance {server : TableServer} {event : TableEvent} : Decidable (HeaderAbsent server event) :=
  match event with
  | .request _ (.tblcreate _ _) => inferInstanceAs (Decidable (_ ∧ _))
  | .request _ (.tblselect _ _) | .request _ .close => isTrue trivial
  | .insert _ _ | .control _ _ | .scan _ _ | .flush => isTrue trivial

instance {server : TableServer} : Decidable (FewLocks server) :=
  inferInstanceAs (Decidable (∀ ref ∈ server.loaded, _ < _))

/-- Requests that come while no table has too many locks, and create no table twice. -/
def ordered (server : TableServer) (input : ConnId × TableEvent) :
    Except (Option Fault) (TableServer × ErrorCode) :=
  guarded (fun server input => TableServer.serve server input.1 input.2)
    (fun server input => HeaderAbsent server input.2 ∧ FewLocks server) server input

theorem ordered_run {start server : TableServer}
    {exchanges : List ((ConnId × TableEvent) × ErrorCode)}
    (run : Run (Answers ordered) start exchanges server)
    (fine : ∀ exchange ∈ exchanges, exchange.2 = .ok) :
    Run (Under ServeStep Orderly) start exchanges server := by
  refine (@Run.under _ _ _ RefusedEarly _ _ _ (run_guarded run) ?_).mono ?_
  · rintro ⟨⟨conn, event⟩, code⟩ member state
    have code_ok : code = .ok := fine _ member
    subst code_ok
    cases event with
    | request outcomes request => exact fun failed => absurd rfl failed
    | insert nbytes arrived => trivial
    | control request kept => trivial
    | scan record code => trivial
    | flush => trivial
  · rintro state ⟨⟨conn, event⟩, code⟩ next ⟨⟨served, absent, few⟩, refused⟩
    refine ⟨served, refused, ?_, few⟩
    cases event with
    | request outcomes request =>
      cases request with
      | tblcreate nbytes desc =>
        cases code with
        | ok =>
          obtain ⟨none, creates⟩ := absent
          exact ⟨Option.isNone_iff_eq_none.mp none, creates⟩
        | _ => trivial
      | _ => trivial
    | _ => trivial

end QNXStuff.QXBase
