import QNXStuff.QXBase.PoolInvariant

/-! `LockTablePage` over a well-formed pool: it delivers the wanted page, and the
bytes of every page stay what they were unless a changed page is taken over. -/

namespace QNXStuff.QXBase

open Memory LinkedList

/-- The pool of the table is well formed. -/
def Table.Ok (table : Table) : Prop := PoolInv table table.refs

theorem PoolInv.ok {table : Table} {refs : List PageRef} (inv : PoolInv table refs) :
    table.Ok := by
  unfold Table.Ok
  rw [inv.refs_eq]
  exact inv

/-- The page of the pool with this index. -/
def Table.cached (table : Table) (index : Nat) : Option PageRef :=
  table.refs.find? fun ref => (table.body ref).index == index

/-- The current bytes of a page: those of the pool, else those of the data file. -/
def Table.pageBytes (table : Table) (index : Nat) : Block :=
  match table.cached index with
  | some ref => (table.body ref).data
  | none => fun position => table.dFile.byte (index * table.layout.pageSize + position)

theorem PoolInv.pageBytes_cached {table : Table} {refs : List PageRef} (inv : PoolInv table refs)
    {ref : PageRef} (member : ref ∈ refs) :
    table.pageBytes (table.body ref).index = (table.body ref).data := by
  unfold Table.pageBytes Table.cached
  rw [inv.refs_eq]
  cases found : refs.find? fun other => (table.body other).index == (table.body ref).index with
  | none => simpa using List.find?_eq_none.mp found ref member
  | some other =>
    have same : (table.body other).index = (table.body ref).index := by
      simpa using List.find?_some found
    rw [inv.index_injective (List.mem_of_find?_eq_some found) member same]

theorem PoolInv.pageBytes_uncached {table : Table} {refs : List PageRef} (inv : PoolInv table refs)
    {index : Nat} (absent : ∀ ref ∈ refs, (table.body ref).index ≠ index) (position : Nat) :
    table.pageBytes index position =
      table.dFile.byte (index * table.layout.pageSize + position) := by
  unfold Table.pageBytes Table.cached
  rw [inv.refs_eq, List.find?_eq_none.mpr fun ref member => by simpa using absent ref member]

/-! ### Reading a page -/

/-- The table after `readPage`. -/
def loaded (placed : Table) (rPage : PageRef) (nPageID : Nat) : Table :=
  placed.setBody rPage
    { placed.body rPage with
      data := placed.dFile.pread (nPageID * placed.layout.pageSize) (placed.body rPage).data
        placed.layout.pageSize
      index := nPageID, needSync := false, lastRow := placed.layout.pageRows }

section Placed

variable {table placed : Table} {refs front back : List PageRef} {rPage : PageRef} {nPageID : Nat}

theorem readPage_eq (size : (placed.body rPage).size = placed.layout.pageSize)
    (fits : nPageID * placed.layout.pageSize < 2 ^ 31) :
    readPage placed rPage nPageID = .ok (loaded placed rPage nPageID) := by
  have offset : nPageID * placed.layout.pageSize % 2 ^ 32 = nPageID * placed.layout.pageSize :=
    Nat.mod_eq_of_lt (by omega)
  unfold readPage loaded seekRead
  simp only [size, offset, if_pos fits]
  rfl

theorem Placed.apart (spot : Placed table refs nPageID placed front rPage back) :
    rPage ∉ front ++ back := spot.spot.apart

theorem Placed.body_kept (spot : Placed table refs nPageID placed front rPage back) {ref : PageRef}
    (member : ref ∈ front ++ back) :
    (loaded placed rPage nPageID).body ref = table.body ref := by
  have other : ref ≠ rPage := fun same => spot.apart (same ▸ member)
  rw [loaded, Table.setBody_body, Function.update_of_ne other, spot.kept ref member]

theorem Placed.body_loaded (spot : Placed table refs nPageID placed front rPage back) :
    (loaded placed rPage nPageID).body rPage =
      { placed.body rPage with
        data := placed.dFile.pread (nPageID * table.layout.pageSize) (placed.body rPage).data
          table.layout.pageSize
        index := nPageID, needSync := false, lastRow := table.layout.pageRows } := by
  rw [loaded, Table.setBody_body, Function.update_self, spot.same.layout]

theorem Placed.sameTable (spot : Placed table refs nPageID placed front rPage back) :
    SameTable table (loaded placed rPage nPageID) :=
  ⟨spot.same.layout, spot.same.index, spot.same.lastPage, spot.same.hFile⟩

/-- The page read lies inside the data file. -/
theorem Placed.data_loaded (inv : PoolInv table refs)
    (spot : Placed table refs nPageID placed front rPage back) (below : nPageID < table.lastIndex)
    {position : Nat} (inside : position < table.layout.pageSize) :
    ((loaded placed rPage nPageID).body rPage).data position =
      placed.dFile.byte (nPageID * table.layout.pageSize + position) := by
  have onDisk := Table.page_on_disk below
  have known := inv.onDisk
  have larger := spot.larger
  rw [spot.body_loaded]
  exact File.pread_inside inside (by omega)

/-- The page that was read completes the pool again. -/
theorem Placed.shape_loaded (inv : PoolInv table refs)
    (spot : Placed table refs nPageID placed front rPage back) :
    PoolShape (loaded placed rPage nPageID) (front ++ rPage :: back) := by
  refine (spot.spot.setBody _).shape inv.shape ?_ ?_
  · rw [spot.body_loaded]
  · rw [spot.body_loaded]

theorem Placed.kept_mem (spot : Placed table refs nPageID placed front rPage back) {ref : PageRef}
    (member : ref ∈ front ++ back) : ref ∈ refs := spot.sublist.subset member

/-- A page of the file whose descriptor stays, or that had none, keeps its bytes. -/
theorem Placed.disk_kept (inv : PoolInv table refs)
    (spot : Placed table refs nPageID placed front rPage back) {ref : PageRef}
    (member : ref ∈ front ++ back) {position : Nat} (inside : position < table.layout.pageSize)
    (known : (table.body ref).index * table.layout.pageSize + position < table.dFile.size) :
    placed.dFile.byte ((table.body ref).index * table.layout.pageSize + position) =
      table.dFile.byte ((table.body ref).index * table.layout.pageSize + position) := by
  refine spot.disk _ (fun other present gone same => ?_) position inside known
  rw [inv.index_injective present (spot.kept_mem member) same] at gone
  exact gone member

/-- With the page that was read the pool and the data file are in order again. -/
theorem Placed.inv (inv : PoolInv table refs)
    (spot : Placed table refs nPageID placed front rPage back) (below : nPageID < table.lastIndex) :
    PoolInv (loaded placed rPage nPageID) (front ++ rPage :: back) := by
  have layout : (loaded placed rPage nPageID).layout = table.layout := spot.same.layout
  have lastPage : (loaded placed rPage nPageID).lastPage = table.lastPage := spot.same.lastPage
  have lastBody : (loaded placed rPage nPageID).body table.lastPage = table.body table.lastPage :=
    spot.body_kept spot.lastKept
  have lastIndex : (loaded placed rPage nPageID).lastIndex = table.lastIndex := by
    unfold Table.lastIndex
    rw [lastPage, lastBody]
  have dFile : (loaded placed rPage nPageID).dFile = placed.dFile := rfl
  have shape := spot.shape_loaded inv
  refine
    { listed := shape.listed
      live := shape.live
      sorted := shape.sorted
      counted := shape.counted
      limited := shape.limited
      sized := fun ref member => ?_
      full := shape.full
      lastRow_le := shape.lastRow_le
      onDisk := by
        rw [lastIndex, layout, dFile]
        exact Nat.le_trans inv.onDisk spot.larger
      bounded := spot.smaller
      clean := fun ref member clean position inside => ?_ }
  · rw [layout]
    rcases spot.spot.mem_cases member with rfl | ⟨_, member⟩
    · rw [spot.body_loaded]
      exact spot.size
    · rw [spot.body_kept member]
      exact inv.sized ref (spot.kept_mem member)
  · rw [layout] at inside ⊢
    rw [dFile]
    rcases spot.spot.mem_cases member with rfl | ⟨_, member⟩
    · have index : ((loaded placed ref nPageID).body ref).index = nPageID := by
        rw [spot.body_loaded]
      have inPage : position < table.layout.pageSize := by
        rw [spot.body_loaded] at inside
        exact Nat.lt_of_lt_of_le inside (table.layout.rows_le_pageSize (Nat.le_refl _))
      have onDisk := Table.page_on_disk below
      have known := inv.onDisk
      have larger := spot.larger
      refine ⟨?_, ?_⟩
      · rw [index]
        omega
      · rw [index]
        exact spot.data_loaded inv below inPage
    · rw [spot.body_kept member] at clean inside ⊢
      obtain ⟨known, same⟩ := inv.clean ref (spot.kept_mem member) clean position inside
      have inPage : position < table.layout.pageSize :=
        Nat.lt_of_lt_of_le inside
          (table.layout.rows_le_pageSize (inv.lastRow_le_pageRows (spot.kept_mem member)))
      refine ⟨Nat.lt_of_lt_of_le known spot.larger, ?_⟩
      rw [spot.disk_kept inv member inPage known]
      exact same

/-- Every way to get a descriptor ends with it between its neighbours. -/
theorem victimPage_spec (inv : PoolInv table refs) (split : refs = front ++ rPage :: back)
    (found : findPage table nPageID = some (some rPage))
    (larger : nPageID < (table.body rPage).index)
    (passed : ∀ ref ∈ front, (table.body ref).index < nPageID) :
    ∃ placed front tmpPage back, victimPage table rPage = .ok (placed, tmpPage) ∧
      Placed table refs nPageID placed front tmpPage back := by
  unfold victimPage
  by_cases crowded : table.layout.lockPages ≤ table.pLocks
  · rw [if_pos crowded]
    by_cases last : rPage = table.lastPage
    · subst last
      rw [if_pos rfl]
      have none : back = [] := inv.shape.behind_last split
      subst none
      obtain ⟨placed, front', tmpPage, reused, spot⟩ :=
        placed_reuse inv split found larger passed crowded
      exact ⟨placed, front', tmpPage, _, reused, spot⟩
    · rw [if_neg last]
      exact ⟨table, front, rPage, back, rfl,
        placed_in_place inv split found larger passed crowded last⟩
  · rw [if_neg crowded]
    obtain ⟨placed, allocated, spot⟩ := placed_alloc inv split found larger passed crowded
    exact ⟨placed, front, table.fresh, rPage :: back, by rw [allocated], spot⟩

end Placed

/-! ### The result -/

/-- What locking a page of the table delivers. -/
structure Locked (table : Table) (nPageID : Nat) (locked : Table) (rPage : PageRef) : Prop where
  ok : locked.Ok
  same : SameTable table locked
  member : rPage ∈ locked.refs
  index : (locked.body rPage).index = nPageID
  lastMember : table.lastPage ∈ table.refs
  lastKept : locked.body table.lastPage = table.body table.lastPage
  pages : ∀ ref ∈ locked.refs,
    (ref ∈ table.refs ∧ locked.body ref = table.body ref) ∨
    (ref = rPage ∧ nPageID < table.lastIndex ∧ (locked.body ref).needSync = false ∧
      ∀ position < table.layout.pageSize, (locked.body ref).data position =
        locked.dFile.byte (nPageID * table.layout.pageSize + position))
  file : ∀ index < table.lastIndex,
    (∀ position < table.layout.pageSize,
      locked.dFile.byte (index * table.layout.pageSize + position) =
        table.dFile.byte (index * table.layout.pageSize + position)) ∨
    ∃ ref ∈ table.refs, (table.body ref).index = index ∧ ref ≠ table.lastPage ∧
      ∀ position < table.layout.pageSize,
        locked.dFile.byte (index * table.layout.pageSize + position) =
          (table.body ref).data position
  bytes : ∀ index ≤ table.lastIndex,
    (∀ ref, takenOver table nPageID = some ref → (table.body ref).index ≠ index) →
    ∀ position < table.layout.pageSize,
      locked.pageBytes index position = table.pageBytes index position
  replaced : ∀ ref, takenOver table nPageID = some ref →
    ref ∈ table.refs ∧ ref ≠ table.lastPage ∧ nPageID < (table.body ref).index ∧
    ∀ position < table.layout.pageSize,
      locked.pageBytes (table.body ref).index position =
        table.dFile.byte ((table.body ref).index * table.layout.pageSize + position)

section Locked

variable {table placed : Table} {refs front back : List PageRef} {rPage : PageRef} {nPageID : Nat}

theorem takenOver_larger (inv : PoolInv table refs) {ref : PageRef}
    (takes : takenOver table nPageID = some ref) :
    ref ∈ refs ∧ ref ≠ table.lastPage ∧ nPageID < (table.body ref).index := by
  unfold takenOver at takes
  rcases inv.findPage_cases nPageID with ⟨_, found⟩ | ⟨_, front, rPage, back, split, found, stops, _⟩
  · rw [found] at takes
    cases takes
  · rw [found] at takes
    simp only [Option.ite_none_right_eq_some, Option.some.injEq] at takes
    obtain ⟨⟨unequal, _, other⟩, rfl⟩ := takes
    exact ⟨by simp [split], other, by omega⟩

theorem locked_found (inv : PoolInv table table.refs) {ref : PageRef} (member : ref ∈ table.refs)
    (index : (table.body ref).index = nPageID) (none : takenOver table nPageID = none) :
    Locked table nPageID table ref where
  ok := inv
  same := SameTable.refl table
  member := member
  index := index
  lastMember := inv.last_mem
  lastKept := rfl
  pages _ member := .inl ⟨member, rfl⟩
  file _ _ := .inl fun _ _ => rfl
  bytes _ _ _ _ _ := rfl
  replaced ref takes := by
    rw [none] at takes
    cases takes

/-- The bytes of the pages that are not taken over as they are. -/
theorem Placed.bytes (inv : PoolInv table refs)
    (spot : Placed table refs nPageID placed front rPage back) (below : nPageID < table.lastIndex)
    (absent : ∀ ref ∈ refs, (table.body ref).index ≠ nPageID) {index : Nat}
    (inside : index ≤ table.lastIndex)
    (saved : ∀ ref, takenOver table nPageID = some ref → (table.body ref).index ≠ index)
    {position : Nat} (inPage : position < table.layout.pageSize) :
    (loaded placed rPage nPageID).pageBytes index position = table.pageBytes index position := by
  have after := spot.inv inv below
  have layout : (loaded placed rPage nPageID).layout = table.layout := spot.same.layout
  have dFile : (loaded placed rPage nPageID).dFile = placed.dFile := rfl
  have known : index < table.lastIndex →
      index * table.layout.pageSize + position < table.dFile.size := fun less => by
    have onDisk := Table.page_on_disk less
    have bound := inv.onDisk
    omega
  by_cases kept : ∃ ref ∈ front ++ back, (table.body ref).index = index
  · obtain ⟨ref, member, rfl⟩ := kept
    have body := spot.body_kept member
    have present : ref ∈ front ++ rPage :: back := by
      rcases List.mem_append.mp member with early | late <;> simp [*]
    have bytes := after.pageBytes_cached present
    rw [body] at bytes
    rw [bytes, inv.pageBytes_cached (spot.kept_mem member)]
  · have gone : ∀ ref ∈ refs, (table.body ref).index = index → ref ∉ front ++ back :=
      fun ref _ same member => kept ⟨ref, member, same⟩
    have small : index < table.lastIndex := by
      refine Nat.lt_of_le_of_ne inside fun last => ?_
      exact kept ⟨table.lastPage, spot.lastKept, last.symm⟩
    by_cases here : index = nPageID
    · subst here
      have body := after.pageBytes_cached (show rPage ∈ front ++ rPage :: back by simp)
      have at_ : ((loaded placed rPage index).body rPage).index = index := by
        rw [spot.body_loaded]
      rw [at_] at body
      rw [body, spot.data_loaded inv below inPage, inv.pageBytes_uncached absent]
      exact spot.disk index (fun ref member _ => absent ref member) position inPage (known small)
    · have uncached : ∀ ref ∈ front ++ rPage :: back,
          ((loaded placed rPage nPageID).body ref).index ≠ index := by
        intro ref member same
        rcases spot.spot.mem_cases member with rfl | ⟨_, member⟩
        · rw [spot.body_loaded] at same
          exact here same.symm
        · rw [spot.body_kept member] at same
          exact kept ⟨ref, member, same⟩
      rw [after.pageBytes_uncached uncached, layout, dFile]
      by_cases before : ∃ ref ∈ refs, (table.body ref).index = index
      · obtain ⟨ref, member, rfl⟩ := before
        obtain ⟨_, taken | written⟩ := spot.evicted ref member (gone ref member rfl)
        · exact absurd rfl (saved ref taken)
        · rw [written position inPage, inv.pageBytes_cached member]
      · rw [inv.pageBytes_uncached fun ref member same => before ⟨ref, member, same⟩]
        exact spot.disk index (fun ref member _ same => before ⟨ref, member, same⟩)
          position inPage (known small)

/-- A page taken over as it is falls back to what the file has. -/
theorem Placed.replaced_bytes (inv : PoolInv table refs)
    (spot : Placed table refs nPageID placed front rPage back) (below : nPageID < table.lastIndex)
    {ref : PageRef} (takes : takenOver table nPageID = some ref) (position : Nat) :
    (loaded placed rPage nPageID).pageBytes (table.body ref).index position =
      table.dFile.byte ((table.body ref).index * table.layout.pageSize + position) := by
  obtain ⟨member, gone, file⟩ := spot.replaced ref takes
  have larger := (takenOver_larger inv takes).2.2
  have uncached : ∀ other ∈ front ++ rPage :: back,
      ((loaded placed rPage nPageID).body other).index ≠ (table.body ref).index := by
    intro other member' same
    rcases spot.spot.mem_cases member' with rfl | ⟨_, member'⟩
    · rw [spot.body_loaded] at same
      exact absurd same (Nat.ne_of_lt larger)
    · rw [spot.body_kept member'] at same
      exact gone (inv.index_injective (spot.kept_mem member') member same ▸ member')
  have dFile : (loaded placed rPage nPageID).dFile = placed.dFile := rfl
  rw [(spot.inv inv below).pageBytes_uncached uncached, dFile, file]
  rw [show (loaded placed rPage nPageID).layout = table.layout from spot.same.layout]

theorem locked_loaded (inv : PoolInv table table.refs)
    (spot : Placed table table.refs nPageID placed front rPage back)
    (below : nPageID < table.lastIndex)
    (absent : ∀ ref ∈ table.refs, (table.body ref).index ≠ nPageID) :
    Locked table nPageID (loaded placed rPage nPageID) rPage := by
  have after := spot.inv inv below
  have dFile : (loaded placed rPage nPageID).dFile = placed.dFile := rfl
  refine
    { ok := after.ok
      same := spot.sameTable
      member := by simp [after.refs_eq]
      index := by rw [spot.body_loaded]
      lastMember := inv.last_mem
      lastKept := spot.body_kept spot.lastKept
      pages := fun ref member => ?_
      file := fun index inside => ?_
      bytes := fun index inside saved position inPage =>
        spot.bytes inv below absent inside saved inPage
      replaced := fun ref takes => ?_ }
  · rw [after.refs_eq] at member
    rcases spot.spot.mem_cases member with rfl | ⟨_, member⟩
    · refine .inr ⟨rfl, below, by rw [spot.body_loaded], fun position inPage => ?_⟩
      rw [spot.data_loaded inv below inPage, dFile]
    · exact .inl ⟨spot.kept_mem member, spot.body_kept member⟩
  · rw [dFile]
    by_cases evicted : ∃ ref ∈ table.refs, ref ∉ front ++ back ∧ (table.body ref).index = index
    · obtain ⟨ref, member, gone, rfl⟩ := evicted
      obtain ⟨other, taken | written⟩ := spot.evicted ref member gone
      · left
        intro position _
        rw [(spot.replaced ref taken).2.2]
      · exact .inr ⟨ref, member, rfl, other, written⟩
    · left
      intro position inPage
      have onDisk := Table.page_on_disk inside
      have bound := inv.onDisk
      exact spot.disk index (fun ref member gone same => evicted ⟨ref, member, gone, same⟩)
        position inPage (by omega)
  · obtain ⟨member, other, larger⟩ := takenOver_larger inv takes
    exact ⟨member, other, larger, fun position _ => spot.replaced_bytes inv below takes position⟩

/-- `LockTablePage` delivers every page up to the last one. -/
theorem lockTablePage_spec (ok : table.Ok) (nPageID : Nat) :
    (table.lastIndex < nPageID ∧ lockTablePage table nPageID = .ok (table, none)) ∨
    (nPageID ≤ table.lastIndex ∧ ∃ locked rPage,
      lockTablePage table nPageID = .ok (locked, some rPage) ∧
        Locked table nPageID locked rPage) := by
  have inv : PoolInv table table.refs := ok
  unfold lockTablePage
  rcases inv.findPage_cases nPageID with
    ⟨beyond, found⟩ | ⟨inside, front, rPage, back, split, found, stops, passed⟩
  · exact .inl ⟨beyond, by rw [found]⟩
  · refine .inr ⟨inside, ?_⟩
    have member : rPage ∈ table.refs := by simp [split]
    rw [found]
    by_cases here : (table.body rPage).index = nPageID
    · have none : takenOver table nPageID = none := by simp [takenOver, found, here]
      exact ⟨table, rPage, by simp only [if_pos here], locked_found inv member here none⟩
    · have larger : nPageID < (table.body rPage).index := by omega
      have below : nPageID < table.lastIndex := Nat.lt_of_lt_of_le larger (inv.index_le_last member)
      have absent : ∀ ref ∈ table.refs, (table.body ref).index ≠ nPageID := by
        intro ref present
        rw [split] at present
        have sorted := inv.sorted
        rw [split] at sorted
        rcases List.mem_append.mp present with early | late
        · exact Nat.ne_of_lt (passed ref early)
        · rcases List.mem_cons.mp late with rfl | late
          · exact here
          · have behind := (List.pairwise_cons.mp (List.pairwise_append.mp sorted).2.1).1 ref late
            omega
      obtain ⟨placed, front', tmpPage, back', chosen, spot⟩ :=
        victimPage_spec inv split found larger passed
      have size : (placed.body tmpPage).size = placed.layout.pageSize := by
        rw [spot.size, spot.same.layout]
      have fits : nPageID * placed.layout.pageSize < 2 ^ 31 := by
        have onDisk := Table.page_on_disk below
        have bound := inv.last_on_disk
        rw [spot.same.layout]
        omega
      refine ⟨loaded placed tmpPage nPageID, tmpPage, ?_, locked_loaded inv spot below absent⟩
      simp only [if_neg here, chosen]
      show (readPage placed tmpPage nPageID >>= fun table => .ok (table, some tmpPage)) = _
      rw [readPage_eq size fits]
      rfl

end Locked

end QNXStuff.QXBase
