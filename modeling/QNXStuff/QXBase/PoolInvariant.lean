import QNXStuff.QXBase.PoolShape

/-! What the page pool and the data file keep true, and what getting a page does to both. -/

namespace QNXStuff.QXBase

open Memory LinkedList

/-- The shape of the pool, and that its clean pages agree with the data file. -/
structure PoolInv (table : Table) (refs : List PageRef) : Prop where
  listed : table.links.Represents refs
  live : ∀ ref ∈ refs, ref < table.fresh
  sorted : refs.Pairwise fun first second => (table.body first).index < (table.body second).index
  counted : table.pLocks = refs.length
  limited : refs.length ≤ table.layout.lockPages
  sized : ∀ ref ∈ refs, (table.body ref).size = table.layout.pageSize
  full : ∀ ref ∈ refs, ref ≠ table.lastPage → (table.body ref).lastRow = table.layout.pageRows
  lastRow_le : (table.body table.lastPage).lastRow ≤ table.layout.pageRows
  onDisk : table.lastIndex * table.layout.pageSize ≤ table.dFile.size
  bounded : table.dFile.size < 2 ^ 31
  clean : ∀ ref ∈ refs, (table.body ref).needSync = false →
    ∀ position < (table.body ref).lastRow * table.layout.rowLen,
      (table.body ref).index * table.layout.pageSize + position < table.dFile.size ∧
      (table.body ref).data position =
        table.dFile.byte ((table.body ref).index * table.layout.pageSize + position)

namespace PoolInv

variable {table : Table} {refs : List PageRef}

theorem shape (inv : PoolInv table refs) : PoolShape table refs :=
  ⟨inv.listed, inv.live, inv.sorted, inv.counted, inv.limited, inv.full, inv.lastRow_le⟩

theorem length_le (inv : PoolInv table refs) : refs.length ≤ table.fresh := inv.shape.length_le

theorem refs_eq (inv : PoolInv table refs) : table.refs = refs := inv.shape.refs_eq

theorem last_mem (inv : PoolInv table refs) : table.lastPage ∈ refs := inv.shape.last_mem

theorem index_lt_last (inv : PoolInv table refs) {ref : PageRef} (member : ref ∈ refs)
    (other : ref ≠ table.lastPage) : (table.body ref).index < table.lastIndex :=
  inv.shape.index_lt_last member other

theorem index_le_last (inv : PoolInv table refs) {ref : PageRef} (member : ref ∈ refs) :
    (table.body ref).index ≤ table.lastIndex := inv.shape.index_le_last member

theorem index_injective (inv : PoolInv table refs) {ref other : PageRef} (member : ref ∈ refs)
    (member' : other ∈ refs) (same : (table.body ref).index = (table.body other).index) :
    ref = other := inv.shape.index_injective member member' same

theorem lastRow_le_pageRows (inv : PoolInv table refs) {ref : PageRef} (member : ref ∈ refs) :
    (table.body ref).lastRow ≤ table.layout.pageRows := inv.shape.lastRow_le_pageRows member

/-- The pages in front of the place where the search stopped have smaller indices. -/
theorem findPage_cases (inv : PoolInv table refs) (nPageID : Nat) :
    (table.lastIndex < nPageID ∧ findPage table nPageID = some none) ∨
    (nPageID ≤ table.lastIndex ∧ ∃ front rPage back, refs = front ++ rPage :: back ∧
      findPage table nPageID = some (some rPage) ∧ nPageID ≤ (table.body rPage).index ∧
      ∀ ref ∈ front, (table.body ref).index < nPageID) := inv.shape.findPage_cases nPageID

end PoolInv

/-! ### The three ways to get a page -/

/-- What the pool looks like once there is a descriptor `rPage` for the wanted page:
it stands between the pages with smaller and with larger indices. -/
structure Placed (table : Table) (refs : List PageRef) (nPageID : Nat)
    (placed : Table) (front : List PageRef) (rPage : PageRef) (back : List PageRef) : Prop where
  listed : placed.links.Represents (front ++ rPage :: back)
  same : SameTable table placed
  live : ∀ ref ∈ front ++ rPage :: back, ref < placed.fresh
  counted : placed.pLocks = (front ++ rPage :: back).length
  limited : (front ++ rPage :: back).length ≤ table.layout.lockPages
  sublist : (front ++ back).Sublist refs
  kept : ∀ ref ∈ front ++ back, placed.body ref = table.body ref
  lastKept : table.lastPage ∈ front ++ back
  size : (placed.body rPage).size = table.layout.pageSize
  before : ∀ ref ∈ front, (table.body ref).index < nPageID
  after : ∀ ref ∈ back, nPageID < (table.body ref).index
  larger : table.dFile.size ≤ placed.dFile.size
  smaller : placed.dFile.size < 2 ^ 31
  evicted : ∀ ref ∈ refs, ref ∉ front ++ back → ref ≠ table.lastPage ∧
    (takenOver table nPageID = some ref ∨ ∀ position < table.layout.pageSize,
      placed.dFile.byte ((table.body ref).index * table.layout.pageSize + position) =
        (table.body ref).data position)
  disk : ∀ index,
    (∀ ref ∈ refs, ref ∉ front ++ back → (table.body ref).index ≠ index) →
    ∀ position < table.layout.pageSize,
      index * table.layout.pageSize + position < table.dFile.size →
      placed.dFile.byte (index * table.layout.pageSize + position) =
        table.dFile.byte (index * table.layout.pageSize + position)
  replaced : ∀ ref, takenOver table nPageID = some ref →
    ref ∈ refs ∧ ref ∉ front ++ back ∧ placed.dFile = table.dFile

/-- A spot in the pool, with what has become of the data file. -/
theorem Spot.placed {table placed : Table} {refs front back : List PageRef} {rPage : PageRef}
    {nPageID : Nat} (spot : Spot table refs nPageID placed front rPage back)
    (size : (placed.body rPage).size = table.layout.pageSize)
    (larger : table.dFile.size ≤ placed.dFile.size) (smaller : placed.dFile.size < 2 ^ 31)
    (evicted : ∀ ref ∈ refs, ref ∉ front ++ back → ref ≠ table.lastPage ∧
      (takenOver table nPageID = some ref ∨ ∀ position < table.layout.pageSize,
        placed.dFile.byte ((table.body ref).index * table.layout.pageSize + position) =
          (table.body ref).data position))
    (disk : ∀ index,
      (∀ ref ∈ refs, ref ∉ front ++ back → (table.body ref).index ≠ index) →
      ∀ position < table.layout.pageSize,
        index * table.layout.pageSize + position < table.dFile.size →
        placed.dFile.byte (index * table.layout.pageSize + position) =
          table.dFile.byte (index * table.layout.pageSize + position))
    (replaced : ∀ ref, takenOver table nPageID = some ref →
      ref ∈ refs ∧ ref ∉ front ++ back ∧ placed.dFile = table.dFile) :
    Placed table refs nPageID placed front rPage back :=
  ⟨spot.listed, spot.same, spot.live, spot.counted, spot.limited, spot.sublist, spot.kept,
    spot.lastKept, size, spot.before, spot.after, larger, smaller, evicted, disk, replaced⟩

theorem Placed.spot {table placed : Table} {refs front back : List PageRef} {rPage : PageRef}
    {nPageID : Nat} (spot : Placed table refs nPageID placed front rPage back) :
    Spot table refs nPageID placed front rPage back :=
  ⟨spot.listed, spot.same, spot.live, spot.counted, spot.limited, spot.sublist, spot.kept,
    spot.lastKept, spot.before, spot.after⟩

/-- The data file after `Qbase_PageSync` of a page. -/
def syncFile (table : Table) (ref : PageRef) : File :=
  if (table.body ref).needSync then
    table.dFile.pwrite ((table.body ref).index * table.layout.pageSize) (table.body ref).data
      table.layout.pageSize
  else table.dFile

/-- Writing back a page fails only for a position that a 32-bit offset cannot hold. -/
theorem syncPage_eq {table : Table} {ref : PageRef}
    (size : (table.body ref).size = table.layout.pageSize)
    (small : (table.body ref).index * table.layout.pageSize < 2 ^ 32) :
    syncPage table ref =
      if (table.body ref).needSync = true ∧
          2 ^ 31 ≤ (table.body ref).index * table.layout.pageSize + table.layout.pageSize then
        .error .io
      else
        .ok ((table.setBody ref { table.body ref with needSync := false }).setFile
          (syncFile table ref)) := by
  have offset : table.layout.pageSize * (table.body ref).index % 2 ^ 32 =
      (table.body ref).index * table.layout.pageSize := by
    rw [Nat.mul_comm]
    exact Nat.mod_eq_of_lt small
  unfold syncPage pageSync syncFile
  cases dirty : (table.body ref).needSync with
  | false =>
    have same : { table.body ref with needSync := false } = table.body ref := by rw [← dirty]
    simp only [Bool.false_eq_true, false_and, ↓reduceIte, same]
    rfl
  | true =>
    simp only [true_and, ↓reduceIte, size, offset, seekWrite]
    by_cases fits :
        (table.body ref).index * table.layout.pageSize + table.layout.pageSize < 2 ^ 31
    · rw [if_pos fits, if_neg (Nat.not_le.mpr fits)]
      rfl
    · rw [if_neg fits, if_pos (Nat.not_lt.mp fits)]
      rfl

/-- The byte ranges of different pages in the data file do not meet. -/
theorem page_ranges {index other size position : Nat} (apart : other ≠ index)
    (inside : position < size) :
    index * size + position < other * size ∨ other * size + size ≤ index * size + position := by
  rcases Nat.lt_or_gt_of_ne apart with less | more
  · have step : (other + 1) * size ≤ index * size := Nat.mul_le_mul_right size less
    rw [Nat.succ_mul] at step
    omega
  · have step : (index + 1) * size ≤ other * size := Nat.mul_le_mul_right size more
    rw [Nat.succ_mul] at step
    omega

/-- A page below the last one lies inside the data file. -/
theorem Table.page_on_disk {table : Table} {index : Nat} (below : index < table.lastIndex) :
    index * table.layout.pageSize + table.layout.pageSize ≤
      table.lastIndex * table.layout.pageSize := by
  have step : (index + 1) * table.layout.pageSize ≤ table.lastIndex * table.layout.pageSize :=
    Nat.mul_le_mul_right _ below
  rwa [Nat.succ_mul] at step

/-- A clean page below the last one is, byte for byte, what the file has. -/
theorem PoolInv.clean_page {table : Table} {refs : List PageRef} (inv : PoolInv table refs)
    {ref : PageRef} (member : ref ∈ refs) (other : ref ≠ table.lastPage)
    (clean : (table.body ref).needSync = false) {position : Nat}
    (inside : position < table.layout.pageSize) :
    table.dFile.byte ((table.body ref).index * table.layout.pageSize + position) =
      (table.body ref).data position := by
  refine (inv.clean ref member clean position ?_).2.symm
  rw [inv.full ref member other, Nat.mul_comm]
  exact inside

theorem PoolInv.last_on_disk {table : Table} {refs : List PageRef} (inv : PoolInv table refs) :
    table.lastIndex * table.layout.pageSize < 2 ^ 31 :=
  Nat.lt_of_le_of_lt inv.onDisk inv.bounded

theorem placed_in_place {table : Table} {refs front back : List PageRef} {rPage : PageRef}
    {nPageID : Nat} (inv : PoolInv table refs) (split : refs = front ++ rPage :: back)
    (found : findPage table nPageID = some (some rPage))
    (larger : nPageID < (table.body rPage).index)
    (passed : ∀ ref ∈ front, (table.body ref).index < nPageID)
    (crowded : table.layout.lockPages ≤ table.pLocks) (other : rPage ≠ table.lastPage) :
    Placed table refs nPageID table front rPage back := by
  have spot := spot_in_place inv.shape split larger passed other
  have member : rPage ∈ refs := by simp [split]
  have takes : takenOver table nPageID = some rPage := by
    simp [takenOver, found, crowded, other, Nat.ne_of_gt larger]
  refine spot.placed (inv.sized rPage member) (Nat.le_refl _) inv.bounded (fun ref present gone => ?_)
    (fun _ _ _ _ _ => rfl) (fun ref replaces => ?_)
  · have here : ref = rPage := by
      rw [split] at present
      simp only [List.mem_append, List.mem_cons, not_or] at present gone
      tauto
    subst here
    exact ⟨other, .inl takes⟩
  · have here : rPage = ref := Option.some.inj (takes.symm.trans replaces)
    subst here
    exact ⟨member, spot.apart, rfl⟩

theorem placed_alloc {table : Table} {refs front back : List PageRef} {rPage : PageRef}
    {nPageID : Nat} (inv : PoolInv table refs) (split : refs = front ++ rPage :: back)
    (found : findPage table nPageID = some (some rPage))
    (larger : nPageID < (table.body rPage).index)
    (passed : ∀ ref ∈ front, (table.body ref).index < nPageID)
    (room : ¬ table.layout.lockPages ≤ table.pLocks) :
    ∃ placed, allocPage table rPage = (placed, table.fresh) ∧
      Placed table refs nPageID placed front table.fresh (rPage :: back) := by
  obtain ⟨placed, allocated, relinked, body, spot⟩ := spot_alloc inv.shape split larger passed room
  have none : takenOver table nPageID = none := by simp [takenOver, found, room]
  refine ⟨placed, allocated, spot.placed ?_ (Nat.le_of_eq (by rw [relinked.dFile])) ?_
    (fun ref present gone => absurd (split ▸ present) gone)
    (fun _ _ _ _ _ => by rw [relinked.dFile]) (fun ref replaces => ?_)⟩
  · rw [body, Function.update_self]
    exact Nat.mod_eq_of_lt table.layout.sound.pageSize_lt
  · rw [relinked.dFile]
    exact inv.bounded
  · rw [none] at replaces
    cases replaces

/-- What writing back a page leaves of the data file. -/
theorem syncFile_spec {table : Table} {refs : List PageRef} (inv : PoolInv table refs)
    {ref : PageRef} (member : ref ∈ refs) (other : ref ≠ table.lastPage) :
    table.dFile.size ≤ (syncFile table ref).size ∧ (syncFile table ref).size < 2 ^ 31 ∧
    (∀ position < table.layout.pageSize,
      (syncFile table ref).byte ((table.body ref).index * table.layout.pageSize + position) =
        (table.body ref).data position) ∧
    ∀ index, (table.body ref).index ≠ index → ∀ position < table.layout.pageSize,
      index * table.layout.pageSize + position < table.dFile.size →
        (syncFile table ref).byte (index * table.layout.pageSize + position) =
          table.dFile.byte (index * table.layout.pageSize + position) := by
  have below := inv.index_lt_last member other
  have onDisk := Table.page_on_disk below
  have bounded := inv.last_on_disk
  unfold syncFile
  cases dirty : (table.body ref).needSync with
  | false =>
    exact ⟨Nat.le_refl _, inv.bounded,
      fun position inside => inv.clean_page member other dirty inside, fun _ _ _ _ _ => rfl⟩
  | true =>
    refine ⟨Nat.le_max_left .., Nat.max_lt.mpr ⟨inv.bounded, by omega⟩,
      fun position inside => File.pwrite_inside inside, fun index apart position inside known => ?_⟩
    exact File.pwrite_outside known (page_ranges apart inside)

theorem placed_reuse {table : Table} {refs front : List PageRef} {nPageID : Nat}
    (inv : PoolInv table refs) (split : refs = front ++ [table.lastPage])
    (found : findPage table nPageID = some (some table.lastPage))
    (larger : nPageID < table.lastIndex)
    (passed : ∀ ref ∈ front, (table.body ref).index < nPageID)
    (crowded : table.layout.lockPages ≤ table.pLocks) :
    ∃ placed front' tmpPage, reuseFirst table table.lastPage = .ok (placed, tmpPage) ∧
      Placed table refs nPageID placed front' tmpPage [table.lastPage] := by
  obtain ⟨moved, tmpPage, rest, relinks, relinked, body, rfl, other, spot⟩ :=
    spot_relink inv.shape split larger passed crowded
  have member : tmpPage ∈ refs := by simp [split]
  have below := inv.index_lt_last member other
  have fits : (moved.body tmpPage).index * moved.layout.pageSize + moved.layout.pageSize < 2 ^ 31 := by
    rw [body, relinked.layout]
    exact Nat.lt_of_le_of_lt (Table.page_on_disk below) inv.last_on_disk
  have size : (moved.body tmpPage).size = moved.layout.pageSize := by
    rw [body, relinked.layout]
    exact inv.sized tmpPage member
  have file : syncFile moved tmpPage = syncFile table tmpPage := by
    simp only [syncFile, body, relinked.layout, relinked.dFile]
  obtain ⟨grows, bounded, written, frame⟩ := syncFile_spec inv member other
  have none : takenOver table nPageID = none := by simp [takenOver, found]
  have reused : reuseFirst table table.lastPage = (syncPage moved tmpPage).map (·, tmpPage) := by
    rw [reuseFirst_eq, relinks]
    rfl
  rw [syncPage_eq size (by omega), if_neg fun dirty => Nat.not_lt.mpr dirty.2 fits] at reused
  refine ⟨_, rest, tmpPage, reused, ((spot.setBody _).setFile _).placed ?_ (file ▸ grows)
    (file ▸ bounded) (fun ref present gone => ?_) (fun index apart position inside known => ?_)
    (fun ref replaces => ?_)⟩
  · rw [Table.setFile_body, Table.setBody_body, Function.update_self]
    rw [size, relinked.layout]
  · have here : ref = tmpPage := by
      rw [split] at present
      rcases List.mem_cons.mp present with here | kept
      · exact here
      · exact absurd kept gone
    subst here
    refine ⟨other, .inr fun position inside => ?_⟩
    show (syncFile moved ref).byte _ = _
    rw [file]
    exact written position inside
  · show (syncFile moved tmpPage).byte _ = _
    rw [file]
    exact frame index (apart tmpPage member spot.apart) position inside known
  · rw [none] at replaces
    cases replaces

end QNXStuff.QXBase
