import QNXStuff.QXBase.PagePool

/-! The shape of the page pool: a sorted list of pages up to the last one, whatever the pages and
the data file hold. -/

namespace QNXStuff.QXBase

open Memory LinkedList

namespace Table

@[simp] theorem setNext_next (table : Table) (ref : PageRef) (target : Option PageRef) :
    (table.setNext ref target).next = Function.update table.next ref target := by
  funext other
  by_cases same : other = ref
  · subst same; simp [next, setNext]
  · simp [next, setNext, same]

@[simp] theorem setNext_prev (table : Table) (ref : PageRef) (target : Option PageRef) :
    (table.setNext ref target).prev = table.prev := by
  funext other
  by_cases same : other = ref
  · subst same; simp [prev, setNext]
  · simp [prev, setNext, same]

@[simp] theorem setNext_body (table : Table) (ref : PageRef) (target : Option PageRef) :
    (table.setNext ref target).body = table.body := by
  funext other
  by_cases same : other = ref
  · subst same; simp [body, setNext]
  · simp [body, setNext, same]

@[simp] theorem setPrev_next (table : Table) (ref : PageRef) (target : Option PageRef) :
    (table.setPrev ref target).next = table.next := by
  funext other
  by_cases same : other = ref
  · subst same; simp [next, setPrev]
  · simp [next, setPrev, same]

@[simp] theorem setPrev_prev (table : Table) (ref : PageRef) (target : Option PageRef) :
    (table.setPrev ref target).prev = Function.update table.prev ref target := by
  funext other
  by_cases same : other = ref
  · subst same; simp [prev, setPrev]
  · simp [prev, setPrev, same]

@[simp] theorem setPrev_body (table : Table) (ref : PageRef) (target : Option PageRef) :
    (table.setPrev ref target).body = table.body := by
  funext other
  by_cases same : other = ref
  · subst same; simp [body, setPrev]
  · simp [body, setPrev, same]

@[simp] theorem setBody_next (table : Table) (ref : PageRef) (new : PageBody) :
    (table.setBody ref new).next = table.next := by
  funext other
  by_cases same : other = ref
  · subst same; simp [next, setBody]
  · simp [next, setBody, same]

@[simp] theorem setBody_prev (table : Table) (ref : PageRef) (new : PageBody) :
    (table.setBody ref new).prev = table.prev := by
  funext other
  by_cases same : other = ref
  · subst same; simp [prev, setBody]
  · simp [prev, setBody, same]

@[simp] theorem setBody_body (table : Table) (ref : PageRef) (new : PageBody) :
    (table.setBody ref new).body = Function.update table.body ref new := by
  funext other
  by_cases same : other = ref
  · subst same; simp [body, setBody]
  · simp [body, setBody, same]

@[simp] theorem setPages_next (table : Table) (head : Option PageRef) :
    (table.setPages head).next = table.next := rfl

@[simp] theorem setPages_prev (table : Table) (head : Option PageRef) :
    (table.setPages head).prev = table.prev := rfl

@[simp] theorem setPages_body (table : Table) (head : Option PageRef) :
    (table.setPages head).body = table.body := rfl

@[simp] theorem setFile_next (table : Table) (file : File) :
    (table.setFile file).next = table.next := rfl

@[simp] theorem setFile_prev (table : Table) (file : File) :
    (table.setFile file).prev = table.prev := rfl

@[simp] theorem setFile_body (table : Table) (file : File) :
    (table.setFile file).body = table.body := rfl

@[simp] theorem grow_next (table : Table) : table.grow.next = table.next := rfl

@[simp] theorem grow_prev (table : Table) : table.grow.prev = table.prev := rfl

@[simp] theorem grow_body (table : Table) : table.grow.body = table.body := rfl

@[simp] theorem setBody_links (table : Table) (ref : PageRef) (new : PageBody) :
    (table.setBody ref new).links = table.links := by
  simp only [links, setBody_next, setBody_prev]
  rfl

@[simp] theorem setFile_links (table : Table) (file : File) :
    (table.setFile file).links = table.links := rfl

@[simp] theorem linkBefore_next (table : Table) (tmpPage rPage : PageRef) :
    (table.linkBefore tmpPage rPage).next =
      Function.update table.next tmpPage (some rPage) := by
  simp [linkBefore]

@[simp] theorem linkBefore_prev (table : Table) (tmpPage rPage : PageRef) :
    (table.linkBefore tmpPage rPage).prev =
      Function.update (Function.update table.prev tmpPage (table.prev rPage)) rPage
        (some tmpPage) := by
  simp [linkBefore]

@[simp] theorem linkBefore_body (table : Table) (tmpPage rPage : PageRef) :
    (table.linkBefore tmpPage rPage).body = table.body := by
  simp [linkBefore]

end Table

/-- The parts of a table that moving pages about leaves alone. -/
structure SameTable (table other : Table) : Prop where
  layout : other.layout = table.layout
  index : other.index = table.index
  lastPage : other.lastPage = table.lastPage
  hFile : other.hFile = table.hFile

theorem SameTable.refl (table : Table) : SameTable table table := ⟨rfl, rfl, rfl, rfl⟩

theorem SameTable.trans {table other third : Table} (first : SameTable table other)
    (second : SameTable other third) : SameTable table third :=
  ⟨second.layout.trans first.layout, second.index.trans first.index,
    second.lastPage.trans first.lastPage, second.hFile.trans first.hFile⟩

/-- Moving page descriptors about: the other parts of the table stay. -/
structure Relinked (table moved : Table) : Prop extends SameTable table moved where
  dFile : moved.dFile = table.dFile

/-- The pointer assignments of `linkBefore` and of the link behind them are one insertion. -/
theorem linkBefore_links {table : Table} {tmpPage rPage before : PageRef}
    (precedes : table.prev rPage = some before)
    (outside : before ≠ tmpPage) :
    ((table.linkBefore tmpPage rPage).setNext before (some tmpPage)).links =
      table.links.insertBefore tmpPage rPage := by
  have swap : Function.update (Function.update table.next tmpPage (some rPage)) before
      (some tmpPage) = Function.update (Function.update table.next before (some tmpPage)) tmpPage
        (some rPage) := Function.update_comm outside.symm ..
  simp only [Table.links, Links.insertBefore, precedes, Links.redirectNext, Table.setNext_next,
    Table.setNext_prev, Table.linkBefore_next, Table.linkBefore_prev, swap]
  rfl

theorem allocPage_spec (table : Table) {rPage : PageRef} (other : table.fresh ≠ rPage)
    (outside : table.prev rPage ≠ some table.fresh) :
    ∃ moved, allocPage table rPage = (moved, table.fresh) ∧ Relinked table moved ∧
      moved.links = table.links.insertBefore table.fresh rPage ∧
      moved.body = Function.update table.body table.fresh
        { table.body table.fresh with
          size := table.layout.rowLen * table.layout.pageRows % 2 ^ 32 } ∧
      moved.fresh = table.fresh + 1 ∧ moved.pLocks = table.pLocks + 1 := by
  let start := table.grow.setBody table.fresh
    { table.body table.fresh with size := table.layout.rowLen * table.layout.pageRows % 2 ^ 32 }
  have startLinks : start.links = table.links := Table.setBody_links ..
  have startPrev : start.prev = table.prev := Table.setBody_prev ..
  have startBody : start.body = Function.update table.body table.fresh _ := Table.setBody_body ..
  have linked : (start.linkBefore table.fresh rPage).prev table.fresh = table.prev rPage := by
    simp [startPrev, Function.update_of_ne other]
  have unfolded : allocPage table rPage =
      (((start.linkBefore table.fresh rPage).prev table.fresh).elim
        ((start.linkBefore table.fresh rPage).setPages (some table.fresh), table.fresh)
        fun before =>
          ((start.linkBefore table.fresh rPage).setNext before (some table.fresh), table.fresh)) := by
    unfold allocPage
    dsimp only
    cases (start.linkBefore table.fresh rPage).prev table.fresh <;> rfl
  rw [unfolded, linked]
  cases precedes : table.prev rPage with
  | none =>
    refine ⟨_, rfl, ⟨⟨rfl, rfl, rfl, rfl⟩, rfl⟩, ?_, ?_, rfl, rfl⟩
    · have startNext : start.next = table.next := Table.setBody_next ..
      simp only [Table.links, Links.insertBefore, precedes, Links.redirectNext,
        Table.setPages_next, Table.setPages_prev, Table.linkBefore_next, Table.linkBefore_prev,
        startNext, startPrev]
      rfl
    · rw [Table.setPages_body, Table.linkBefore_body, startBody]
  | some before =>
    refine ⟨_, rfl, ⟨⟨rfl, rfl, rfl, rfl⟩, rfl⟩, ?_, ?_, rfl, rfl⟩
    · rw [linkBefore_links (by rw [startPrev, precedes]) (by rintro rfl; exact outside precedes),
        startLinks]
    · rw [Table.setNext_body, Table.linkBefore_body, startBody]

/-- The pointers of `reuseFirst`. -/
def relinkFirst (table : Table) (rPage : PageRef) : Except Fault (Table × PageRef) :=
  match table.pages with
  | none => .error .wild
  | some tmpPage =>
    match table.next tmpPage with
    | none => .error .wild
    | some second =>
      let table := (table.setPrev second none).setPages (some second)
      let table := table.linkBefore tmpPage rPage
      match table.prev tmpPage with
      | some before => .ok (table.setNext before (some tmpPage), tmpPage)
      | none => .ok (table, tmpPage)

/-- The page that is reused is relinked, then written back. -/
theorem reuseFirst_eq (table : Table) (rPage : PageRef) :
    reuseFirst table rPage = (relinkFirst table rPage).bind fun moved =>
      (syncPage moved.1 moved.2).map (·, moved.2) := by
  unfold reuseFirst relinkFirst
  cases table.pages with
  | none => rfl
  | some tmpPage =>
    simp only
    cases table.next tmpPage with
    | none => rfl
    | some second =>
      simp only
      cases ((((table.setPrev second none).setPages (some second)).linkBefore tmpPage rPage).prev
        tmpPage) with
      | none => rfl
      | some before => rfl

theorem relinkFirst_spec (table : Table) {tmpPage second rPage before : PageRef}
    (head : table.pages = some tmpPage) (follows : table.next tmpPage = some second)
    (precedes : Function.update table.prev second none rPage = some before)
    (first : table.prev tmpPage = none) (outside : before ≠ tmpPage) (other : tmpPage ≠ rPage) :
    ∃ moved, relinkFirst table rPage = .ok (moved, tmpPage) ∧ Relinked table moved ∧
      moved.links = (table.links.unlink tmpPage).insertBefore tmpPage rPage ∧
      moved.body = table.body ∧ moved.fresh = table.fresh ∧ moved.pLocks = table.pLocks := by
  let start := (table.setPrev second none).setPages (some second)
  have startLinks : start.links = table.links.unlink tmpPage := by
    simp only [start, Table.links, Links.unlink, first, follows, Links.redirectNext,
      Links.redirectPrev, Table.setPages_next, Table.setPages_prev, Table.setPrev_next,
      Table.setPrev_prev]
    rfl
  have startPrev : start.prev = Function.update table.prev second none := Table.setPrev_prev ..
  have startBody : start.body = table.body := Table.setPrev_body ..
  have linked : (start.linkBefore tmpPage rPage).prev tmpPage = some before := by
    rw [Table.linkBefore_prev, Function.update_of_ne other, Function.update_self, startPrev,
      precedes]
  have unfolded : relinkFirst table rPage =
      match (start.linkBefore tmpPage rPage).prev tmpPage with
      | some before => .ok ((start.linkBefore tmpPage rPage).setNext before (some tmpPage), tmpPage)
      | none => .ok (start.linkBefore tmpPage rPage, tmpPage) := by
    simp only [relinkFirst, head, follows]
    rfl
  rw [unfolded, linked]
  refine ⟨_, rfl, ⟨⟨rfl, rfl, rfl, rfl⟩, rfl⟩, ?_, ?_, rfl, rfl⟩
  · rw [linkBefore_links (by rw [startPrev, precedes]) outside, startLinks]
  · rw [Table.setNext_body, Table.linkBefore_body, startBody]

/-- The pages of the pool in the order of their indices. -/
structure PoolShape (table : Table) (refs : List PageRef) : Prop where
  listed : table.links.Represents refs
  live : ∀ ref ∈ refs, ref < table.fresh
  sorted : refs.Pairwise fun first second => (table.body first).index < (table.body second).index
  counted : table.pLocks = refs.length
  limited : refs.length ≤ table.layout.lockPages
  full : ∀ ref ∈ refs, ref ≠ table.lastPage → (table.body ref).lastRow = table.layout.pageRows
  lastRow_le : (table.body table.lastPage).lastRow ≤ table.layout.pageRows

namespace PoolShape

variable {table : Table} {refs : List PageRef}

theorem length_le (inv : PoolShape table refs) : refs.length ≤ table.fresh := by
  have bound := inv.listed.nodup.length_le_of_subset fun ref member => List.mem_range.mpr (inv.live ref member)
  simpa using bound

theorem refs_eq (inv : PoolShape table refs) : table.refs = refs :=
  walk_chain inv.listed.forward inv.length_le

theorem last_eq (inv : PoolShape table refs) : refs.getLast? = some table.lastPage :=
  inv.listed.tail_eq.symm

theorem split_last (inv : PoolShape table refs) : ∃ front, refs = front ++ [table.lastPage] := by
  have last := inv.last_eq
  rcases List.eq_nil_or_concat' refs with rfl | ⟨front, ref, rfl⟩
  · cases last
  · simp only [List.getLast?_concat, Option.some.injEq] at last
    exact ⟨front, by rw [last]⟩

theorem last_mem (inv : PoolShape table refs) : table.lastPage ∈ refs :=
  List.mem_of_getLast? inv.last_eq

theorem index_lt_last (inv : PoolShape table refs) {ref : PageRef} (member : ref ∈ refs)
    (other : ref ≠ table.lastPage) : (table.body ref).index < table.lastIndex := by
  obtain ⟨front, rfl⟩ := inv.split_last
  rcases List.mem_append.mp member with before | last
  · exact (List.pairwise_append.mp inv.sorted).2.2 ref before _ (List.mem_singleton_self _)
  · exact absurd (List.mem_singleton.mp last) other

theorem index_le_last (inv : PoolShape table refs) {ref : PageRef} (member : ref ∈ refs) :
    (table.body ref).index ≤ table.lastIndex := by
  by_cases last : ref = table.lastPage
  · subst last
    exact Nat.le_refl _
  · exact Nat.le_of_lt (inv.index_lt_last member last)

/-- Different pages of the pool have different indices. -/
theorem index_injective (inv : PoolShape table refs) {ref other : PageRef} (member : ref ∈ refs)
    (member' : other ∈ refs) (same : (table.body ref).index = (table.body other).index) :
    ref = other := by
  obtain ⟨front, back, rfl⟩ := List.append_of_mem member
  obtain ⟨_, rest, cross⟩ := List.pairwise_append.mp inv.sorted
  have after := (List.pairwise_cons.mp rest).1
  rcases List.mem_append.mp member' with earlier | later
  · have less := cross other earlier ref List.mem_cons_self
    omega
  · rcases List.mem_cons.mp later with here | later
    · exact here.symm
    · have less := after other later
      omega

theorem lastRow_le_pageRows (inv : PoolShape table refs) {ref : PageRef} (member : ref ∈ refs) :
    (table.body ref).lastRow ≤ table.layout.pageRows := by
  by_cases last : ref = table.lastPage
  · subst last
    exact inv.lastRow_le
  · exact Nat.le_of_eq (inv.full ref member last)

/-- The search stops at the first page with the wanted index or a larger one. -/
theorem findPage_eq (inv : PoolShape table refs) (nPageID : Nat) :
    findPage table nPageID =
      some (refs.find? fun ref => decide (nPageID ≤ (table.body ref).index)) :=
  findFrom_chain inv.listed.forward _ inv.length_le

/-- The pages in front of the place where the search stopped have smaller indices. -/
theorem findPage_cases (inv : PoolShape table refs) (nPageID : Nat) :
    (table.lastIndex < nPageID ∧ findPage table nPageID = some none) ∨
    (nPageID ≤ table.lastIndex ∧ ∃ front rPage back, refs = front ++ rPage :: back ∧
      findPage table nPageID = some (some rPage) ∧ nPageID ≤ (table.body rPage).index ∧
      ∀ ref ∈ front, (table.body ref).index < nPageID) := by
  rw [inv.findPage_eq nPageID]
  cases found : refs.find? fun ref => decide (nPageID ≤ (table.body ref).index) with
  | none =>
    left
    have below := List.find?_eq_none.mp found _ inv.last_mem
    simp only [decide_eq_true_eq, Nat.not_le] at below
    exact ⟨below, rfl⟩
  | some rPage =>
    right
    obtain ⟨stops, front, back, split, passed⟩ := List.find?_eq_some_iff_append.mp found
    simp only [decide_eq_true_eq] at stops
    have member : rPage ∈ refs := by simp [split]
    refine ⟨Nat.le_trans stops (inv.index_le_last member), front, rPage, back, split, rfl, stops, ?_⟩
    intro ref before
    simpa using passed ref before

end PoolShape

/-! ### Changes that keep the shape -/

theorem single_represents {links : Links PageRef} {ref : PageRef} (head : links.head = some ref)
    (tail : links.tail = some ref) (next : links.next ref = none) (prev : links.prev ref = none) :
    links.Represents [ref] where
  nodup := List.nodup_singleton ref
  forward := ⟨head, next⟩
  backward := ⟨tail, prev⟩

section Changes

variable {table : Table} {refs : List PageRef}

theorem PoolShape.single {ref : PageRef} (pages : table.pages = some ref)
    (lastPage : table.lastPage = ref) (next : table.next ref = none) (prev : table.prev ref = none)
    (live : ref < table.fresh) (pLocks : table.pLocks = 1)
    (lastRow_le : (table.body ref).lastRow ≤ table.layout.pageRows) : PoolShape table [ref] where
  listed := single_represents pages (congrArg some lastPage) next prev
  live := fun other member => List.mem_singleton.mp member ▸ live
  sorted := List.pairwise_singleton ..
  counted := pLocks
  limited := Nat.le_trans (Nat.le_of_lt_succ (by simp)) table.layout.sound.lockPages_min
  full := fun other member apart => absurd (List.mem_singleton.mp member) (lastPage ▸ apart)
  lastRow_le := lastPage.symm ▸ lastRow_le

theorem PoolShape.touch (shape : PoolShape table refs) {ref : PageRef} {page : PageBody}
    (index : page.index = (table.body ref).index)
    (lastRow : page.lastRow = (table.body ref).lastRow) : PoolShape (table.setBody ref page) refs := by
  have same : ∀ other, ((table.setBody ref page).body other).index = (table.body other).index ∧
      ((table.setBody ref page).body other).lastRow = (table.body other).lastRow := by
    intro other
    rw [Table.setBody_body]
    by_cases here : other = ref
    · rw [here, Function.update_self]
      exact ⟨index, lastRow⟩
    · rw [Function.update_of_ne here]
      exact ⟨rfl, rfl⟩
  refine
    { listed := by
        rw [Table.setBody_links]
        exact shape.listed
      live := shape.live
      sorted := shape.sorted.imp fun less => ?_
      counted := shape.counted
      limited := shape.limited
      full := fun other member apart => (same other).2.trans (shape.full other member apart)
      lastRow_le := Nat.le_trans (Nat.le_of_eq (same _).2) shape.lastRow_le }
  rw [(same _).1, (same _).1]
  exact less

theorem PoolShape.setLast (shape : PoolShape table refs) {page : PageBody}
    (later : table.lastIndex ≤ page.index) (lastRow_le : page.lastRow ≤ table.layout.pageRows) :
    PoolShape (table.setBody table.lastPage page) refs := by
  have body : (table.setBody table.lastPage page).body table.lastPage = page := by
    rw [Table.setBody_body, Function.update_self]
  have other : ∀ ref, ref ≠ table.lastPage →
      (table.setBody table.lastPage page).body ref = table.body ref := fun ref apart => by
    rw [Table.setBody_body, Function.update_of_ne apart]
  refine
    { listed := by
        rw [Table.setBody_links]
        exact shape.listed
      live := shape.live
      sorted := ?_
      counted := shape.counted
      limited := shape.limited
      full := fun ref member apart => ?_
      lastRow_le := by
        show ((table.setBody table.lastPage page).body table.lastPage).lastRow ≤ _
        rw [body]
        exact lastRow_le }
  · obtain ⟨front, split⟩ := shape.split_last
    have nodup := shape.listed.nodup
    have sorted := shape.sorted
    rw [split] at nodup sorted ⊢
    have apart : ∀ ref ∈ front, ref ≠ table.lastPage := fun ref member same =>
      List.disjoint_of_nodup_append nodup member (by simp [same])
    obtain ⟨sortedFront, _, cross⟩ := List.pairwise_append.mp sorted
    refine List.pairwise_append.mpr ⟨?_, List.pairwise_singleton .., ?_⟩
    · refine sortedFront.imp_of_mem fun member member' less => ?_
      rwa [other _ (apart _ member), other _ (apart _ member')]
    · intro ref member last here
      rw [List.mem_singleton.mp here, body, other ref (apart ref member)]
      exact Nat.lt_of_lt_of_le (cross ref member _ (List.mem_singleton_self _)) later
  · have apart : ref ≠ table.lastPage := apart
    rw [other ref apart]
    exact shape.full ref member apart

end Changes

/-! ### The three ways to get a page -/

/-- Once there is a descriptor `rPage` for the wanted page, it stands between the pages with smaller
and with larger indices. -/
structure Spot (table : Table) (refs : List PageRef) (nPageID : Nat)
    (placed : Table) (front : List PageRef) (rPage : PageRef) (back : List PageRef) : Prop where
  listed : placed.links.Represents (front ++ rPage :: back)
  same : SameTable table placed
  live : ∀ ref ∈ front ++ rPage :: back, ref < placed.fresh
  counted : placed.pLocks = (front ++ rPage :: back).length
  limited : (front ++ rPage :: back).length ≤ table.layout.lockPages
  sublist : (front ++ back).Sublist refs
  kept : ∀ ref ∈ front ++ back, placed.body ref = table.body ref
  lastKept : table.lastPage ∈ front ++ back
  before : ∀ ref ∈ front, (table.body ref).index < nPageID
  after : ∀ ref ∈ back, nPageID < (table.body ref).index

section Spots

variable {table placed : Table} {refs front back : List PageRef} {rPage : PageRef} {nPageID : Nat}

/-- The pages behind the place where the search stopped. -/
theorem PoolShape.behind (shape : PoolShape table refs) (split : refs = front ++ rPage :: back) :
    ∀ ref ∈ back, (table.body rPage).index < (table.body ref).index := by
  have sorted := shape.sorted
  rw [split] at sorted
  exact (List.pairwise_cons.mp (List.pairwise_append.mp sorted).2.1).1

theorem PoolShape.behind_last (shape : PoolShape table refs)
    (split : refs = front ++ table.lastPage :: back) : back = [] := by
  have ending := shape.last_eq
  have nodup := shape.listed.nodup
  rw [split] at ending nodup
  rcases List.eq_nil_or_concat' back with empty | ⟨middle, ref, rfl⟩
  · exact empty
  · rw [← List.cons_append, ← List.append_assoc, List.getLast?_concat] at ending
    have here : ref = table.lastPage := Option.some.inj ending
    have apart := (List.nodup_cons.mp nodup.of_append_right).1
    exact absurd (by simp [here]) apart

theorem spot_in_place (shape : PoolShape table refs) (split : refs = front ++ rPage :: back)
    (larger : nPageID < (table.body rPage).index)
    (passed : ∀ ref ∈ front, (table.body ref).index < nPageID) (other : rPage ≠ table.lastPage) :
    Spot table refs nPageID table front rPage back := by
  refine
    { listed := split ▸ shape.listed
      same := SameTable.refl table
      live := split ▸ shape.live
      counted := split ▸ shape.counted
      limited := split ▸ shape.limited
      sublist := by simp [split]
      kept := fun _ _ => rfl
      lastKept := ?_
      before := passed
      after := fun ref behind => Nat.lt_trans larger (shape.behind split ref behind) }
  have last := shape.last_mem
  rw [split] at last
  rcases List.mem_append.mp last with before | after
  · exact List.mem_append_left _ before
  · rcases List.mem_cons.mp after with here | after
    · exact absurd here.symm other
    · exact List.mem_append_right _ after

/-- A new descriptor in front of the page where the search stopped. -/
theorem spot_alloc (shape : PoolShape table refs) (split : refs = front ++ rPage :: back)
    (larger : nPageID < (table.body rPage).index)
    (passed : ∀ ref ∈ front, (table.body ref).index < nPageID)
    (room : ¬ table.layout.lockPages ≤ table.pLocks) :
    ∃ placed, allocPage table rPage = (placed, table.fresh) ∧ Relinked table placed ∧
      placed.body = Function.update table.body table.fresh
        { table.body table.fresh with
          size := table.layout.rowLen * table.layout.pageRows % 2 ^ 32 } ∧
      Spot table refs nPageID placed front table.fresh (rPage :: back) := by
  have outside : table.fresh ∉ refs := fun member => Nat.lt_irrefl _ (shape.live _ member)
  have member : rPage ∈ refs := by simp [split]
  have listed := shape.listed
  rw [split] at listed
  have other : table.fresh ≠ rPage := by
    rintro same
    exact outside (same ▸ member)
  have unlinked : table.prev rPage ≠ some table.fresh := by
    intro precedes
    have last : front.getLast? = some table.fresh := listed.prev_eq.symm.trans precedes
    exact outside (by rw [split]; exact List.mem_append_left _ (List.mem_of_getLast? last))
  obtain ⟨placed, allocated, relinked, links, body, fresh, pLocks⟩ :=
    allocPage_spec table other unlinked
  have bodies : ∀ ref ∈ refs, placed.body ref = table.body ref := by
    intro ref present
    rw [body, Function.update_of_ne (show ref ≠ table.fresh from fun same => outside (same ▸ present))]
  have length : (front ++ table.fresh :: rPage :: back).length = refs.length + 1 := by
    simp [split]
    omega
  refine ⟨placed, allocated, relinked, body,
    { listed := links ▸ listed.insertBefore (split ▸ outside)
      same := relinked.toSameTable
      live := fun ref present => ?_
      counted := by rw [pLocks, shape.counted, length]
      limited := by
        rw [length, ← shape.counted]
        omega
      sublist := split ▸ List.Sublist.refl _
      kept := fun ref kept => bodies ref (split ▸ kept)
      lastKept := split ▸ shape.last_mem
      before := passed
      after := fun ref behind => ?_ }⟩
  · have bound : ref ∈ refs → ref < table.fresh + 1 := fun present =>
      Nat.lt_succ_of_lt (shape.live ref present)
    rw [split] at bound
    rw [fresh]
    simp only [List.mem_append, List.mem_cons] at present bound
    rcases present with before | here | after
    · exact bound (.inl before)
    · exact here ▸ Nat.lt_succ_self _
    · exact bound (.inr after)
  · rcases List.mem_cons.mp behind with rfl | behind
    · exact larger
    · exact Nat.lt_trans larger (shape.behind split ref behind)

/-- The first page of a full list in front of the last one. -/
theorem spot_relink (shape : PoolShape table refs) (split : refs = front ++ [table.lastPage])
    (larger : nPageID < table.lastIndex)
    (passed : ∀ ref ∈ front, (table.body ref).index < nPageID)
    (crowded : table.layout.lockPages ≤ table.pLocks) :
    ∃ moved tmpPage rest, relinkFirst table table.lastPage = .ok (moved, tmpPage) ∧
      Relinked table moved ∧ moved.body = table.body ∧ front = tmpPage :: rest ∧
      tmpPage ≠ table.lastPage ∧ Spot table refs nPageID moved rest tmpPage [table.lastPage] := by
  have many : 3 ≤ refs.length :=
    shape.counted ▸ Nat.le_trans table.layout.sound.lockPages_min crowded
  obtain ⟨tmpPage, second, middle, rfl⟩ : ∃ tmpPage second middle, front = tmpPage :: second :: middle := by
    rw [split] at many
    match front, many with
    | tmpPage :: second :: middle, _ => exact ⟨tmpPage, second, middle, rfl⟩
  have listed := shape.listed
  have nodup := shape.listed.nodup
  rw [split] at listed nodup
  have first : tmpPage ∉ second :: middle ++ [table.lastPage] := (List.nodup_cons.mp nodup).1
  have other : tmpPage ≠ table.lastPage := fun same => first (by simp [same])
  have behind : table.lastPage ∉ second :: middle := fun member =>
    List.disjoint_of_nodup_append (List.nodup_cons.mp nodup).2 member (List.mem_singleton_self _)
  obtain ⟨before, last⟩ : ∃ before, (second :: middle).getLast? = some before :=
    ⟨_, List.getLast?_eq_some_getLast (List.cons_ne_nil second middle)⟩
  have precedes : table.prev table.lastPage = some before := by
    have precedes := Links.Represents.prev_eq listed
    rwa [List.getLast?_cons_cons, last] at precedes
  obtain ⟨moved, relinks, relinked, links, body, fresh, pLocks⟩ :=
    relinkFirst_spec table listed.head_eq
      (@Links.Represents.next_eq _ _ [] _ _ listed)
      (by rw [Function.update_of_ne fun same => behind (by simp [same]), precedes])
      (@Links.Represents.prev_eq _ _ [] _ _ listed)
      (fun same => first (same ▸ List.mem_append_left _ (List.mem_of_getLast? last))) other
  have perm : (second :: middle ++ tmpPage :: [table.lastPage]).Perm refs :=
    split ▸ List.perm_middle
  refine ⟨moved, tmpPage, second :: middle, relinks, relinked, body, rfl, other,
    { listed := ?_
      same := relinked.toSameTable
      live := fun ref present => ?_
      counted := by rw [pLocks, shape.counted, perm.length_eq]
      limited := perm.length_eq ▸ shape.limited
      sublist := split ▸ List.sublist_cons_self ..
      kept := fun ref _ => by rw [body]
      lastKept := by simp
      before := fun ref early => passed ref (List.mem_cons_of_mem _ early)
      after := fun ref behind => ?_ }⟩
  · have unlinked := @Links.Represents.unlink _ _ _ [] _ _ listed
    have placed := @Links.Represents.insertBefore _ _ _ _ _ _ table.lastPage unlinked first
    rwa [← links] at placed
  · rw [fresh]
    exact shape.live ref (perm.subset present)
  · rw [List.mem_singleton.mp behind]
    exact larger

theorem Spot.apart (spot : Spot table refs nPageID placed front rPage back) :
    rPage ∉ front ++ back :=
  (List.nodup_cons.mp (List.perm_middle.nodup_iff.mp spot.listed.nodup)).1

/-- What the descriptor says of its page does not matter for its place. -/
theorem Spot.setBody (spot : Spot table refs nPageID placed front rPage back) (body : PageBody) :
    Spot table refs nPageID (placed.setBody rPage body) front rPage back where
  listed := by
    rw [Table.setBody_links]
    exact spot.listed
  same := ⟨spot.same.layout, spot.same.index, spot.same.lastPage, spot.same.hFile⟩
  live := spot.live
  counted := spot.counted
  limited := spot.limited
  sublist := spot.sublist
  kept := fun ref member => by
    have other : ref ≠ rPage := fun same => spot.apart (same ▸ member)
    rw [Table.setBody_body, Function.update_of_ne other, spot.kept ref member]
  lastKept := spot.lastKept
  before := spot.before
  after := spot.after

theorem Spot.setFile (spot : Spot table refs nPageID placed front rPage back) (file : File) :
    Spot table refs nPageID (placed.setFile file) front rPage back :=
  ⟨spot.listed, ⟨spot.same.layout, spot.same.index, spot.same.lastPage, spot.same.hFile⟩, spot.live,
    spot.counted, spot.limited, spot.sublist, spot.kept, spot.lastKept, spot.before, spot.after⟩

theorem Spot.mem_cases (_ : Spot table refs nPageID placed front rPage back) {ref : PageRef}
    (member : ref ∈ front ++ rPage :: back) :
    ref = rPage ∨ (ref ≠ rPage ∧ ref ∈ front ++ back) := by
  by_cases here : ref = rPage
  · exact .inl here
  · refine .inr ⟨here, ?_⟩
    simpa [here] using member

/-- A descriptor at its spot that has become the wanted page completes the pool again. -/
theorem Spot.shape (shape : PoolShape table refs)
    (spot : Spot table refs nPageID placed front rPage back)
    (index : (placed.body rPage).index = nPageID)
    (lastRow : (placed.body rPage).lastRow = table.layout.pageRows) :
    PoolShape placed (front ++ rPage :: back) := by
  have lastBody : placed.body table.lastPage = table.body table.lastPage :=
    spot.kept _ spot.lastKept
  refine
    { listed := spot.listed
      live := spot.live
      sorted := ?_
      counted := spot.counted
      limited := spot.same.layout ▸ spot.limited
      full := fun ref member other => ?_
      lastRow_le := by
        rw [spot.same.lastPage, lastBody, spot.same.layout]
        exact shape.lastRow_le }
  · obtain ⟨sortedFront, sortedBack, cross⟩ :=
      List.pairwise_append.mp (shape.sorted.sublist spot.sublist)
    have keptFront : ∀ ref ∈ front, placed.body ref = table.body ref :=
      fun ref member => spot.kept ref (List.mem_append_left _ member)
    have keptBack : ∀ ref ∈ back, placed.body ref = table.body ref :=
      fun ref member => spot.kept ref (List.mem_append_right _ member)
    refine List.pairwise_append.mpr ⟨?_, List.pairwise_cons.mpr ⟨?_, ?_⟩, ?_⟩
    · refine sortedFront.imp_of_mem fun member member' less => ?_
      rwa [keptFront _ member, keptFront _ member']
    · intro ref member
      rw [index, keptBack ref member]
      exact spot.after ref member
    · refine sortedBack.imp_of_mem fun member member' less => ?_
      rwa [keptBack _ member, keptBack _ member']
    · intro ref member other member'
      rw [keptFront ref member]
      rcases List.mem_cons.mp member' with rfl | member'
      · rw [index]
        exact spot.before ref member
      · rw [keptBack other member']
        exact cross ref member other member'
  · rw [spot.same.layout]
    rcases spot.mem_cases member with rfl | ⟨_, kept⟩
    · exact lastRow
    · rw [spot.kept ref kept]
      exact shape.full ref (spot.sublist.subset kept) (spot.same.lastPage ▸ other)

end Spots

end QNXStuff.QXBase
