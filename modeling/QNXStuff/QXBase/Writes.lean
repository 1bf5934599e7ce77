import QNXStuff.QXBase.PageLoops

/-! Writing pages back and inserting rows. -/

namespace QNXStuff.QXBase

open Memory LinkedList

/-! ### Writing one page back -/

/-- A page was written back: the pool is as before, but that page is clean. -/
structure Synced (table : Table) (refs : List PageRef) (ref : PageRef) (synced : Table) : Prop where
  inv : PoolInv synced refs
  kept : Kept table synced
  next : synced.next = table.next
  pages : synced.pages = table.pages
  fresh : synced.fresh = table.fresh
  body : synced.body = Function.update table.body ref { table.body ref with needSync := false }
  written : ∀ position < table.layout.pageSize, (table.body ref).needSync = true →
    (table.body ref).index * table.layout.pageSize + position < synced.dFile.size ∧
    synced.dFile.byte ((table.body ref).index * table.layout.pageSize + position) =
      (table.body ref).data position
  unwritten : (table.body ref).needSync = false → synced.dFile = table.dFile
  larger : table.dFile.size ≤ synced.dFile.size
  frame : ∀ index, (table.body ref).index ≠ index → ∀ position < table.layout.pageSize,
    index * table.layout.pageSize + position < table.dFile.size →
      synced.dFile.byte (index * table.layout.pageSize + position) =
        table.dFile.byte (index * table.layout.pageSize + position)

section Sync

variable {table synced : Table} {refs : List PageRef} {ref : PageRef}

theorem syncFile_written (dirty : (table.body ref).needSync = true) {position : Nat}
    (inPage : position < table.layout.pageSize) :
    (table.body ref).index * table.layout.pageSize + position < (syncFile table ref).size ∧
      (syncFile table ref).byte ((table.body ref).index * table.layout.pageSize + position) =
        (table.body ref).data position := by
  rw [syncFile, if_pos dirty]
  exact ⟨Nat.lt_of_lt_of_le (by omega) (Nat.le_max_right ..), File.pwrite_inside inPage⟩

theorem syncFile_frame {index : Nat} (apart : (table.body ref).index ≠ index) {position : Nat}
    (inPage : position < table.layout.pageSize)
    (known : index * table.layout.pageSize + position < table.dFile.size) :
    (syncFile table ref).byte (index * table.layout.pageSize + position) =
      table.dFile.byte (index * table.layout.pageSize + position) := by
  unfold syncFile
  split
  · exact File.pwrite_outside known (page_ranges apart inPage)
  · rfl

theorem syncFile_larger : table.dFile.size ≤ (syncFile table ref).size := by
  unfold syncFile
  split
  · exact Nat.le_max_left ..
  · exact Nat.le_refl _

/-- The bodies of the pages but for the mark of one. -/
theorem body_marked (other : PageRef) :
    let marked := Function.update table.body ref { table.body ref with needSync := false }
    (marked other).index = (table.body other).index ∧
      (marked other).size = (table.body other).size ∧
      (marked other).lastRow = (table.body other).lastRow ∧
      (marked other).data = (table.body other).data := by
  by_cases here : other = ref
  · subst here
    simp
  · simp [here]

theorem synced_inv (inv : PoolInv table refs) (present : ref ∈ refs)
    (fits : ¬ ((table.body ref).needSync = true ∧
      2 ^ 31 ≤ (table.body ref).index * table.layout.pageSize + table.layout.pageSize)) :
    PoolInv ((table.setBody ref { table.body ref with needSync := false }).setFile
      (syncFile table ref)) refs := by
  have body : ((table.setBody ref { table.body ref with needSync := false }).setFile
      (syncFile table ref)).body =
      Function.update table.body ref { table.body ref with needSync := false } :=
    Table.setBody_body ..
  have marked := @body_marked table ref
  refine
    { listed := by
        rw [Table.setFile_links, Table.setBody_links]
        exact inv.listed
      live := inv.live
      sorted := inv.sorted.imp fun {first second} less => ?_
      counted := inv.counted
      limited := inv.limited
      sized := fun other member => ?_
      full := fun other member apart => ?_
      lastRow_le := ?_
      onDisk := ?_
      bounded := ?_
      clean := fun other member clean position inside => ?_ }
  · rwa [body, (marked first).1, (marked second).1]
  · rw [body, (marked other).2.1]
    exact inv.sized other member
  · rw [body, (marked other).2.2.1]
    exact inv.full other member apart
  · rw [body]
    exact (marked table.lastPage).2.2.1 ▸ inv.lastRow_le
  · unfold Table.lastIndex
    rw [body]
    exact Nat.le_trans ((marked table.lastPage).1 ▸ inv.onDisk) syncFile_larger
  · show (syncFile table ref).size < 2 ^ 31
    unfold syncFile
    split
    · next dirty =>
      exact Nat.max_lt.mpr ⟨inv.bounded, Nat.not_le.mp fun bound => fits ⟨dirty, bound⟩⟩
    · exact inv.bounded
  · rw [body, (marked other).1, (marked other).2.2.2]
    rw [body] at clean inside
    rw [(marked other).2.2.1] at inside
    have inPage : position < table.layout.pageSize :=
      Nat.lt_of_lt_of_le inside (table.layout.rows_le_pageSize (inv.lastRow_le_pageRows member))
    have keep (settled : (table.body other).needSync = false)
        (apart : (syncFile table ref).byte
            ((table.body other).index * table.layout.pageSize + position) =
          table.dFile.byte ((table.body other).index * table.layout.pageSize + position)) :
        (table.body other).index * table.layout.pageSize + position < (syncFile table ref).size ∧
          (table.body other).data position = (syncFile table ref).byte
            ((table.body other).index * table.layout.pageSize + position) := by
      obtain ⟨known, same⟩ := inv.clean other member settled position inside
      exact ⟨Nat.lt_of_lt_of_le known syncFile_larger, same.trans apart.symm⟩
    by_cases here : other = ref
    · subst here
      cases dirty : (table.body other).needSync with
      | true =>
        obtain ⟨known, written⟩ := syncFile_written dirty inPage
        exact ⟨known, written.symm⟩
      | false => exact keep dirty (by rw [syncFile, dirty]; rfl)
    · rw [Function.update_of_ne here] at clean
      have apart : (table.body ref).index ≠ (table.body other).index := fun same =>
        here (inv.index_injective present member same).symm
      exact keep clean (syncFile_frame apart inPage
        (inv.clean other member clean position inside).1)

/-- Only a page that would end behind the largest file position cannot be written. -/
theorem syncPage_spec (inv : PoolInv table refs) (member : ref ∈ refs) :
    (syncPage table ref = .error .io ∧ (table.body ref).needSync = true) ∨
    ∃ synced, syncPage table ref = .ok synced ∧ Synced table refs ref synced := by
  have bounded : (table.body ref).index * table.layout.pageSize < 2 ^ 31 := by
    have step : (table.body ref).index * table.layout.pageSize ≤
        table.lastIndex * table.layout.pageSize :=
      Nat.mul_le_mul_right _ (inv.index_le_last member)
    exact Nat.lt_of_le_of_lt step inv.last_on_disk
  rw [syncPage_eq (inv.sized ref member) (by omega)]
  by_cases fails : (table.body ref).needSync = true ∧
      2 ^ 31 ≤ (table.body ref).index * table.layout.pageSize + table.layout.pageSize
  · rw [if_pos fails]
    exact .inl ⟨rfl, fails.1⟩
  · rw [if_neg fails]
    refine .inr ⟨_, rfl, ?_⟩
    have marked := @body_marked table ref
    exact
      { inv := synced_inv inv member fails
        kept := ⟨⟨rfl, rfl, rfl, rfl⟩, by
          unfold Table.lastIndex
          rw [Table.setFile_body, Table.setBody_body]
          exact (marked table.lastPage).1, by
          rw [Table.setFile_body, Table.setBody_body]
          exact (marked table.lastPage).2.2.1⟩
        next := Table.setBody_next ..
        pages := rfl
        fresh := rfl
        body := Table.setBody_body ..
        written := fun _ inPage dirty => syncFile_written dirty inPage
        unwritten := fun clean => by
          show syncFile table ref = table.dFile
          rw [syncFile, clean]
          rfl
        larger := syncFile_larger
        frame := fun _ apart _ inPage known => syncFile_frame apart inPage known }

theorem Synced.sameRows (inv : PoolInv table refs) (member : ref ∈ refs)
    (sync : Synced table refs ref synced) : SameRows table synced where
  layout := sync.kept.layout
  stored := sync.kept.stored
  bytes index inside position inPage := by
    have marked := @body_marked table ref
    by_cases present : ∃ other ∈ refs, (table.body other).index = index
    · obtain ⟨other, member', rfl⟩ := present
      have cached := sync.inv.pageBytes_cached member'
      rw [sync.body, (marked other).1, (marked other).2.2.2] at cached
      rw [cached, inv.pageBytes_cached member']
    · have absent : ∀ other ∈ refs, (table.body other).index ≠ index := fun other member' same =>
        present ⟨other, member', same⟩
      have small : index < table.lastIndex :=
        Nat.lt_of_le_of_ne inside (absent table.lastPage inv.last_mem).symm
      have onDisk := Table.page_on_disk small
      have known := inv.onDisk
      rw [inv.pageBytes_uncached absent, sync.inv.pageBytes_uncached fun other member' => by
        rw [sync.body, (marked other).1]
        exact absent other member', sync.kept.layout]
      exact sync.frame index (absent ref member) position inPage (by omega)

/-! ### Writing the table back -/

/-- All pages of the pool agree with the file. -/
def Table.AllClean (table : Table) : Prop :=
  ∀ ref ∈ table.refs, (table.body ref).needSync = false

/-- What the loop over the pages leaves: the pages it passed are clean. -/
structure Flushed (table : Table) (refs passed : List PageRef) (flushed : Table) : Prop where
  inv : PoolInv flushed refs
  kept : Kept table flushed
  rows : flushed.rows = table.rows
  clean : ∀ ref ∈ refs, ref ∈ passed ∨ (table.body ref).needSync = false →
    (flushed.body ref).needSync = false
  data : ∀ ref, (flushed.body ref).index = (table.body ref).index ∧
    (flushed.body ref).lastRow = (table.body ref).lastRow ∧
    (flushed.body ref).data = (table.body ref).data

theorem syncPages_spec (inv : PoolInv table refs) {rest : List PageRef} {sPage : Option PageRef}
    (walked : Chain table.next sPage rest) (present : ∀ ref ∈ rest, ref ∈ refs) {fuel : Nat}
    (enough : rest.length ≤ fuel) :
    syncPages fuel sPage table = .error .io ∨
      ∃ flushed, syncPages fuel sPage table = .ok flushed ∧ Flushed table refs rest flushed := by
  induction rest generalizing table sPage fuel with
  | nil =>
    have ending : sPage = none := walked
    subst ending
    refine .inr ⟨table, by cases fuel <;> rfl, inv, Kept.refl table, rfl, ?_, fun _ => ⟨rfl, rfl, rfl⟩⟩
    rintro ref _ (passed | clean)
    · cases passed
    · exact clean
  | cons ref rest ih =>
    obtain ⟨rfl, walked⟩ := walked
    cases fuel with
    | zero => simp at enough
    | succ fuel =>
      have member := present ref List.mem_cons_self
      simp only [syncPages]
      rcases syncPage_spec inv member with ⟨failed, _⟩ | ⟨synced, written, sync⟩
      · rw [failed]
        exact .inl rfl
      · have marked := @body_marked table ref
        rw [written]
        have further := ih sync.inv
          (sync.next ▸ walked)
          (fun other member' => present other (List.mem_cons_of_mem ref member'))
          (by simpa using enough)
        rcases further with failed | ⟨flushed, done, flush⟩
        · exact .inl failed
        · refine .inr ⟨flushed, done, flush.inv, sync.kept.trans flush.kept,
            flush.rows.trans ((sync.sameRows inv member).rows inv.ok), ?_, fun other => ?_⟩
          · intro other member' either
            refine flush.clean other member' ?_
            by_cases here : other = ref
            · right
              rw [sync.body, here, Function.update_self]
            · rcases either with passed | clean
              · exact .inl ((List.mem_cons.mp passed).resolve_left here)
              · right
                rw [sync.body, Function.update_of_ne here]
                exact clean
          · obtain ⟨index, lastRow, data⟩ := flush.data other
            rw [sync.body] at index lastRow data
            exact ⟨index.trans (marked other).1, lastRow.trans (marked other).2.2.1,
              data.trans (marked other).2.2.2⟩

theorem PoolInv.headSync (inv : PoolInv table refs) : PoolInv (headSync table) refs :=
  { inv with }

/-- A flush leaves the rows as they are and every page clean. -/
theorem tableSync_spec (ok : table.Ok) :
    tableSync table = .error .io ∨
      ∃ flushed, tableSync table = .ok flushed ∧
        Flushed (headSync table) table.refs table.refs flushed := by
  have inv : PoolInv table table.refs := ok
  exact syncPages_spec inv.headSync inv.listed.forward (fun _ member => member) inv.length_le

end Sync

/-! ### The last page -/

section Last

variable {table : Table} {refs : List PageRef} {page : PageBody}

/-- The last page may move on and grow, if the file goes along. -/
theorem PoolInv.setLast (inv : PoolInv table refs) (size : page.size = table.layout.pageSize)
    (later : table.lastIndex ≤ page.index) (lastRow_le : page.lastRow ≤ table.layout.pageRows)
    (onDisk : page.index * table.layout.pageSize ≤ table.dFile.size)
    (clean : page.needSync = false → ∀ position < page.lastRow * table.layout.rowLen,
      page.index * table.layout.pageSize + position < table.dFile.size ∧
      page.data position = table.dFile.byte (page.index * table.layout.pageSize + position)) :
    PoolInv (table.setBody table.lastPage page) refs := by
  have body : (table.setBody table.lastPage page).body table.lastPage = page := by
    rw [Table.setBody_body, Function.update_self]
  have other : ∀ ref, ref ≠ table.lastPage →
      (table.setBody table.lastPage page).body ref = table.body ref := fun ref apart => by
    rw [Table.setBody_body, Function.update_of_ne apart]
  have shape := inv.shape.setLast later lastRow_le
  refine
    { listed := shape.listed
      live := shape.live
      sorted := shape.sorted
      counted := shape.counted
      limited := shape.limited
      sized := fun ref member => ?_
      full := shape.full
      lastRow_le := shape.lastRow_le
      onDisk := by
        show ((table.setBody table.lastPage page).body table.lastPage).index * _ ≤ _
        rw [body]
        exact onDisk
      bounded := inv.bounded
      clean := fun ref member settled position inside => ?_ }
  · by_cases last : ref = table.lastPage
    · rw [last, body]
      exact size
    · rw [other ref last]
      exact inv.sized ref member
  · by_cases last : ref = table.lastPage
    · rw [last, body] at settled inside ⊢
      exact clean settled position inside
    · rw [other ref last] at settled inside ⊢
      exact inv.clean ref member settled position inside

/-- The file has what it had of the pages in front of the last one of `table`, and the
last one itself when there is a page behind it now. -/
def DiskAfter (table other : Table) : Prop :=
  ∀ index < other.lastIndex,
    (index < table.lastIndex ∧ ∀ position < table.layout.pageSize,
      other.dFile.byte (index * table.layout.pageSize + position) =
        table.dFile.byte (index * table.layout.pageSize + position)) ∨
    (index = table.lastIndex ∧
      (table.body table.lastPage).lastRow = table.layout.pageRows ∧
      ∀ position < table.layout.pageSize,
        other.dFile.byte (index * table.layout.pageSize + position) =
          (table.body table.lastPage).data position)

/-- Going on with the last page as the next one. -/
structure Rotated (table rotated : Table) : Prop where
  ok : rotated.Ok
  layout : rotated.layout = table.layout
  index : rotated.index = table.index
  room : (rotated.body rotated.lastPage).lastRow < rotated.layout.pageRows
  stored : rotated.stored = table.stored
  rows : rotated.rows = table.rows
  disk : DiskAfter table rotated

/-- The full last page is in the file, and its descriptor stands for the next page. -/
structure Turned (table rotated : Table) : Prop where
  inv : PoolInv rotated table.refs
  lastPage : rotated.lastPage = table.lastPage
  layout : rotated.layout = table.layout
  index : rotated.index = table.index
  next : rotated.body table.lastPage =
    { table.body table.lastPage with index := table.lastIndex + 1, lastRow := 0, needSync := false }
  other : ∀ ref, ref ≠ table.lastPage → rotated.body ref = table.body ref
  saved : ∀ position < table.layout.pageSize,
    rotated.dFile.byte (table.lastIndex * table.layout.pageSize + position) =
      (table.body table.lastPage).data position
  frame : ∀ index < table.lastIndex, ∀ position < table.layout.pageSize,
    rotated.dFile.byte (index * table.layout.pageSize + position) =
      table.dFile.byte (index * table.layout.pageSize + position)

section Rotate

variable {synced rotated : Table}

/-- The page that is left behind is in the file, written now or before. -/
theorem Synced.saved (sync : Synced table table.refs table.lastPage synced)
    (inv : PoolInv table table.refs)
    (lastRow : (table.body table.lastPage).lastRow = table.layout.pageRows) :
    ∀ position < table.layout.pageSize,
      table.lastIndex * table.layout.pageSize + position < synced.dFile.size ∧
      synced.dFile.byte (table.lastIndex * table.layout.pageSize + position) =
        (table.body table.lastPage).data position := by
  intro position inPage
  cases dirty : (table.body table.lastPage).needSync with
  | true => exact sync.written position inPage dirty
  | false =>
    have inside : position < (table.body table.lastPage).lastRow * table.layout.rowLen := by
      rw [lastRow, Nat.mul_comm]
      exact inPage
    obtain ⟨known, same⟩ := inv.clean _ inv.last_mem dirty position inside
    rw [sync.unwritten dirty]
    exact ⟨known, same.symm⟩

theorem Synced.turned (sync : Synced table table.refs table.lastPage synced)
    (inv : PoolInv table table.refs)
    (lastRow : (table.body table.lastPage).lastRow = table.layout.pageRows) :
    Turned table ((headSync synced).setBody table.lastPage
      { table.body table.lastPage with
        index := table.lastIndex + 1, lastRow := 0, needSync := false }) := by
  have layout : synced.layout = table.layout := sync.kept.layout
  have lastPage : synced.lastPage = table.lastPage := sync.kept.lastPage
  have saved := sync.saved inv lastRow
  let next : PageBody :=
    { table.body table.lastPage with index := table.lastIndex + 1, lastRow := 0, needSync := false }
  have after : PoolInv (synced.setBody synced.lastPage next) table.refs := by
    refine sync.inv.setLast (layout.symm ▸ inv.sized _ inv.last_mem) ?_ (Nat.zero_le _) ?_ ?_
    · rw [sync.kept.lastIndex]
      exact Nat.le_succ _
    · have positive := table.layout.pageSize_pos
      have known := (saved (table.layout.pageSize - 1) (by omega)).1
      show (table.lastIndex + 1) * _ ≤ _
      rw [layout, Nat.succ_mul]
      omega
    · intro _ position inside
      simp [next] at inside
  rw [lastPage] at after
  refine
    { inv := { after with }
      lastPage := lastPage
      layout := layout
      index := sync.kept.index
      next := ?_
      other := fun ref apart => ?_
      saved := fun position inPage => (saved position inPage).2
      frame := fun index less position inPage => ?_ }
  · rw [Table.setBody_body, Function.update_self]
  · rw [Table.setBody_body, Function.update_of_ne apart]
    show synced.body ref = _
    rw [sync.body, Function.update_of_ne apart]
  · have onDisk := Table.page_on_disk less
    have known := inv.onDisk
    exact sync.frame index (Nat.ne_of_gt less) position inPage (by omega)

/-- The pages up to the one left behind have the bytes they had. -/
theorem Turned.pageBytes (turned : Turned table rotated) (inv : PoolInv table table.refs) :
    ∀ index ≤ table.lastIndex, ∀ position < table.layout.pageSize,
      rotated.pageBytes index position = table.pageBytes index position := by
  intro index inside position inPage
  by_cases present : ∃ ref ∈ table.refs, ref ≠ table.lastPage ∧ (table.body ref).index = index
  · obtain ⟨ref, member, apart, rfl⟩ := present
    have cached := turned.inv.pageBytes_cached member
    rw [turned.other ref apart] at cached
    rw [cached, inv.pageBytes_cached member]
  · have absent : ∀ ref ∈ table.refs, (rotated.body ref).index ≠ index := by
      intro ref member
      by_cases last : ref = table.lastPage
      · rw [last, turned.next]
        exact Nat.ne_of_gt (Nat.lt_succ_of_le inside)
      · rw [turned.other ref last]
        exact fun same => present ⟨ref, member, last, same⟩
    rw [turned.inv.pageBytes_uncached absent, turned.layout]
    rcases Nat.lt_or_eq_of_le inside with less | rfl
    · have uncached : ∀ ref ∈ table.refs, (table.body ref).index ≠ index := by
        intro ref member same
        by_cases last : ref = table.lastPage
        · subst last
          exact absurd same (Nat.ne_of_gt less)
        · exact present ⟨ref, member, last, same⟩
      rw [inv.pageBytes_uncached uncached]
      exact turned.frame index less position inPage
    · rw [turned.saved position inPage]
      exact congrFun (inv.pageBytes_cached inv.last_mem).symm position

theorem rotated_of_turned (turned : Turned table rotated) (ok : table.Ok)
    (lastRow : (table.body table.lastPage).lastRow = table.layout.pageRows) :
    Rotated table rotated := by
  have inv : PoolInv table table.refs := ok
  have lastIndex : rotated.lastIndex = table.lastIndex + 1 := by
    rw [Table.lastIndex, turned.lastPage, turned.next]
  have stored : rotated.stored = table.stored := by
    unfold Table.stored
    rw [lastIndex, turned.lastPage, turned.next, turned.layout, lastRow]
    exact Nat.succ_mul ..
  refine
    { ok := turned.inv.ok
      layout := turned.layout
      index := turned.index
      room := ?_
      stored := stored
      rows := SameRows.rows ok ⟨turned.layout, stored, turned.pageBytes inv⟩
      disk := fun index inside => ?_ }
  · rw [turned.lastPage, turned.next, turned.layout]
    exact table.layout.sound.pageRows_pos
  · rw [lastIndex] at inside
    rcases Nat.lt_or_eq_of_le (Nat.le_of_lt_succ inside) with less | rfl
    · exact .inl ⟨less, turned.frame index less⟩
    · exact .inr ⟨rfl, lastRow, turned.saved⟩

/-- A full last page goes to the file, and its rows are read from there. -/
theorem rotate_spec (ok : table.Ok)
    (full : table.layout.pageRows ≤ (table.body table.lastPage).lastRow) :
    rotate table = .error .io ∨ ∃ rotated, rotate table = .ok rotated ∧ Rotated table rotated := by
  have inv : PoolInv table table.refs := ok
  have lastRow : (table.body table.lastPage).lastRow = table.layout.pageRows :=
    Nat.le_antisymm inv.lastRow_le full
  unfold rotate
  rcases syncPage_spec inv inv.last_mem with ⟨failed, _⟩ | ⟨synced, written, sync⟩
  · rw [failed]
    exact .inl rfl
  · rw [written]
    have lastBody : synced.body table.lastPage =
        { table.body table.lastPage with needSync := false } := by
      rw [sync.body, Function.update_self]
    have here : (headSync synced).lastPage = table.lastPage := sync.kept.lastPage
    have same : (headSync synced).body = synced.body := rfl
    refine .inr ⟨_, ?_, rotated_of_turned (sync.turned inv lastRow) ok lastRow⟩
    show Except.ok _ = _
    rw [here, same, lastBody]
    rfl

end Rotate

/-- The bytes written into the free part of the last page. -/
theorem row_of_written {block : Block} {rowLen row : Nat} {bytes : List UInt8} {other : Nat}
    (before : other < row) :
    readBytes (writeBytes block (row * rowLen) bytes) (other * rowLen) rowLen =
      readBytes block (other * rowLen) rowLen := by
  have step : (other + 1) * rowLen ≤ row * rowLen := Nat.mul_le_mul_right _ before
  rw [Nat.succ_mul] at step
  exact readBytes_writeBytes_outside (.inl step)

theorem setLast_stored (table : Table) (page : PageBody) :
    (table.setBody table.lastPage page).stored =
      page.index * table.layout.pageRows + page.lastRow := by
  have body : (table.setBody table.lastPage page).body table.lastPage = page := by
    rw [Table.setBody_body, Function.update_self]
  show ((table.setBody table.lastPage page).body table.lastPage).index * _ +
    ((table.setBody table.lastPage page).body table.lastPage).lastRow = _
  rw [body]
  rfl

/-- A change of the free part of the last page keeps the rows in front of it. -/
theorem PoolInv.setLast_row (inv : PoolInv table refs)
    (after : PoolInv (table.setBody table.lastPage page) refs) (index : page.index = table.lastIndex)
    (rows : ∀ row < (table.body table.lastPage).lastRow,
      page.row table.layout.rowLen row = (table.body table.lastPage).row table.layout.rowLen row)
    {position : Nat} (inside : position < table.stored) :
    (table.setBody table.lastPage page).row position = table.row position := by
  obtain ⟨index', row, inPage, rfl⟩ := table.position_split position
  obtain ⟨_, below⟩ := inv.ok.page_of inPage inside
  by_cases here : table.lastIndex = index'
  · subst here
    have lastLen : table.pageLen table.lastIndex = (table.body table.lastPage).lastRow :=
      if_neg (Nat.lt_irrefl _)
    exact (after.setBody_row inv.last_mem index inPage).trans
      ((rows row (lastLen ▸ below)).trans (inv.row_cached inv.last_mem inPage).symm)
  · exact inv.setBody_other after index here inPage

theorem PoolInv.countRow (inv : PoolInv table refs) : PoolInv (countRow table) refs :=
  { inv with }

theorem countRow_rows : (countRow table).rows = table.rows := rfl

/-- What a request to insert leaves of the table, with the rows it adds. -/
structure Inserted (table : Table) (added : List Row) (inserted : Table) : Prop where
  ok : inserted.Ok
  layout : inserted.layout = table.layout
  index : inserted.index = table.index
  rows : inserted.rows = table.rows ++ added

/-- The row arrives, or only a part of it does, which no row of the table shows. -/
theorem receiveRow_spec (ok : table.Ok) (ocb : Ocb) (data : List UInt8)
    (room : (table.body table.lastPage).lastRow < table.layout.pageRows) :
    ∃ inserted added, receiveRow table ocb data =
        (inserted, (flatWrite table.layout table.rows table.index ocb data).2) ∧
      (flatWrite table.layout table.rows table.index ocb data).1 = table.rows ++ added ∧
      Inserted table added inserted := by
  have inv : PoolInv table table.refs := ok
  have size := inv.sized _ inv.last_mem
  unfold receiveRow flatWrite
  by_cases short : (data.take table.layout.rowLen).length ≠ table.layout.rowLen
  · simp only [if_pos short]
    refine ⟨_, [], rfl, (List.append_nil _).symm, ?_⟩
    have after : PoolInv (table.setBody table.lastPage
        { table.body table.lastPage with
          data := writeBytes (table.body table.lastPage).data
            ((table.body table.lastPage).lastRow * table.layout.rowLen)
            (data.take table.layout.rowLen) }) table.refs := by
      refine inv.setLast size (Nat.le_refl _) inv.lastRow_le inv.onDisk fun clean position inside => ?_
      obtain ⟨known, same⟩ := inv.clean _ inv.last_mem clean position inside
      exact ⟨known, (writeBytes_outside (.inl inside)).trans same⟩
    have stored := setLast_stored table
      { table.body table.lastPage with
        data := writeBytes (table.body table.lastPage).data
          ((table.body table.lastPage).lastRow * table.layout.rowLen)
          (data.take table.layout.rowLen) }
    exact
      { ok := after.ok
        layout := rfl
        index := rfl
        rows := by
          rw [List.append_nil]
          unfold Table.rows
          rw [stored]
          refine List.map_congr_left fun position member => ?_
          have inside := (List.mem_range'_1.mp member).2
          rw [Nat.zero_add] at inside
          exact inv.setLast_row after rfl (fun row before => row_of_written before) inside }
  · simp only [if_neg short]
    refine ⟨_, [withKey (data.take table.layout.rowLen) table.index], rfl, rfl, ?_⟩
    have whole : (data.take table.layout.rowLen).length = table.layout.rowLen := not_not.mp short
    have length : (withKey (data.take table.layout.rowLen) table.index).length =
        table.layout.rowLen := by
      have key := table.layout.sound.keyWord
      rw [withKey, overwrite_length (by rw [bytesOf_length, whole]; omega), whole]
    have after := @PoolInv.setLast _ _
      { (table.body table.lastPage).putRow table.layout.rowLen
          (table.body table.lastPage).lastRow
          (withKey (data.take table.layout.rowLen) table.index) with
        lastRow := (table.body table.lastPage).lastRow + 1 }
      inv size (Nat.le_refl _) room inv.onDisk nofun
    have stored := setLast_stored table
      { (table.body table.lastPage).putRow table.layout.rowLen
          (table.body table.lastPage).lastRow
          (withKey (data.take table.layout.rowLen) table.index) with
        lastRow := (table.body table.lastPage).lastRow + 1 }
    exact
      { ok := after.ok
        layout := rfl
        index := rfl
        rows := by
          unfold Table.rows
          rw [stored]
          show (List.range' 0 (table.stored + 1)).map _ = _
          rw [List.range'_1_concat, List.map_append, Nat.zero_add]
          refine congrArg₂ _ (List.map_congr_left fun position member => ?_) ?_
          · have inside : position < table.stored := by
              simpa [List.mem_range'_1] using member
            exact inv.setLast_row after rfl
              (fun row before => PageBody.putRow_other length (Nat.ne_of_lt before)) inside
          · rw [List.map_singleton]
            exact congrArg ([·]) ((after.setBody_row inv.last_mem rfl room).trans
              (PageBody.putRow_row length)) }

end Last

end QNXStuff.QXBase
