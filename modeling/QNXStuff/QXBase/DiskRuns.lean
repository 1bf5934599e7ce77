import QNXStuff.QXBase.PoolRuns

/-! The server on a disk that does what is documented wherever the position is an `int`. As long as
all pages have such a place, it is the server that ends where one has not. -/

namespace QNXStuff.QXBase

open Memory Execution LinkedList

/-- The calls on the data file in front of the position 2^31, and the one on the header file. -/
structure Storage.Documented (storage : Storage) : Prop where
  write : ∀ (file : File) (start : Nat) (bytes : Block) (count : Nat), start + count < 2 ^ 31 →
    storage.write file start bytes count = file.pwrite start bytes count
  read : ∀ (file : File) (start : Nat) (buffer : Block) (count : Nat), start < 2 ^ 31 →
    storage.read file start buffer count = (file.pread start buffer count, file)
  head : ∀ before index, storage.head before index = UInt32.ofNat index

theorem signed_low {word : Nat} (low : word < 2 ^ 31) : signed 4 word = word := by
  unfold signed
  exact if_pos (show word < 256 ^ 4 / 2 from low)

/-- A position that is an `int` is that position for every `off_t`. -/
theorem ofUint_low (offT : OffT) {word : Nat} (low : word < 2 ^ 31) : offT.ofUint word = word := by
  cases offT with
  | int32 => exact signed_low low
  | int64 => rfl

theorem Table.setBody_self (table : Table) (ref : PageRef) :
    table.setBody ref (table.body ref) = table := by
  unfold Table.setBody Table.body
  rw [Function.update_eq_self]

/-! ### The operations that go to the files -/

section Operations

variable {storage : Storage} (documented : storage.Documented) {table : Table}
include documented

theorem Storage.Documented.syncPage {ref : PageRef} {synced : Table}
    (done : QXBase.syncPage table ref = .ok synced) : storage.syncPage table ref = synced := by
  unfold QXBase.syncPage pageSync seekWrite at done
  unfold Storage.syncPage
  dsimp only at done ⊢
  cases dirty : (table.body ref).needSync with
  | false =>
    rw [dirty, if_neg Bool.false_ne_true] at done
    cases done
    rw [if_neg Bool.false_ne_true]
    show table = (table.setBody ref (table.body ref)).setFile table.dFile
    rw [Table.setBody_self]
    rfl
  | true =>
    rw [dirty, if_pos rfl] at done
    rw [if_pos rfl]
    by_cases fits : (table.body ref).size * (table.body ref).index % 2 ^ 32 +
        (table.body ref).size < 2 ^ 31
    · simp only [if_pos fits] at done
      cases done
      unfold syncOffset
      rw [signed_low (by omega), documented.write _ _ _ _ fits]
    · simp only [if_neg fits] at done
      cases done

theorem Storage.Documented.headSync (small : table.index < 2 ^ 32) :
    storage.headSync table = QXBase.headSync table := by
  unfold Storage.headSync QXBase.headSync
  rw [documented.head, UInt32.toNat_ofNat', Nat.mod_eq_of_lt small]

theorem Storage.Documented.syncPages {fuel : Nat} {sPage : Option PageRef} {synced : Table}
    (done : QXBase.syncPages fuel sPage table = .ok synced) :
    storage.syncPages fuel sPage table = .ok synced := by
  induction fuel generalizing table sPage with
  | zero =>
    cases sPage with
    | none => exact done
    | some ref => cases done
  | succ fuel ih =>
    cases sPage with
    | none => exact done
    | some ref =>
      simp only [QXBase.syncPages] at done
      cases written : QXBase.syncPage table ref with
      | error fault =>
        rw [written] at done
        cases done
      | ok next =>
        rw [written] at done
        simp only [Storage.syncPages, documented.syncPage written]
        exact ih done

theorem Storage.Documented.tableSync (small : table.index < 2 ^ 32) {synced : Table}
    (done : QXBase.tableSync table = .ok synced) : storage.tableSync table = .ok synced := by
  unfold Storage.tableSync
  rw [documented.headSync small]
  exact documented.syncPages done

theorem Storage.Documented.readPage {rPage : PageRef} {nPageID : Nat} {read : Table}
    (done : QXBase.readPage table rPage nPageID = .ok read) :
    storage.readPage table rPage nPageID = read := by
  unfold QXBase.readPage seekRead at done
  by_cases fits : nPageID * (table.body rPage).size % 2 ^ 32 < 2 ^ 31
  · simp only [if_pos fits] at done
    cases done
    unfold Storage.readPage lockOffset
    simp only [ofUint_low storage.offT fits, documented.read _ _ _ _ fits]
    rfl
  · simp only [if_neg fits] at done
    cases done

theorem Storage.Documented.victimPage {rPage : PageRef} {placed : Table × PageRef}
    (done : QXBase.victimPage table rPage = .ok placed) :
    storage.victimPage table rPage = .ok placed := by
  unfold QXBase.victimPage at done
  unfold Storage.victimPage
  by_cases crowded : table.layout.lockPages ≤ table.pLocks
  · rw [if_pos crowded] at done ⊢
    by_cases last : rPage = table.lastPage
    · rw [if_pos last] at done ⊢
      rw [reuseFirst_eq] at done
      cases relinked : relinkFirst table rPage with
      | error fault =>
        rw [relinked] at done
        cases done
      | ok moved =>
        rw [relinked] at done
        obtain ⟨synced, written, same⟩ := map_eq_ok.mp done
        rw [← same]
        exact congrArg (fun table => Except.ok (table, moved.2)) (documented.syncPage written)
    · rw [if_neg last] at done ⊢
      exact done
  · rw [if_neg crowded] at done ⊢
    exact done

theorem Storage.Documented.lockTablePage {nPageID : Nat} {locked : Table × Option PageRef}
    (done : QXBase.lockTablePage table nPageID = .ok locked) :
    storage.lockTablePage table nPageID = .ok locked := by
  unfold QXBase.lockTablePage at done
  unfold Storage.lockTablePage
  cases found : findPage table nPageID with
  | none =>
    rw [found] at done
    cases done
  | some place =>
    rw [found] at done
    cases place with
    | none => exact done
    | some rPage =>
      simp only at done ⊢
      by_cases here : (table.body rPage).index = nPageID
      · rw [if_pos here] at done ⊢
        exact done
      · rw [if_neg here] at done ⊢
        cases chosen : QXBase.victimPage table rPage with
        | error fault =>
          rw [chosen] at done
          cases done
        | ok placed =>
          rw [chosen] at done
          rw [documented.victimPage chosen]
          cases read : QXBase.readPage placed.1 placed.2 nPageID with
          | error fault =>
            have failed : (QXBase.readPage placed.1 placed.2 nPageID >>=
              fun table => Except.ok (table, some placed.2)) = .ok locked := done
            rw [read] at failed
            cases failed
          | ok final =>
            have ended : (QXBase.readPage placed.1 placed.2 nPageID >>=
              fun table => Except.ok (table, some placed.2)) = .ok locked := done
            rw [read] at ended
            cases ended
            exact congrArg (fun table => Except.ok (table, some placed.2)) (documented.readPage read)

theorem Storage.Documented.rotate (small : table.index < 2 ^ 32)
    (next : table.lastIndex + 1 < 2 ^ 32) {rotated : Table}
    (done : QXBase.rotate table = .ok rotated) : storage.rotate table = rotated := by
  unfold QXBase.rotate at done
  cases written : QXBase.syncPage table table.lastPage with
  | error fault =>
    rw [written] at done
    cases done
  | ok synced =>
    rw [written] at done
    cases done
    obtain ⟨file, page, index, -, -, same⟩ := storage.syncPage_spec table table.lastPage
    have synced' := documented.syncPage written
    unfold Storage.rotate
    have counted : synced.index < 2 ^ 32 := (syncPage_header written).1 ▸ small
    have last : (synced.body table.lastPage).index + 1 < 2 ^ 32 := by
      rw [← synced', same, Table.setFile_body, Table.setBody_body, Function.update_self, index]
      exact next
    have lastPage : synced.lastPage = table.lastPage := by
      rw [← synced', same]
      rfl
    rw [synced', documented.headSync counted]
    dsimp only
    rw [show (QXBase.headSync synced).lastPage = synced.lastPage from rfl, lastPage]
    rw [show (QXBase.headSync synced).body = synced.body from rfl, Nat.mod_eq_of_lt last]

theorem Storage.Documented.loadTable {loaded : Table}
    (done : QXBase.loadTable table = .ok loaded) : storage.loadTable table = loaded := by
  unfold QXBase.loadTable seekRead at done
  by_cases fits : table.hFile / table.layout.pageRows *
      (table.layout.rowLen * table.layout.pageRows % 2 ^ 32) % 2 ^ 32 < 2 ^ 31
  · simp only [if_pos fits] at done
    cases done
    unfold Storage.loadTable pageSizeOf selectOffset
    simp only [ofUint_low storage.offT fits, documented.read _ _ _ _ fits]
    rfl
  · simp only [if_neg fits] at done
    cases done

theorem Storage.Documented.reload (small : table.index < 2 ^ 32) {loaded : Table}
    (done : QXBase.reload table = .ok loaded) : storage.reload table = .ok loaded := by
  unfold QXBase.reload at done
  cases written : QXBase.tableSync table with
  | error fault =>
    rw [written] at done
    cases done
  | ok synced =>
    rw [written] at done
    unfold Storage.reload
    rw [documented.tableSync small written]
    exact congrArg Except.ok (documented.loadTable done)

end Operations

/-! ### The requests -/

/-- The file can take the page: it is unchanged or ends in front of the largest position. -/
def Writable (table : Table) (ref : PageRef) : Prop :=
  (table.body ref).needSync = true →
    (table.body ref).index * table.layout.pageSize + table.layout.pageSize < 2 ^ 31

section Sync

variable {table synced : Table} {refs : List PageRef} {ref : PageRef}

theorem syncPage_writable (inv : PoolInv table refs) (member : ref ∈ refs) :
    syncPage table ref = .error .io ↔ ¬ Writable table ref := by
  have bounded : (table.body ref).index * table.layout.pageSize < 2 ^ 31 := by
    have step : (table.body ref).index * table.layout.pageSize ≤
        table.lastIndex * table.layout.pageSize :=
      Nat.mul_le_mul_right _ (inv.index_le_last member)
    exact Nat.lt_of_le_of_lt step inv.last_on_disk
  rw [syncPage_eq (inv.sized ref member) (by omega), Writable, Classical.not_imp, Nat.not_lt]
  constructor
  · intro failed
    by_contra fits
    rw [if_neg fits] at failed
    cases failed
  · intro fails
    exact if_pos fails

/-- Writing a page back changes nothing about the pages that the file can take. -/
theorem Synced.writable (sync : Synced table refs ref synced) (here : Writable table ref)
    (other : PageRef) : Writable synced other ↔ Writable table other := by
  unfold Writable
  rw [sync.body, sync.kept.layout, (body_marked other).1]
  by_cases same : other = ref
  · rw [same, Function.update_self]
    constructor
    · intro _
      exact here
    · intro _ dirty
      cases dirty
  · rw [Function.update_of_ne same]

/-- The loop over the pages ends unless the file cannot take one of them. -/
theorem syncPages_writable (inv : PoolInv table refs) {rest : List PageRef}
    {sPage : Option PageRef} (walked : Chain table.next sPage rest)
    (present : ∀ ref ∈ rest, ref ∈ refs) {fuel : Nat} (enough : rest.length ≤ fuel) :
    syncPages fuel sPage table = .error .io ↔ ¬ ∀ ref ∈ rest, Writable table ref := by
  induction rest generalizing table sPage fuel with
  | nil =>
    have ending : sPage = none := walked
    subst ending
    cases fuel <;> simp [syncPages]
  | cons ref rest ih =>
    obtain ⟨rfl, walked⟩ := walked
    cases fuel with
    | zero => simp at enough
    | succ fuel =>
      have member := present ref List.mem_cons_self
      have first := syncPage_writable inv member
      simp only [syncPages, List.forall_mem_cons]
      rcases syncPage_spec inv member with ⟨failed, _⟩ | ⟨synced, written, sync⟩
      · have fails := first.mp failed
        rw [failed]
        constructor
        · intro _ all
          exact fails all.1
        · intro _
          rfl
      · have here : Writable table ref := by
          by_contra fails
          rw [first.mpr fails] at written
          cases written
        have further := ih sync.inv (sync.next ▸ walked)
          (fun other member' => present other (List.mem_cons_of_mem ref member'))
          (Nat.le_of_succ_le_succ enough)
        rw [written]
        refine further.trans (not_congr ?_)
        simp only [here, true_and, sync.writable here]

/-- Only a last page that ends behind the largest position keeps a table from the file:
the pages in front of it end where the file has pages already. -/
theorem tableSync_writable (ok : table.Ok) :
    tableSync table = .error .io ↔ ¬ Writable table table.lastPage := by
  have inv : PoolInv table table.refs := ok
  refine (syncPages_writable inv.headSync inv.listed.forward (fun _ member => member)
    inv.length_le).trans (not_congr ?_)
  constructor
  · intro all
    exact all table.lastPage inv.last_mem
  · intro last ref member
    by_cases here : ref = table.lastPage
    · rwa [here]
    · intro _
      have step := Table.page_on_disk (inv.index_lt_last member here)
      exact Nat.lt_of_le_of_lt step inv.last_on_disk

/-- Going on with the next page asks no more of the file than closing does. -/
theorem rotate_writable (ok : table.Ok) (last : Writable table table.lastPage) :
    rotate table ≠ .error .io := by
  have inv : PoolInv table table.refs := ok
  rcases syncPage_spec inv inv.last_mem with ⟨failed, _⟩ | ⟨synced, written, _⟩
  · exact absurd last ((syncPage_writable inv inv.last_mem).mp failed)
  · unfold rotate
    rw [written]
    nofun

end Sync

section Requests

variable {storage : Storage} (documented : storage.Documented) {table : Table}
include documented

theorem Storage.Documented.lock_eq (ok : table.Ok) (nPageID : Nat) :
    storage.lockTablePage table nPageID = QXBase.lockTablePage table nPageID := by
  rcases QXBase.lockTablePage_spec ok nPageID with ⟨_, done⟩ | ⟨_, locked, rPage, done, _⟩
  · rw [done, documented.lockTablePage done]
  · rw [done, documented.lockTablePage done]

theorem Storage.Documented.qbaseRead (ok : table.Ok) (ocb : Ocb) (nbytes : Nat) :
    storage.paging.qbaseRead table ocb nbytes = QXBase.qbaseRead table ocb nbytes := by
  have pass (state : ReadState) (visited : Visited table (fun _ _ => True) state.pIndex state.table) :
      storage.paging.readPass state = QXBase.readPass state := by
    unfold Paging.readPass QXBase.readPass
    rewrite [show storage.paging.lockTablePage = storage.lockTablePage from rfl,
      documented.lock_eq visited.ok]
    rfl
  unfold Paging.qbaseRead QXBase.qbaseRead
  rw [loop_congr (fun state visited => readPass_keeps (fun _ _ _ => trivial)
    (fun _ _ _ => trivial) visited) pass (visited_start ok trivial)]

theorem Storage.Documented.qbaseChange (ok : table.Ok) (ocb : Ocb) (change : Change) :
    storage.paging.qbaseChange table ocb change = QXBase.qbaseChange table ocb change := by
  have pass (state : ScanState) (visited : Visited table (fun _ _ => True) state.pIndex state.table) :
      storage.paging.changePass ocb change state = QXBase.changePass ocb change state := by
    unfold Paging.changePass QXBase.changePass
    rewrite [show storage.paging.lockTablePage = storage.lockTablePage from rfl,
      documented.lock_eq visited.ok]
    rfl
  unfold Paging.qbaseChange QXBase.qbaseChange
  rw [loop_congr (fun state visited => changePass_keeps (fun _ _ _ => trivial)
    (fun _ _ _ _ _ _ => trivial) visited) pass (visited_start ok trivial)]

variable (last : Writable table table.lastPage) (small : table.index < 2 ^ 32)
include last small

theorem Storage.Documented.qbaseWrite (ok : table.Ok) (ocb : Ocb) (nbytes : Nat)
    (data : List UInt8) :
    storage.paging.qbaseWrite table ocb nbytes data = QXBase.qbaseWrite table ocb nbytes data := by
  have inv : PoolInv table table.refs := ok
  unfold Paging.qbaseWrite QXBase.qbaseWrite
  by_cases full : table.layout.pageRows ≤ (table.body table.lastPage).lastRow
  · rcases rotate_spec ok full with failed | ⟨rotated, done, _⟩
    · exact absurd failed (rotate_writable ok last)
    · have next : table.lastIndex + 1 < 2 ^ 32 := by
        have place := inv.last_on_disk
        have rows := Nat.le_mul_of_pos_right table.lastIndex table.layout.pageSize_pos
        omega
      rw [done, show storage.paging.rotate table = .ok (storage.rotate table) from rfl,
        documented.rotate small next done]
  · rw [if_neg full, if_neg full]

theorem Storage.Documented.sync_eq (ok : table.Ok) :
    ∃ flushed, QXBase.tableSync table = .ok flushed ∧ storage.tableSync table = .ok flushed := by
  rcases tableSync_spec ok with failed | ⟨flushed, done, _⟩
  · exact absurd last ((tableSync_writable ok).mp failed)
  · exact ⟨flushed, done, documented.tableSync small done⟩

theorem Storage.Documented.reload_eq (ok : table.Ok) (counted : table.index = table.stored) :
    ∃ loaded, QXBase.reload table = .ok loaded ∧ storage.reload table = .ok loaded := by
  rcases reload_spec ok counted with ⟨failed, _⟩ | ⟨loaded, done, _⟩
  · exact absurd last ((tableSync_writable ok).mp failed)
  · exact ⟨loaded, done, documented.reload small done⟩

end Requests

/-- The last page of the table ends in front of the position 2^31. -/
def Table.Addressable (table : Table) : Prop :=
  (table.lastIndex + 1) * table.layout.pageSize < 2 ^ 31

theorem Table.Addressable.writable {table : Table} (fits : table.Addressable) :
    Writable table table.lastPage := by
  unfold Table.Addressable at fits
  rw [Nat.succ_mul] at fits
  exact fun _ => fits

/-! ### Runs -/

/-- The steps in which every row arrives, of a table whose pages have their places. -/
def AddressedStep (storage : Storage) : Server → Exchange → Server → Prop :=
  Under (StorageStep storage) fun server exchange =>
    Received server exchange.1.1 exchange.1.2 ∧ server.table.Addressable

/-- A table that was created without rows, and requests that leave a place to all pages. -/
structure AddressedRun (storage : Storage) (start : Server) (exchanges : List Exchange)
    (server : Server) : Prop where
  begun : Begun storage start
  run : Run (AddressedStep storage) start exchanges server
  fits : server.table.Addressable

section Runs

variable {storage : Storage} {start server next : Server} {exchanges : List Exchange}

theorem Server.Counted.index_lt (counted : server.Counted) : server.table.index < 2 ^ 32 := by
  have bound := stored_lt counted.pool
  rw [counted.counted]
  omega

/-- Created in front of the position 2^31, a table is the same for the other server. -/
theorem Begun.initial (documented : storage.Documented) (begun : Begun storage start)
    (fits : start.table.Addressable) : Initial start ∧ start.table.index = 0 := by
  obtain ⟨layout, heap, empty, created⟩ := begun.created
  have layout_eq : start.table.layout = layout := by
    rw [created]
    rfl
  have small : layout.rowLen * layout.pageRows % 2 ^ 32 < 2 ^ 31 := by
    have whole := fits.writable
    have place := Nat.le_mul_of_pos_left start.table.layout.pageSize
      (Nat.succ_pos start.table.lastIndex)
    have bound : start.table.layout.pageSize < 2 ^ 31 := Nat.lt_of_le_of_lt place fits
    rw [layout_eq] at bound
    rwa [Nat.mod_eq_of_lt layout.sound.pageSize_lt]
  have index : start.table.index = layout.index := by
    rw [created]
    rfl
  refine ⟨⟨layout, heap, ?_⟩, index.trans empty⟩
  unfold createTable seekWrite
  rw [created]
  unfold Storage.createTable pageSizeOf
  simp only [Nat.zero_add, if_pos small]
  have write := documented.write { size := 0, byte := fun _ => 0 } 0 (heap 0).data
    (layout.rowLen * layout.pageRows % 2 ^ 32) (by simpa using small)
  have head : (storage.head 0 layout.index).toNat = layout.index := by
    rw [documented.head, empty]
    rfl
  rw [head]
  exact congrArg _ (congrArg _ write.symm)

variable (documented : storage.Documented)
include documented

/-- A request is answered as by the server that ends where a page has no place. -/
theorem Storage.Documented.handle_eq (counted : server.Counted) (fits : server.table.Addressable)
    (conn : ConnId) (request : Request) :
    storage.paging.handle server conn request = server.handle conn request := by
  have last := fits.writable
  have small := counted.index_lt
  unfold Paging.handle Server.handle
  cases request with
  | insert nbytes data => simp only [documented.qbaseWrite last small counted.pool]
  | fetch nbytes => simp only [documented.qbaseRead counted.pool]
  | change change => simp only [documented.qbaseChange counted.pool]
  | tblflush =>
    obtain ⟨flushed, done, done'⟩ := documented.sync_eq last small counted.pool
    have same : storage.paging.tableSync server.table = QXBase.tableSync server.table :=
      done'.trans done.symm
    simp only [same]
  | reload =>
    obtain ⟨loaded, done, done'⟩ := documented.reload_eq last small counted.pool counted.counted
    have same : storage.paging.reload server.table = QXBase.reload server.table :=
      done'.trans done.symm
    simp only [same]
  | control request => rfl

theorem AddressedStep.received (counted : server.Counted) {exchange : Exchange}
    (step : AddressedStep storage server exchange next) : ReceivedStep server exchange next := by
  obtain ⟨answered, received, fits⟩ := step
  exact ⟨(documented.handle_eq counted fits exchange.1.1 exchange.1.2).symm.trans answered, received⟩

theorem AddressedStep.counted (counted : server.Counted) {exchange : Exchange}
    (step : AddressedStep storage server exchange next) : next.Counted := by
  obtain ⟨answered, received⟩ := AddressedStep.received documented counted step
  exact (handle_counted counted received answered).counted

/-- The run is one of the server that ends where a page has no place, and its rows are counted. -/
theorem AddressedRun.checked (reached : AddressedRun storage start exchanges server) :
    Run ReceivedStep start exchanges server ∧ server.Counted := by
  have fits : start.table.Addressable := by
    cases reached.run with
    | nil => exact reached.fits
    | cons first _ => exact first.2.2
  obtain ⟨initial, zero⟩ := reached.begun.initial documented fits
  exact reached.run.under_invariant (initial.counted zero) fun _ _ _ counted step =>
    ⟨step.received documented counted, step.counted documented counted⟩

end Runs

section Kept

variable {server next : Server} {conn : ConnId} {reply : Reply}

theorem Kept.addressable {table other : Table} (kept : Kept table other)
    (fits : table.Addressable) : other.Addressable := by
  unfold Table.Addressable
  rw [kept.layout, kept.lastIndex]
  exact fits

/-- The requests that neither insert a row nor load the table leave the pages where they are. -/
theorem handle_addressable (counted : server.Counted) (fits : server.table.Addressable)
    {request : Request} (answered : server.handle conn request = .ok (next, reply))
    (stays : request ≠ .reload) (other : ∀ nbytes data, request ≠ .insert nbytes data) :
    next.table.Addressable := by
  cases request with
  | insert nbytes data => exact absurd rfl (other nbytes data)
  | fetch nbytes =>
    rcases fetch_cases answered with same | ⟨rest, done⟩
    · exact same ▸ fits
    · exact (read_kept counted.pool done).2.addressable fits
  | change change =>
    rcases change_cases answered with same | ⟨_, _, code, done⟩
    · exact same ▸ fits
    · exact (change_kept counted.pool done).2.addressable fits
  | tblflush =>
    rcases flush_cases answered with same | done
    · exact same ▸ fits
    · rcases tableSync_spec counted.pool with failed | ⟨flushed, done', flush⟩
      · rw [failed] at done
        cases done
      · rw [done'] at done
        cases done
        unfold Table.Addressable
        rw [flush.kept.layout, flush.kept.lastIndex]
        exact fits
  | reload => exact absurd rfl stays
  | control request => exact control_cases answered ▸ fits

end Kept

/-! ### A disk -/

/-- Where a file is behind `lseek`; a position in front of the file is refused. -/
def positionAfter (position : Nat) (offset : Int) : Nat :=
  if offset < 0 then position else offset.toNat

theorem positionAfter_natCast (position start : Nat) : positionAfter position start = start := by
  unfold positionAfter
  rw [if_neg (by omega), Int.toNat_natCast]

/-- A disk with an `off_t` of 32 bits. Behind a refused `lseek` the calls go on where the file is:
at the end of a file that is written only, at the beginning of one that was just opened. -/
def smallDisk : Storage where
  offT := .int32
  write file offset page count :=
    file.pwrite (positionAfter file.size offset) page
      (min count (2 ^ 31 - 1 - positionAfter file.size offset))
  read file offset buffer count := (file.pread (positionAfter 0 offset) buffer count, file)
  head _ index := UInt32.ofNat index

theorem smallDisk_write (file : File) (start : Nat) (page : Block) (count : Nat) :
    smallDisk.write file start page count =
      file.pwrite start page (min count (2 ^ 31 - 1 - start)) := by
  show file.pwrite (positionAfter file.size start) page
    (min count (2 ^ 31 - 1 - positionAfter file.size start)) = _
  rw [positionAfter_natCast]

theorem smallDisk_documented : smallDisk.Documented where
  write file start bytes count fits := by
    rw [smallDisk_write, Nat.min_eq_left (by omega)]
  read file start buffer count _ := by
    show (file.pread (positionAfter 0 start) buffer count, file) = _
    rw [positionAfter_natCast]
  head _ _ := rfl

theorem pairsServer_begun : Begun smallDisk pairsServer := ⟨pairs, blankHeap, rfl, rfl⟩

instance {table : Table} : Decidable table.Addressable := inferInstanceAs (Decidable (_ < _))

/-- Requests that come before what is checked for them. -/
def addressed (server : Server) (input : ConnId × Request) : Except (Option Fault) (Server × Reply) :=
  guarded (fun server input => smallDisk.paging.handle server input.1 input.2)
    (fun server input => Received server input.1 input.2 ∧ server.table.Addressable) server input

/-- A run in which a pair is inserted and written back. -/
theorem stored_pair :
    ∃ exchanges server, AddressedRun smallDisk pairsServer exchanges server ∧
      server.table.AllClean ∧ server.ocbs 0 = { Ocb.calloc with selected := true } ∧
      server.table.layout.rowLen = 8 ∧ server.table.stored = 1 ∧
      keyOf (server.table.row 0) = 1 := by
  obtain ⟨server, run, seen⟩ := replay_run addressed pairsServer
    (fromFirst [.control .select, insertPair 5, .tblflush])
    [.status .ok, .written 8, .status .ok]
    (fun server => ((server.table.refs.all fun ref => !(server.table.body ref).needSync) &&
      decide server.table.Addressable, server.ocbs 0, server.table.layout.rowLen,
      server.table.stored, keyOf (server.table.row 0)))
    (true, { Ocb.calloc with selected := true }, 8, 1, 1) (by decide +kernel)
  simp only [Prod.mk.injEq, Bool.and_eq_true, decide_eq_true_eq, List.all_eq_true,
    Bool.not_eq_true'] at seen
  obtain ⟨⟨clean, fits⟩, ocb, rowLen, stored, key⟩ := seen
  exact ⟨_, server, ⟨pairsServer_begun, run_guarded run, fits⟩, clean, ocb, rowLen, stored, key⟩

end QNXStuff.QXBase
