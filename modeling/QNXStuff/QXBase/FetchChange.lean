import QNXStuff.QXBase.Fetch

/-! `UPDATE` and `DELETE` treat the rows that `FETCHRST` and `FETCH` deliver. -/

namespace QNXStuff.QXBase

open Execution Memory

/-- The rows from a position on, with the change applied at some positions. -/
def applyAt (desc : TableDesc) (change : Change) (positions : List Nat) :
    List Row → Nat → Except Fault (List Row)
  | [], _ => .ok []
  | row :: rest, position =>
    if position ∈ positions then
      match change.apply desc row with
      | .error fault => .error fault
      | .ok result =>
        (applyAt desc change positions rest (position + 1)).map (result :: ·)
    else (applyAt desc change positions rest (position + 1)).map (row :: ·)

section Lists

variable {desc : TableDesc} {filters : List Filter} {change : Change}

/-- Positions in front of the rows do not matter. -/
theorem applyAt_front {positions : List Nat} {front position : Nat} (before : front < position)
    (rows : List Row) :
    applyAt desc change (front :: positions) rows position =
      applyAt desc change positions rows position := by
  induction rows generalizing position with
  | nil => rfl
  | cons row rest ih =>
    have apart : position ≠ front := Nat.ne_of_gt before
    simp only [applyAt, List.mem_cons, apart, false_or, ih (Nat.lt_succ_of_lt before)]

theorem deliver_positions {rows : List Row} {start : Nat} {entry : Row × Nat}
    (member : entry ∈ deliver filters rows start) : start ≤ entry.2 := by
  induction rows generalizing start with
  | nil => cases member
  | cons row rest ih =>
    simp only [deliver] at member
    cases verdict : dataFilter filters row with
    | pass =>
      rw [verdict] at member
      rcases List.mem_cons.mp member with rfl | later
      · exact Nat.le_refl _
      · exact Nat.le_of_succ_le (ih later)
    | skip =>
      rw [verdict] at member
      exact Nat.le_of_succ_le (ih member)
    | broken =>
      rw [verdict] at member
      cases member

/-- Nothing is changed where nothing is delivered. -/
theorem applyAt_nil (rows : List Row) (start : Nat) :
    applyAt desc change [] rows start = .ok rows := by
  induction rows generalizing start with
  | nil => rfl
  | cons row rest ih => simp [applyAt, ih, Except.map]

/-- A scan of all rows changes what a reader of all rows gets, once each. -/
theorem changeRows_deliver (whole : change.single = false) (rows : List Row) (start : Nat) :
    changeRows desc filters change rows.length rows =
      (applyAt desc change ((deliver filters rows start).map Prod.snd) rows start).map
        fun rows => (rows, 0) := by
  induction rows generalizing start with
  | nil => rfl
  | cons row rest ih =>
    have behind : start ∉ (deliver filters rest (start + 1)).map Prod.snd := by
      intro member
      obtain ⟨entry, present, same⟩ := List.mem_map.mp member
      have above := deliver_positions present
      omega
    rw [List.length_cons]
    simp only [changeRows, deliver]
    cases dataFilter filters row with
    | broken =>
      simp only [List.map_nil, applyAt_nil]
      rfl
    | skip =>
      simp only [whole, Bool.false_eq_true, ↓reduceIte, applyAt, behind]
      rw [ih (start + 1)]
      cases applyAt desc change _ rest (start + 1) <;> rfl
    | pass =>
      simp only [List.map_cons, applyAt, List.mem_cons, true_or, ↓reduceIte, whole,
        Bool.false_eq_true, applyAt_front (Nat.lt_succ_self start)]
      cases change.apply desc row with
      | error fault => rfl
      | ok result =>
        simp only
        rw [ih (start + 1)]
        cases applyAt desc change _ rest (start + 1) <;> rfl

/-- After a `DELETE` the same filters let no row through. -/
theorem deliver_deleted {rows result : List Row} {left : Nat} (start : Nat)
    (scanned : changeRows desc filters .delete rows.length rows = .ok (result, left)) :
    deliver filters result start = [] := by
  induction rows generalizing start result left with
  | nil =>
    cases scanned
    rfl
  | cons row rest ih =>
    have step (head : Row) (dead : dataFilter filters head = .skip)
        (later : (changeRows desc filters .delete rest.length rest).map
          (fun scan => (head :: scan.1, scan.2)) = .ok (result, left)) :
        deliver filters result start = [] := by
      cases inner : changeRows desc filters .delete rest.length rest with
      | error fault =>
        rw [inner] at later
        cases later
      | ok scan =>
        rw [inner] at later
        cases later
        simp only [deliver, dead]
        exact ih (start + 1) inner
    rw [List.length_cons] at scanned
    simp only [changeRows] at scanned
    cases verdict : dataFilter filters row with
    | broken =>
      rw [verdict] at scanned
      cases scanned
      simp only [deliver, verdict]
    | skip =>
      rw [verdict] at scanned
      exact step row verdict scanned
    | pass =>
      rw [verdict] at scanned
      have dead : dataFilter filters (deleteRow row) = .skip := if_pos (keyOf_deleteRow row)
      exact step (deleteRow row) dead scanned

end Lists

/-! ### The server -/

section Server

variable {server : Server} {conn : ConnId} {nbytes : Nat}

/-- What the change should do: what a reader gets is changed, and nothing else is. -/
def ChangesDelivered (handle : Handler) (server : Server) (conn : ConnId) (nbytes : Nat)
    (change : Change) : Prop :=
  ∃ final found, fetchReset handle conn nbytes server = .ok (final, found) ∧
    (final.ocbs conn).qerrno = .lastrow ∧
    match applyAt server.table.layout.toTableDesc change (found.map Prod.snd)
        server.table.rows 0 with
    | .error fault => handle server conn (.change change) = .error fault
    | .ok rows => ∃ next, handle server conn (.change change) = .ok (next, .status .ok) ∧
        next.table.rows = rows

/-- What `DELETE` and `TBLFLUSH` should leave: no row for the same reader. -/
def DeletesDelivered (handle : Handler) (server : Server) (conn : ConnId) (nbytes : Nat) : Prop :=
  ∀ next reply flushed reply', handle server conn (.change .delete) = .ok (next, reply) →
    handle next conn .tblflush = .ok (flushed, reply') →
    ∃ final, fetchReset handle conn nbytes flushed = .ok (final, []) ∧
      (final.ocbs conn).qerrno = .lastrow

/-- One scan that takes over no page with changes. -/
theorem change_answer (change : Change) (counted : server.Counted)
    (selected : (server.ocbs conn).selected = true)
    (saved : ChangeSaved server.table (server.ocbs conn) change) (whole : change.single = false)
    (fits : change.fits server.table.layout.toTableDesc = true) :
    match changeRows server.table.layout.toTableDesc (server.ocbs conn).filters change
        server.table.rows.length server.table.rows with
    | .error fault => server.handle conn (.change change) = .error fault
    | .ok (rows, left) => ∃ table, table.Ok ∧ Kept server.table table ∧ table.rows = rows ∧
        server.handle conn (.change change) =
          .ok
            ({ table := table
               ocbs := Function.update server.ocbs conn
                ((server.ocbs conn).done (if left = 0 then .ok else (server.ocbs conn).qerrno)).1 },
              .status (if left = 0 then .ok else (server.ocbs conn).qerrno)) := by
  have index : server.table.index = server.table.rows.length := by
    rw [counted.counted, Table.rows_length]
  have ending := change_loop counted.pool fits saved
  have flat : changeScan server.table (server.ocbs conn) change =
      (changeRows server.table.layout.toTableDesc (server.ocbs conn).filters change
        server.table.rows.length server.table.rows).map fun scan => ([] ++ scan.1, scan.2) := by
    simp only [changeScan, Change.start, whole, index, changeFrom, Bool.false_eq_true,
      ↓reduceIte, List.drop_zero, List.take_zero]
  have changed : qbaseChange server.table (server.ocbs conn) change = _ :=
    (if_neg (by simp [selected])).trans (if_neg (by simp [fits]))
  unfold ScanEnd at ending
  rw [flat] at ending
  cases scan : changeRows server.table.layout.toTableDesc (server.ocbs conn).filters change
      server.table.rows.length server.table.rows with
  | error fault =>
    rw [scan] at ending
    have ending : loop _ _ _ _ = .error fault := ending
    show Except.map _ (qbaseChange server.table (server.ocbs conn) change) = _
    rw [changed, ending]
    rfl
  | ok result =>
    obtain ⟨rows, left⟩ := result
    rw [scan] at ending
    obtain ⟨table, done, ok, kept, rows'⟩ := ending
    refine ⟨table, ok, kept, rows', ?_⟩
    show Except.map _ (qbaseChange server.table (server.ocbs conn) change) = _
    rw [changed, done]
    rfl

theorem Readable.saved (ready : Readable server conn) (change : Change) :
    ChangeSaved server.table (server.ocbs conn) change :=
  change_clean (server.ocbs conn) ready.counted.pool ready.clean

theorem changes_delivered (ready : Readable server conn)
    (room : server.table.layout.rowLen ≤ nbytes) {change : Change}
    (whole : change.single = false)
    (fits : change.fits server.table.layout.toTableDesc = true) :
    ChangesDelivered Server.handle server conn nbytes change := by
  obtain ⟨final, fetched, ending, _⟩ := fetchReset_spec _ ready room
  refine ⟨final, _, fetched, ending, ?_⟩
  have answer := change_answer _ ready.counted ready.selected (ready.saved _) whole fits
  rw [changeRows_deliver whole server.table.rows 0] at answer
  cases applied : applyAt server.table.layout.toTableDesc change
      ((deliver (server.ocbs conn).filters server.table.rows 0).map Prod.snd)
      server.table.rows 0 with
  | error fault =>
    rw [applied] at answer
    exact answer
  | ok rows =>
    rw [applied] at answer
    obtain ⟨table, _, _, rows', answered⟩ := answer
    exact ⟨_, answered, rows'⟩

/-- A flush leaves the rows, the connection's rules and a pool that may be read. -/
theorem flush_ready (counted : server.Counted) (selected : (server.ocbs conn).selected = true)
    {flushed : Server} {reply : Reply}
    (answered : server.handle conn .tblflush = .ok (flushed, reply)) :
    Readable flushed conn ∧ flushed.table.rows = server.table.rows ∧
      flushed.table.layout = server.table.layout ∧
      (flushed.ocbs conn).filters = (server.ocbs conn).filters := by
  have synced : (tableSync server.table).map (fun table =>
      (({ table := table
          ocbs := Function.update server.ocbs conn ((server.ocbs conn).done .ok).1 } : Server),
        ((server.ocbs conn).done .ok).2)) = .ok (flushed, reply) :=
    (if_pos selected).symm.trans answered
  rcases tableSync_spec counted.pool with failed | ⟨table, done, flush⟩
  · rw [failed] at synced
    cases synced
  · rw [done] at synced
    cases synced
    have stored : table.stored = server.table.stored := flush.kept.stored
    have index : table.index = server.table.index := flush.kept.index
    refine ⟨⟨⟨flush.inv.ok, ?_⟩, flush.allClean, ?_⟩, flush.rows, flush.kept.layout, ?_⟩
    · rw [index, stored, counted.counted]
    · simp only [Function.update_self]
      exact selected
    · simp only [Function.update_self]
      rfl

theorem deletes_delivered (ready : Readable server conn)
    (room : server.table.layout.rowLen ≤ nbytes) :
    DeletesDelivered Server.handle server conn nbytes := by
  intro next reply flushed reply' deleted flush
  have answer := change_answer .delete ready.counted ready.selected (ready.saved _) rfl rfl
  cases scan : changeRows server.table.layout.toTableDesc (server.ocbs conn).filters .delete
      server.table.rows.length server.table.rows with
  | error fault =>
    rw [scan] at answer
    have answer : server.handle conn (.change .delete) = .error fault := answer
    rw [answer] at deleted
    cases deleted
  | ok result =>
    obtain ⟨rows, left⟩ := result
    rw [scan] at answer
    obtain ⟨table, ok, kept, rows', answered⟩ := answer
    rw [answered] at deleted
    cases deleted
    obtain ⟨ready', same, layout, filters⟩ := flush_ready
      ⟨ok, counted_of_kept ready.counted.counted kept⟩
      (by
        simp only [Function.update_self]
        exact ready.selected)
      flush
    obtain ⟨final, fetched, ending, _⟩ := fetchReset_spec nbytes ready'
      (by rw [layout]; exact kept.layout ▸ room)
    have none : deliver (flushed.ocbs conn).filters flushed.table.rows 0 = [] := by
      rw [filters, same, rows']
      simp only [Function.update_self]
      exact deliver_deleted 0 scan
    rw [none] at fetched
    exact ⟨final, fetched, ending⟩

section Disk

variable {storage : Storage} (documented : storage.Documented) (counted : server.Counted)
  (fits : server.table.Addressable)
include documented counted fits

theorem changesDelivered_iff (change : Change) :
    ChangesDelivered storage.paging.handle server conn nbytes change ↔
      ChangesDelivered Server.handle server conn nbytes change := by
  unfold ChangesDelivered
  rw [fetchReset_eq documented counted fits, documented.handle_eq counted fits]

theorem deletesDelivered_iff :
    DeletesDelivered storage.paging.handle server conn nbytes ↔
      DeletesDelivered Server.handle server conn nbytes := by
  unfold DeletesDelivered
  rw [documented.handle_eq counted fits]
  refine forall_congr' fun next => forall_congr' fun reply => forall_congr' fun flushed =>
    forall_congr' fun reply' => ?_
  refine imp_congr_right fun deleted => ?_
  have received : Received server conn (.change .delete) := trivial
  have counted' := (handle_counted counted received deleted).counted
  have fits' := handle_addressable counted fits deleted nofun nofun
  rw [documented.handle_eq counted' fits']
  refine imp_congr_right fun synced => ?_
  have received' : Received next conn .tblflush := trivial
  rw [fetchReset_eq documented (handle_counted counted' received' synced).counted
    (handle_addressable counted' fits' synced nofun nofun)]

end Disk

end Server

/-! ### Runs -/

end QNXStuff.QXBase
