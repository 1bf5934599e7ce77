import QNXStuff.QXBase.FetchChange
import QNXStuff.QXBase.Keys
import QNXStuff.QXBase.UpdateRules

/-! The server with the rules that the client library writes: which of them it carries out in every
state of a table. -/

namespace QNXStuff.QXBase

open Execution Memory

/-- The request is granted, and the rows that the filters let through are changed as the calls say,
as far as no strict filter ends the scan. -/
def CarriedOut (handle : Handler) (server : Server) (conn : ConnId) (calls : List FieldCall)
    (message : List UInt8) : Prop :=
  let filters := (server.ocbs conn).filters
  let rows := server.table.rows
  ∃ next front, handle server conn (.change (.update message)) = .ok (next, .status .ok) ∧
    next.table.rows = front ++ rows.dropWhile (passed filters) ∧
    List.Forall₂ (fun row result =>
      if dataFilter filters row = .pass then
        Changed server.table.layout.toTableDesc calls row result
      else result = row) (rows.takeWhile (passed filters)) front

/-- Every rule that is built for a table is carried out wherever the table may be, when no page with
changes is taken over and the divisors are legal. -/
def RulesCarriedOut (storage : Storage) (desc : TableDesc) : Prop :=
  ∀ calls, FullLength desc calls →
    ∃ uRule, setUpdateFields desc (getUpdateHeader desc) calls = .ok uRule ∧
      ∀ behind start exchanges server conn, AddressedRun storage start exchanges server →
        server.table.layout.toTableDesc = desc → (server.ocbs conn).selected = true →
        (∀ row ∈ server.table.rows, dataFilter (server.ocbs conn).filters row = .pass →
          Legal desc calls row) →
        ChangeSaved server.table (server.ocbs conn) (.update (arrived behind (updateMessage uRule))) →
        CarriedOut storage.paging.handle server conn calls (arrived behind (updateMessage uRule))

/-- The server can have a table of this kind, with its first page in front of the position 2^31. -/
def TableDesc.Tabled (desc : TableDesc) : Prop :=
  ∃ layout : Layout, layout.toTableDesc = desc ∧ layout.pageSize < 2 ^ 31

/-- A rule of the table fits into the buffer of the server. -/
def RulesFit (desc : TableDesc) : Prop := 4 + desc.fieldNum + desc.rowLen ≤ msgRoom

/-! ### A table with a row -/

theorem receiveRow_ocb (table : Table) (ocb : Ocb) (data : List UInt8) :
    (receiveRow table ocb data).2.1.selected = ocb.selected ∧
      (receiveRow table ocb data).2.1.filters = ocb.filters := by
  unfold receiveRow
  by_cases short : (data.take table.layout.rowLen).length ≠ table.layout.rowLen
  · simp only [if_pos short, and_self]
  · simp only [if_neg short, and_self]

section OneRow

variable {storage : Storage} (documented : storage.Documented)
include documented

/-- A step that the other server makes, too. -/
theorem addressed_step {server next : Server} {conn : ConnId}
    {request : Request} {reply : Reply} (counted : server.Counted)
    (place : server.table.Addressable) (received : Received server conn request)
    (answered : server.handle conn request = .ok (next, reply)) :
    AddressedStep storage server ((conn, request), reply) next :=
  ⟨(documented.handle_eq counted place conn request).trans answered, received, place⟩

/-- A row that arrives in front of the end of the last page. -/
theorem insert_step {server : Server} {conn : ConnId} (counted : server.Counted)
    (place : server.table.Addressable) (selected : (server.ocbs conn).selected = true)
    (room : (server.table.body server.table.lastPage).lastRow < server.table.layout.pageRows)
    {row : Row} (whole : row.length = server.table.layout.rowLen) :
    ∃ next exchange, AddressedStep storage server exchange next ∧ next.Counted ∧
      next.table.Addressable ∧ next.table.layout = server.table.layout ∧
      (next.ocbs conn).selected = true ∧
      (next.ocbs conn).filters = (server.ocbs conn).filters ∧
      next.table.rows = server.table.rows ++ [withKey row (server.table.stored + 1)] := by
  have inv : PoolInv server.table server.table.refs := counted.pool
  have written : qbaseWrite server.table (server.ocbs conn) row.length row =
      .ok (receiveRow (countRow server.table) (server.ocbs conn) row) := by
    unfold qbaseWrite
    rw [if_neg (by simp [selected]), if_neg (by omega), if_neg (Nat.not_le.mpr room)]
  have answered : server.handle conn (.insert row.length row) =
      (Except.ok (receiveRow (countRow server.table) (server.ocbs conn) row)).map fun result =>
        (⟨result.1, Function.update server.ocbs conn result.2.1⟩, .written result.2.2) :=
    congrArg (Except.map _) written
  have received : Received server conn (.insert row.length row) := fun _ _ => Nat.le_of_eq whole.symm
  have insert := receiveRow_whole (server.ocbs conn) inv.countRow.ok room (Nat.le_of_eq whole.symm)
  obtain ⟨-, layout, lastIndex⟩ := receiveRow_disk (countRow server.table) (server.ocbs conn) row
  have index : (countRow server.table).index = server.table.stored + 1 := by
    rw [countRow, counted.counted]
    exact Nat.mod_eq_of_lt (stored_lt counted.pool)
  have ocb := receiveRow_ocb (countRow server.table) (server.ocbs conn) row
  refine ⟨_, _, addressed_step documented counted place received answered,
    (insert_counted counted received answered).counted, ?_, layout, ?_, ?_, ?_⟩
  · unfold Table.Addressable
    rw [layout, lastIndex]
    exact place
  · simp only [Function.update_self]
    exact ocb.1.trans selected
  · simp only [Function.update_self]
    exact ocb.2
  · have rows := insert.rows
    rw [index, show (countRow server.table).layout = server.table.layout from rfl, ← whole,
      List.take_length] at rows
    exact rows

/-- A table with one row, which is written back. -/
theorem one_row_run (layout : Layout) (small : layout.pageSize < 2 ^ 31) (empty : layout.index = 0)
    {row : Row} (whole : row.length = layout.rowLen) :
    ∃ start exchanges server, AddressedRun storage start exchanges server ∧
      server.table.layout = layout ∧ server.table.rows = [withKey row 1] ∧
      server.table.AllClean ∧ (server.ocbs 0).selected = true ∧ (server.ocbs 0).filters = [] := by
  let start : Server := ⟨storage.createTable layout blankHeap, fun _ => Ocb.calloc⟩
  have begun : Begun storage start := ⟨layout, blankHeap, empty, rfl⟩
  have place : start.table.Addressable := by
    show (0 + 1) * layout.pageSize < 2 ^ 31
    rwa [Nat.zero_add, Nat.one_mul]
  obtain ⟨initial, zero⟩ := begun.initial documented place
  have counted := initial.counted zero
  have stored : start.table.stored = 0 := counted.counted.symm.trans zero
  let ocb := (Ocb.done { Ocb.calloc with selected := true, filters := [] } .ok).1
  let selected : Server := ⟨start.table, Function.update start.ocbs 0 ocb⟩
  have counted' : selected.Counted := ⟨counted.pool, counted.counted⟩
  have select : AddressedStep storage start ((0, .control .select), .status .ok) selected :=
    addressed_step documented counted place trivial rfl
  obtain ⟨inserted, exchange, insert, counted'', place', layout', chosen, filters, rows⟩ :=
    @insert_step _ documented selected 0 counted' place rfl layout.sound.pageRows_pos row whole
  have wholeRows : inserted.table.rows = [withKey row 1] := by
    rw [rows, show selected.table.stored = 0 from stored]
    have none : selected.table.rows = [] := by
      refine List.eq_nil_of_length_eq_zero ?_
      rw [Table.rows_length]
      exact stored
    rw [none]
    rfl
  rcases tableSync_spec counted''.pool with failed | ⟨flushed, done, flush⟩
  · exact absurd place'.writable ((tableSync_writable counted''.pool).mp failed)
  · have answered : inserted.handle 0 .tblflush = .ok (⟨flushed, _⟩, _) :=
      (if_pos chosen).trans (congrArg (Except.map _) done)
    have flushStep : AddressedStep storage inserted ((0, .tblflush), _) ⟨flushed, _⟩ :=
      addressed_step documented counted'' place' trivial answered
    refine ⟨start, _, _, ⟨begun, .cons select (.cons insert (.cons flushStep .nil)),
      handle_addressable counted'' place' answered nofun nofun⟩, ?_, ?_, flush.allClean, ?_, ?_⟩
    · exact flush.kept.layout.trans layout'
    · exact flush.rows.trans wholeRows
    · simp only [Function.update_self]
      exact chosen
    · simp only [Function.update_self]
      exact filters

end OneRow

/-! ### Rules that fit -/

/-- No field of a table ends behind the row. -/
theorem Layout.small (layout : Layout) (built : ClientBuilt layout.toTableDesc) :
    totalLength layout.fields < 2 ^ 32 := by
  by_contra wraps
  obtain ⟨metered, source, placed, total⟩ := built.tiled
  have wrapped := @placeFields_wraps 0 source (by decide)
  rw [placed] at wrapped
  obtain ⟨index, field, found, start, outside⟩ := wrapped.2 (by omega)
  have member := List.mem_of_getElem? found
  have inRow := layout.sound.inRow field member
  have width := (metered field member).1
  have rowLen := wrapped.1
  omega

section Rules

variable {storage : Storage} (documented : storage.Documented) {layout : Layout}
  (built : ClientBuilt layout.toTableDesc)
include documented built

theorem rules_fit_carried_out (fit : RulesFit layout.toTableDesc) :
    RulesCarriedOut storage layout.toTableDesc := by
  intro calls full
  have aligned := built.aligned (layout.small built)
  obtain ⟨uRule, written, holds⟩ := calls_hold aligned (header_holds layout.toTableDesc) full
  rw [List.nil_append] at holds
  refine ⟨uRule, written, fun behind start exchanges server conn reached same selected legal saved =>
    ?_⟩
  have counted := (reached.checked documented).2
  have fits : (Change.update (arrived behind (updateMessage uRule))).fits
      server.table.layout.toTableDesc = true := by
    refine decide_eq_true ?_
    rw [same, arrived_length, updateMessage_whole holds (Nat.lt_of_le_of_lt fit (by decide)),
      holds.length]
  have answer := change_answer _ counted selected saved rfl fits
  obtain ⟨front, scanned, changes⟩ := @changeRows_each server.table.layout.toTableDesc
    (server.ocbs conn).filters (.update (arrived behind (updateMessage uRule))) rfl
    (Changed server.table.layout.toTableDesc calls) server.table.rows (by
      intro row member pass
      have length : row.length = layout.rowLen := by
        obtain ⟨position, -, rfl⟩ := List.mem_map.mp member
        exact (server.table.row_length position).trans (congrArg TableDesc.rowLen same)
      rw [same]
      exact whole_rule_changes aligned fit full holds behind length (legal row member pass))
  rw [scanned] at answer
  obtain ⟨table, -, -, rows, answered⟩ := answer
  exact ⟨_, front, (documented.handle_eq counted reached.fits _ _).trans answered, rows, changes⟩

end Rules

/-! ### Rules that do not fit -/

theorem ClientBuilt.index {desc : TableDesc} (built : ClientBuilt desc) : desc.index = 0 := by
  induction built with
  | new colNum rowsPP lockPages tName => rfl
  | metrics built colNum type length ih =>
    unfold setFieldMetrics
    dsimp only
    split
    · exact ih
    · exact ih

theorem keyed_twos_last {count : Nat} (keyed : 4 ≤ count) :
    (withKey (List.replicate count 2) 1)[count - 1]? ≠ some 1 := by
  have inside : 0 + (bytesOf 4 1).length ≤ (List.replicate count (2 : UInt8)).length := by
    rw [bytesOf_length, List.length_replicate]
    omega
  rw [withKey, overwrite_getElem? inside, bytesOf_length]
  by_cases short : count = 4
  · subst short
    decide
  · rw [if_neg (by omega), List.getElem?_replicate, if_pos (by omega)]
    decide

section Failing

variable {storage : Storage} (documented : storage.Documented) {layout : Layout}
include documented

/-- A rule whose size is cut off is refused. -/
theorem long_size_refused {start server : Server} {exchanges : List Exchange} {conn : ConnId}
    (long : 2 ^ 32 ≤ 4 + layout.fieldNum + layout.rowLen)
    (reached : AddressedRun storage start exchanges server)
    (same : server.table.layout = layout) (selected : (server.ocbs conn).selected = true)
    (behind : Block) :
    ¬ CarriedOut storage.paging.handle server conn []
      (arrived behind (updateMessage (getUpdateHeader layout.toTableDesc))) := by
  rintro ⟨next, front, answered, -⟩
  have size : wordOf ((getUpdateHeader layout.toTableDesc).take 4) < 2 ^ 32 := by
    rw [(header_holds layout.toTableDesc).size, wordOf_bytesOf]
    exact Nat.mod_lt _ (by decide)
  have short : (Change.update (arrived behind
      (updateMessage (getUpdateHeader layout.toTableDesc)))).fits server.table.layout.toTableDesc =
        false := by
    refine decide_eq_false ?_
    rw [same, arrived_length, updateMessage, List.length_take]
    omega
  have counted := (reached.checked documented).2
  rw [documented.handle_eq counted reached.fits] at answered
  have refused : qbaseChange server.table (server.ocbs conn) _ = .ok (server.table, .buf) :=
    (if_neg (by simp [selected])).trans (if_pos short)
  have replied : server.handle conn (.change (.update (arrived behind
      (updateMessage (getUpdateHeader layout.toTableDesc))))) = .ok (_, .status .buf) :=
    congrArg (Except.map _) refused
  rw [replied] at answered
  cases answered

/-- The last field of a row does not get what a rule that is cut off has for it. -/
theorem cut_rule_fails {start server : Server} {exchanges : List Exchange} {conn : ConnId}
    {index : Nat} {field : FieldDesc} {uRule : List UInt8} {row : Row}
    (cut : CutRule layout.toTableDesc index field uRule)
    (small : 4 + layout.fieldNum + layout.rowLen < 2 ^ 32)
    (reached : AddressedRun storage start exchanges server)
    (same : server.table.layout = layout) (selected : (server.ocbs conn).selected = true)
    (filters : (server.ocbs conn).filters = []) (clean : server.table.AllClean)
    (only : server.table.rows = [row]) (live : keyOf row ≠ 0)
    (rowLength : row.length = layout.rowLen)
    (before : field.bytes row ≠ List.replicate field.length 1) :
    ¬ CarriedOut storage.paging.handle server conn [onesFor index field]
      (arrived (fun _ => 0) (updateMessage uRule)) := by
  rintro ⟨next, front, answered, rows, changes⟩
  have counted := (reached.checked documented).2
  have pass : dataFilter [] row = .pass := if_neg live
  have visited : passed [] row = true := by simp [passed, pass]
  rw [filters, only, List.takeWhile_cons_of_pos visited] at changes
  rw [filters, only, List.dropWhile_cons_of_pos visited] at rows
  obtain ⟨result, rfl, changed⟩ : ∃ result, front = [result] ∧
      Changed layout.toTableDesc [onesFor index field] row result := by
    cases changes with
    | cons first later =>
      cases later
      rw [if_pos pass, same] at first
      exact ⟨_, rfl, first⟩
  have whole := updateMessage_whole cut.holds small
  have fits : (Change.update (arrived (fun _ => 0) (updateMessage uRule))).fits
      server.table.layout.toTableDesc = true := by
    refine decide_eq_true ?_
    rw [same, arrived_length, whole, cut.holds.length]
  rw [documented.handle_eq counted reached.fits] at answered
  have answer := change_answer _ counted selected (change_clean _ counted.pool clean) rfl fits
  rw [same, filters, only, whole] at answer
  rw [whole] at answered
  have applied : updateRow layout.toTableDesc (arrived (fun _ => 0) uRule) row = .ok result := by
    simp only [List.length_singleton, changeRows, pass, Change.single, Bool.false_eq_true,
      if_false, Change.apply] at answer
    cases done : updateRow layout.toTableDesc (arrived (fun _ => 0) uRule) row with
    | error fault =>
      simp only [done] at answer
      rw [answer] at answered
      cases answered
    | ok other =>
      simp only [done] at answer
      obtain ⟨table, -, -, rows', replied⟩ := answer
      rw [replied] at answered
      cases answered
      have alike : [other] = [result] := rows'.symm.trans rows
      cases alike
      rfl
  exact cut.loses rowLength before applied (changed.ones cut.aligned cut.found)

variable (built : ClientBuilt layout.toTableDesc)
include built

theorem carried_out_fit (small : layout.pageSize < 2 ^ 31)
    (carried : RulesCarriedOut storage layout.toTableDesc) : RulesFit layout.toTableDesc := by
  by_contra unfit
  have long : msgRoom < 4 + layout.fieldNum + layout.rowLen := Nat.not_le.mp unfit
  have aligned := built.aligned (layout.small built)
  have keyed := layout.sound.keyWord
  obtain ⟨index, field, found, positive, ends⟩ := last_field aligned (by
    have total := aligned.total
    omega)
  obtain ⟨start, exchanges, server, reached, same, only, clean, selected, filters⟩ :=
    @one_row_run _ documented layout small built.index (List.replicate layout.rowLen 2)
      List.length_replicate
  have counted := (reached.checked documented).2
  by_cases size : 4 + layout.fieldNum + layout.rowLen < 2 ^ 32
  · have full := onesFor_full found
    obtain ⟨uRule, written, accepted⟩ := carried [onesFor index field] full
    obtain ⟨uRule', written', holds⟩ := calls_hold aligned (header_holds layout.toTableDesc) full
    rw [written] at written'
    cases written'
    refine cut_rule_fails documented ⟨aligned, found, positive, ends, holds, long⟩ size reached same
      selected filters clean only ?_ ?_ ?_ (accepted (fun _ => 0) start exchanges server 0 reached
        (congrArg _ same) selected (fun row _ _ => onesFor_legal index field row)
        (change_clean _ counted.pool clean))
    · rw [keyOf_withKey (by decide)]
      decide
    · rw [withKey, overwrite_length]
      · exact List.length_replicate
      · rw [bytesOf_length, List.length_replicate]
        omega
    · intro ones
      have last := congrArg (fun bytes : List UInt8 => bytes[field.length - 1]?) ones
      simp only [FieldDesc.bytes, List.getElem?_take, List.getElem?_drop, List.getElem?_replicate]
        at last
      rw [if_pos (by omega), if_pos (by omega),
        show field.offset + (field.length - 1) = layout.rowLen - 1 by omega] at last
      exact keyed_twos_last keyed last
  · obtain ⟨uRule, written, accepted⟩ := carried [] (List.forall_mem_nil _)
    cases written
    exact long_size_refused documented (Nat.not_lt.mp size) reached same selected (fun _ => 0)
      (accepted (fun _ => 0) start exchanges server 0 reached (congrArg _ same) selected
        (fun row _ _ => legal_nil _ row) (change_clean _ counted.pool clean))

end Failing

/-- The rules for a table are carried out wherever it may be if and only if they fit; when the
offsets of its fields pass 2^32 they are not even built. -/
theorem rules_are_carried_out_iff {storage : Storage} (documented : storage.Documented)
    {desc : TableDesc} (built : ClientBuilt desc) :
    (desc.Tabled → (RulesCarriedOut storage desc ↔ RulesFit desc)) ∧
    (2 ^ 32 ≤ totalLength desc.fields → ¬ RulesCarriedOut storage desc) := by
  constructor
  · rintro ⟨layout, rfl, small⟩
    exact ⟨carried_out_fit documented built small, rules_fit_carried_out documented built⟩
  · intro wraps carried
    obtain ⟨index, field, found, wild⟩ := wrapped_value_is_wild built wraps
    obtain ⟨uRule, written, -⟩ := carried [onesFor index field] (onesFor_full found)
    unfold setUpdateFields at written
    rw [List.foldlM_cons, wild] at written
    cases written

/-- The pairs of numbers. -/
theorem rules_for_pairs : RulesCarriedOut smallDisk pairs.toTableDesc :=
  ((rules_are_carried_out_iff smallDisk_documented (.new 1 1 3 "pairs")).1
    ⟨pairs, rfl, by decide⟩).mpr (show 4 + 2 + 8 ≤ msgRoom by decide)

/-! ### A number behind a large field -/

/-- A table with a field of 2100 bytes in front of a number. -/
def blobs : Layout where
  toTableDesc := (setFieldMetrics (newTbldesc 2 1 3 "blobs") 1 typeBinary 2100).1
  sound := by refine ⟨?_, ?_, ?_, ?_, ?_, ?_⟩ <;> decide

theorem blobs_built : ClientBuilt blobs.toTableDesc := .metrics (.new 2 1 3 "blobs") 1 typeBinary 2100

/-- A rule that sets the number to 0x01010101 does not get through with it. -/
theorem number_behind_blob_is_lost :
    ¬ RulesCarriedOut smallDisk blobs.toTableDesc ∧
    ∃ start exchanges server uRule, AddressedRun smallDisk start exchanges server ∧
      server.table.layout = blobs ∧
      server.table.rows = [withKey (List.replicate 2108 0) 1] ∧
      setUpdateFields blobs.toTableDesc (getUpdateHeader blobs.toTableDesc)
        [⟨2, [1, 1, 1, 1], UInt8.ofNat actSet⟩] = .ok uRule ∧
      ¬ CarriedOut smallDisk.paging.handle server 0 [⟨2, [1, 1, 1, 1], UInt8.ofNat actSet⟩]
        (arrived (fun _ => 0) (updateMessage uRule)) := by
  have aligned := blobs_built.aligned (blobs.small blobs_built)
  have found : blobs.fields[2]? = some ⟨typeUint, 4, 2104⟩ := by decide
  constructor
  · intro carried
    exact absurd (carried_out_fit smallDisk_documented blobs_built (by decide) carried)
      (show ¬ 4 + 3 + 2108 ≤ msgRoom by decide)
  · obtain ⟨start, exchanges, server, reached, same, only, clean, selected, filters⟩ :=
      @one_row_run _ smallDisk_documented blobs (by decide) rfl (List.replicate 2108 0)
        List.length_replicate
    obtain ⟨uRule, written, holds⟩ :=
      calls_hold aligned (header_holds blobs.toTableDesc) (onesFor_full found)
    refine ⟨start, exchanges, server, uRule, reached, same, only, written, ?_⟩
    refine cut_rule_fails smallDisk_documented ⟨aligned, found, by decide, by decide, holds,
      by decide⟩ (by decide) reached same selected filters clean only ?_ ?_ ?_
    · rw [keyOf_withKey (by decide)]
      decide
    · decide +kernel
    · decide +kernel

end QNXStuff.QXBase
