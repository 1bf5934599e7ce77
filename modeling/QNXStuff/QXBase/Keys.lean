import QNXStuff.QXBase.DiskRuns
import QNXStuff.QXBase.RowInvariants

/-! The first word of the row at position `p` is its primary key `p + 1`, or 0. -/

namespace QNXStuff.QXBase

open Execution Memory

/-- The row at a position carries the key of the position, or it is deleted. -/
def KeyedAt (position : Nat) (row : Row) : Prop := keyOf row = position + 1 ∨ keyOf row = 0

/-- No action of the update rule is on a field that begins in the key word. -/
def Change.SparesKey (desc : TableDesc) : Change → Prop
  | .update message | .updcur message =>
    ∀ entry ∈ desc.fields.zipIdx, (message.getD (4 + entry.2) 0).toNat ≠ actNone →
      4 ≤ entry.1.offset ∨ entry.1.width = 0
  | .delete => True

section Rows

theorem overwrite_nil (row : Row) (start : Nat) : overwrite row start [] = row := by
  simp [overwrite]

theorem keyOf_overwrite {row : Row} {start : Nat} {bytes : List UInt8} (behind : 4 ≤ start)
    (inside : start ≤ row.length) : keyOf (overwrite row start bytes) = keyOf row := by
  have front : 4 ≤ (row.take start).length := by
    rw [List.length_take]
    omega
  unfold keyOf overwrite
  rw [List.append_assoc, List.take_append_of_le_length front, List.take_take,
    Nat.min_eq_left behind]

theorem keyOf_withKey {row : Row} {key : Nat} (small : key < 2 ^ 32) :
    keyOf (withKey row key) = key := by
  unfold keyOf withKey overwrite
  rw [List.take_zero, List.nil_append,
    List.take_left' (bytesOf_length 4 key), wordOf_bytesOf]
  exact Nat.mod_eq_of_lt small

theorem keyOf_updateRow (layout : Layout) {message : List UInt8} {row result : Row}
    (fits : 4 + layout.fieldNum + layout.rowLen ≤ message.length)
    (spares : ∀ entry ∈ layout.fields.zipIdx, (message.getD (4 + entry.2) 0).toNat ≠ actNone →
      4 ≤ entry.1.offset ∨ entry.1.width = 0)
    (rowLength : row.length = layout.rowLen)
    (updated : updateRow layout.toTableDesc message row = .ok result) :
    keyOf result = keyOf row := by
  refine (foldlM_invariant
    (motive := fun next => next.length = layout.rowLen ∧ keyOf next = keyOf row)
    ⟨rowLength, rfl⟩ (fun next entry member kept after moved => ?_) updated).2
  obtain ⟨length, key⟩ := kept
  rcases updateRowField_cases layout fits length member moved with
    rfl | ⟨acts, bytes, written, inRow, rfl⟩
  · exact ⟨length, key⟩
  · refine ⟨by rw [overwrite_length (by omega), length], ?_⟩
    rcases spares entry member acts with behind | empty
    · rw [keyOf_overwrite behind (by omega), key]
    · have none : bytes = [] := List.length_eq_zero_iff.mp (written.trans empty)
      rw [none, overwrite_nil, key]

/-- A change that spares the key word keeps the key or deletes the row. -/
theorem keyed_change (layout : Layout) {change : Change}
    (fits : change.fits layout.toTableDesc = true) (spares : change.SparesKey layout.toTableDesc) :
    ChangeKeeps KeyedAt layout.toTableDesc change := by
  intro position row result keyed rowLength applied
  unfold KeyedAt at keyed ⊢
  cases change with
  | update message =>
    rwa [keyOf_updateRow layout (of_decide_eq_true fits) spares rowLength applied]
  | updcur message =>
    rwa [keyOf_updateRow layout (of_decide_eq_true fits) spares rowLength applied]
  | delete =>
    cases applied
    exact .inr (keyOf_deleteRow row)

end Rows

/-! ### Runs -/

def SparesKeys (server : Server) (conn : ConnId) : Request → Prop
  | .change change => (server.ocbs conn).selected = true →
      change.fits server.table.layout.toTableDesc = true →
      change.SparesKey server.table.layout.toTableDesc
  | _ => True

/-- The steps in which every row arrives, every page has its place and no key is overwritten. -/
def KeyStep (storage : Storage) : Server → Exchange → Server → Prop :=
  Under (AddressedStep storage) fun server exchange =>
    SparesKeys server exchange.1.1 exchange.1.2

structure KeysInPlace (handle : Handler) (server : Server) : Prop where
  placed : ∀ position < server.table.stored, KeyedAt position (server.table.row position)
  unique : ∀ first < server.table.stored, ∀ second < server.table.stored,
    keyOf (server.table.row first) ≠ 0 →
    keyOf (server.table.row first) = keyOf (server.table.row second) → first = second
  sought : ∀ conn, ∀ position < server.table.stored, (server.ocbs conn).selected = true →
    keyOf (server.table.row position) ≠ 0 →
    ∃ next, handle server conn
        (.control (.seek (bytesOf 4 (keyOf (server.table.row position))))) =
      .ok (next, .status .ok) ∧ (next.ocbs conn).record = position

/-- Between two states no row goes away and no live row gets another key. -/
def KeysKept (server later : Server) : Prop :=
  ∀ position < server.table.stored, position < later.table.stored ∧
    (keyOf (server.table.row position) ≠ 0 → keyOf (later.table.row position) ≠ 0 →
      keyOf (later.table.row position) = keyOf (server.table.row position))

section Runs

variable {storage : Storage} {server next : Server}

/-- What a run of such steps keeps. -/
structure Server.Keyed (server : Server) : Prop where
  counted : server.Counted
  rows : Everywhere KeyedAt server.table

theorem keyStep_keeps (documented : storage.Documented) (keyed : server.Keyed)
    {exchange : Exchange} (step : KeyStep storage server exchange next) :
    next.Keyed ∧ server.table.stored ≤ next.table.stored := by
  obtain ⟨⟨conn, request⟩, reply⟩ := exchange
  obtain ⟨addressed, spares⟩ := step
  obtain ⟨answered, received⟩ := addressed.received documented keyed.counted
  have grown := handle_counted keyed.counted received answered
  refine ⟨⟨grown.counted, handle_everywhere keyed.counted keyed.rows received ?_ answered⟩,
    grown.stored⟩
  cases request with
  | insert nbytes data =>
    intro arrived
    exact .inl (keyOf_withKey (stored_lt keyed.counted.pool))
  | change change =>
    intro selected fits
    exact keyed_change server.table.layout fits (spares selected fits)
  | _ => trivial

theorem keyRun_keeps (documented : storage.Documented) {later : Server}
    {exchanges : List Exchange} (keyed : server.Keyed)
    (run : Run (KeyStep storage) server exchanges later) :
    later.Keyed ∧ server.table.stored ≤ later.table.stored :=
  run.invariant
    (motive := fun state => state.Keyed ∧ server.table.stored ≤ state.table.stored)
    ⟨keyed, Nat.le_refl _⟩ fun _ _ _ kept step =>
      ⟨(keyStep_keeps documented kept.1 step).1,
        Nat.le_trans kept.2 (keyStep_keeps documented kept.1 step).2⟩

/-- `SEEK` with a key that the counter has reached. -/
theorem seek_answer {conn : ConnId} (key : Nat) (selected : (server.ocbs conn).selected = true)
    (small : key < 2 ^ 32) :
    server.handle conn (.control (.seek (bytesOf 4 key))) =
      let record := (key + (2 ^ 32 - 1)) % 2 ^ 32
      if server.table.index < record then
        .ok ({ server with
          ocbs := Function.update server.ocbs conn
            (Ocb.done { server.ocbs conn with record := 0 } .pkey).1 }, .status .pkey)
      else
        .ok ({ server with
          ocbs := Function.update server.ocbs conn
            (Ocb.done { server.ocbs conn with record := record } .ok).1 }, .status .ok) := by
  have word : wordOf (bytesOf 4 key) = key :=
    (wordOf_bytesOf 4 key).trans (Nat.mod_eq_of_lt small)
  unfold Server.handle control seek
  simp only [selected, Bool.true_eq_false, bytesOf_length, ↓reduceIte, word]
  by_cases beyond : server.table.index < (key + (2 ^ 32 - 1)) % 2 ^ 32
  · rw [if_pos (show server.table.desc.index < _ from beyond), if_pos beyond]
    rfl
  · rw [if_neg (show ¬ server.table.desc.index < _ from beyond), if_neg beyond]
    rfl

theorem record_of_key {key : Nat} (positive : 0 < key) (small : key < 2 ^ 32) :
    (key + (2 ^ 32 - 1)) % 2 ^ 32 = key - 1 := by
  omega

theorem Server.Keyed.inPlace (keyed : server.Keyed) :
    KeysInPlace storage.paging.handle server := by
  have placed := keyed.rows.rows
  have bound := stored_lt keyed.counted.pool
  refine ⟨placed, ?_, ?_⟩
  · intro first inside second inside' live same
    rcases placed first inside with key | dead
    · rcases placed second inside' with key' | dead'
      · omega
      · omega
    · exact absurd dead live
  · intro conn position inside selected live
    have key : keyOf (server.table.row position) = position + 1 :=
      (placed position inside).resolve_right live
    have record := record_of_key (Nat.succ_pos position) (show position + 1 < 2 ^ 32 by omega)
    have counted := keyed.counted.counted
    have answer := seek_answer (position + 1) selected (by omega)
    rw [record, if_neg (by omega)] at answer
    rw [key]
    show ∃ next, server.handle conn (.control (.seek (bytesOf 4 (position + 1)))) = _ ∧ _
    rw [answer]
    exact ⟨_, rfl, by simp only [Function.update_self]; rfl⟩

theorem Begun.keyed {start : Server} (documented : storage.Documented)
    (begun : Begun storage start) (fits : start.table.Addressable) : start.Keyed := by
  obtain ⟨initial, zero⟩ := begun.initial documented fits
  obtain ⟨layout, heap, created⟩ := initial.created
  have empty := createTable_spec created
  refine ⟨initial.counted zero, ⟨fun position inside => ?_, fun index inside => ?_⟩⟩
  · rw [empty.stored] at inside
    exact absurd inside (Nat.not_lt_zero _)
  · rw [empty.lastIndex] at inside
    exact absurd inside (Nat.not_lt_zero _)

end Runs

/-- As long as every row arrives, every page has its place and no update has an action on a field
in the key word, the keys of a table are the positions, counted from 1. -/
theorem keys_stay_in_place {storage : Storage} {start server later : Server}
    {exchanges further : List Exchange} (documented : storage.Documented)
    (begun : Begun storage start) (fits : start.table.Addressable)
    (run : Run (KeyStep storage) start exchanges server)
    (rest : Run (KeyStep storage) server further later) :
    KeysInPlace storage.paging.handle server ∧ KeysKept server later := by
  have here := (keyRun_keeps documented (begun.keyed documented fits) run).1
  obtain ⟨there, grown⟩ := keyRun_keeps documented here rest
  refine ⟨here.inPlace, fun position inside => ⟨Nat.lt_of_lt_of_le inside grown, ?_⟩⟩
  intro live live'
  have key := (here.rows.rows position inside).resolve_right live
  have key' := (there.rows.rows position (Nat.lt_of_lt_of_le inside grown)).resolve_right live'
  rw [key, key']

/-- `UPDATE` that sets the key of the pairs. -/
def setKey (key : Nat) : Request :=
  .change (.update (bytesOf 4 0 ++ [1, 0] ++ bytesOf 4 key ++ bytesOf 4 0))

/-- A client overwrites the key of the first pair with 9. -/
theorem update_overwrites_key :
    ∃ server, ClientBuilt pairsServer.table.layout.toTableDesc ∧
      Begun smallDisk pairsServer ∧
      Run (AddressedStep smallDisk) pairsServer
        [((0, .control .select), .status .ok), ((0, insertPair 5), .written 8),
          ((0, setKey 9), .status .ok)] server ∧
      keyOf (server.table.row 0) = 9 ∧ ¬ KeysInPlace smallDisk.paging.handle server := by
  obtain ⟨server, run, seen⟩ := replay_run addressed pairsServer
    (fromFirst [.control .select, insertPair 5, setKey 9])
    [.status .ok, .written 8, .status .ok]
    (fun server => (server.table.stored, keyOf (server.table.row 0))) (1, 9)
    (by decide +kernel)
  obtain ⟨stored, key⟩ : server.table.stored = 1 ∧ keyOf (server.table.row 0) = 9 := by
    simpa only [Prod.mk.injEq] using seen
  refine ⟨server, .new 1 1 3 "pairs", pairsServer_begun, run_guarded run, key, fun inPlace => ?_⟩
  have placed := inPlace.placed 0 (by omega)
  unfold KeyedAt at placed
  omega

/-- The first pair is deleted before the second one is inserted. -/
theorem keys_of_pairs_stay :
    ∃ server, server.table.stored = 2 ∧ keyOf (server.table.row 1) = 2 ∧
      KeysInPlace smallDisk.paging.handle server := by
  obtain ⟨server, run, seen⟩ := replay_run addressed pairsServer
    (fromFirst [.control .select, insertPair 5, .change .delete, insertPair 6])
    [.status .ok, .written 8, .status .ok, .written 8]
    (fun server => (server.table.stored, keyOf (server.table.row 1))) (2, 2)
    (by decide +kernel)
  obtain ⟨stored, key⟩ : server.table.stored = 2 ∧ keyOf (server.table.row 1) = 2 := by
    simpa only [Prod.mk.injEq] using seen
  have spared : Run (KeyStep smallDisk) pairsServer _ server := (run_guarded run).under (by
    rintro _ (_ | ⟨_, _ | ⟨_, _ | ⟨_, _ | ⟨_, ⟨⟩⟩⟩⟩⟩) state
    · trivial
    · trivial
    · exact fun _ _ => trivial
    · trivial)
  exact ⟨server, stored, key,
    (keys_stay_in_place smallDisk_documented pairsServer_begun (by decide) spared .nil).1⟩

end QNXStuff.QXBase
