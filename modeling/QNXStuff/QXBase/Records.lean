import QNXStuff.QXBase.Fetch

/-! A table as a client sees it that only finds rows by their keys and changes them: records of
any kind, and the place where its connection stands. -/

namespace QNXStuff.QXBase

open Memory Execution

/-- Records have a primary key, which is 0 once they are deleted. -/
class Recorded (R : Type) where
  key : R → UInt32

/-- The records of a table, and a connection to it that has no filters. -/
structure Records (R : Type) where
  rows : List R
  record : Nat
  qerrno : ErrorCode

namespace Records

variable {R : Type}

/-- Where the record with a key should be. -/
def place (key : UInt32) : Nat := (key - 1).toNat

/-- `QBASE_CMD_SEEK` -/
def seek (table : Records R) (key : UInt32) : Records R × ErrorCode :=
  if table.rows.length < place key then ({ table with record := 0, qerrno := .pkey }, .pkey)
  else ({ table with record := place key, qerrno := .ok }, .ok)

/-- `QBASE_CMD_UPDCUR` with a rule that makes `change` of a record. -/
def updcur [Recorded R] (table : Records R) (change : R → R) : Records R × ErrorCode :=
  match table.rows[table.record]? with
  | none =>
    let code := if table.rows.length = 0 then .ok else table.qerrno
    ({ table with qerrno := code }, code)
  | some row =>
    if Recorded.key row = 0 then ({ table with qerrno := .ok }, .ok)
    else ({ table with rows := table.rows.set table.record (change row), qerrno := .ok }, .ok)

/-- The next record that `Qbase_fetch` delivers, of those from a position on. -/
def nextLive [Recorded R] : List R → Nat → Option (Nat × R)
  | [], _ => none
  | row :: rest, position =>
    if Recorded.key row = 0 then nextLive rest (position + 1) else some (position, row)

end Records

section Seek

variable {R : Type} {table : Records R} {key : UInt32}

theorem Records.seek_accepted (inside : Records.place key ≤ table.rows.length) :
    table.seek key = (⟨table.rows, Records.place key, .ok⟩, .ok) := by
  unfold Records.seek
  rw [if_neg (Nat.not_lt.mpr inside)]

theorem Records.seek_refused (beyond : table.rows.length < Records.place key) :
    table.seek key = (⟨table.rows, 0, .pkey⟩, .pkey) := by
  unfold Records.seek
  rw [if_pos beyond]

/-- A live record at the place of the connection is changed. -/
theorem Records.updcur_live [Recorded R] {change : R → R} {row : R}
    (found : table.rows[table.record]? = some row) (live : Recorded.key row ≠ 0) :
    table.updcur change = (⟨table.rows.modify table.record change, table.record, .ok⟩, .ok) := by
  have default : Inhabited R := ⟨row⟩
  unfold Records.updcur
  rw [found, List.modify_eq_set, found]
  exact if_neg live

end Seek

section Next

variable {R : Type} [Recorded R]

/-- The next record is live, and there is none in front of it. -/
theorem nextLive_spec (rows : List R) (start : Nat) :
    match Records.nextLive (rows.drop start) start with
    | some (position, row) => start ≤ position ∧ rows[position]? = some row ∧
        Recorded.key row ≠ 0 ∧ ∀ other row', start ≤ other → other < position →
          rows[other]? = some row' → Recorded.key row' = 0
    | none => ∀ other row', start ≤ other → rows[other]? = some row' →
        Recorded.key row' = 0 := by
  generalize length : rows.length - start = count
  induction count generalizing start with
  | zero =>
    rw [List.drop_eq_nil_of_le (by omega)]
    intro other row' behind found
    have inside := (List.getElem?_eq_some_iff.mp found).1
    omega
  | succ count ih =>
    have inside : start < rows.length := by omega
    have first : rows[start]? = some rows[start] := List.getElem?_eq_getElem inside
    rw [List.drop_eq_getElem_cons inside, Records.nextLive]
    by_cases dead : Recorded.key rows[start] = 0
    · rw [if_pos dead]
      have further := ih (start + 1) (by omega)
      -- the first record is passed over
      have passed {other : Nat} {row' : R} (from' : start ≤ other) (found : rows[other]? = some row')
          (later : start + 1 ≤ other → Recorded.key row' = 0) : Recorded.key row' = 0 := by
        rcases Nat.eq_or_lt_of_le from' with rfl | behind
        · rw [first] at found
          cases found
          exact dead
        · exact later behind
      split at further
      · obtain ⟨above, here, live, between⟩ := further
        exact ⟨by omega, here, live, fun other row' from' before there =>
          passed from' there fun behind => between other row' behind before there⟩
      · exact fun other row' from' there =>
          passed from' there fun behind => further other row' behind there
    · rw [if_neg dead]
      exact ⟨Nat.le_refl _, first, dead, fun other _ from' before => by omega⟩

end Next

/-! ### Records of an array of rows -/

section Reading

variable {R : Type} [Recorded R] {read : Row → R} {flat : Flat} {conn : ConnId}
  {table : Records R}

/-- The records are what can be read from the rows. -/
structure Reads (read : Row → R) (flat : Flat) (conn : ConnId) (table : Records R) : Prop where
  key : ∀ row, (Recorded.key (read row)).toNat = keyOf row
  rows : table.rows = flat.rows.map read
  counted : flat.index = flat.rows.length
  selected : (flat.ocbs conn).selected = true
  unfiltered : (flat.ocbs conn).filters = []
  record : (flat.ocbs conn).record = table.record
  qerrno : (flat.ocbs conn).qerrno = table.qerrno

theorem Reads.length (reads : Reads read flat conn table) :
    table.rows.length = flat.rows.length := by
  rw [reads.rows, List.length_map]

/-- The records after an answer that leaves the connection its table. -/
theorem Reads.answered (reads : Reads read flat conn table) {next : Flat} {rows : List R}
    {record : Nat} {code : ErrorCode} (counted : next.index = next.rows.length)
    (same : rows = next.rows.map read)
    (now : next.ocbs conn = ⟨true, code, record, (flat.ocbs conn).filters⟩) :
    Reads read next conn ⟨rows, record, code⟩ where
  key := reads.key
  rows := same
  counted := counted
  selected := congrArg Ocb.selected now
  unfiltered := (congrArg Ocb.filters now).trans reads.unfiltered
  record := congrArg Ocb.record now
  qerrno := congrArg Ocb.qerrno now

theorem seek_place {desc : TableDesc} {ocb : Ocb} (selected : ocb.selected = true) (key : UInt32) :
    QXBase.seek desc ocb (bytesOf 4 key.toNat) =
      if desc.index < Records.place key then .ok (Ocb.done { ocb with record := 0 } .pkey)
      else .ok (Ocb.done { ocb with record := Records.place key } .ok) := by
  have word : wordOf (bytesOf 4 key.toNat) = key.toNat :=
    (wordOf_bytesOf 4 _).trans (Nat.mod_eq_of_lt key.toNat_lt)
  have place : (key.toNat + (2 ^ 32 - 1)) % 2 ^ 32 = Records.place key := by
    rw [Records.place, UInt32.toNat_sub, Nat.add_comm]
    rfl
  unfold QXBase.seek
  rw [if_neg (by simp [selected]), if_pos (bytesOf_length ..), word, place]

theorem Reads.seek (reads : Reads read flat conn table) (key : UInt32) :
    ∃ next, flat.handle conn (.control (.seek (bytesOf 4 key.toNat))) =
        .ok (next, .status (table.seek key).2) ∧
      Reads read next conn (table.seek key).1 := by
  have index : flat.desc.index = table.rows.length := reads.counted.trans reads.length.symm
  unfold Flat.handle control Records.seek
  simp only [seek_place reads.selected, index]
  by_cases beyond : table.rows.length < Records.place key
  · rw [if_pos beyond, if_pos beyond]
    refine ⟨_, rfl, reads.answered reads.counted reads.rows ?_⟩
    exact (Function.update_self conn _ _).trans (by simp [Ocb.done, reads.selected])
  · rw [if_neg beyond, if_neg beyond]
    refine ⟨_, rfl, reads.answered reads.counted reads.rows ?_⟩
    exact (Function.update_self conn _ _).trans (by simp [Ocb.done, reads.selected])

theorem Reads.updcur (reads : Reads read flat conn table) {message : List UInt8} {change : R → R}
    (fits : (Change.updcur message).fits flat.layout.toTableDesc = true)
    (changes : ∀ row ∈ flat.rows, ∃ result,
      updateRow flat.layout.toTableDesc message row = .ok result ∧ read result = change (read row)) :
    ∃ next, flat.handle conn (.change (.updcur message)) =
        .ok (next, .status (table.updcur change).2) ∧
      Reads read next conn (table.updcur change).1 := by
  have changed : flat.change (flat.ocbs conn) (.updcur message) = _ :=
    (if_neg (by simp [reads.selected])).trans (if_neg (by simp [fits]))
  have fresh (rows : List Row) (rows' : List R) (length : flat.index = rows.length)
      (same : rows' = rows.map read) (code : ErrorCode) :
      Reads read { flat with
        rows := rows
        ocbs := Function.update flat.ocbs conn ((flat.ocbs conn).done code).1 } conn
        ⟨rows', table.record, code⟩ := by
    refine reads.answered length same ?_
    refine (Function.update_self conn _ _).trans ?_
    rw [← reads.record, ← reads.selected]
    rfl
  unfold Flat.handle
  simp only [changed, reads.unfiltered, reads.record, Change.start, Change.single, ↓reduceIte]
  unfold Records.updcur changeFrom
  cases here : flat.rows[table.record]? with
  | none =>
    have beyond : flat.rows.length ≤ table.record := List.getElem?_eq_none_iff.mp here
    have missing : table.rows[table.record]? = none := by
      rw [reads.rows, List.getElem?_map, here]
      rfl
    have code : (if flat.index = 0 then ErrorCode.ok else (flat.ocbs conn).qerrno) =
        if table.rows.length = 0 then .ok else table.qerrno := by
      rw [reads.qerrno, reads.counted, reads.length]
    rw [missing, List.drop_eq_nil_of_le beyond, changeRows_nil, List.take_of_length_le beyond]
    simp only [Except.map, List.append_nil, code]
    exact ⟨_, rfl, fresh _ _ reads.counted reads.rows _⟩
  | some row =>
    obtain ⟨inside, found⟩ := List.getElem?_eq_some_iff.mp here
    have entry : table.rows[table.record]? = some (read row) := by
      rw [reads.rows, List.getElem?_map, here]
      rfl
    obtain ⟨result, ruled, became⟩ := changes row (List.mem_of_getElem? here)
    obtain ⟨tIndex, many⟩ : ∃ tIndex, flat.index = tIndex + 1 :=
      ⟨_, (Nat.succ_pred (by rw [reads.counted]; omega)).symm⟩
    have key : Recorded.key (read row) = 0 ↔ keyOf row = 0 := by
      rw [← reads.key row, ← UInt32.toNat_inj]
      rfl
    have scanned (rest : List Row) : changeRows flat.layout.toTableDesc [] (.updcur message)
        flat.index (row :: rest) = .ok (if keyOf row = 0 then row :: rest else result :: rest, 0) := by
      rw [many]
      simp only [changeRows, dataFilter]
      by_cases dead : keyOf row = 0
      · simp only [dead, ↓reduceIte, Change.single]
      · simp only [dead, ↓reduceIte, applyFilters, Change.apply, ruled, Change.single]
    rw [List.drop_eq_getElem_cons inside, found, scanned, entry]
    simp only [Except.map, key]
    by_cases dead : keyOf row = 0
    · have rows : flat.rows.take table.record ++ row :: flat.rows.drop (table.record + 1) =
          flat.rows := by
        rw [← found, List.getElem_cons_drop, List.take_append_drop]
      simp only [dead, ↓reduceIte, rows]
      exact ⟨_, rfl, fresh _ _ reads.counted reads.rows _⟩
    · have rows : flat.rows.take table.record ++ result :: flat.rows.drop (table.record + 1) =
          flat.rows.set table.record result := by
        rw [List.set_eq_take_append_cons_drop, if_pos inside]
      simp only [dead, ↓reduceIte, rows]
      refine ⟨_, rfl, fresh _ _ (by rw [List.length_set, reads.counted]) ?_ _⟩
      rw [List.map_set, became, reads.rows]

/-- The next record is the first row that is delivered without filters. -/
theorem nextLive_deliver (key : ∀ row, (Recorded.key (read row)).toNat = keyOf row)
    (rows : List Row) (start : Nat) :
    Records.nextLive (rows.map read) start =
      (deliver [] rows start).head?.map fun entry => (entry.2, read entry.1) := by
  induction rows generalizing start with
  | nil => rfl
  | cons row rest ih =>
    have live : Recorded.key (read row) = 0 ↔ keyOf row = 0 := by
      rw [← key row, ← UInt32.toNat_inj]
      rfl
    simp only [List.map_cons, Records.nextLive, deliver, dataFilter, live]
    by_cases dead : keyOf row = 0
    · rw [if_pos dead, if_pos dead]
      exact ih (start + 1)
    · rw [if_neg dead, if_neg dead]
      rfl

/-- The next record that arrives is the next row that does. -/
theorem Reads.fetch (reads : Reads read flat conn table) {nbytes : Nat}
    (room : flat.layout.rowLen ≤ nbytes) (inside : table.record ≤ table.rows.length) :
    match Records.nextLive (table.rows.drop table.record) table.record with
    | some (position, found) => ∃ next row,
        flat.handle conn (.fetch nbytes) = .ok (next, .row (some row)) ∧ found = read row ∧
        next.layout = flat.layout ∧ Reads read next conn ⟨table.rows, position + 1, .ok⟩
    | none => ∃ next, flat.handle conn (.fetch nbytes) = .ok (next, .row none) ∧
        (next.ocbs conn).qerrno = .lastrow := by
  have fetched : flat.fetch (flat.ocbs conn) nbytes =
      flatRead flat.rows flat.rows.length (flat.ocbs conn) := by
    unfold Flat.fetch
    rw [if_neg (by simp [reads.selected]), if_neg (by omega), reads.counted]
  have next := @flatRead_deliver flat.rows (flat.ocbs conn)
    (by rw [reads.record, ← reads.length]; exact inside)
  rw [reads.rows, ← List.map_drop, nextLive_deliver reads.key]
  unfold Flat.handle
  rw [reads.record, reads.unfiltered] at next
  rcases next with ⟨position, _, here, delivered, read'⟩ | ⟨delivered, record, read'⟩
  · rw [delivered]
    simp only [fetched, read', List.head?_cons, Option.map_some]
    refine ⟨_, _, rfl, rfl, rfl, reads.answered reads.counted rfl ?_⟩
    exact (Function.update_self conn _ _).trans (by simp [reads.selected, reads.unfiltered])
  · rw [delivered]
    simp only [fetched, read', List.head?_nil, Option.map_none]
    refine ⟨_, rfl, ?_⟩
    dsimp only
    rw [Function.update_self]

end Reading

end QNXStuff.QXBase
