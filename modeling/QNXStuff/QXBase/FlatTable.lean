import QNXStuff.QXBase.Handlers

/-! What a table is for: an array of rows. The requests do to it what they do to a
page, but there are no pages, no pool and no file. -/

namespace QNXStuff.QXBase

/-- A scan over rows: what it leaves of them and of the rows it may still look at. -/
def changeRows (desc : TableDesc) (filters : List Filter) (change : Change) :
    Nat → List Row → Except Fault (List Row × Nat)
  | tIndex, [] => .ok ([], tIndex)
  | 0, row :: rest => .ok (row :: rest, 0)
  | tIndex + 1, row :: rest =>
    match dataFilter filters row with
    | .broken => .ok (row :: rest, 0)
    | .skip =>
      if change.single then .ok (row :: rest, 0)
      else (changeRows desc filters change tIndex rest).map fun scan => (row :: scan.1, scan.2)
    | .pass =>
      match change.apply desc row with
      | .error fault => .error fault
      | .ok result =>
        if change.single then .ok (result :: rest, 0)
        else (changeRows desc filters change tIndex rest).map fun scan => (result :: scan.1, scan.2)

/-- A scan that starts at a position. -/
def changeFrom (desc : TableDesc) (filters : List Filter) (change : Change)
    (tIndex start : Nat) (rows : List Row) : Except Fault (List Row × Nat) :=
  (changeRows desc filters change tIndex (rows.drop start)).map fun scan =>
    (rows.take start ++ scan.1, scan.2)

/-- The rows, the counter of inserted rows and the connections. -/
structure Flat where
  layout : Layout
  index : Nat
  rows : List Row
  ocbs : ConnId → Ocb

/-- What a scan that stopped at a row tells the client, for a counter that says how
many rows there should be. -/
def readOutcome (rows : List Row) (index : Nat) (ocb : Ocb) : Nat × Verdict → Ocb × Option Row
  | (row, .pass) => ({ ocb with record := row + 1, qerrno := .ok }, some (rows.getD row []))
  | (row, .broken) => ({ ocb with record := row, qerrno := .lastrow }, none)
  | (row, .skip) =>
    if row < index then ({ ocb with record := row }, none)
    else ({ ocb with record := row, qerrno := .lastrow }, none)

/-- The next row that the filters do not skip. -/
def flatRead (rows : List Row) (index : Nat) (ocb : Ocb) : Ocb × Option Row :=
  if ocb.record < index then
    readOutcome rows index ocb
      (scanRows ocb.filters (rows.getD · []) (rows.length - ocb.record) ocb.record)
  else ({ ocb with qerrno := .lastrow }, none)

def Flat.fetch (flat : Flat) (ocb : Ocb) (nbytes : Nat) : Ocb × Option Row :=
  if ocb.selected = false then ({ ocb with qerrno := .notblsel }, none)
  else if nbytes < flat.layout.rowLen then ({ ocb with qerrno := .mem }, none)
  else flatRead flat.rows flat.index ocb

/-- The counter counts every attempt; the row is added when its data has arrived. -/
def flatWrite (layout : Layout) (rows : List Row) (index : Nat) (ocb : Ocb) (data : List UInt8) :
    List Row × Ocb × Nat :=
  if (data.take layout.rowLen).length ≠ layout.rowLen then (rows, { ocb with qerrno := .ins }, 0)
  else
    (rows ++ [withKey (data.take layout.rowLen) index],
      { ocb with record := (index + (2 ^ 32 - 1)) % 2 ^ 32 }, layout.rowLen)

def Flat.insert (flat : Flat) (ocb : Ocb) (nbytes : Nat) (data : List UInt8) : Flat × Ocb × Nat :=
  if ocb.selected = false then (flat, { ocb with qerrno := .notblsel }, 0)
  else if nbytes < flat.layout.rowLen then (flat, { ocb with qerrno := .buf }, 0)
  else
    let index := (flat.index + 1) % 2 ^ 32
    let (rows, ocb, count) := flatWrite flat.layout flat.rows index ocb data
    ({ flat with rows := rows, index := index }, ocb, count)

/-- A scan that looks for more rows than there are reports what the connection had. -/
def Flat.change (flat : Flat) (ocb : Ocb) (change : Change) :
    Except Fault (List Row × ErrorCode) :=
  if ocb.selected = false then .ok (flat.rows, .notblsel)
  else if change.fits flat.layout.toTableDesc = false then .ok (flat.rows, .buf)
  else
    (changeFrom flat.layout.toTableDesc ocb.filters change flat.index (change.start ocb)
      flat.rows).map fun scan => (scan.1, if scan.2 = 0 then .ok else ocb.qerrno)

def Flat.desc (flat : Flat) : TableDesc := { flat.layout.toTableDesc with index := flat.index }

def Flat.handle (flat : Flat) (conn : ConnId) : Request → Except Fault (Flat × Reply)
  | .insert nbytes data =>
    let (flat, ocb, count) := flat.insert (flat.ocbs conn) nbytes data
    .ok ({ flat with ocbs := Function.update flat.ocbs conn ocb }, .written count)
  | .fetch nbytes =>
    let (ocb, row) := flat.fetch (flat.ocbs conn) nbytes
    .ok ({ flat with ocbs := Function.update flat.ocbs conn ocb }, .row row)
  | .change change =>
    (flat.change (flat.ocbs conn) change).map fun (rows, retval) =>
      let answer := (flat.ocbs conn).done retval
      ({ flat with rows := rows, ocbs := Function.update flat.ocbs conn answer.1 }, answer.2)
  | .tblflush =>
    let answer := (flat.ocbs conn).done
      (if (flat.ocbs conn).selected then .ok else .notblsel)
    .ok ({ flat with ocbs := Function.update flat.ocbs conn answer.1 }, answer.2)
  | .reload => .ok ({ flat with ocbs := reloadOcbs flat.ocbs conn }, .status .ok)
  | .control request =>
    (control flat.desc (flat.ocbs conn) request).map fun (ocb, reply) =>
      ({ flat with ocbs := Function.update flat.ocbs conn ocb }, reply)

def FlatStep : Flat → Exchange → Flat → Prop :=
  Execution.Answers fun flat input => flat.handle input.1 input.2

/-! ### Scans in pieces -/

section Scan

variable {desc : TableDesc} {filters : List Filter} {change : Change}

@[simp] theorem changeRows_zero (rows : List Row) :
    changeRows desc filters change 0 rows = .ok (rows, 0) := by
  cases rows <;> rfl

@[simp] theorem changeRows_nil (tIndex : Nat) :
    changeRows desc filters change tIndex [] = .ok ([], tIndex) := by
  cases tIndex <;> rfl

/-- A scan of two pieces is a scan of the first and then of the second. -/
theorem changeRows_append (front back : List Row) (tIndex : Nat) :
    changeRows desc filters change tIndex (front ++ back) =
      match changeRows desc filters change tIndex front with
      | .error fault => .error fault
      | .ok (front, left) =>
        (changeRows desc filters change left back).map fun scan => (front ++ scan.1, scan.2) := by
  induction front generalizing tIndex with
  | nil =>
    rw [List.nil_append, changeRows_nil]
    show _ = (changeRows desc filters change tIndex back).map fun scan => ([] ++ scan.1, scan.2)
    cases changeRows desc filters change tIndex back <;> rfl
  | cons row rest ih =>
    cases tIndex with
    | zero => simp [Except.map]
    | succ tIndex =>
      have step (head : Row) :
          ((changeRows desc filters change tIndex (rest ++ back)).map fun scan =>
            (head :: scan.1, scan.2)) =
          match (changeRows desc filters change tIndex rest).map fun scan =>
              (head :: scan.1, scan.2) with
          | .error fault => .error fault
          | .ok (front, left) =>
            (changeRows desc filters change left back).map fun scan =>
              (front ++ scan.1, scan.2) := by
        rw [ih]
        cases changeRows desc filters change tIndex rest with
        | error fault => rfl
        | ok scan =>
          obtain ⟨rest', left⟩ := scan
          simp only [Except.map]
          cases changeRows desc filters change left back <;> rfl
      rw [List.cons_append]
      simp only [changeRows]
      cases dataFilter filters row with
      | broken => simp [Except.map]
      | skip =>
        cases change.single with
        | true => simp [Except.map]
        | false => simpa using step row
      | pass =>
        cases change.apply desc row with
        | error fault => rfl
        | ok result =>
          cases change.single with
          | true => simp [Except.map]
          | false => simpa using step result

theorem changeRows_length {rows result : List Row} {tIndex left : Nat}
    (scanned : changeRows desc filters change tIndex rows = .ok (result, left)) :
    result.length = rows.length := by
  induction rows generalizing tIndex result left with
  | nil =>
    rw [changeRows_nil] at scanned
    cases scanned
    rfl
  | cons row rest ih =>
    have step (head : Row) {tIndex : Nat} (rest' : (changeRows desc filters change tIndex rest).map
        (fun scan => (head :: scan.1, scan.2)) = .ok (result, left)) :
        result.length = (row :: rest).length := by
      cases inner : changeRows desc filters change tIndex rest with
      | error fault =>
        rw [inner] at rest'
        cases rest'
      | ok scan =>
        rw [inner] at rest'
        cases rest'
        simpa using ih inner
    cases tIndex with
    | zero =>
      rw [changeRows_zero] at scanned
      cases scanned
      rfl
    | succ tIndex =>
      simp only [changeRows] at scanned
      cases verdict : dataFilter filters row with
      | broken =>
        rw [verdict] at scanned
        cases scanned
        rfl
      | skip =>
        rw [verdict] at scanned
        cases single : change.single with
        | true =>
          simp only [single, ↓reduceIte] at scanned
          cases scanned
          rfl
        | false =>
          simp only [single, Bool.false_eq_true, ↓reduceIte] at scanned
          exact step row scanned
      | pass =>
        rw [verdict] at scanned
        cases applied : change.apply desc row with
        | error fault =>
          simp only [applied] at scanned
          cases scanned
        | ok changed =>
          cases single : change.single with
          | true =>
            simp only [applied, single, ↓reduceIte] at scanned
            cases scanned
            rfl
          | false =>
            simp only [applied, single, Bool.false_eq_true, ↓reduceIte] at scanned
            exact step changed scanned

theorem scanRows_bounds {rowAt : Nat → Row} (count row : Nat) :
    row ≤ (scanRows filters rowAt count row).1 ∧
      (scanRows filters rowAt count row).1 ≤ row + count ∧
      ((scanRows filters rowAt count row).2 = .skip →
        (scanRows filters rowAt count row).1 = row + count) ∧
      ((scanRows filters rowAt count row).2 ≠ .skip →
        (scanRows filters rowAt count row).1 < row + count) := by
  induction count generalizing row with
  | zero => simp [scanRows]
  | succ count ih =>
    obtain ⟨above, below, skipped, found⟩ := ih (row + 1)
    unfold scanRows
    cases verdict : dataFilter filters (rowAt row) with
    | skip =>
      simp only
      exact ⟨by omega, by omega, fun skip => by have := skipped skip; omega,
        fun other => by have := found other; omega⟩
    | pass => simp
    | broken => simp

/-- A scan that skips its first piece goes on with the second. -/
theorem scanRows_append {rowAt : Nat → Row} (count more row : Nat) :
    scanRows filters rowAt (count + more) row =
      if (scanRows filters rowAt count row).2 = .skip then
        scanRows filters rowAt more (row + count)
      else scanRows filters rowAt count row := by
  induction count generalizing row with
  | zero => simp [scanRows]
  | succ count ih =>
    rw [Nat.succ_add]
    cases verdict : dataFilter filters (rowAt row) with
    | skip =>
      simp only [scanRows, verdict]
      rw [ih, show row + 1 + count = row + (count + 1) by omega]
    | pass => simp [scanRows, verdict]
    | broken => simp [scanRows, verdict]

/-- Reading on behind a piece that was skipped, as far as there are rows to read. -/
theorem flatRead_piece {rows : List Row} {index count : Nat} {ocb : Ocb}
    (more : ocb.record < index) (counted : rows.length ≤ index)
    (inside : ocb.record + count ≤ rows.length ∨ count = 0) :
    flatRead rows index ocb =
      match scanRows ocb.filters (rows.getD · []) count ocb.record with
      | (row, .skip) => flatRead rows index { ocb with record := row }
      | found => readOutcome rows index ocb found := by
  have split : rows.length - ocb.record =
      count + (rows.length - (ocb.record + count)) := by omega
  obtain ⟨_, _, skipped, _⟩ :=
    scanRows_bounds count ocb.record
  unfold flatRead
  rw [if_pos more, split, scanRows_append]
  cases piece : scanRows ocb.filters (rows.getD · []) count ocb.record with
  | mk row verdict =>
    rw [piece] at skipped
    cases verdict with
    | pass => rfl
    | broken => rfl
    | skip =>
      have row_eq : row = ocb.record + count := skipped rfl
      subst row_eq
      simp only [↓reduceIte]
      by_cases further : ocb.record + count < index
      · rw [if_pos further]
        rfl
      · have none : rows.length - (ocb.record + count) = 0 := by omega
        rw [if_neg further, none]
        simp only [scanRows, readOutcome, if_neg further]

/-- A scan of rows that are the rows of another array from some position on. -/
theorem scanRows_shift {rowAt rowAt' : Nat → Row} {base : Nat} {count row : Nat}
    (same : ∀ other, row ≤ other → other < row + count → rowAt' (base + other) = rowAt other) :
    scanRows filters rowAt' count (base + row) =
      (base + (scanRows filters rowAt count row).1, (scanRows filters rowAt count row).2) := by
  induction count generalizing row with
  | zero => rfl
  | succ count ih =>
    simp only [scanRows]
    rw [same row (Nat.le_refl _) (by omega)]
    cases dataFilter filters (rowAt row) with
    | skip =>
      simp only
      exact @ih (row + 1) fun other above below => same other (by omega) (by omega)
    | pass => rfl
    | broken => rfl

end Scan

end QNXStuff.QXBase
