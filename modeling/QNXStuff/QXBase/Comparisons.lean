import Mathlib.Tactic.IntervalCases
import QNXStuff.QXBase.Row

/-! The comparison functions as one order: which of the single flags accept a row. -/

namespace QNXStuff.QXBase

/-- `FLTRDEFINE` has completed the filter for a field of the table, and the bytes of its value were
sent. -/
structure Filter.On (condition : Filter) (layout : Layout) : Prop where
  desc : ∃ field ∈ layout.fields, condition.field = field.offset ∧
    condition.fSize = field.length ∧ ffuncs[field.type]? = some condition.cmpFunc
  sent : condition.vSize ≤ condition.value.length

def Filter.flagged (condition : Filter) (flags : Nat) : Filter := { condition with flags := flags }

/-- The flags that the comparison functions look at, in the order of that of strings. -/
def cmpFlags : List Nat := [cmpEq, cmpCeq, cmpG, cmpCg, cmpL, cmpCl]

namespace Filter

variable (condition : Filter) (row : Row)

def fieldBytes : List UInt8 := (row.drop condition.field).take condition.fSize

def valueBytes : List UInt8 := condition.value.take condition.vSize

/-- Combined flags accept what one of them accepts. -/
def Unites : Prop :=
  ∀ flags, (condition.flagged flags).accepts row =
    cmpFlags.any fun flag => flags &&& flag != 0 && (condition.flagged flag).accepts row

/-- Exactly one of three flags accepts. -/
def OneOf (equal greater lower : Nat) : Prop :=
  ([equal, greater, lower].map fun flag => (condition.flagged flag).accepts row).count true = 1

/-- What the type of the field asks of the single flags. -/
def Orders : Prop :=
  match condition.cmpFunc with
  | .uint | .int | .uint16 | .int16 | .timestamp => condition.OneOf row cmpEq cmpG cmpL
  | .string => condition.OneOf row cmpEq cmpG cmpL ∧ condition.OneOf row cmpCeq cmpCg cmpCl
  | .binary => (condition.flagged cmpEq).accepts row ↔ condition.fieldBytes row = condition.valueBytes
  | .double => True

/-- Where the comparison functions are such an order: strings must be equal but for the case of
letters, and binary data must differ, though not by 1 in the first byte that does. -/
def InOrder : Prop :=
  match condition.cmpFunc with
  | .uint | .int | .uint16 | .int16 | .timestamp | .double => True
  | .string => condition.fSize = condition.vSize ∧
      memicmp (row.drop condition.field) condition.value condition.fSize = 0
  | .binary => condition.fSize = condition.vSize →
      memcmp (row.drop condition.field) condition.value condition.fSize ≠ 0 ∧
        memcmp (row.drop condition.field) condition.value condition.fSize ≠ 1

variable {condition row}

/-- A function makes these tests, each where its flag is set. -/
def Tests (condition : Filter) (row : Row) (test : Nat → Bool) : Prop :=
  ∀ flags, (condition.flagged flags).accepts row =
    cmpFlags.any fun flag => flags &&& flag != 0 && test flag

theorem cmpFlags_apart : ∀ flag ∈ cmpFlags, ∀ other ∈ cmpFlags,
    (flag &&& other != 0) = (flag == other) := by decide

theorem Tests.single {test : Nat → Bool} (tests : condition.Tests row test) {flag : Nat}
    (known : flag ∈ cmpFlags) : (condition.flagged flag).accepts row = test flag := by
  rw [tests]
  apply Bool.eq_iff_iff.mpr
  constructor
  · intro some
    obtain ⟨other, member, meets⟩ := List.any_eq_true.mp some
    rw [cmpFlags_apart flag known other member, Bool.and_eq_true, beq_iff_eq] at meets
    exact meets.1 ▸ meets.2
  · intro meets
    refine List.any_eq_true.mpr ⟨flag, known, ?_⟩
    rw [cmpFlags_apart flag known flag known, meets, beq_self_eq_true]
    rfl

theorem Tests.unites {test : Nat → Bool} (tests : condition.Tests row test) :
    condition.Unites row := by
  intro flags
  rw [tests]
  apply Bool.eq_iff_iff.mpr
  simp only [List.any_eq_true, Bool.and_eq_true]
  constructor
  · rintro ⟨flag, known, set, meets⟩
    exact ⟨flag, known, set, (tests.single known).trans meets⟩
  · rintro ⟨flag, known, set, accepts⟩
    exact ⟨flag, known, set, (tests.single known).symm.trans accepts⟩

theorem Tests.oneOf_iff {test : Nat → Bool} (tests : condition.Tests row test)
    {equal greater lower : Nat} (known : equal ∈ cmpFlags) (known' : greater ∈ cmpFlags)
    (known'' : lower ∈ cmpFlags) : condition.OneOf row equal greater lower ↔
      [test equal, test greater, test lower].count true = 1 := by
  unfold OneOf
  simp only [List.map_cons, List.map_nil, tests.single known, tests.single known',
    tests.single known'']

def numberTest (equal greater lower : Bool) (flag : Nat) : Bool :=
  if flag = cmpEq then equal else if flag = cmpG then greater else flag == cmpL && lower

theorem tests_compare {equal greater lower : Bool}
    (compares : ∀ flags, (condition.flagged flags).accepts row =
      (condition.flagged flags).compare equal greater lower) :
    condition.Tests row (numberTest equal greater lower) := by
  intro flags
  rw [compares]
  show _ = (flags &&& cmpEq != 0 && equal || (flags &&& cmpCeq != 0 && false ||
    (flags &&& cmpG != 0 && greater || (flags &&& cmpCg != 0 && false ||
      (flags &&& cmpL != 0 && lower || (flags &&& cmpCl != 0 && false || false))))))
  simp only [compare, has, flagged, Bool.and_false, Bool.false_or, Bool.or_false, Bool.or_assoc]

/-- Numbers are equal, greater or lower, and never two of these. -/
theorem count_trichotomy {Number : Type} [LinearOrder Number] (field value : Number) :
    [decide (field = value), decide (value < field), decide (field < value)].count true = 1 := by
  rcases lt_trichotomy field value with lower | rfl | greater
  · simp [lower, lower.ne, lower.not_gt]
  · simp
  · simp [greater, greater.ne', greater.not_gt]

/-- The comparisons of whole numbers and of seconds make three tests of which one succeeds. -/
theorem whole_compares
    (whole : condition.cmpFunc ∈ [.uint, .int, .uint16, .int16, .timestamp]) :
    ∃ equal greater lower : Bool, [equal, greater, lower].count true = 1 ∧
      ∀ flags, (condition.flagged flags).accepts row =
        (condition.flagged flags).compare equal greater lower := by
  unfold accepts
  simp only [flagged]
  cases type : condition.cmpFunc with
  | uint | timestamp =>
    exact ⟨_, _, _, count_trichotomy (condition.fieldWord 4 row) (condition.valueWord 4),
      fun _ => rfl⟩
  | int =>
    exact ⟨_, _, _, count_trichotomy (signed 4 (condition.fieldWord 4 row))
      (signed 4 (condition.valueWord 4)), fun _ => rfl⟩
  | uint16 =>
    exact ⟨_, _, _, count_trichotomy (condition.fieldWord 2 row) (condition.valueWord 2),
      fun _ => rfl⟩
  | int16 =>
    exact ⟨_, _, _, count_trichotomy (signed 2 (condition.fieldWord 2 row))
      (signed 2 (condition.valueWord 2)), fun _ => rfl⟩
  | double | binary | string =>
    rw [type] at whole
    exact absurd whole (by decide)

theorem double_compares (double : condition.cmpFunc = .double) :
    ∃ equal greater lower : Bool, ∀ flags, (condition.flagged flags).accepts row =
      (condition.flagged flags).compare equal greater lower := by
  let value := Float.ofBits (UInt64.ofNat (condition.valueWord 8))
  let field := Float.ofBits (UInt64.ofNat (condition.fieldWord 8 row))
  refine ⟨field == value, value < field, field < value, fun flags => ?_⟩
  unfold accepts
  simp only [flagged, double]
  rfl

theorem orders_whole (whole : condition.cmpFunc ∈ [.uint, .int, .uint16, .int16, .timestamp]) :
    condition.Unites row ∧ condition.OneOf row cmpEq cmpG cmpL := by
  obtain ⟨equal, greater, lower, one, compares⟩ := condition.whole_compares whole
  have tests := tests_compare compares
  exact ⟨tests.unites, (tests.oneOf_iff (by decide) (by decide) (by decide)).mpr one⟩

def stringTest (condition : Filter) (row : Row) (flag : Nat) : Bool :=
  let field := row.drop condition.field
  let value := condition.value
  let whole := condition.fSize == condition.vSize
  let size := min condition.fSize condition.vSize
  if flag = cmpEq then whole && 0 == memcmp field value condition.fSize
  else if flag = cmpCeq then whole && 0 == memicmp field value condition.fSize
  else if flag = cmpG then 0 < memcmp field value size
  else if flag = cmpL then 0 > memcmp field value size
  else 0 < memicmp field value size

theorem tests_string (string : condition.cmpFunc = .string) :
    condition.Tests row (condition.stringTest row) := by
  intro flags
  let field := row.drop condition.field
  let whole := condition.fSize == condition.vSize
  let size := min condition.fSize condition.vSize
  show _ = (flags &&& cmpEq != 0 && (whole && 0 == memcmp field condition.value condition.fSize) ||
    (flags &&& cmpCeq != 0 && (whole && 0 == memicmp field condition.value condition.fSize) ||
      (flags &&& cmpG != 0 && decide (0 < memcmp field condition.value size) ||
        (flags &&& cmpCg != 0 && decide (0 < memicmp field condition.value size) ||
          (flags &&& cmpL != 0 && decide (0 > memcmp field condition.value size) ||
            (flags &&& cmpCl != 0 && decide (0 < memicmp field condition.value size) || false))))))
  unfold accepts
  simp only [flagged, string, filterString, has, Bool.or_assoc, Bool.or_false, Bool.and_assoc]
  rfl

/-- Exactly one of two strict inequalities and an equality that is not always looked at. -/
theorem count_signs (whole : Bool) (difference : Int) :
    [whole && 0 == difference, decide (0 < difference), decide (0 > difference)].count true = 1 ↔
      (whole = true ∨ difference ≠ 0) := by
  rcases lt_trichotomy difference 0 with lower | rfl | greater
  · simp [lower, lower.ne, lower.ne', lower.not_gt]
  · cases whole <;> simp
  · simp [greater, greater.ne, greater.ne', greater.not_gt]

/-- The same with the first inequality in place of the second. -/
theorem count_copied (whole : Bool) (difference : Int) :
    [whole && 0 == difference, decide (0 < difference), decide (0 < difference)].count true = 1 ↔
      (whole = true ∧ difference = 0) := by
  rcases lt_trichotomy difference 0 with lower | rfl | greater
  · simp [lower.ne, lower.ne', lower.not_gt]
  · cases whole <;> simp
  · simp [greater, greater.ne, greater.ne']

theorem orders_string (string : condition.cmpFunc = .string) :
    (condition.OneOf row cmpEq cmpG cmpL ∧ condition.OneOf row cmpCeq cmpCg cmpCl) ↔
      (condition.fSize = condition.vSize ∧
        memicmp (row.drop condition.field) condition.value condition.fSize = 0) := by
  have tests : condition.Tests row (condition.stringTest row) := tests_string string
  rw [tests.oneOf_iff (by decide) (by decide) (by decide),
    tests.oneOf_iff (by decide) (by decide) (by decide)]
  let field := row.drop condition.field
  let value := condition.value
  let whole := condition.fSize == condition.vSize
  let size := min condition.fSize condition.vSize
  -- of strings of one size all bytes are compared
  have same (difference : Nat → Int) :
      (whole && 0 == difference condition.fSize) = (whole && 0 == difference size) := by
    by_cases equal : condition.fSize = condition.vSize
    · rw [show size = condition.fSize by simp [size, equal]]
    · rw [show whole = false by simp [whole, equal]]
      rfl
  have exact : [condition.stringTest row cmpEq, condition.stringTest row cmpG,
      condition.stringTest row cmpL].count true = 1 ↔ whole = true ∨ memcmp field value size ≠ 0 := by
    rw [← count_signs, ← same]
    rfl
  have folded : [condition.stringTest row cmpCeq, condition.stringTest row cmpCg,
      condition.stringTest row cmpCl].count true = 1 ↔
        whole = true ∧ memicmp field value size = 0 := by
    rw [← count_copied, ← same]
    rfl
  rw [exact, folded]
  constructor
  · rintro ⟨-, equal, alike⟩
    have equal : condition.fSize = condition.vSize := beq_iff_eq.mp equal
    refine ⟨equal, ?_⟩
    rw [← alike, show size = condition.fSize by simp [size, equal]]
  · rintro ⟨equal, alike⟩
    have known : whole = true := beq_iff_eq.mpr equal
    refine ⟨.inl known, known, ?_⟩
    rw [← alike, show size = condition.fSize by simp [size, equal]]

end Filter

/-- `memcmp` looks at no more bytes than it is told to. -/
theorem memcmp_take (first second : List UInt8) (count : Nat) :
    memcmp (first.take count) (second.take count) count = memcmp first second count := by
  induction count generalizing first second with
  | zero => simp [memcmp]
  | succ count ih =>
    cases first with
    | nil => rfl
    | cons byte rest =>
      cases second with
      | nil => rfl
      | cons byte' rest' => simp only [List.take_succ_cons, memcmp, ih]

namespace Filter

variable {condition : Filter} {row : Row}

def binaryTest (condition : Filter) (row : Row) (flag : Nat) : Bool :=
  flag == cmpEq && condition.fSize == condition.vSize &&
    1 == memcmp (row.drop condition.field) condition.value condition.fSize

theorem tests_binary (binary : condition.cmpFunc = .binary) :
    condition.Tests row (condition.binaryTest row) := by
  intro flags
  let equal := condition.fSize == condition.vSize &&
    1 == memcmp (row.drop condition.field) condition.value condition.fSize
  show _ = (flags &&& cmpEq != 0 && equal || (flags &&& cmpCeq != 0 && false ||
    (flags &&& cmpG != 0 && false || (flags &&& cmpCg != 0 && false ||
      (flags &&& cmpL != 0 && false || (flags &&& cmpCl != 0 && false || false))))))
  unfold accepts
  simp only [flagged, binary, filterBinary, filterBinaryBy, has, Bool.and_false, Bool.or_false]
  by_cases sized : condition.fSize = condition.vSize
  · simp [equal, sized]
  · simp [equal, sized]

theorem type_of_binary {type : Nat} (known : ffuncs[type]? = some .binary) :
    type = typeBinary := by
  obtain ⟨inside, found⟩ := List.getElem?_eq_some_iff.mp known
  have inside : type < 8 := inside
  interval_cases type <;> first | rfl | cases found

theorem On.fieldBytes_length {layout : Layout} (on : condition.On layout)
    (full : row.length = layout.rowLen) (binary : condition.cmpFunc = .binary) :
    (condition.fieldBytes row).length = condition.fSize := by
  obtain ⟨field, known, offset, length, type⟩ := on.desc
  rw [binary] at type
  have width : field.width = field.length := by
    unfold FieldDesc.width
    rw [type_of_binary type]
    rfl
  have inRow := layout.sound.inRow field known
  simp only [fieldBytes, List.length_take, List.length_drop, full, offset, length]
  omega

/-- With a `memcmp` that gives 0 for equal bytes only, binary data are found equal where they are not
and it gives 1. -/
theorem filterBinaryBy_iff {compare : List UInt8 → List UInt8 → Nat → Int} {layout : Layout}
    (documented : ∀ first second count, compare first second count = 0 ↔
      memcmp first second count = 0)
    (on : condition.On layout) (full : row.length = layout.rowLen)
    (binary : condition.cmpFunc = .binary) :
    (filterBinaryBy compare (condition.flagged cmpEq) row = true ↔
        condition.fieldBytes row = condition.valueBytes) ↔
      (condition.fSize = condition.vSize →
        compare (row.drop condition.field) condition.value condition.fSize ≠ 0 ∧
          compare (row.drop condition.field) condition.value condition.fSize ≠ 1) := by
  have fieldLength := on.fieldBytes_length full binary
  have valueLength : condition.valueBytes.length = condition.vSize := by
    simpa [valueBytes] using on.sent
  have test : filterBinaryBy compare (condition.flagged cmpEq) row = true ↔
      condition.fSize = condition.vSize ∧
        compare (row.drop condition.field) condition.value condition.fSize = 1 := by
    have flag : (condition.flagged cmpEq).has cmpEq = true := by
      show (cmpEq &&& cmpEq != 0) = true
      decide
    unfold filterBinaryBy
    rw [flag]
    by_cases sized : condition.fSize = condition.vSize
    · simp only [flagged, sized, bne_self_eq_false, Bool.false_eq_true, if_false, Bool.true_and,
        beq_iff_eq, true_and]
      exact eq_comm
    · simp [flagged, sized]
  rw [test]
  by_cases sized : condition.fSize = condition.vSize
  · have equal : condition.fieldBytes row = condition.valueBytes ↔
        compare (row.drop condition.field) condition.value condition.fSize = 0 := by
      rw [documented, ← memcmp_eq_zero fieldLength (valueLength.trans sized.symm)]
      unfold fieldBytes valueBytes
      rw [← sized, memcmp_take]
    rw [equal]
    simp only [sized, true_and, true_implies]
    omega
  · have apart : condition.fieldBytes row ≠ condition.valueBytes := by
      intro same
      exact sized (fieldLength.symm.trans ((congrArg List.length same).trans valueLength))
    simp only [sized, apart, false_and, false_implies]

/-- Binary data are found equal where they differ by 1. -/
theorem orders_binary {layout : Layout} (on : condition.On layout) (full : row.length = layout.rowLen)
    (binary : condition.cmpFunc = .binary) :
    ((condition.flagged cmpEq).accepts row ↔ condition.fieldBytes row = condition.valueBytes) ↔
      (condition.fSize = condition.vSize →
        memcmp (row.drop condition.field) condition.value condition.fSize ≠ 0 ∧
          memcmp (row.drop condition.field) condition.value condition.fSize ≠ 1) := by
  rw [← filterBinaryBy_iff (fun _ _ _ => .rfl) on full binary]
  unfold accepts
  rw [show (condition.flagged cmpEq).cmpFunc = .binary from binary]
  rfl

/-- Combined flags always accept the union. -/
theorem unites (condition : Filter) (row : Row) : condition.Unites row := by
  cases type : condition.cmpFunc with
  | uint | int | uint16 | int16 | timestamp =>
    exact (orders_whole (by simp [type])).1
  | double =>
    obtain ⟨equal, greater, lower, compares⟩ := double_compares type
    exact (tests_compare compares).unites
  | binary => exact (tests_binary type).unites
  | string => exact (tests_string type).unites

end Filter

/-- The comparison functions are one order exactly where `InOrder` says so. -/
theorem comparisons_order_iff {layout : Layout} {condition : Filter} (on : condition.On layout)
    {row : Row} (full : row.length = layout.rowLen) :
    (condition.Unites row ∧ condition.Orders row) ↔ condition.InOrder row := by
  rw [and_iff_right (condition.unites row)]
  unfold Filter.Orders Filter.InOrder
  cases type : condition.cmpFunc with
  | uint | int | uint16 | int16 | timestamp =>
    exact iff_of_true (Filter.orders_whole (by simp [type])).2 trivial
  | double => rfl
  | binary => exact Filter.orders_binary on full type
  | string => exact Filter.orders_string type

/-- A key and a string of two letters. -/
def initialsLayout : Layout where
  name := "initials"
  size := 104
  rowLen := 6
  index := 0
  pageRows := 1
  lockPages := 3
  fields := [⟨typeUint, 4, 0⟩, ⟨typeString, 2, 4⟩]
  sound := by
    constructor
    · decide
    · decide
    · decide
    · decide
    · decide
    · decide

def initialsFilter (value : List UInt8) : Filter where
  flags := 0
  fNum := 1
  field := 4
  fSize := 2
  vSize := value.length
  cmpFunc := .string
  value := value

theorem initialsFilter_on (value : List UInt8) : (initialsFilter value).On initialsLayout :=
  ⟨⟨⟨typeString, 2, 4⟩, by decide, rfl, rfl, rfl⟩, Nat.le_refl _⟩

/-- "Mp" and "mP" are equal but for the case of letters, and "Mp" comes first. -/
theorem initials_are_ordered :
    (initialsFilter [0x6D, 0x50]).Unites [1, 0, 0, 0, 0x4D, 0x70] ∧
      (initialsFilter [0x6D, 0x50]).Orders [1, 0, 0, 0, 0x4D, 0x70] := by
  apply (comparisons_order_iff (initialsFilter_on _) rfl).mpr
  exact ⟨rfl, by decide +kernel⟩

/-- "ba" is both greater and lower than "aa" where the case of letters is ignored. -/
theorem greater_string_is_lower :
    (initialsFilter [0x61, 0x61]).On initialsLayout ∧
      ¬ (initialsFilter [0x61, 0x61]).Orders [1, 0, 0, 0, 0x62, 0x61] := by
  refine ⟨initialsFilter_on _, fun orders => ?_⟩
  have one : ([cmpCeq, cmpCg, cmpCl].map fun flag =>
    ((initialsFilter [0x61, 0x61]).flagged flag).accepts [1, 0, 0, 0, 0x62, 0x61]).count true = 1 :=
    orders.2
  exact absurd one (by decide +kernel)

end QNXStuff.QXBase
