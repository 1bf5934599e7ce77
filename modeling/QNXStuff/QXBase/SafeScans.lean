import QNXStuff.QXBase.Breaches

/-! The scans of a table stay clear of a breach. -/

namespace QNXStuff.QXBase.Requests

open Memory Execution

section Reads

variable {breach : Breach} {Value : Type} {post : Value → Prop} {block : List UInt8}

theorem word_then {offset : Nat} {next : Nat → Except Breach Value}
    (inside : breach = .descriptor → offset + 4 ≤ block.length)
    (rest : offset + 4 ≤ block.length → Avoids breach post (next (peek block offset))) :
    Avoids breach post (wordAt block offset >>= next) := by
  unfold wordAt
  rw [bind_assoc]
  exact Avoids.check inside rest

theorem messageWord_then {message : Message} {offset : Nat} {next : Nat → Except Breach Value}
    (inside : breach = .message → offset + 4 ≤ message.received.length)
    (rest : Avoids breach post (next (peek message.received offset))) :
    Avoids breach post (message.word offset >>= next) := by
  unfold Message.word
  rw [bind_assoc]
  exact Avoids.check inside fun _ => rest

theorem field_then {number : Nat} {next : FieldDesc → Except Breach Value}
    (inside : breach = .descriptor → fieldsAt + 12 * number + 12 ≤ block.length)
    (rest : Avoids breach post (next (peekField block number))) :
    Avoids breach post (fieldAt block number >>= next) := by
  unfold fieldAt
  rw [bind_assoc]
  exact Avoids.check inside fun _ => rest

end Reads

/-! ### One row -/

/-- What the filters of a connection need of its rows. -/
structure RowsSound (breach : Breach) (rowLen : Nat) (filters : List Filter) : Prop where
  key : breach = .field → 4 ≤ rowLen
  inRow : breach = .field → ∀ condition ∈ filters, condition.field + reads condition ≤ rowLen
  inValue : breach = .value → ∀ condition ∈ filters, reads condition ≤ condition.value.length

section Row

variable {breach : Breach} {rowLen : Nat} {filters : List Filter} {row : Row}

theorem RowsSound.tail {condition : Filter} (sound : RowsSound breach rowLen (condition :: filters)) :
    RowsSound breach rowLen filters :=
  ⟨sound.key, fun same other member => sound.inRow same other (List.mem_cons_of_mem _ member),
    fun same other member => sound.inValue same other (List.mem_cons_of_mem _ member)⟩

theorem applyFiltersAt_avoids (sound : RowsSound breach rowLen filters) :
    Avoids breach (fun verdict => verdict = applyFilters row filters)
      (applyFiltersAt rowLen row filters) := by
  induction filters with
  | nil => rfl
  | cons condition rest ih =>
    unfold applyFiltersAt applyFilters
    refine Avoids.check (fun same => sound.inRow same condition List.mem_cons_self) fun _ => ?_
    refine Avoids.check (fun same => sound.inValue same condition List.mem_cons_self) fun _ => ?_
    cases condition.accepts row with
    | true => exact ih sound.tail
    | false =>
      cases condition.strict with
      | true => rfl
      | false => rfl

theorem dataFilterAt_avoids (sound : RowsSound breach rowLen filters) :
    Avoids breach (fun verdict => verdict = dataFilter filters row)
      (dataFilterAt rowLen filters row) := by
  unfold dataFilterAt dataFilter
  refine Avoids.check sound.key fun _ => ?_
  by_cases deleted : keyOf row = 0
  · rw [if_pos deleted, if_pos deleted]
    rfl
  · rw [if_neg deleted, if_neg deleted]
    exact applyFiltersAt_avoids sound

theorem row_then {page : PageView} {pageRows rIndex : Nat} {Value : Type} {post : Value → Prop}
    {next : Row → Except Breach Value}
    (inPage : breach = .page → rIndex < pageRows ∧ rowLen * pageRows < 2 ^ 32)
    (rest : Avoids breach post (next (page.rowOf rowLen rIndex))) :
    Avoids breach post (page.row rowLen pageRows rIndex >>= next) := by
  unfold PageView.row
  rw [bind_assoc]
  refine Avoids.check (fun same => ?_) fun _ => rest
  obtain ⟨below, small⟩ := inPage same
  rw [Nat.mod_eq_of_lt small, Nat.mul_comm rowLen]
  exact Nat.mul_le_mul_right rowLen below

end Row

/-! ### A rule -/

section Rule

variable {breach : Breach} {desc : List UInt8} {rowLen : Nat} {message : Message} {row : Row}

theorem width_le_span (field : FieldDesc) : field.width ≤ span field :=
  Nat.le_trans (Nat.le_max_right ..) (Nat.le_max_left ..)

/-- Only the quotient of -1 depends on the number that is divided. -/
theorem legal_other {field : FieldDesc} {number fieldNum : Nat} {old old' : List UInt8}
    (legal : LegalAction field.type (message.action number) old (message.value fieldNum field))
    (kept : Negates fieldNum field message number → old' = old) :
    LegalAction field.type (message.action number) old' (message.value fieldNum field) := by
  intro divides integer
  obtain ⟨nonzero, fits⟩ := legal divides integer
  refine ⟨nonzero, fun ⟨type, least, minus⟩ => fits ⟨type, ?_, minus⟩⟩
  rwa [← kept ⟨type, divides, minus⟩]

/-- A field that shares no byte with what is written holds what it held. -/
theorem overwrite_apart {first second : FieldDesc} {bytes : List UInt8} (apart : Apart first second)
    (length : bytes.length = first.width) (inside : first.offset + first.width ≤ row.length) :
    ((overwrite row first.offset bytes).drop second.offset).take second.width =
      (row.drop second.offset).take second.width := by
  rw [← length] at inside
  refine take_drop_congr fun position above below => ?_
  rw [overwrite_getElem? inside, if_neg]
  rintro ⟨after, before⟩
  rw [length] at before
  rcases apart with left | right
  · omega
  · omega

/-- What a rule needs before one of its fields is updated. -/
structure RuleState (breach : Breach) (desc : List UInt8) (rowLen : Nat) (message : Message)
    (place : Nat) (row : Row) : Prop where
  length : row.length = rowLen
  legal : breach = .divide → ∀ number < peek desc fieldNumAt, place ≤ number →
    LegalAction (peekField desc number).type (message.action number)
      ((row.drop (peekField desc number).offset).take (peekField desc number).width)
      (message.value (peek desc fieldNumAt) (peekField desc number))

theorem RuleState.next {place : Nat} (state : RuleState breach desc rowLen message place row) :
    RuleState breach desc rowLen message (place + 1) row :=
  ⟨state.length, fun same number below later =>
    state.legal same number below (Nat.le_of_succ_le later)⟩

theorem updateFieldAt_avoids (sound : DescSound desc breach)
    (rowLen_eq : rowLen = peek desc rowLenAt) {place : Nat} (below : place < peek desc fieldNumAt)
    (inside : breach = .message → RuleInside desc message)
    (apart : breach = .divide → ∀ number < peek desc fieldNumAt, place < number →
      Negates (peek desc fieldNumAt) (peekField desc number) message number →
        (message.action place).toNat ≠ actNone →
          Apart (peekField desc place) (peekField desc number))
    (state : RuleState breach desc rowLen message place row) :
    Avoids breach (RuleState breach desc rowLen message (place + 1))
      (updateFieldAt desc (peek desc fieldNumAt) rowLen message row place) := by
  unfold updateFieldAt
  refine Avoids.check (fun same => (inside same place below).1) fun _ => ?_
  by_cases none : (message.action place).toNat = actNone
  · rw [Message.action] at none
    dsimp only
    rw [if_pos none]
    exact state.next
  · rw [Message.action] at none
    dsimp only
    rw [if_neg none]
    refine field_then (fun same => ?_) ?_
    · subst same
      have fields : fieldsAt + 12 * peek desc fieldNumAt ≤ desc.length := sound
      omega
    · by_cases acting : acts (peekField desc place) (message.action place).toNat = true
      · rw [Message.action] at acting
        rw [if_pos acting]
        refine Avoids.check (fun same => ?_) fun inRow => ?_
        · subst same
          have fits := sound.2.2 place below
          have less := width_le_span (peekField desc place)
          omega
        · refine Avoids.check (fun same => (inside same place below).2 acting) fun inMessage => ?_
          have oldLength : ((row.drop (peekField desc place).offset).take
              (peekField desc place).width).length = (peekField desc place).width := by
            rw [List.length_take, List.length_drop, state.length]
            omega
          have valueLength : (message.value (peek desc fieldNumAt) (peekField desc place)).length =
              (peekField desc place).width := by
            rw [Message.value, List.length_take, List.length_drop]
            omega
          cases updated : updateField (peekField desc place)
              (message.received.getD (4 + place) 0).toNat
              ((row.drop (peekField desc place).offset).take (peekField desc place).width)
              ((message.received.drop (valueAt (peek desc fieldNumAt) (peekField desc place))).take
                (peekField desc place).width) with
          | error fault =>
            intro same
            have legal := state.legal same.symm place below (Nat.le_refl place)
            have done := updateField_after oldLength valueLength legal
            rw [Message.action, Message.value, updated] at done
            cases done
          | ok bytes =>
            have length := updateField_length updated oldLength valueLength
            have whole : (overwrite row (peekField desc place).offset bytes).length = row.length :=
              overwrite_length (by rw [length, state.length]; exact inRow)
            refine ⟨whole.trans state.length, fun same number inFields later => ?_⟩
            refine legal_other (state.legal same number inFields (Nat.le_of_succ_le later))
              fun negates => ?_
            exact overwrite_apart (apart same number inFields later negates none) length
              (by rw [state.length]; exact inRow)
      · rw [Message.action] at acting
        rw [if_neg acting]
        exact state.next

theorem updateRowAt_avoids (sound : DescSound desc breach) (rowLen_eq : rowLen = peek desc rowLenAt)
    (length : row.length = rowLen) (rule : RuleSound desc message row breach) :
    Avoids breach (fun _ => True)
      (updateRowAt desc (peek desc fieldNumAt) rowLen message row) := by
  have start : RuleState breach desc rowLen message 0 row :=
    ⟨length, fun same number below _ => (rule.2 same number below).1⟩
  refine Avoids.mono (Avoids.foldlM start fun place item state found before => ?_) fun _ _ => trivial
  obtain ⟨below, same⟩ := List.getElem?_eq_some_iff.mp found
  rw [List.length_range] at below
  rw [List.getElem_range] at same
  subst same
  rw [Nat.zero_add] at before ⊢
  exact updateFieldAt_avoids sound rowLen_eq below rule.1
    (fun same number inFields later negates acting =>
      (rule.2 same number inFields).2 negates _ later acting) before

end Rule

/-! ### The scans -/

section Scans

variable {breach : Breach} {rowLen pageRows : Nat} {filters : List Filter}

theorem readRows_avoids (sound : RowsSound breach rowLen filters)
    (small : breach = .page → rowLen * pageRows < 2 ^ 32) (page : PageView)
    {count rIndex record : Nat} (inPage : count = 0 ∨ rIndex + count ≤ pageRows) :
    Avoids breach (fun _ => True) (readRows rowLen pageRows filters page count rIndex record) := by
  induction count generalizing rIndex record with
  | zero => trivial
  | succ count ih =>
    refine row_then (fun same => ⟨by omega, small same⟩) ?_
    refine Avoids.bind (dataFilterAt_avoids sound) fun verdict _ => ?_
    cases verdict with
    | pass => trivial
    | broken => trivial
    | skip => exact ih (.inr (by omega))

theorem PageView.count_inside (page : PageView) (pageRows rIndex : Nat) :
    page.count pageRows rIndex = 0 ∨ rIndex + page.count pageRows rIndex ≤ pageRows := by
  unfold PageView.count
  omega

theorem readPages_avoids (sound : RowsSound breach rowLen filters)
    (small : breach = .page → rowLen * pageRows < 2 ^ 32) (index : Nat) (qerrno : ErrorCode)
    {pages : List PageView} {rIndex record : Nat} :
    Avoids breach (fun _ => True)
      (readPages rowLen pageRows index filters qerrno pages rIndex record) := by
  induction pages generalizing rIndex record with
  | nil => trivial
  | cons page rest ih =>
    unfold readPages
    refine Avoids.ite (fun _ => ?_) fun _ => trivial
    refine Avoids.bind (readRows_avoids sound small page (page.count_inside pageRows rIndex))
      fun pass _ => ?_
    cases pass with
    | stop ending => trivial
    | again record => exact ih

theorem scanRows_avoids {visit : Row → Except Breach Bool} {page : PageView}
    (small : breach = .page → rowLen * pageRows < 2 ^ 32) {count rIndex tIndex : Nat}
    (inPage : count = 0 ∨ rIndex + count ≤ pageRows)
    (visits : ∀ place < count,
      Avoids breach (fun _ => True) (visit (page.rowOf rowLen (rIndex + place)))) :
    Avoids breach (fun _ => True) (scanRows visit rowLen pageRows page count rIndex tIndex) := by
  induction count generalizing rIndex tIndex with
  | zero => trivial
  | succ count ih =>
    cases tIndex with
    | zero => trivial
    | succ tIndex =>
      refine row_then (fun same => ⟨by omega, small same⟩) ?_
      refine Avoids.bind (visits 0 (Nat.succ_pos count)) fun ends _ => ?_
      cases ends with
      | true => trivial
      | false =>
        refine ih (.inr (by omega)) fun place below => ?_
        rw [Nat.add_assoc, Nat.add_comm 1]
        exact visits (place + 1) (Nat.succ_lt_succ below)

theorem scanPages_avoids {visit : Row → Except Breach Bool}
    (small : breach = .page → rowLen * pageRows < 2 ^ 32) (qerrno : ErrorCode)
    {pages : List PageView} {rIndex tIndex : Nat}
    (visits : ∀ page ∈ pages, ∀ place < page.lastRow,
      Avoids breach (fun _ => True) (visit (page.rowOf rowLen place))) :
    Avoids breach (fun _ => True)
      (scanPages visit rowLen pageRows qerrno pages rIndex tIndex) := by
  induction pages generalizing rIndex tIndex with
  | nil => cases tIndex <;> trivial
  | cons page rest ih =>
    cases tIndex with
    | zero => trivial
    | succ tIndex =>
      refine Avoids.bind (scanRows_avoids small (page.count_inside pageRows rIndex)
        fun place below => visits page List.mem_cons_self _ ?_) fun left _ => ?_
      · unfold PageView.count at below
        omega
      · exact ih fun other member => visits other (List.mem_cons_of_mem page member)

/-- A scan that ends after its first row. -/
theorem scanPages_single {visit : Row → Except Breach Bool}
    (small : breach = .page → rowLen * pageRows < 2 ^ 32) (qerrno : ErrorCode)
    {pages : List PageView} {rIndex tIndex : Nat}
    (visits : ∀ row, firstRow rowLen pageRows rIndex pages = some row →
      Avoids breach (fun ends => ends = true) (visit row)) :
    Avoids breach (fun _ => True)
      (scanPages visit rowLen pageRows qerrno pages rIndex tIndex) := by
  induction pages generalizing rIndex tIndex with
  | nil => cases tIndex <;> trivial
  | cons page rest ih =>
    cases tIndex with
    | zero => trivial
    | succ tIndex =>
      unfold scanPages
      unfold firstRow at visits
      cases count : page.count pageRows rIndex with
      | zero =>
        rw [count, if_pos rfl] at visits
        exact ih visits
      | succ left =>
        rw [count, if_neg (Nat.succ_ne_zero left)] at visits
        have inside := page.count_inside pageRows rIndex
        rw [count] at inside
        refine @Avoids.bind _ _ _ breach (fun left => left = 0) _ _ _
          (row_then (fun same => ?_) ?_) ?_
        · exact ⟨by omega, small same⟩
        · refine Avoids.bind (visits _ rfl) fun ends done => ?_
          subst done
          rfl
        · rintro _ rfl
          cases rest <;> trivial

end Scans

end QNXStuff.QXBase.Requests
