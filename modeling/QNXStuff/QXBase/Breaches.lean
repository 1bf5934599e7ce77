import QNXStuff.QXBase.Requests

/-! Which descriptors and which requests the server handles without a breach. -/

namespace QNXStuff.QXBase.Requests

open Memory Execution

/-! ### Descriptors -/

/-- The descriptor as far as its `Size` goes, which is what is written to the header file. -/
def caption (block : List UInt8) : List UInt8 := block.take (peek block sizeAt)

/-- The caption reaches to the fields. -/
def Headed (block : List UInt8) : Prop :=
  fieldsAt ≤ peek block sizeAt ∧ peek block sizeAt ≤ block.length

/-- How many bytes of a row the server may use for a field. -/
def span (field : FieldDesc) : Nat :=
  max (max field.length field.width) (if field.type = typeTimestamp then 4 else 0)

def FieldsInside (desc : List UInt8) : Prop :=
  fieldsAt + 12 * peek desc fieldNumAt ≤ desc.length

/-- What a descriptor needs against each of the breaches. -/
def DescSound (desc : List UInt8) : Breach → Prop
  | .divide => peek desc pageRowsAt ≠ 0
  | .noTable => True
  | .message => peek desc sizeAt ≤ msgRoom
  | .name => peekName desc ≠ none
  | .descriptor => FieldsInside desc
  | .comparator => FieldsInside desc ∧
      ∀ number < peek desc fieldNumAt, (peekField desc number).type < 8
  | .field => FieldsInside desc ∧ 4 ≤ peek desc rowLenAt ∧
      ∀ number < peek desc fieldNumAt,
        (peekField desc number).offset + span (peekField desc number) ≤ peek desc rowLenAt
  | .value => True
  | .page => 0 < peek desc pageRowsAt ∧ peek desc rowLenAt * peek desc pageRowsAt < 2 ^ 32

/-! ### Requests -/

/-- The descriptor of the table that a connection has selected. -/
def Manager.desc (manager : Manager) (conn : ConnId) : Option (List UInt8) :=
  ((manager.conns conn).table.bind fun ref => manager.tables[ref]?).map MemTable.desc

/-- What `QBASE_CMD_TBLSELECT` needs. -/
def SelectSound (manager : Manager) (circumstances : Circumstances) (message : Message)
    (breach : Breach) : Prop :=
  ¬ (32 < message.nbytes.toNat ∧ message.nbytes.toNat < 2 ^ 31) →
    (breach = .message → cString message.received ≠ none) ∧
    ∀ name ∈ cString message.received, manager.find circumstances name = none →
      (breach = .name → message.nbytes.toNat ≤ 32 ∧ name.length < message.nbytes.toNat) ∧
      (breach = .message → message.nbytes.toNat ≤ message.received.length)

/-- What `QBASE_CMD_TBLCREATE` needs; of the descriptor only if a table is created. -/
def CreateSound (manager : Manager) (circumstances : Circumstances) (message : Message)
    (breach : Breach) : Prop :=
  descSize ≤ message.nbytes.toNat →
    (breach = .message → nameAt + 33 ≤ message.received.length) ∧
    (breach = .name → peekName message.received ≠ none) ∧
    ∀ name ∈ peekName message.received, manager.exists circumstances name = false →
      (breach = .message → peek message.received sizeAt ≤ message.received.length) ∧
      (breach = .descriptor → fieldsAt ≤ peek message.received sizeAt) ∧
      (3 ≤ peek message.received lockPagesAt → DescSound (caption message.received) breach)

/-- The filter that `QBASE_CMD_FLTRDEFINE` would add. -/
def Manager.defined (manager : Manager) (conn : ConnId) (message : Message) : Option Filter := do
  let desc ← manager.desc conn
  let field := peekField desc (peek message.received 4)
  let cmpFunc ← ffuncs[field.type]?
  return makeFilter message field cmpFunc

/-- What `QBASE_CMD_FLTRDEFINE` needs. -/
def DefineSound (manager : Manager) (conn : ConnId) (message : Message) (breach : Breach) : Prop :=
  (manager.conns conn).table ≠ none → filterSize ≤ message.nbytes.toNat →
    (breach = .message → message.nbytes.toNat ≤ message.received.length) ∧
    (breach = .value → ∀ condition ∈ manager.defined conn message,
      reads condition ≤ condition.value.length)

/-- What `QBASE_CMD_SEEK` needs. -/
def SeekSound (manager : Manager) (conn : ConnId) (message : Message) (breach : Breach) : Prop :=
  (breach = .noTable → (manager.conns conn).table ≠ none) ∧
  (breach = .message → message.nbytes.toNat = 4 → 4 ≤ message.received.length)

def Message.action (message : Message) (number : Nat) : UInt8 :=
  message.received.getD (4 + number) 0

def Message.value (message : Message) (fieldNum : Nat) (field : FieldDesc) : List UInt8 :=
  (message.received.drop (valueAt fieldNum field)).take field.width

/-- The rule is in the buffer as far as it is read. -/
def RuleInside (desc : List UInt8) (message : Message) : Prop :=
  ∀ number < peek desc fieldNumAt, 4 + number < message.received.length ∧
    (acts (peekField desc number) (message.action number).toNat →
      valueAt (peek desc fieldNumAt) (peekField desc number) + (peekField desc number).width ≤
        message.received.length)

/-- Two fields of a row have no byte in common. -/
def Apart (first second : FieldDesc) : Prop :=
  first.offset + first.width ≤ second.offset ∨ second.offset + second.width ≤ first.offset

/-- The field is an `int` that is divided by -1. -/
def Negates (fieldNum : Nat) (field : FieldDesc) (message : Message) (number : Nat) : Prop :=
  field.type = typeInt ∧ (message.action number).toNat = actDiv ∧
    signed 4 (wordOf (message.value fieldNum field)) = -1

/-- The quotients that the rule asks for exist. No field that is changed before shares bytes with
an `int` that is divided by -1. -/
def QuotientsExist (desc : List UInt8) (message : Message) (row : Row) : Prop :=
  ∀ number < peek desc fieldNumAt,
    let field := peekField desc number
    LegalAction field.type (message.action number) ((row.drop field.offset).take field.width)
      (message.value (peek desc fieldNumAt) field) ∧
    (Negates (peek desc fieldNumAt) field message number → ∀ other < number,
      (message.action other).toNat ≠ actNone → Apart (peekField desc other) field)

/-- What a rule needs for a row that it is applied to. -/
def RuleSound (desc : List UInt8) (message : Message) (row : Row) (breach : Breach) : Prop :=
  (breach = .message → RuleInside desc message) ∧
  (breach = .divide → QuotientsExist desc message row)

def PageView.rowOf (page : PageView) (rowLen rIndex : Nat) : Row :=
  readBytes page.data (rIndex * rowLen) rowLen

def firstRow (rowLen pageRows : Nat) : Nat → List PageView → Option Row
  | _, [] => none
  | rIndex, page :: rest =>
    if page.count pageRows rIndex = 0 then firstRow rowLen pageRows 0 rest
    else some (page.rowOf rowLen rIndex)

/-- The rows to which a scan may come. -/
def rowsAhead (rowLen pageRows record : Nat) (pages : List PageView) (single : Bool) : List Row :=
  if single then (firstRow rowLen pageRows (record % pageRows) pages).toList
  else pages.flatMap fun page => (List.range page.lastRow).map (page.rowOf rowLen)

/-- What `QBASE_CMD_UPDATE` and `QBASE_CMD_UPDCUR` need. -/
def ScanSound (manager : Manager) (conn : ConnId) (circumstances : Circumstances)
    (message : Message) (single : Bool) (breach : Breach) : Prop :=
  ∀ desc ∈ manager.desc conn,
    uSize (peek desc fieldNumAt) (peek desc rowLenAt) ≤ message.nbytes.toNat →
      ∀ row ∈ rowsAhead (peek desc rowLenAt) (peek desc pageRowsAt) (manager.conns conn).record
          circumstances.pages single,
        dataFilter (manager.conns conn).filters row = .pass → RuleSound desc message row breach

/-- What a request needs against a breach. -/
def Sound (manager : Manager) (input : Input) (breach : Breach) : Prop :=
  match input.request with
  | .devctl .tblselect message => SelectSound manager input.circumstances message breach
  | .devctl .tblcreate message => CreateSound manager input.circumstances message breach
  | .devctl .fltrdefine message => DefineSound manager input.conn message breach
  | .devctl .seek message => SeekSound manager input.conn message breach
  | .devctl .update message => ScanSound manager input.conn input.circumstances message false breach
  | .devctl .updcur message => ScanSound manager input.conn input.circumstances message true breach
  | _ => True

/-! The conditions can be computed. -/

section Decidable

variable {desc : List UInt8} {manager : Manager} {conn : ConnId} {circumstances : Circumstances}
  {message : Message} {breach : Breach}

instance : Decidable (Headed desc) := inferInstanceAs (Decidable (_ ∧ _))

instance : Decidable (FieldsInside desc) := inferInstanceAs (Decidable (_ ≤ _))

instance : Decidable (DescSound desc breach) :=
  match breach with
  | .divide => inferInstanceAs (Decidable (_ ≠ _))
  | .noTable => inferInstanceAs (Decidable True)
  | .message => inferInstanceAs (Decidable (_ ≤ _))
  | .name => inferInstanceAs (Decidable (_ ≠ _))
  | .descriptor => inferInstanceAs (Decidable (FieldsInside desc))
  | .comparator =>
    inferInstanceAs (Decidable (_ ∧ ∀ number < peek desc fieldNumAt, _ < 8))
  | .field => inferInstanceAs (Decidable (_ ∧ _ ∧ ∀ number < peek desc fieldNumAt, _ ≤ _))
  | .value => inferInstanceAs (Decidable True)
  | .page => inferInstanceAs (Decidable (_ ∧ _))

instance : Decidable (SelectSound manager circumstances message breach) :=
  inferInstanceAs (Decidable (_ → _ ∧ ∀ name ∈ cString message.received, _ → _))

instance : Decidable (CreateSound manager circumstances message breach) :=
  inferInstanceAs (Decidable (_ → _ ∧ _ ∧ ∀ name ∈ peekName message.received, _ → _))

instance : Decidable (DefineSound manager conn message breach) :=
  inferInstanceAs (Decidable (_ → _ → _ ∧ (_ → ∀ condition ∈ manager.defined conn message, _ ≤ _)))

instance : Decidable (SeekSound manager conn message breach) :=
  inferInstanceAs (Decidable (_ ∧ _))

instance : Decidable (RuleInside desc message) :=
  inferInstanceAs (Decidable (∀ number < peek desc fieldNumAt, _ ∧ _))

instance {first second : FieldDesc} : Decidable (Apart first second) :=
  inferInstanceAs (Decidable (_ ∨ _))

instance {fieldNum : Nat} {field : FieldDesc} {number : Nat} :
    Decidable (Negates fieldNum field message number) :=
  inferInstanceAs (Decidable (_ ∧ _ ∧ _))

instance {type : Nat} {action : UInt8} {old value : List UInt8} :
    Decidable (LegalAction type action old value) :=
  inferInstanceAs (Decidable (_ → _ → _ ∧ _))

instance {row : Row} : Decidable (QuotientsExist desc message row) :=
  inferInstanceAs (Decidable (∀ number < peek desc fieldNumAt,
    LegalAction (peekField desc number).type (message.action number)
      ((row.drop (peekField desc number).offset).take (peekField desc number).width)
      (message.value (peek desc fieldNumAt) (peekField desc number)) ∧
    (Negates (peek desc fieldNumAt) (peekField desc number) message number → ∀ other < number,
      (message.action other).toNat ≠ actNone →
        Apart (peekField desc other) (peekField desc number))))

instance {row : Row} : Decidable (RuleSound desc message row breach) :=
  inferInstanceAs (Decidable (_ ∧ _))

instance {single : Bool} :
    Decidable (ScanSound manager conn circumstances message single breach) :=
  inferInstanceAs (Decidable (∀ desc ∈ manager.desc conn, _ → ∀ row ∈ rowsAhead (peek desc rowLenAt)
    (peek desc pageRowsAt) (manager.conns conn).record circumstances.pages single, _ → _))

instance {input : Input} : Decidable (Sound manager input breach) :=
  match input with
  | ⟨_, _, .devctl .tblselect _⟩ => inferInstanceAs (Decidable (SelectSound ..))
  | ⟨_, _, .devctl .tblcreate _⟩ => inferInstanceAs (Decidable (CreateSound ..))
  | ⟨_, _, .devctl .fltrdefine _⟩ => inferInstanceAs (Decidable (DefineSound ..))
  | ⟨_, _, .devctl .seek _⟩ => inferInstanceAs (Decidable (SeekSound ..))
  | ⟨_, _, .devctl .update _⟩ => inferInstanceAs (Decidable (ScanSound ..))
  | ⟨_, _, .devctl .updcur _⟩ => inferInstanceAs (Decidable (ScanSound ..))
  | ⟨_, _, .devctl .error _⟩ | ⟨_, _, .devctl .tblflush _⟩ | ⟨_, _, .devctl .info _⟩
  | ⟨_, _, .devctl .fetchrst _⟩ | ⟨_, _, .devctl .tblcapslen _⟩ | ⟨_, _, .devctl .tblcaps _⟩
  | ⟨_, _, .devctl .fltrdelete _⟩ | ⟨_, _, .devctl .fltrpop _⟩ | ⟨_, _, .devctl .delete _⟩
  | ⟨_, _, .devctl .unknown _⟩ | ⟨_, _, .read _⟩ | ⟨_, _, .write _⟩ | ⟨_, _, .close⟩ =>
    inferInstanceAs (Decidable True)

end Decidable

/-! ### What stays -/

/-- The filters of a connection are right for its table. -/
def FiltersSound (manager : Manager) (ocb : Connection) (breach : Breach) : Prop :=
  ∀ condition ∈ ocb.filters,
    (breach = .value → reads condition ≤ condition.value.length) ∧
    (breach = .field → ∃ ref table, ocb.table = some ref ∧ manager.tables[ref]? = some table ∧
      condition.field + reads condition ≤ peek table.desc rowLenAt)

/-- Everything that the server keeps is sound against a breach. -/
structure Kept (breach : Breach) (manager : Manager) : Prop where
  files : ∀ name file, manager.files name = some file →
    Headed file ∧ DescSound (caption file) breach
  tables : ∀ table ∈ manager.tables, Headed table.desc ∧ DescSound (caption table.desc) breach
  refs : ∀ conn ref, (manager.conns conn).table = some ref → ref < manager.tables.length
  filters : ∀ conn, FiltersSound manager (manager.conns conn) breach

/-! ### Words of a block -/

section Words

variable {block desc : List UInt8} {offset count index : Nat} {breach : Breach}

theorem peek_take (inside : offset + 4 ≤ count) : peek (block.take count) offset = peek block offset := by
  unfold peek
  rw [List.drop_take, List.take_take, Nat.min_eq_left (by omega)]

theorem peekField_take {number : Nat} (inside : fieldsAt + 12 * number + 12 ≤ count) :
    peekField (block.take count) number = peekField block number := by
  unfold peekField
  rw [peek_take (by omega), peek_take (by omega), peek_take (by omega)]

theorem peekName_take (inside : nameAt + 33 ≤ count) : peekName (block.take count) = peekName block := by
  unfold peekName
  rw [List.drop_take, List.take_take, Nat.min_eq_left (by omega)]

theorem Headed.caption_length (headed : Headed block) :
    (caption block).length = peek block sizeAt :=
  List.length_take_of_le headed.2

theorem Headed.caption_size (headed : Headed block) : peek (caption block) sizeAt = peek block sizeAt :=
  peek_take (Nat.le_trans (by decide) headed.1)

theorem Headed.append (headed : Headed block) (behind : List UInt8) :
    Headed (caption block ++ behind) ∧ caption (caption block ++ behind) = caption block := by
  have length := headed.caption_length
  have large : 68 ≤ peek block sizeAt := headed.1
  have inside : sizeAt + 4 ≤ (caption block).length := by
    rw [length]
    exact Nat.le_trans (by decide) large
  have same : peek (caption block ++ behind) sizeAt = peek block sizeAt := by
    rw [← headed.caption_size, ← peek_take inside, List.take_left' rfl]
  refine ⟨⟨same ▸ large, ?_⟩, ?_⟩
  · rw [same, List.length_append, length]
    exact Nat.le_add_right ..
  · have taken : (caption block ++ behind).take (peek block sizeAt) = caption block :=
      List.take_left' length
    calc caption (caption block ++ behind)
        = (caption block ++ behind).take (peek block sizeAt) :=
          congrArg (fun size => (caption block ++ behind).take size) same
      _ = caption block := taken

theorem countRow_getElem? (large : fieldsAt ≤ desc.length) (position : Nat) :
    (countRow desc index)[position]? =
      if indexAt ≤ position ∧ position < indexAt + 4 then (bytesOf 4 (index + 1))[position - indexAt]?
      else desc[position]? := by
  have inside : indexAt + (bytesOf 4 (index + 1)).length ≤ desc.length := by
    rw [bytesOf_length]
    exact Nat.le_trans (by decide) large
  unfold Requests.countRow
  rw [overwrite_getElem? inside, bytesOf_length]

theorem countRow_length (large : fieldsAt ≤ desc.length) :
    (countRow desc index).length = desc.length :=
  overwrite_length (by rw [bytesOf_length]; exact Nat.le_trans (by decide) large)

theorem countRow_peek (large : fieldsAt ≤ desc.length)
    (apart : offset + 4 ≤ indexAt ∨ indexAt + 4 ≤ offset) :
    peek (countRow desc index) offset = peek desc offset := by
  unfold peek
  refine congrArg wordOf (take_drop_congr fun position above below => ?_)
  rw [countRow_getElem? large, if_neg (by omega)]

theorem countRow_field (large : fieldsAt ≤ desc.length) (number : Nat) :
    peekField (countRow desc index) number = peekField desc number := by
  unfold peekField
  have behind (place : Nat) : indexAt + 4 ≤ fieldsAt + 12 * number + place := by
    rw [Nat.add_assoc]
    exact Nat.le_add_right_of_le (by decide)
  rw [@countRow_peek _ (fieldsAt + 12 * number) _ large (.inr (behind 0)), countRow_peek large (.inr (behind 4)),
    countRow_peek large (.inr (behind 8))]

theorem countRow_name (large : fieldsAt ≤ desc.length) :
    peekName (countRow desc index) = peekName desc := by
  unfold peekName
  refine congrArg cString (take_drop_congr fun position above below => ?_)
  have front : position < indexAt := Nat.lt_of_lt_of_le below (by decide)
  rw [countRow_getElem? large, if_neg fun both => Nat.not_le.mpr front both.1]

theorem countRow_caption (headed : Headed desc) :
    caption (countRow desc index) = countRow (caption desc) index := by
  have large := headed.1
  have long := headed.2
  have whole : fieldsAt ≤ desc.length := Nat.le_trans large long
  have length : (caption desc).length = peek desc sizeAt := headed.caption_length
  unfold caption at length ⊢
  rw [countRow_peek whole (by decide)]
  apply List.ext_getElem?
  intro position
  rw [List.getElem?_take, countRow_getElem? whole, countRow_getElem? (by omega), List.getElem?_take]
  by_cases inside : position < peek desc sizeAt
  · rw [if_pos inside, if_pos inside]
  · have behind : indexAt + 4 ≤ position :=
      Nat.le_trans (Nat.le_trans (by decide) large) (Nat.le_of_not_lt inside)
    rw [if_neg inside, if_neg inside, if_neg fun both => Nat.not_le.mpr both.2 behind]

theorem DescSound.countRow (large : fieldsAt ≤ desc.length) (sound : DescSound desc breach) :
    DescSound (countRow desc index) breach := by
  have size : peek (Requests.countRow desc index) sizeAt = peek desc sizeAt :=
    countRow_peek large (by decide)
  have fieldNum : peek (Requests.countRow desc index) fieldNumAt = peek desc fieldNumAt :=
    countRow_peek large (by decide)
  have rowLen : peek (Requests.countRow desc index) rowLenAt = peek desc rowLenAt :=
    countRow_peek large (by decide)
  have pageRows : peek (Requests.countRow desc index) pageRowsAt = peek desc pageRowsAt :=
    countRow_peek large (by decide)
  cases breach with
  | noTable | value => trivial
  | _ =>
    simpa only [DescSound, FieldsInside, size, fieldNum, rowLen, pageRows, countRow_length large,
      countRow_field large, countRow_name large] using sound

theorem Headed.countRow (headed : Headed desc) : Headed (countRow desc index) := by
  have large : fieldsAt ≤ desc.length := Nat.le_trans headed.1 headed.2
  unfold Headed
  rw [countRow_peek large (by decide), countRow_length large]
  exact headed

theorem Headed.peek (headed : Headed block) (front : offset + 4 ≤ fieldsAt) :
    Requests.peek (caption block) offset = Requests.peek block offset :=
  peek_take (Nat.le_trans front headed.1)

/-- What is right for the caption is right for the block. -/
theorem Headed.sound (headed : Headed block) (sound : DescSound (caption block) breach) :
    DescSound block breach := by
  have inside (fields : FieldsInside (caption block)) : FieldsInside block ∧
      ∀ number < Requests.peek block fieldNumAt,
        peekField (caption block) number = peekField block number := by
    unfold FieldsInside at fields
    rw [headed.caption_length, headed.peek (by decide)] at fields
    refine ⟨Nat.le_trans fields headed.2, fun number below => peekField_take ?_⟩
    omega
  cases breach with
  | noTable | value => trivial
  | divide => exact fun zero => sound ((headed.peek (by decide)).trans zero)
  | message =>
    have same : Requests.peek (caption block) sizeAt = Requests.peek block sizeAt :=
      headed.peek (by decide)
    exact Nat.le_trans (Nat.le_of_eq same.symm) sound
  | name =>
    have same : peekName (caption block) = peekName block :=
      peekName_take (Nat.le_trans (by decide) headed.1)
    exact fun none => sound (same.trans none)
  | descriptor => exact (inside sound).1
  | page =>
    obtain ⟨positive, small⟩ := sound
    rw [headed.peek (by decide)] at positive
    rw [headed.peek (by decide), headed.peek (by decide)] at small
    exact ⟨positive, small⟩
  | comparator =>
    obtain ⟨fields, types⟩ := sound
    rw [headed.peek (by decide)] at types
    refine ⟨(inside fields).1, fun number below => ?_⟩
    rw [← (inside fields).2 number below]
    exact types number below
  | field =>
    obtain ⟨fields, key, spans⟩ := sound
    rw [headed.peek (by decide)] at key
    rw [headed.peek (by decide), headed.peek (by decide)] at spans
    refine ⟨(inside fields).1, key, fun number below => ?_⟩
    rw [← (inside fields).2 number below]
    exact spans number below

end Words

end QNXStuff.QXBase.Requests
