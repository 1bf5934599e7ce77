import QNXStuff.QXBase.Records
import QNXStuff.QXBilling.RuleRounds
import Mathlib.Algebra.BigOperators.Group.List.Basic
import Mathlib.Tactic.Ring

/-! `QX-consistency`: sessions in the log that are assigned to the wrong NIC get the right one,
and their cost goes from its account to the account that has paid. -/

namespace QNXStuff.QXBilling

open Execution Memory
open QXBase (ErrorCode Recorded Records Reads Flat ConnId FieldDesc Row Fault memcmp keyOf nextLive_spec)

structure NicItem where
  nid : UInt32
  aid : UInt32
  ip : UInt32
  mac : Mac
  deriving DecidableEq

/-- A row of the table of accounts; money is an exact number. -/
structure Account where
  n : UInt32
  sum : ℚ
  deriving DecidableEq

structure LogRow where
  n : UInt32
  nic : UInt32
  mac : Mac
  ipClnt : UInt32
  stocli : ℚ
  stohst : ℚ
  accpay : UInt32
  deriving DecidableEq

instance : Recorded NicItem := ⟨NicItem.nid⟩

instance : Recorded Account := ⟨Account.n⟩

instance : Recorded LogRow := ⟨LogRow.n⟩

/-- What the update rules of the tool do to a record. -/
def Account.add (amount : ℚ) (account : Account) : Account :=
  { account with sum := account.sum + amount }

def LogRow.repoint (nic : NicItem) (row : LogRow) : LogRow :=
  { row with nic := nic.nid, accpay := nic.aid }

def LogRow.cost (row : LogRow) : ℚ := row.stocli + row.stohst

def liveNics (table : List NicItem) : List NicItem := table.filter fun nic => nic.nid != 0

/-- "read all NICs" into a buffer of 200, behind which nothing may be written. -/
def loadNics (table : List NicItem) : Option (List NicItem) :=
  if (liveNics table).length ≤ 200 then some (liveNics table) else none

/-! ### Reading the NICs -/

/-- The fields that are read: `QXL_NICS_N`, `QXL_NICS_ACCOUNT`, `QXL_NICS_IP`, `QXL_NICS_MAC`. -/
structure NicFields where
  n : FieldDesc
  account : FieldDesc
  ip : FieldDesc
  mac : FieldDesc

/-- `QXB_FV_UINT` -/
def fvUint (field : FieldDesc) (row : Row) : UInt32 :=
  UInt32.ofNat (wordOf ((row.drop field.offset).take 4))

/-- The six bytes at `QXB_FV_BIN`. -/
def fvMac (field : FieldDesc) (row : Row) : Mac :=
  Vector.ofFn fun place => row.getD (field.offset + place) 0

/-- "read nic info" -/
def nicOf (fields : NicFields) (row : Row) : NicItem where
  nid := fvUint fields.n row
  aid := fvUint fields.account row
  ip := fvUint fields.ip row
  mac := fvMac fields.mac row

/-- `Qbase_fetch` until it finds no row. -/
def fetchNics (fields : NicFields) (conn : ConnId) (nbytes : Nat) :
    Nat → Flat → Except Fault (Flat × List NicItem)
  | 0, _ => .error .hang
  | turns + 1, flat =>
    match flat.handle conn (.fetch nbytes) with
    | .error fault => .error fault
    | .ok (next, .row (some row)) =>
      (fetchNics fields conn nbytes turns next).map fun (final, nics) =>
        (final, nicOf fields row :: nics)
    | .ok (next, _) => .ok (next, [])

section Nics

variable {fields : NicFields} {flat : Flat} {conn : ConnId}

/-- The rows of the server are records of NICs, as the first field is the primary key. -/
theorem nicOf_reads (first : fields.n.offset = 0) (counted : flat.index = flat.rows.length)
    (selected : (flat.ocbs conn).selected = true) (unfiltered : (flat.ocbs conn).filters = []) :
    Reads (nicOf fields) flat conn
      ⟨flat.rows.map (nicOf fields), (flat.ocbs conn).record, (flat.ocbs conn).qerrno⟩ where
  key row := by
    show (UInt32.ofNat (wordOf ((row.drop fields.n.offset).take 4))).toNat = keyOf row
    rw [first, List.drop_zero, UInt32.toNat_ofNat']
    refine Nat.mod_eq_of_lt (Nat.lt_of_lt_of_le (wordOf_lt _) ?_)
    exact Nat.pow_le_pow_right (by decide) (List.length_take_le 4 row)
  rows := rfl
  counted := counted
  selected := selected
  unfiltered := unfiltered
  record := rfl
  qerrno := rfl

/-- In front of the next live record there is nothing to read. -/
theorem liveNics_next {rows : List NicItem} {start position : Nat} {nic : NicItem}
    (above : start ≤ position) (here : rows[position]? = some nic) (live : nic.nid ≠ 0)
    (between : ∀ other row, start ≤ other → other < position → rows[other]? = some row →
      row.nid = 0) :
    liveNics (rows.drop start) = nic :: liveNics (rows.drop (position + 1)) := by
  obtain ⟨inside, found⟩ := List.getElem?_eq_some_iff.mp here
  generalize gap : position - start = count
  induction count generalizing start with
  | zero =>
    obtain rfl : start = position := by omega
    rw [List.drop_eq_getElem_cons inside, found]
    simp [liveNics, live]
  | succ count ih =>
    have first : start < rows.length := by omega
    have dead := between start rows[start] (Nat.le_refl _) (by omega) (List.getElem?_eq_getElem first)
    have later := @ih (start + 1) (by omega)
      (fun other row behind before => between other row (by omega) before) (by omega)
    rw [List.drop_eq_getElem_cons first, ← later]
    exact List.filter_cons_of_neg (by simp [dead])

/-- The tool reads the live NICs behind its place, whatever is in their rows. -/
theorem fetchNics_live {nbytes : Nat} (turns : Nat) {table : Records NicItem}
    (reads : Reads (nicOf fields) flat conn table) (room : flat.layout.rowLen ≤ nbytes)
    (inside : table.record ≤ table.rows.length)
    (enough : table.rows.length < table.record + turns) :
    ∃ final, fetchNics fields conn nbytes turns flat =
      .ok (final, liveNics (table.rows.drop table.record)) := by
  induction turns generalizing flat table with
  | zero => omega
  | succ turns ih =>
    have fetched := reads.fetch room inside
    have spec := nextLive_spec table.rows table.record
    unfold fetchNics
    cases next : Records.nextLive (table.rows.drop table.record) table.record with
    | none =>
      simp only [next] at fetched spec
      obtain ⟨final, answered, -⟩ := fetched
      have nothing : liveNics (table.rows.drop table.record) = [] := by
        refine List.filter_eq_nil_iff.mpr fun nic member => ?_
        obtain ⟨place, found⟩ := List.mem_iff_getElem?.mp member
        rw [List.getElem?_drop] at found
        have dead : nic.nid = 0 := spec _ nic (Nat.le_add_right ..) found
        simp [dead]
      rw [nothing, answered]
      exact ⟨final, rfl⟩
    | some entry =>
      obtain ⟨position, nic⟩ := entry
      simp only [next] at fetched spec
      obtain ⟨after, row, answered, rfl, layout, reads'⟩ := fetched
      obtain ⟨above, here, live, between⟩ := spec
      have beyond := (List.getElem?_eq_some_iff.mp here).1
      obtain ⟨final, rest⟩ := ih reads' (layout ▸ room) beyond (by dsimp only; omega)
      refine ⟨final, ?_⟩
      rw [answered, liveNics_next above here live between]
      simp only [rest, Except.map]

/-- Behind FETCHRST these are all live NICs of the table. -/
theorem all_nics_are_fetched {nbytes : Nat} (first : fields.n.offset = 0)
    (counted : flat.index = flat.rows.length) (selected : (flat.ocbs conn).selected = true)
    (unfiltered : (flat.ocbs conn).filters = []) (rewound : (flat.ocbs conn).record = 0)
    (room : flat.layout.rowLen ≤ nbytes) :
    ∃ final, fetchNics fields conn nbytes (flat.rows.length + 1) flat =
      .ok (final, liveNics (flat.rows.map (nicOf fields))) := by
  have reads := nicOf_reads first counted selected unfiltered
  rw [rewound] at reads
  simpa using fetchNics_live (flat.rows.length + 1) reads room (Nat.zero_le _) (by simp)

end Nics

/-- "find the NIC that was assigned by filter" -/
def assignedNic (nics : List NicItem) (row : LogRow) : Option NicItem :=
  nics.find? fun nic => nic.nid == row.nic

/-- "Check if found NIC matches logged data" -/
def NicItem.logs (nic : NicItem) (row : LogRow) : Bool :=
  nic.ip == row.ipClnt && decide (memcmp row.mac.toList nic.mac.toList 6 = 0)

/-- "the NIC in log does not match log contents" -/
def matchingNic (nics : List NicItem) (row : LogRow) : Option NicItem :=
  nics.find? fun nic => nic.logs row

/-! ### Requests -/

/-- What becomes of a request: it may be lost with the connection, or the answer to it. -/
inductive Fate where
  | answered
  | unheard
  | lost
  deriving DecidableEq

/-- One request of the tool; `none` is `QBASE_E_NOCONN`. -/
def ask {R : Type} (fate : Fate) (table : Records R)
    (request : Records R → Records R × ErrorCode) : Records R × Option ErrorCode :=
  match fate with
  | .answered => ((request table).1, some (request table).2)
  | .unheard => ((request table).1, none)
  | .lost => (table, none)

/-- `Qbase_seek`, and `Qbase_updcur` when it succeeds; whether both do. -/
def seekUpdcur {R : Type} [Recorded R] (fates : Fate × Fate) (table : Records R) (key : UInt32)
    (change : R → R) : Records R × Bool :=
  let (table, code) := ask fates.1 table (·.seek key)
  if code ≠ some .ok then (table, false)
  else
    let (table, code) := ask fates.2 table (·.updcur change)
    (table, code == some .ok)

/-- The fates of the requests for one record: those that subtract, add and change the log. -/
structure Fates where
  sub : Fate × Fate
  add : Fate × Fate
  log : Fate × Fate
  deriving DecidableEq

def Fates.all : Fates := ⟨(.answered, .answered), (.answered, .answered), (.answered, .answered)⟩

/-! ### The tool -/

/-- The tables and the connections for updates; `read` is the position of the connection that
reads the log. -/
structure Checking where
  nics : List NicItem
  accounts : Records Account
  log : Records LogRow
  read : Nat
  running : Bool

namespace Checking

/-- The tool with its tables mounted and the NICs loaded. -/
def start (nics : List NicItem) (accounts : List Account) (log : List LogRow) : Checking where
  nics := nics
  accounts := ⟨accounts, 0, .ok⟩
  log := ⟨log, 0, .ok⟩
  read := 0
  running := true

/-- The tool where it begins to scan the log. -/
def mount (table : List NicItem) (accounts : List Account) (log : List LogRow) :
    Option Checking :=
  (loadNics table).map (start · accounts log)

/-- "fix accounts and log record"; each failure ends the tool. -/
def fixRecord (state : Checking) (fates : Fates) (row : LogRow) (assigned new : NicItem) :
    Checking :=
  let (accounts, done) := seekUpdcur fates.sub state.accounts new.aid (·.add (-row.cost))
  if done = false then { state with accounts := accounts, running := false }
  else
    let (accounts, done) := seekUpdcur fates.add accounts assigned.aid (·.add row.cost)
    if done = false then { state with accounts := accounts, running := false }
    else
      let (log, done) := seekUpdcur fates.log state.log row.n (·.repoint new)
      { state with accounts := accounts, log := log, running := done }

/-- What is done about a record of the log. -/
def checkRecord (state : Checking) (fates : Fates) (row : LogRow) : Checking :=
  match assignedNic state.nics row with
  | none => { state with running := false }
  | some assigned =>
    if assigned.logs row then state
    else
      match matchingNic state.nics row with
      | none => state
      | some new => state.fixRecord fates row assigned new

def nextRecord (state : Checking) : Option (Nat × LogRow) :=
  Records.nextLive (state.log.rows.drop state.read) state.read

/-- "scan through logging table and check for differences" -/
def next (state : Checking) (fates : Fates) : Checking :=
  match state.nextRecord with
  | none => { state with running := false }
  | some (position, row) =>
    { state with read := position + 1 }.checkRecord fates row

end Checking

/-- One round of the loop. -/
def CheckStep (state : Checking) (fates : Fates) (next : Checking) : Prop :=
  state.running = true ∧ next = state.next fates

/-! ### What a round should do -/

/-- The balances of the accounts together. -/
def total (accounts : List Account) : ℚ :=
  ((accounts.filter fun account => account.n != 0).map Account.sum).sum

def Unchanged (before after : Checking) : Prop :=
  after.accounts.rows = before.accounts.rows ∧ after.log.rows = before.log.rows

/-- The cost of the record at this position goes from the account of the new NIC to the payer,
and the record points to them. -/
def Moved (before after : Checking) (position : Nat) (row : LogRow) (new : NicItem) : Prop :=
  ∃ (charged payer : Nat) (from' to' : Account),
    before.accounts.rows[charged]? = some from' ∧ from'.n = new.aid ∧ new.aid ≠ 0 ∧
    before.accounts.rows[payer]? = some to' ∧ to'.n = row.accpay ∧ row.accpay ≠ 0 ∧
    after.accounts.rows =
      (before.accounts.rows.modify charged (·.add (-row.cost))).modify payer (·.add row.cost) ∧
    after.log.rows = before.log.rows.modify position (·.repoint new)

/-- The round leaves the accounts and the log, or moves the cost of the record it is about. -/
def RightRound (before after : Checking) : Prop :=
  Unchanged before after ∨ ∃ position row new, before.nextRecord = some (position, row) ∧
    matchingNic before.nics row = some new ∧ Moved before after position row new

/-- The account with this number is where its number says. -/
def HasAccount (accounts : List Account) (aid : UInt32) : Prop :=
  aid ≠ 0 ∧ ∃ account, accounts[Records.place aid]? = some account ∧ account.n = aid

/-- A record that is to be fixed: the `SEEK` for the new account is refused at once, or all
requests are answered, both accounts and the record are where their numbers say and the account
of the assigned NIC is the payer. -/
def SafeRound (state : Checking) (fates : Fates) : Prop :=
  ∀ position row assigned new, state.nextRecord = some (position, row) →
    assignedNic state.nics row = some assigned → assigned.logs row = false →
    matchingNic state.nics row = some new →
    state.accounts.rows.length < Records.place new.aid ∨
    (fates = Fates.all ∧ HasAccount state.accounts.rows new.aid ∧
      HasAccount state.accounts.rows row.accpay ∧ assigned.aid = row.accpay ∧
      Records.place row.n = position)

/-! ### The requests for one record -/

section Requests

variable {R : Type} [Recorded R] {table : Records R} {key : UInt32} {change : R → R}

/-- A live record is changed where its key says. -/
theorem seekUpdcur_found {row : R} (found : table.rows[Records.place key]? = some row)
    (live : Recorded.key row ≠ 0) :
    seekUpdcur (.answered, .answered) table key change =
      (⟨table.rows.modify (Records.place key) change, Records.place key, .ok⟩, true) := by
  have inside := (List.getElem?_eq_some_iff.mp found).1
  have updated := @Records.updcur_live R ⟨table.rows, Records.place key, .ok⟩ _ change row found live
  unfold seekUpdcur
  simp only [ask, Records.seek_accepted (Nat.le_of_lt inside), updated]
  rfl

/-- After a `SEEK` that is refused nothing is changed. -/
theorem seekUpdcur_refused (beyond : table.rows.length < Records.place key)
    (fates : Fate × Fate) :
    ∃ refused, seekUpdcur fates table key change = (refused, false) ∧
      refused.rows = table.rows := by
  obtain ⟨first, second⟩ := fates
  unfold seekUpdcur
  cases first with
  | answered =>
    simp only [ask, Records.seek_refused beyond]
    exact ⟨_, rfl, rfl⟩
  | unheard =>
    simp only [ask, Records.seek_refused beyond]
    exact ⟨_, rfl, rfl⟩
  | lost => exact ⟨table, rfl, rfl⟩

end Requests

/-- A live account whose balance changes changes the total. -/
theorem total_modify {accounts : List Account} {position : Nat} {account : Account}
    (found : accounts[position]? = some account) (live : account.n ≠ 0) (amount : ℚ) :
    total (accounts.modify position (·.add amount)) = total accounts + amount := by
  induction accounts generalizing position with
  | nil => cases found
  | cons first rest ih =>
    cases position with
    | zero =>
      cases found
      have passes : (account.n != 0) = true := by simpa using live
      simp only [List.modify_zero_cons, total, Account.add, List.filter_cons, passes, ↓reduceIte,
        List.map_cons, List.sum_cons]
      ring
    | succ position =>
      have later := ih (show rest[position]? = some account from found)
      unfold total at later ⊢
      rw [List.modify_succ_cons, List.filter_cons, List.filter_cons]
      by_cases passes : (first.n != 0) = true
      · rw [if_pos passes, if_pos passes, List.map_cons, List.map_cons, List.sum_cons,
          List.sum_cons, later]
        ring
      · rw [if_neg passes, if_neg passes, later]

/-- A right round keeps the sum of the balances. -/
theorem RightRound.total {before after : Checking} (right : RightRound before after) :
    total after.accounts.rows = total before.accounts.rows := by
  rcases right with ⟨same, _⟩ | ⟨position, row, new, _, _, charged, payer, from', to',
    found, number, live, found', number', live', moved, _⟩
  · rw [same]
  · have paid : ∃ account, (before.accounts.rows.modify charged
        (·.add (-row.cost)))[payer]? = some account ∧ account.n ≠ 0 := by
      rw [List.getElem?_modify, found']
      split
      · exact ⟨_, rfl, fun dead => live' (number'.symm.trans dead)⟩
      · exact ⟨_, rfl, fun dead => live' (number'.symm.trans dead)⟩
    obtain ⟨_, paidFound, paidLive⟩ := paid
    rw [moved, total_modify paidFound paidLive,
      total_modify found fun dead => live (number.symm.trans dead), neg_add_cancel_right]

theorem loadNics_eq {table nics : List NicItem} (loaded : loadNics table = some nics) :
    nics = liveNics table := by
  unfold loadNics at loaded
  split at loaded
  · cases loaded
    rfl
  · cases loaded

/-! ### One round -/

/-- Nothing is to be done about the record. -/
def Settled (nics : List NicItem) (row : LogRow) : Prop :=
  ∃ assigned, assignedNic nics row = some assigned ∧
    (assigned.logs row = true ∨ matchingNic nics row = none)

/-- The tool gives up at the record before it changes anything. -/
def Stuck (nics : List NicItem) (accounts : Nat) (row : LogRow) : Prop :=
  assignedNic nics row = none ∨ ∃ assigned new, assignedNic nics row = some assigned ∧
    assigned.logs row = false ∧ matchingNic nics row = some new ∧ accounts < Records.place new.aid

/-- The live records in front of a position are settled. -/
def SettledBelow (nics : List NicItem) (rows : List LogRow) (bound : Nat) : Prop :=
  ∀ position row, position < bound → rows[position]? = some row → row.n ≠ 0 → Settled nics row

/-- At the end of the log, or at a record where the tool gives up. -/
def EndsAt (nics : List NicItem) (accounts : Nat) (rows : List LogRow) (position : Nat) : Prop :=
  SettledBelow nics rows position ∧ (rows.length ≤ position ∨
    ∃ row, rows[position]? = some row ∧ row.n ≠ 0 ∧ Stuck nics accounts row)

section Round

variable {state : Checking} {fates : Fates} {position : Nat} {row : LogRow}

/-- The record that is fetched is live, and there is none between it and the last one. -/
theorem nextRecord_spec (found : state.nextRecord = some (position, row)) :
    state.read ≤ position ∧ state.log.rows[position]? = some row ∧ row.n ≠ 0 ∧
      ∀ other row', state.read ≤ other → other < position →
        state.log.rows[other]? = some row' → row'.n = 0 := by
  have spec := nextLive_spec state.log.rows state.read
  have found : Records.nextLive (state.log.rows.drop state.read) state.read =
    some (position, row) := found
  rw [found] at spec
  exact spec

theorem nextRecord_none (none : state.nextRecord = none) {other : Nat} {row' : LogRow}
    (behind : state.read ≤ other) (found : state.log.rows[other]? = some row') : row'.n = 0 := by
  have spec := nextLive_spec state.log.rows state.read
  have none : Records.nextLive (state.log.rows.drop state.read) state.read = Option.none := none
  rw [none] at spec
  exact spec other row' behind found

theorem next_settled (found : state.nextRecord = some (position, row))
    (settled : Settled state.nics row) : state.next fates = { state with read := position + 1 } := by
  obtain ⟨assigned, known, done⟩ := settled
  unfold Checking.next Checking.checkRecord
  simp only [found, known]
  rcases done with logs | none
  · rw [if_pos logs]
  · rw [none]
    split
    · rfl
    · rfl

/-- At a record where it gives up the tool ends and changes nothing. -/
theorem next_stuck (found : state.nextRecord = some (position, row))
    (stuck : Stuck state.nics state.accounts.rows.length row) :
    ∃ accounts, state.next fates =
        { state with accounts := accounts, read := position + 1, running := false } ∧
      accounts.rows = state.accounts.rows := by
  unfold Checking.next Checking.checkRecord
  rcases stuck with unknown | ⟨assigned, new, known, differs, matching, beyond⟩
  · simp only [found, unknown]
    exact ⟨state.accounts, rfl, rfl⟩
  · obtain ⟨refused, sought, same⟩ :=
      @seekUpdcur_refused _ _ _ _ (·.add (-row.cost)) beyond fates.sub
    simp only [found, known, differs, Bool.false_eq_true, ↓reduceIte, matching,
      Checking.fixRecord, sought]
    exact ⟨refused, rfl, same⟩

theorem HasAccount.add {accounts : List Account} {aid : UInt32} (has : HasAccount accounts aid)
    (other : Nat) (amount : ℚ) : HasAccount (accounts.modify other (·.add amount)) aid := by
  obtain ⟨live, account, found, number⟩ := has
  refine ⟨live, ?_⟩
  rw [List.getElem?_modify, found]
  split
  · exact ⟨account.add amount, rfl, number⟩
  · exact ⟨account, rfl, number⟩

/-- When both accounts and the record are where their numbers say, the record is fixed. -/
theorem next_fixed {assigned new : NicItem} (found : state.nextRecord = some (position, row))
    (known : assignedNic state.nics row = some assigned) (differs : assigned.logs row = false)
    (matching : matchingNic state.nics row = some new)
    (charged : HasAccount state.accounts.rows new.aid)
    (payer : HasAccount state.accounts.rows row.accpay) (pays : assigned.aid = row.accpay)
    (placed : Records.place row.n = position) :
    ∃ accounts log, state.next Fates.all =
        { state with accounts := accounts, log := log, read := position + 1, running := true } ∧
      accounts.rows = (state.accounts.rows.modify (Records.place new.aid)
        (·.add (-row.cost))).modify (Records.place row.accpay) (·.add row.cost) ∧
      log.rows = state.log.rows.modify position (·.repoint new) := by
  obtain ⟨_, here, live, _⟩ := nextRecord_spec found
  obtain ⟨chargedLive, from', fromFound, fromNumber⟩ := charged
  obtain ⟨payerLive, to', toFound, toNumber⟩ :=
    payer.add (Records.place new.aid) (-row.cost)
  subst placed
  unfold Checking.next Checking.checkRecord
  have subtracted := @seekUpdcur_found _ _ state.accounts new.aid (·.add (-row.cost)) from'
    fromFound fun dead => chargedLive (fromNumber.symm.trans dead)
  have added := @seekUpdcur_found _ _
    ⟨state.accounts.rows.modify (Records.place new.aid) (·.add (-row.cost)),
      Records.place new.aid, .ok⟩ row.accpay (·.add row.cost) to' toFound
    fun dead => payerLive (toNumber.symm.trans dead)
  have repointed := @seekUpdcur_found _ _ state.log row.n (·.repoint new) row here live
  simp only [found, known, differs, Bool.false_eq_true, ↓reduceIte, matching,
    Checking.fixRecord, Fates.all, subtracted, pays, added, repointed]
  exact ⟨_, _, rfl, rfl, rfl⟩

theorem record_cases (nics : List NicItem) (accounts : Nat) (row : LogRow) :
    Settled nics row ∨ Stuck nics accounts row ∨
      ∃ assigned new, assignedNic nics row = some assigned ∧ assigned.logs row = false ∧
        matchingNic nics row = some new ∧ Records.place new.aid ≤ accounts := by
  cases known : assignedNic nics row with
  | none => exact .inr (.inl (.inl known))
  | some assigned =>
    cases logs : assigned.logs row with
    | true => exact .inl ⟨assigned, known, .inl logs⟩
    | false =>
      cases matching : matchingNic nics row with
      | none => exact .inl ⟨assigned, known, .inr matching⟩
      | some new =>
        rcases Nat.lt_or_ge accounts (Records.place new.aid) with beyond | inside
        · exact .inr (.inl (.inr ⟨assigned, new, known, logs, matching, beyond⟩))
        · exact .inr (.inr ⟨assigned, new, rfl, logs, rfl, inside⟩)

/-- A record that points to the NIC that matches it is settled. -/
theorem settled_repoint {nics : List NicItem} (unique : (nics.map NicItem.nid).Nodup)
    {new : NicItem} (matching : matchingNic nics row = some new) :
    Settled nics (row.repoint new) := by
  have logs : new.logs row = true := by simpa using List.find?_some matching
  refine ⟨new, ?_, .inl logs⟩
  have member := List.mem_of_find?_eq_some matching
  cases first : assignedNic nics (row.repoint new) with
  | none =>
    have none := List.find?_eq_none.mp first new member
    simp [LogRow.repoint] at none
  | some other =>
    have number : other.nid = new.nid := by simpa [LogRow.repoint] using List.find?_some first
    rw [List.inj_on_of_nodup_map unique (List.mem_of_find?_eq_some first) member number]

theorem SettledBelow.next {nics : List NicItem} (below : SettledBelow nics state.log.rows state.read)
    (found : state.nextRecord = some (position, row)) :
    SettledBelow nics state.log.rows position := by
  intro other row' before there live
  rcases Nat.lt_or_ge other state.read with early | late
  · exact below other row' early there live
  · exact absurd ((nextRecord_spec found).2.2.2 other row' late before there) live

theorem SettledBelow.succ {nics : List NicItem} {rows : List LogRow}
    (below : SettledBelow nics rows position)
    (settled : ∀ row, rows[position]? = some row → Settled nics row) :
    SettledBelow nics rows (position + 1) := by
  intro other row' before there live
  rcases Nat.lt_succ_iff_lt_or_eq.mp before with early | rfl
  · exact below other row' early there live
  · exact settled row' there

theorem SettledBelow.modify {nics : List NicItem} {rows : List LogRow}
    (below : SettledBelow nics rows position) (change : LogRow → LogRow) :
    SettledBelow nics (rows.modify position change) position := by
  intro other row' before there live
  rw [List.getElem?_modify_ne _ _ (Nat.ne_of_gt before)] at there
  exact below other row' before there live

end Round

/-! ### Runs -/

/-- What a run of safe rounds keeps. -/
structure Progress (nics : List NicItem) (accounts : List Account) (state : Checking) : Prop where
  nics_eq : state.nics = nics
  total_eq : total state.accounts.rows = total accounts
  going : state.running = true → SettledBelow nics state.log.rows state.read
  ended : state.running = false →
    ∃ position, EndsAt nics state.accounts.rows.length state.log.rows position

section Runs

variable {nics : List NicItem} {accounts : List Account} {state next : Checking} {fates : Fates}

theorem Progress.start (nics : List NicItem) (accounts : List Account) (log : List LogRow) :
    Progress nics accounts (Checking.start nics accounts log) :=
  ⟨rfl, rfl, fun _ _ _ before => absurd before (Nat.not_lt_zero _), nofun⟩

theorem Progress.step (unique : (nics.map NicItem.nid).Nodup) (progress : Progress nics accounts state)
    (step : CheckStep state fates next) (safe : SafeRound state fates) :
    Progress nics accounts next ∧ RightRound state next := by
  obtain ⟨running, rfl⟩ := step
  have below := progress.going running
  have same := progress.nics_eq
  cases found : state.nextRecord with
  | none =>
    have ended : state.next fates = { state with running := false } := by
      unfold Checking.next
      rw [found]
    rw [ended]
    refine ⟨⟨same, progress.total_eq, nofun, fun _ => ⟨_, ?_, .inl (Nat.le_refl _)⟩⟩,
      .inl ⟨rfl, rfl⟩⟩
    intro other row' _ there live
    rcases Nat.lt_or_ge other state.read with early | late
    · exact below other row' early there live
    · exact absurd (nextRecord_none found late there) live
  | some fetched =>
    obtain ⟨position, row⟩ := fetched
    obtain ⟨_, here, live, _⟩ := nextRecord_spec found
    have behind := below.next found
    rcases record_cases state.nics state.accounts.rows.length row with
      settled | stuck | ⟨assigned, new, known, differs, matching, inside⟩
    · rw [next_settled found settled]
      refine ⟨⟨same, progress.total_eq, fun _ => behind.succ fun row' there => ?_, fun ended => ?_⟩,
        .inl ⟨rfl, rfl⟩⟩
      · rw [here] at there
        cases there
        rwa [← same]
      · rw [running] at ended
        cases ended
    · obtain ⟨refused, ended, kept⟩ := @next_stuck _ fates _ _ found stuck
      rw [ended]
      refine ⟨⟨same, ?_, nofun, fun _ => ⟨position, behind, .inr ⟨row, here, live, ?_⟩⟩⟩,
        .inl ⟨kept, rfl⟩⟩
      · rw [← progress.total_eq, ← kept]
      · show Stuck nics refused.rows.length row
        rwa [kept, ← same]
    · rcases safe position row assigned new found known differs matching with
        beyond | ⟨rfl, charged, payer, pays, placed⟩
      · omega
      · obtain ⟨moved, log, done, balances, records⟩ :=
          next_fixed found known differs matching charged payer pays placed
        obtain ⟨chargedLive, from', fromFound, fromNumber⟩ := id charged
        obtain ⟨payerLive, to', toFound, toNumber⟩ := id payer
        have right : RightRound state (state.next Fates.all) := by
          rw [done]
          exact .inr ⟨position, row, new, found, matching, _, _, from', to', fromFound, fromNumber,
            chargedLive, toFound, toNumber, payerLive, balances, records⟩
        refine ⟨⟨?_, right.total.trans progress.total_eq, fun _ => ?_, ?_⟩, right⟩
        · rw [done]
          exact same
        · rw [done]
          show SettledBelow nics log.rows (position + 1)
          rw [records]
          refine (behind.modify _).succ fun row' there => ?_
          rw [List.getElem?_modify_eq, here] at there
          cases there
          exact settled_repoint unique (same ▸ matching)
        · rw [done]
          exact nofun

/-- What a run keeps that comes behind another one, which has ended at this position. -/
structure Repeats (nics : List NicItem) (accounts : List Account) (log : List LogRow)
    (position : Nat) (state : Checking) : Prop where
  nics_eq : state.nics = nics
  balances : state.accounts.rows = accounts
  records : state.log.rows = log
  going : state.running = true → state.read ≤ position

theorem Repeats.step {log : List LogRow} {position : Nat}
    (ends : EndsAt nics accounts.length log position)
    (repeats : Repeats nics accounts log position state) (step : CheckStep state fates next) :
    Repeats nics accounts log position next := by
  obtain ⟨running, rfl⟩ := step
  obtain ⟨rfl, rfl, rfl, going⟩ := repeats
  obtain ⟨below, ending⟩ := ends
  cases found : state.nextRecord with
  | none =>
    have ended : state.next fates = { state with running := false } := by
      unfold Checking.next
      rw [found]
    rw [ended]
    exact ⟨rfl, rfl, rfl, nofun⟩
  | some fetched =>
    obtain ⟨other, row⟩ := fetched
    obtain ⟨_, here, live, between⟩ := nextRecord_spec found
    rcases Nat.lt_or_ge other position with before | behind
    · rw [next_settled found (below other row before here live)]
      exact ⟨rfl, rfl, rfl, fun _ => before⟩
    · rcases ending with beyond | ⟨last, there, lastLive, stuck⟩
      · have inside := (List.getElem?_eq_some_iff.mp here).1
        omega
      · rcases Nat.eq_or_lt_of_le behind with rfl | later
        · rw [here] at there
          cases there
          obtain ⟨refused, ended, kept⟩ := @next_stuck _ fates _ _ found stuck
          rw [ended]
          exact ⟨rfl, kept, rfl, nofun⟩
        · exact absurd (between position last (going running) later there) lastLive

end Runs

/-- In a run whose rounds are safe each round leaves the accounts and the log or moves the cost
of a record, the total of the balances stays, and another run behind it changes nothing. -/
theorem safe_rounds_move_costs {table : List NicItem} {accounts : List Account}
    {log : List LogRow} {start state : Checking} {fates : List Fates}
    (mounted : Checking.mount table accounts log = some start)
    (unique : ((liveNics table).map NicItem.nid).Nodup)
    (run : Run (Under CheckStep SafeRound) start fates state) :
    (∀ fate next, CheckStep state fate next → SafeRound state fate → RightRound state next) ∧
    total state.accounts.rows = total accounts ∧
    (state.running = false → ∀ restarted fates' again,
      Checking.mount table state.accounts.rows state.log.rows = some restarted →
      Run CheckStep restarted fates' again →
      again.accounts.rows = state.accounts.rows ∧ again.log.rows = state.log.rows) := by
  obtain ⟨nics, loaded, rfl⟩ := Option.map_eq_some_iff.mp mounted
  have same : nics = liveNics table := loadNics_eq loaded
  subst same
  have progress : Progress (liveNics table) accounts state :=
    run.invariant (motive := Progress (liveNics table) accounts) (.start _ accounts log)
      fun _ _ _ progress step => (progress.step unique step.1 step.2).1
  refine ⟨fun fate next step safe => (progress.step unique step safe).2, progress.total_eq, ?_⟩
  intro stopped restarted fates' again mounted rerun
  obtain ⟨nics, loaded, rfl⟩ := Option.map_eq_some_iff.mp mounted
  rw [loadNics_eq loaded] at rerun
  obtain ⟨position, ends⟩ := progress.ended stopped
  have repeats := rerun.invariant
    (motive := Repeats (liveNics table) state.accounts.rows state.log.rows position)
    ⟨rfl, rfl, rfl, fun _ => Nat.zero_le _⟩ fun _ _ _ repeats step => repeats.step ends step
  exact ⟨repeats.balances, repeats.records⟩


/-! ### Two NICs -/

/-- The first NIC has the account that is given, the second one the account 2. -/
def twoNics (aid : UInt32) : List NicItem :=
  [⟨1, aid, 1, Vector.replicate 6 0⟩, ⟨2, 2, 2, Vector.replicate 6 0⟩]

def threeAccounts : List Account := [⟨1, 10⟩, ⟨2, 10⟩, ⟨3, 10⟩]

/-- A session of the second NIC, which is assigned to the first one and was paid by the account
that is given. -/
def wrongRecord (accpay : UInt32) : LogRow := ⟨1, 1, Vector.replicate 6 0, 2, 5, 0, accpay⟩

theorem threeAccounts_number {position : Nat} {account : Account}
    (found : threeAccounts[position]? = some account) : position + 1 = account.n.toNat := by
  match position with
  | 0 | 1 | 2 =>
    cases found
    rfl
  | _ + 3 => cases found

/-- The first NIC has lost its account: the cost is subtracted, the `SEEK` for the account 0
refused, and the next run of the tool subtracts the cost again. When it has got another account
since, this one is paid and not the one that has paid. -/
theorem refused_seek_loses_money :
    (∃ start next restarted again,
      Checking.mount (twoNics 0) threeAccounts [wrongRecord 1] = some start ∧
      CheckStep start Fates.all next ∧ ¬ RightRound start next ∧
      total start.accounts.rows = 30 ∧ total next.accounts.rows = 25 ∧
      Checking.mount (twoNics 0) next.accounts.rows next.log.rows = some restarted ∧
      CheckStep restarted Fates.all again ∧ total again.accounts.rows = 20) ∧
    ∃ start next, Checking.mount (twoNics 1) threeAccounts [wrongRecord 3] = some start ∧
      CheckStep start Fates.all next ∧ ¬ RightRound start next ∧
      next.accounts.rows = [⟨1, 15⟩, ⟨2, 5⟩, ⟨3, 10⟩] := by
  constructor
  · let start := Checking.start (twoNics 0) threeAccounts [wrongRecord 1]
    have before : total start.accounts.rows = 30 := by decide +kernel
    have after : total (start.next Fates.all).accounts.rows = 25 := by decide +kernel
    refine ⟨start, _, _, _, rfl, ⟨rfl, rfl⟩, fun right => ?_, before, after, rfl, ⟨rfl, rfl⟩,
      by decide +kernel⟩
    have kept := right.total
    rw [before, after] at kept
    revert kept
    decide +kernel
  · let start := Checking.start (twoNics 1) threeAccounts [wrongRecord 3]
    have after : (start.next Fates.all).accounts.rows = [⟨1, 15⟩, ⟨2, 5⟩, ⟨3, 10⟩] := by
      decide +kernel
    refine ⟨start, _, rfl, ⟨rfl, rfl⟩, ?_, after⟩
    rintro (⟨same, _⟩ | ⟨_, row, new, ⟨⟩, ⟨⟩, charged, payer, from', to', found, number, _,
      found', number', _, moved, _⟩)
    · rw [after] at same
      revert same
      decide +kernel
    · have first := threeAccounts_number found
      have second := threeAccounts_number found'
      rw [number] at first
      rw [number'] at second
      obtain rfl : charged = 1 := Nat.succ.inj first
      obtain rfl : payer = 2 := Nat.succ.inj second
      rw [after] at moved
      revert moved
      decide +kernel

/-- The record is moved to the second NIC and its cost back to the first account. -/
theorem wrong_record_is_moved :
    ∃ state : Checking, state.accounts.rows = [⟨1, 15⟩, ⟨2, 5⟩, ⟨3, 10⟩] ∧
      state.log.rows = [⟨1, 2, Vector.replicate 6 0, 2, 5, 0, 2⟩] ∧
      total state.accounts.rows = total threeAccounts ∧
      ∀ restarted fates again,
        Checking.mount (twoNics 1) state.accounts.rows state.log.rows = some restarted →
        Run CheckStep restarted fates again → again.accounts.rows = state.accounts.rows := by
  let start := Checking.start (twoNics 1) threeAccounts [wrongRecord 1]
  let final := (start.next Fates.all).next Fates.all
  have first : SafeRound start Fates.all := by
    rintro _ _ assigned new ⟨⟩ ⟨⟩ _ ⟨⟩
    exact .inr ⟨rfl, ⟨by decide, _, rfl, rfl⟩, ⟨by decide, _, rfl, rfl⟩, rfl, rfl⟩
  have second : SafeRound (start.next Fates.all) Fates.all := by
    have none : (start.next Fates.all).nextRecord = none := by decide +kernel
    intro position row assigned new found
    rw [none] at found
    cases found
  have run : Run (Under CheckStep SafeRound) start [Fates.all, Fates.all] final :=
    .cons ⟨⟨rfl, rfl⟩, first⟩ (.cons ⟨⟨by decide +kernel, rfl⟩, second⟩ .nil)
  obtain ⟨_, kept, again⟩ := @safe_rounds_move_costs (twoNics 1) threeAccounts [wrongRecord 1]
    start final _ rfl (by decide) run
  have ended : final.running = false := by decide +kernel
  exact ⟨final, by decide +kernel, by decide +kernel, kept, fun restarted fates other mounted rerun =>
    (again ended restarted fates other mounted rerun).1⟩

end QNXStuff.QXBilling
