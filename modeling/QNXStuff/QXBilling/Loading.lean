import QNXStuff.Library.LinkedList
import QNXStuff.QXBase.Records
import QNXStuff.QXBilling.Charging

/-! What the billing loop loads before it asks for a log: the active taxes with their details,
the accounts that may pay and the NICs, linked by pointers. -/

namespace QNXStuff.QXBilling

open Execution LinkedList
open QXBase (Recorded memcmp)

/-! ### The tables -/

/-- Rows that are fetched through the filter "active equals 1". -/
class Activated (R : Type) extends Recorded R where
  active : R → UInt32

/-- What `Qbase_fetch` delivers of a table. -/
def fetched {R : Type} [Activated R] (rows : List R) : List R :=
  rows.filter fun row => Recorded.key row != 0 && Activated.active row == 1

/-- A row of "taxes". -/
structure TaxRow where
  n : UInt32
  active : UInt32
  defSumIn : Float
  defSumOut : Float

/-- A row of "tax_details". -/
structure TaxDetailRow where
  n : UInt32
  tax : UInt32
  active : UInt32
  ipMask : UInt32
  ipAddr : UInt32
  proto : UInt16
  port : UInt16
  taxToCli : Float
  taxFmCli : Float
  times : UInt32

/-- A row of "tax_times", with the costs of every hour. -/
structure TaxTimeRow where
  n : UInt32
  active : UInt32
  costIn : Fin 24 → Float
  costOut : Fin 24 → Float

/-- A row of "accounts". -/
structure AccountRow where
  n : UInt32
  tax : UInt32
  sum : Float
  active : UInt32
  negative : UInt32

/-- A row of "NICs". -/
structure NicsRow where
  n : UInt32
  account : UInt32
  active : UInt32
  ip : UInt32
  mac : Mac

instance : Activated TaxRow := { key := TaxRow.n, active := TaxRow.active }

instance : Activated TaxDetailRow := { key := TaxDetailRow.n, active := TaxDetailRow.active }

instance : Activated TaxTimeRow := { key := TaxTimeRow.n, active := TaxTimeRow.active }

instance : Activated AccountRow := { key := AccountRow.n, active := AccountRow.active }

instance : Activated NicsRow := { key := NicsRow.n, active := NicsRow.active }

structure BillingTables where
  taxes : List TaxRow
  taxTimes : List TaxTimeRow
  taxDetails : List TaxDetailRow
  accounts : List AccountRow
  nics : List NicsRow

/-- "if negative balance prohibited for account - proceed to next account" -/
def AccountRow.allowed (row : AccountRow) : Bool := row.negative == 1 || !decide (row.sum < 0)

/-! ### The memory -/

/-- `MaxTaxes` and so on; 0 is also a negative setting, for which no memory is allocated. -/
structure Limits where
  maxTaxes : Nat
  maxTaxDetails : Nat
  maxTaxTimes : Nat
  maxAccounts : Nat
  maxNics : Nat

/-- An entry of `shdw_taxes`; pointers are places in the arrays. -/
structure TaxSlot where
  uid : UInt32
  defTaxToCli : Float
  defTaxFromCli : Float
  td : Option Nat

/-- An entry of `shdw_td`. -/
structure TdSlot where
  det : TaxDet
  next : Option Nat

/-- An entry of `crnt_tt`. -/
structure TtSlot where
  uid : UInt32
  curTaxToCli : Float
  curTaxFromCli : Float

/-- An entry of `shdw_accounts`. -/
structure AccntSlot where
  uid : UInt32
  tax : Option Nat

/-- An entry of `shdw_NICs`. -/
structure NicSlot where
  uid : UInt32
  rule : RuleNics
  account : Option Nat

/-- The arrays that are swapped together. -/
structure Bank where
  taxes : Nat → TaxSlot
  td : Nat → TdSlot
  accounts : Nat → AccntSlot
  nics : Nat → NicSlot

/-- A write behind the end of an array, or to one that was not allocated. -/
inductive LoadFault where
  | outside
  deriving DecidableEq

/-! ### Loading -/

/-- An array that is being filled, and what else is written for its rows. -/
structure Filling (Slot Extra : Type) where
  slots : Nat → Slot
  counter : Nat
  extra : Extra

/-- How a loop reads a row: the entry for the current slot, and whether it is kept. -/
abbrev Reader (Row Slot Extra : Type) := Extra → Nat → Row → Slot × Bool × Extra

/-- The body of a loop: the slot is written in any case, and written again for the next row
if the entry is not kept. -/
def Filling.next {Row Slot Extra : Type} (read : Reader Row Slot Extra)
    (filling : Filling Slot Extra) (row : Row) : Filling Slot Extra :=
  let (slot, kept, extra) := read filling.extra filling.counter row
  { slots := Function.update filling.slots filling.counter slot
    counter := if kept then filling.counter + 1 else filling.counter
    extra := extra }

/-- The loop over the rows that are fetched. -/
def fillLoop {Row Slot Extra : Type} (max : Nat) (read : Reader Row Slot Extra) :
    Filling Slot Extra → List Row → Except LoadFault (Filling Slot Extra)
  | filling, [] => .ok filling
  | filling, row :: rest =>
    if filling.counter < max then
      let filling := filling.next read row
      if filling.counter = max then .ok filling else fillLoop max read filling rest
    else .error .outside

/-- The first of the entries of an array that has a number. -/
def findSlot {Slot : Type} (uid : Slot → UInt32) (slots : Nat → Slot) (count : Nat)
    (number : UInt32) : Option Nat :=
  (List.range count).find? fun i => uid (slots i) == number

/-- "read active taxes into plain buffer" -/
def readTax : Reader TaxRow TaxSlot Unit :=
  fun _ _ row => (⟨row.n, row.defSumIn, row.defSumOut, none⟩, true, ())

/-- "read all active floating taxes based on current_hour" -/
def readTaxTime (hour : Fin 24) : Reader TaxTimeRow TtSlot Unit :=
  fun _ _ row => (⟨row.n, row.costIn hour, row.costOut hour⟩, true, ())

/-- "fix values for tax details" -/
def TaxDetailRow.det (times : Nat → TtSlot) (numTt : Nat) (row : TaxDetailRow) : TaxDet :=
  let costs := match findSlot TtSlot.uid times numTt row.times with
    | some i => ((times i).curTaxToCli, (times i).curTaxFromCli)
    | none => (row.taxToCli, row.taxFmCli)
  ⟨row.ipAddr, row.ipMask, row.proto, row.port, costs.1, costs.2⟩

/-- "try to link tax details with known active taxes"; the taxes are written as well. -/
def readTaxDetail (times : Nat → TtSlot) (numTt numTaxes : Nat) :
    Reader TaxDetailRow TdSlot (Nat → TaxSlot) :=
  fun taxes counter row =>
    match findSlot TaxSlot.uid taxes numTaxes row.tax with
    | some i =>
      (⟨row.det times numTt, (taxes i).td⟩, true,
        Function.update taxes i { taxes i with td := some counter })
    | none => (⟨row.det times numTt, none⟩, row.tax == 0, taxes)

/-- "try to find appropriate tax" -/
def readAccount (taxes : Nat → TaxSlot) (numTaxes : Nat) : Reader AccountRow AccntSlot Unit :=
  fun _ _ row =>
    let tax := findSlot TaxSlot.uid taxes numTaxes row.tax
    (⟨row.n, tax⟩, tax.isSome || row.tax == 0, ())

def NicsRow.rule (row : NicsRow) : RuleNics := ⟨row.n, row.ip, row.mac⟩

/-- "try to find appropriate account" and "push the rule into nfm-qxc" -/
def readNic (accounts : Nat → AccntSlot) (numAccounts : Nat) :
    Reader NicsRow NicSlot (List RuleNics) :=
  fun pushed _ row =>
    let account := findSlot AccntSlot.uid accounts numAccounts row.account
    (⟨row.n, row.rule, account⟩, account.isSome || row.account == 0,
      if account.isSome then pushed ++ [row.rule] else pushed)

structure Loaded where
  bank : Bank
  times : Nat → TtSlot
  numTaxes : Nat
  numTd : Nat
  numAccounts : Nat
  numNics : Nat
  pushed : List RuleNics

/-- The loops over the tables, one after the other. -/
def load (limits : Limits) (hour : Fin 24) (times : Nat → TtSlot) (bank : Bank)
    (tables : BillingTables) : Except LoadFault Loaded := do
  let taxes ← fillLoop limits.maxTaxes readTax ⟨bank.taxes, 0, ()⟩ (fetched tables.taxes)
  let tt ← fillLoop limits.maxTaxTimes (readTaxTime hour) ⟨times, 0, ()⟩
    (fetched tables.taxTimes)
  let td ← fillLoop limits.maxTaxDetails (readTaxDetail tt.slots tt.counter taxes.counter)
    ⟨bank.td, 0, taxes.slots⟩ (fetched tables.taxDetails)
  let accounts ← fillLoop limits.maxAccounts (readAccount td.extra taxes.counter)
    ⟨bank.accounts, 0, ()⟩ ((fetched tables.accounts).filter AccountRow.allowed)
  let nics ← fillLoop limits.maxNics (readNic accounts.slots accounts.counter)
    ⟨bank.nics, 0, []⟩ (fetched tables.nics)
  return {
    bank := ⟨td.extra, td.slots, accounts.slots, nics.slots⟩
    times := tt.slots
    numTaxes := taxes.counter
    numTd := td.counter
    numAccounts := accounts.counter
    numNics := nics.counter
    pushed := nics.extra }

/-! ### Billing a session -/

/-- A pointer that is NULL or leads out of its array, or a list without an end. -/
inductive BillFault where
  | null
  | foreign
  | endless
  deriving DecidableEq

/-- The pointer into an array of a size. -/
def deref (size : Nat) : Option Nat → Except BillFault Nat
  | none => .error .null
  | some place => if place < size then .ok place else .error .foreign

/-- "there is specific rule for this session" -/
def TaxDet.applies (td : TaxDet) (session : QxLog) : Bool :=
  td.ipAddr == (session.ipHost &&& td.ipMask) &&
    (td.ipProto == 0 || td.ipProto == session.ipProto) &&
    (td.ipPort == 0 || td.ipPort == session.portHost)

/-- The walk through the details of a tax. -/
def findTd (limits : Limits) (td : Nat → TdSlot) (session : QxLog) :
    Nat → Option Nat → Except BillFault (Option TaxDet)
  | 0, _ => .error .endless
  | _ + 1, none => .ok none
  | fuel + 1, some place =>
    if place < limits.maxTaxDetails then
      if (td place).det.applies session then .ok (some (td place).det)
      else findTd limits td session fuel (td place).next
    else .error .foreign

/-- The record for a session; `none` where the session has no associated NIC. -/
def Bank.bill (limits : Limits) (bank : Bank) (numNics : Nat) (dataUnits : Int) (time : UInt32)
    (session : QxLog) : Except BillFault (Option LogRecord) :=
  match (List.range numNics).find? fun i =>
      decide (memcmp session.mac.toList (bank.nics i).rule.mac.toList 6 = 0) &&
        session.ipClnt == (bank.nics i).rule.ipAddr with
  | none => .ok none
  | some i => do
    let nic := bank.nics i
    let account ← deref limits.maxAccounts nic.account
    let place ← deref limits.maxTaxes (bank.accounts account).tax
    let tax := bank.taxes place
    let td ← findTd limits bank.td session (limits.maxTaxDetails + 1) tax.td
    let cost (rate : Float) (bytes : UInt32) := rate * bytes.toFloat / Float.ofInt dataUnits
    let rates := match td with
      | some td => (td.taxToCli, td.taxFromCli)
      | none => (tax.defTaxToCli, tax.defTaxFromCli)
    return some {
      time := time, nic := nic.uid, session := session
      stocli := cost rates.1 session.bytesToCli, stohst := cost rates.2 session.bytesToHost
      accpay := (bank.accounts account).uid }

/-! ### What the loading should leave -/

/-- The links between the entries are those of the rows. -/
structure Linked (tables : BillingTables) (loaded : Loaded) : Prop where
  nics : ∃ rows : List NicsRow, rows.Sublist (fetched tables.nics) ∧
    rows.length = loaded.numNics ∧ ∀ i row, rows[i]? = some row →
      (loaded.bank.nics i).uid = row.n ∧ ∃ account, (loaded.bank.nics i).account = some account ∧
        account < loaded.numAccounts ∧ (loaded.bank.accounts account).uid = row.account
  pushed : ∀ rule ∈ loaded.pushed, ∃ i < loaded.numNics, (loaded.bank.nics i).rule = rule
  accounts : ∃ rows : List AccountRow, rows.Sublist (fetched tables.accounts) ∧
    rows.length = loaded.numAccounts ∧ ∀ i row, rows[i]? = some row →
      (loaded.bank.accounts i).uid = row.n ∧ ∃ tax, (loaded.bank.accounts i).tax = some tax ∧
        tax < loaded.numTaxes ∧ (loaded.bank.taxes tax).uid = row.tax
  details : ∃ rows : List TaxDetailRow, rows.Sublist (fetched tables.taxDetails) ∧
    rows.length = loaded.numTd ∧ ∀ tax < loaded.numTaxes, ∃ refs,
      Chain (fun place => (loaded.bank.td place).next) (loaded.bank.taxes tax).td refs ∧
      ∀ place ∈ refs, ∃ row, rows[place]? = some row ∧
        row.tax = (loaded.bank.taxes tax).uid

/-- The accounts that get an entry: those whose tax is one of the taxes, or 0. -/
def countedAccounts (limits : Limits) (tables : BillingTables) : List AccountRow :=
  (((fetched tables.accounts).filter AccountRow.allowed).filter fun row =>
    ((fetched tables.taxes).take limits.maxTaxes).any (·.n == row.tax) || row.tax == 0).take
      limits.maxAccounts

def countedNics (limits : Limits) (tables : BillingTables) : List NicsRow :=
  ((fetched tables.nics).filter fun row =>
    (countedAccounts limits tables).any (·.n == row.account) || row.account == 0).take
      limits.maxNics

/-- No account with an entry has the tax 0, no NIC with an entry the account 0, and there is
memory for what is loaded. -/
structure Linkable (limits : Limits) (tables : BillingTables) : Prop where
  taxes : limits.maxTaxes = 0 → fetched tables.taxes = []
  taxTimes : limits.maxTaxTimes = 0 → fetched tables.taxTimes = []
  taxDetails : limits.maxTaxDetails = 0 → fetched tables.taxDetails = []
  accounts : limits.maxAccounts = 0 → (fetched tables.accounts).filter AccountRow.allowed = []
  nics : limits.maxNics = 0 → fetched tables.nics = []
  tax : ∀ row ∈ countedAccounts limits tables, row.tax ≠ 0
  account : ∀ row ∈ countedNics limits tables, row.account ≠ 0

/-! ### The loops -/

section Filling

variable {Row Slot Extra : Type} {max : Nat} {read : Reader Row Slot Extra}
  {filling : Filling Slot Extra} {rows : List Row}

/-- What the body keeps holds of the rows in front of the place where the loop ends, which is the
end of the rows or comes with the last slot. -/
theorem fillLoop_rule {holds : Filling Slot Extra → List Row → Prop} {done : List Row}
    (start : holds filling done) (inside : filling.counter ≤ max)
    (room : filling.counter = max → rows = [])
    (body : ∀ filling done row, holds filling done → holds (filling.next read row) (done ++ [row])) :
    ∃ final front back, fillLoop max read filling rows = .ok final ∧ rows = front ++ back ∧
      holds final (done ++ front) ∧ final.counter ≤ max ∧ (back = [] ∨ final.counter = max) := by
  induction rows generalizing filling done with
  | nil => exact ⟨filling, [], [], rfl, rfl, by simpa using start, inside, .inl rfl⟩
  | cons row rest ih =>
    have below : filling.counter < max := by
      refine Nat.lt_of_le_of_ne inside fun full => ?_
      cases room full
    have after := body filling done row start
    have bound : (filling.next read row).counter ≤ max := by
      simp only [Filling.next]
      split
      · exact below
      · exact inside
    simp only [fillLoop, if_pos below]
    by_cases full : (filling.next read row).counter = max
    · rw [if_pos full]
      exact ⟨_, [row], rest, rfl, rfl, after, bound, .inr full⟩
    · rw [if_neg full]
      obtain ⟨final, front, back, run, split, kept, bound', ended⟩ := ih after bound
        fun full' => absurd full' full
      refine ⟨final, row :: front, back, run, by rw [split, List.cons_append], ?_, bound', ended⟩
      rw [List.append_assoc] at kept
      exact kept

/-- Where there is no memory, only an empty table can be loaded. -/
theorem fillLoop_none {final : Filling Slot Extra} (fresh : filling.counter = 0)
    (done : fillLoop max read filling rows = .ok final) : max = 0 → rows = [] := by
  rintro rfl
  cases rows with
  | nil => rfl
  | cons row rest =>
    simp only [fillLoop, fresh, Nat.lt_irrefl, if_false] at done
    cases done

/-- The first rows that are kept are those that are kept of the first rows. -/
theorem take_filter_append {keep : Row → Bool} {front back : List Row} {count : Nat}
    (ended : back = [] ∧ (front.filter keep).length ≤ count ∨
      (front.filter keep).length = count) :
    ((front ++ back).filter keep).take count = front.filter keep := by
  rw [List.filter_append]
  rcases ended with ⟨rfl, below⟩ | rfl
  · rw [List.filter_nil, List.append_nil]
    exact List.take_of_length_le below
  · exact List.take_left

/-- A loop whose entries and choices depend on the row only. -/
theorem fillLoop_counted {slotOf : Row → Slot} {keep : Row → Bool}
    {keeps : Extra → List Row → Prop}
    (reads : ∀ extra counter row,
      (read extra counter row).1 = slotOf row ∧ (read extra counter row).2.1 = keep row)
    (fresh : filling.counter = 0) (start : keeps filling.extra [])
    (room : max = 0 → rows = [])
    (body : ∀ extra counter done row, keeps extra done →
      keeps (read extra counter row).2.2 (done ++ [row])) :
    ∃ final front, fillLoop max read filling rows = .ok final ∧ front.Sublist rows ∧
      front.filter keep = (rows.filter keep).take max ∧ keeps final.extra front ∧
      final.counter = ((rows.filter keep).take max).length ∧
      ∀ i row, ((rows.filter keep).take max)[i]? = some row → final.slots i = slotOf row := by
  have rule := @fillLoop_rule _ _ _ max read filling rows
    (fun filling done => keeps filling.extra done ∧
      filling.counter = (done.filter keep).length ∧
      ∀ i row, (done.filter keep)[i]? = some row → filling.slots i = slotOf row) [] ?_ ?_ ?_ ?_
  · obtain ⟨final, front, back, run, rfl, ⟨extra, counter, slots⟩, bound, ended⟩ := rule
    rw [List.nil_append] at extra counter slots
    have counted : ((front ++ back).filter keep).take max = front.filter keep := by
      refine take_filter_append ?_
      rcases ended with rfl | full
      · exact .inl ⟨rfl, counter ▸ bound⟩
      · exact .inr (counter.symm.trans full)
    rw [counted]
    exact ⟨final, front, run, List.sublist_append_left front back, rfl, extra, counter, slots⟩
  · exact ⟨start, by simpa using fresh, by simp⟩
  · rw [fresh]
    exact Nat.zero_le max
  · intro full
    exact room (full.symm.trans fresh)
  · intro filling done row holds
    obtain ⟨extra, counter, slots⟩ := holds
    obtain ⟨slot, kept⟩ := reads filling.extra filling.counter row
    refine ⟨body filling.extra filling.counter done row extra, ?_, ?_⟩
    · simp only [Filling.next, kept, List.filter_append, List.length_append,
        List.filter_singleton]
      rw [counter]
      cases keep row <;> rfl
    · intro i other found
      simp only [Filling.next, slot]
      rw [List.filter_append, List.filter_singleton] at found
      by_cases before : i < (done.filter keep).length
      · rw [List.getElem?_append_left before] at found
        rw [counter, Function.update_of_ne (Nat.ne_of_lt before)]
        exact slots i other found
      · rw [List.getElem?_append_right (Nat.le_of_not_lt before)] at found
        cases chosen : keep row with
        | false => simp [chosen] at found
        | true =>
          have last : i - (done.filter keep).length = 0 := by
            by_contra further
            rw [chosen, cond_true, List.getElem?_singleton, if_neg further] at found
            cases found
          rw [chosen, cond_true, last] at found
          cases found
          have here : i = filling.counter := by omega
          rw [here, Function.update_self]

end Filling

/-! ### Numbers -/

section Numbers

variable {Slot Row : Type} {uid : Slot → UInt32} {slots : Nat → Slot} {count : Nat}
  {number : UInt32}

theorem findSlot_some {i : Nat} (found : findSlot uid slots count number = some i) :
    i < count ∧ uid (slots i) = number := by
  have member := List.mem_of_find?_eq_some found
  have same := List.find?_some found
  exact ⟨List.mem_range.mp member, by simpa using same⟩

theorem findSlot_congr {slots' : Nat → Slot} (same : ∀ i, uid (slots' i) = uid (slots i)) :
    findSlot uid slots' count number = findSlot uid slots count number := by
  unfold findSlot
  simp only [same]

/-- Entries are found by the numbers of their rows. -/
theorem findSlot_isSome {rows : List Row} {numberOf : Row → UInt32} (length : count = rows.length)
    (entries : ∀ i row, rows[i]? = some row → uid (slots i) = numberOf row) :
    (findSlot uid slots count number).isSome = rows.any (numberOf · == number) := by
  unfold findSlot
  rw [Bool.eq_iff_iff, List.find?_isSome, List.any_eq_true]
  constructor
  · rintro ⟨i, inside, same⟩
    have below : i < rows.length := length ▸ List.mem_range.mp inside
    refine ⟨rows[i], List.getElem_mem below, ?_⟩
    rw [← entries i rows[i] (List.getElem?_eq_getElem below)]
    exact same
  · rintro ⟨row, member, same⟩
    obtain ⟨i, found⟩ := List.mem_iff_getElem?.mp member
    have below := (List.getElem?_eq_some_iff.mp found).1
    refine ⟨i, List.mem_range.mpr (length ▸ below), ?_⟩
    rw [entries i row found]
    exact same

end Numbers

/-! ### The details of the taxes -/

section Details

variable {limits : Limits} {taxes : Nat → TaxSlot} {times : Nat → TtSlot} {numTt numTaxes : Nat}
  {rows : List TaxDetailRow}

/-- A row whose entry is kept. -/
def keepsDetail (taxes : Nat → TaxSlot) (numTaxes : Nat) (row : TaxDetailRow) : Bool :=
  (findSlot TaxSlot.uid taxes numTaxes row.tax).isSome || row.tax == 0

/-- The lists of the details of the rows so far. -/
structure DetailsOf (taxes : Nat → TaxSlot) (numTaxes : Nat)
    (filling : Filling TdSlot (Nat → TaxSlot)) (done : List TaxDetailRow) : Prop where
  uids : ∀ i, (filling.extra i).uid = (taxes i).uid
  counter : filling.counter = (done.filter (keepsDetail taxes numTaxes)).length
  lists : ∀ tax < numTaxes, ∃ refs,
    Chain (fun place => (filling.slots place).next) (filling.extra tax).td refs ∧
    ∀ place ∈ refs, ∃ row, (done.filter (keepsDetail taxes numTaxes))[place]? = some row ∧
      row.tax = (taxes tax).uid

theorem next_update (slots : Nat → TdSlot) (changed : Nat) (slot : TdSlot) :
    (fun place => (Function.update slots changed slot place).next) =
      Function.update (fun place => (slots place).next) changed slot.next :=
  Function.comp_update TdSlot.next slots changed slot

theorem DetailsOf.next {filling : Filling TdSlot (Nat → TaxSlot)} {done : List TaxDetailRow}
    (details : DetailsOf taxes numTaxes filling done) (row : TaxDetailRow) :
    DetailsOf taxes numTaxes (filling.next (readTaxDetail times numTt numTaxes) row)
      (done ++ [row]) := by
  have search : findSlot TaxSlot.uid filling.extra numTaxes row.tax =
      findSlot TaxSlot.uid taxes numTaxes row.tax := findSlot_congr details.uids
  -- the slot that is written is in no list yet, and the rows of the others stay where they are
  have outside {tax : Nat} {refs : List Nat} (known : ∀ place ∈ refs, ∃ row,
      (done.filter (keepsDetail taxes numTaxes))[place]? = some row ∧
        row.tax = (taxes tax).uid) : filling.counter ∉ refs := by
    intro member
    obtain ⟨_, found, _⟩ := known _ member
    have below := (List.getElem?_eq_some_iff.mp found).1
    exact Nat.lt_irrefl _ (details.counter ▸ below)
  have further {place : Nat} {other : TaxDetailRow}
      (found : (done.filter (keepsDetail taxes numTaxes))[place]? = some other) :
      ((done ++ [row]).filter (keepsDetail taxes numTaxes))[place]? = some other := by
    rw [List.filter_append, List.getElem?_append_left (List.getElem?_eq_some_iff.mp found).1]
    exact found
  cases found : findSlot TaxSlot.uid taxes numTaxes row.tax with
  | none =>
    have keep : keepsDetail taxes numTaxes row = (row.tax == 0) := by
      simp [keepsDetail, found]
    constructor
    · intro i
      simp only [Filling.next, readTaxDetail, search, found]
      exact details.uids i
    · simp only [Filling.next, readTaxDetail, search, found, List.filter_append,
        List.length_append, List.filter_singleton, keep]
      rw [details.counter]
      cases row.tax == 0 <;> rfl
    · intro tax inside
      obtain ⟨refs, chain, known⟩ := details.lists tax inside
      simp only [Filling.next, readTaxDetail, search, found]
      refine ⟨refs, ?_, fun place member => ?_⟩
      · rw [next_update]
        exact chain.update (outside known) none
      · obtain ⟨other, here, same⟩ := known place member
        exact ⟨other, further here, same⟩
  | some i =>
    have keep : keepsDetail taxes numTaxes row = true := by
      simp [keepsDetail, found]
    obtain ⟨below, uid⟩ := findSlot_some found
    constructor
    · intro j
      simp only [Filling.next, readTaxDetail, search, found]
      by_cases same : j = i
      · rw [same, Function.update_self]
        exact details.uids i
      · rw [Function.update_of_ne same]
        exact details.uids j
    · simp only [Filling.next, readTaxDetail, search, found, List.filter_append,
        List.length_append, List.filter_singleton, keep]
      rw [details.counter]
      rfl
    · intro tax inside
      obtain ⟨refs, chain, known⟩ := details.lists tax inside
      simp only [Filling.next, readTaxDetail, search, found]
      rw [next_update]
      by_cases same : tax = i
      · subst same
        rw [Function.update_self]
        refine ⟨filling.counter :: refs, chain.push (outside known), fun place member => ?_⟩
        rcases List.mem_cons.mp member with rfl | member
        · refine ⟨row, ?_, uid.symm⟩
          rw [List.filter_append, List.filter_singleton, keep, details.counter]
          simp
        · obtain ⟨other, here, same⟩ := known place member
          exact ⟨other, further here, same⟩
      · rw [Function.update_of_ne same]
        refine ⟨refs, chain.update (outside known) _, fun place member => ?_⟩
        obtain ⟨other, here, same⟩ := known place member
        exact ⟨other, further here, same⟩

/-- The details that are loaded make finite lists, each of the rows of its tax. -/
theorem details_loaded {td : Nat → TdSlot} {max : Nat} (room : max = 0 → rows = [])
    (empty : ∀ tax < numTaxes, (taxes tax).td = none) :
    ∃ final front, fillLoop max (readTaxDetail times numTt numTaxes) ⟨td, 0, taxes⟩ rows =
        .ok final ∧ front.Sublist rows ∧ DetailsOf taxes numTaxes final front ∧
      final.counter ≤ max := by
  obtain ⟨final, front, back, run, rfl, details, bound, _⟩ :=
    @fillLoop_rule _ _ _ max (readTaxDetail times numTt numTaxes) ⟨td, 0, taxes⟩ rows
      (DetailsOf taxes numTaxes) []
      ⟨fun _ => rfl, rfl, fun tax inside => ⟨[], empty tax inside, by simp⟩⟩ (Nat.zero_le max)
      (fun full => room full.symm) (fun filling done row details => details.next row)
  exact ⟨final, front, run, List.sublist_append_left front back, details, bound⟩

end Details

/-! ### The whole loading -/

section Loading

variable {limits : Limits} {hour : Fin 24} {times : Nat → TtSlot} {bank : Bank}
  {tables : BillingTables} {loaded : Loaded}

/-- There is memory for what is loaded. -/
structure Room (limits : Limits) (tables : BillingTables) : Prop where
  taxes : limits.maxTaxes = 0 → fetched tables.taxes = []
  taxTimes : limits.maxTaxTimes = 0 → fetched tables.taxTimes = []
  taxDetails : limits.maxTaxDetails = 0 → fetched tables.taxDetails = []
  accounts : limits.maxAccounts = 0 → (fetched tables.accounts).filter AccountRow.allowed = []
  nics : limits.maxNics = 0 → fetched tables.nics = []

/-- The entries, row by row. -/
structure LoadedAs (limits : Limits) (tables : BillingTables) (loaded : Loaded) : Prop where
  numTaxes : loaded.numTaxes = ((fetched tables.taxes).take limits.maxTaxes).length
  taxes : ∀ i row, ((fetched tables.taxes).take limits.maxTaxes)[i]? = some row →
    (loaded.bank.taxes i).uid = row.n
  details : ∃ rows : List TaxDetailRow, rows.Sublist (fetched tables.taxDetails) ∧
    rows.length = loaded.numTd ∧ ∀ tax < loaded.numTaxes, ∃ refs,
      Chain (fun place => (loaded.bank.td place).next) (loaded.bank.taxes tax).td refs ∧
      ∀ place ∈ refs, ∃ row, rows[place]? = some row ∧
        row.tax = (loaded.bank.taxes tax).uid
  numTd : loaded.numTd ≤ limits.maxTaxDetails
  numAccounts : loaded.numAccounts = (countedAccounts limits tables).length
  accounts : ∀ i row, (countedAccounts limits tables)[i]? = some row →
    loaded.bank.accounts i =
      ⟨row.n, findSlot TaxSlot.uid loaded.bank.taxes loaded.numTaxes row.tax⟩
  numNics : loaded.numNics = (countedNics limits tables).length
  nics : ∀ i row, (countedNics limits tables)[i]? = some row →
    loaded.bank.nics i =
      ⟨row.n, row.rule, findSlot AccntSlot.uid loaded.bank.accounts loaded.numAccounts row.account⟩
  pushed : ∀ rule ∈ loaded.pushed, ∃ row ∈ countedNics limits tables, row.rule = rule

theorem loaded_as (room : Room limits tables) :
    ∃ loaded, load limits hour times bank tables = .ok loaded ∧ LoadedAs limits tables loaded := by
  have whole (rows : List TaxRow) : rows.filter (fun _ => true) = rows := List.filter_true rows
  obtain ⟨taxes, _, loadTaxes, _, _, _, numTaxes, taxSlots⟩ :=
    @fillLoop_counted _ _ _ limits.maxTaxes readTax ⟨bank.taxes, 0, ()⟩ (fetched tables.taxes)
      (fun row => ⟨row.n, row.defSumIn, row.defSumOut, none⟩) (fun _ => true) (fun _ _ => True)
      (fun _ _ _ => ⟨rfl, rfl⟩) rfl trivial room.taxes (fun _ _ _ _ _ => trivial)
  rw [whole] at numTaxes taxSlots
  obtain ⟨tt, _, loadTimes, _⟩ :=
    @fillLoop_counted _ _ _ limits.maxTaxTimes (readTaxTime hour) ⟨times, 0, ()⟩
      (fetched tables.taxTimes) (fun row => ⟨row.n, row.costIn hour, row.costOut hour⟩)
      (fun _ => true) (fun _ _ => True)
      (fun _ _ _ => ⟨rfl, rfl⟩) rfl trivial room.taxTimes (fun _ _ _ _ _ => trivial)
  have empty : ∀ tax < taxes.counter, (taxes.slots tax).td = none := by
    intro tax inside
    rw [numTaxes] at inside
    rw [taxSlots tax _ (List.getElem?_eq_getElem inside)]
  obtain ⟨td, rows, loadDetails, sublist, details, numTd⟩ :=
    @details_loaded taxes.slots tt.slots tt.counter taxes.counter (fetched tables.taxDetails) bank.td
      limits.maxTaxDetails room.taxDetails empty
  have taxNumber (i : Nat) (row : TaxRow)
      (found : ((fetched tables.taxes).take limits.maxTaxes)[i]? = some row) :
      (td.extra i).uid = row.n := by
    rw [details.uids, taxSlots i row found]
  have known (row : AccountRow) : (findSlot TaxSlot.uid td.extra taxes.counter row.tax).isSome =
      ((fetched tables.taxes).take limits.maxTaxes).any (·.n == row.tax) :=
    findSlot_isSome numTaxes taxNumber
  obtain ⟨accounts, _, loadAccounts, _, _, _, numAccounts, accountSlots⟩ :=
    @fillLoop_counted _ _ _ limits.maxAccounts (readAccount td.extra taxes.counter)
      ⟨bank.accounts, 0, ()⟩ ((fetched tables.accounts).filter AccountRow.allowed)
      (fun row => ⟨row.n, findSlot TaxSlot.uid td.extra taxes.counter row.tax⟩)
      (fun row => ((fetched tables.taxes).take limits.maxTaxes).any (·.n == row.tax) || row.tax == 0)
      (fun _ _ => True) (fun _ _ row => ⟨rfl, by rw [← known]; rfl⟩) rfl trivial room.accounts
      (fun _ _ _ _ _ => trivial)
  have accountNumber (i : Nat) (row : AccountRow)
      (found : (countedAccounts limits tables)[i]? = some row) :
      (accounts.slots i).uid = row.n := by
    rw [accountSlots i row found]
  have known' (row : NicsRow) :
      (findSlot AccntSlot.uid accounts.slots accounts.counter row.account).isSome =
        (countedAccounts limits tables).any (·.n == row.account) :=
    findSlot_isSome numAccounts accountNumber
  obtain ⟨nics, front, loadNics, _, counted, pushed, numNics, nicSlots⟩ :=
    @fillLoop_counted _ _ _ limits.maxNics (readNic accounts.slots accounts.counter)
      ⟨bank.nics, 0, []⟩ (fetched tables.nics)
      (fun row => ⟨row.n, row.rule,
        findSlot AccntSlot.uid accounts.slots accounts.counter row.account⟩)
      (fun row => (countedAccounts limits tables).any (·.n == row.account) || row.account == 0)
      (fun pushed done => ∀ rule ∈ pushed, ∃ row ∈ done.filter fun row =>
        (countedAccounts limits tables).any (·.n == row.account) || row.account == 0,
        row.rule = rule)
      (fun _ _ row => ⟨rfl, by rw [← known']; rfl⟩) rfl (by simp) room.nics (by
        intro pushed counter done row earlier rule member
        have before (old : rule ∈ pushed) : ∃ other ∈ (done ++ [row]).filter fun row =>
            (countedAccounts limits tables).any (·.n == row.account) || row.account == 0,
            other.rule = rule := by
          obtain ⟨other, here, same⟩ := earlier rule old
          exact ⟨other, by
            rw [List.filter_append]
            exact List.mem_append_left _ here, same⟩
        have member : rule ∈ if (findSlot AccntSlot.uid accounts.slots accounts.counter
            row.account).isSome then pushed ++ [row.rule] else pushed := member
        split at member
        · rename_i found
          rcases List.mem_append.mp member with old | new
          · exact before old
          · refine ⟨row, ?_, (List.mem_singleton.mp new).symm⟩
            rw [known'] at found
            rw [List.mem_filter]
            exact ⟨by simp, by rw [found]; rfl⟩
        · exact before member)
  refine ⟨⟨⟨td.extra, td.slots, accounts.slots, nics.slots⟩, tt.slots, taxes.counter, td.counter,
    accounts.counter, nics.counter, nics.extra⟩, ?_, ?_⟩
  · unfold load
    simp only [bind, Except.bind, loadTaxes, loadTimes, loadDetails, loadAccounts, loadNics]
    rfl
  · constructor
    · exact numTaxes
    · exact taxNumber
    · refine ⟨rows.filter (keepsDetail taxes.slots taxes.counter),
        List.filter_sublist.trans sublist, details.counter.symm, fun tax inside => ?_⟩
      obtain ⟨refs, chain, known⟩ := details.lists tax inside
      refine ⟨refs, chain, fun place member => ?_⟩
      simp only [details.uids]
      exact known place member
    · exact numTd
    · exact numAccounts
    · exact accountSlots
    · exact numNics
    · exact nicSlots
    · intro rule member
      obtain ⟨row, here, same⟩ := pushed rule member
      rw [counted] at here
      exact ⟨row, here, same⟩

theorem load_room (done : load limits hour times bank tables = .ok loaded) :
    Room limits tables := by
  unfold load at done
  simp only [bind, Except.bind] at done
  split at done
  · cases done
  rename_i taxes loadTaxes
  split at done
  · cases done
  rename_i tt loadTimes
  split at done
  · cases done
  rename_i td loadDetails
  split at done
  · cases done
  rename_i accounts loadAccounts
  split at done
  · cases done
  rename_i nics loadNics
  exact ⟨fillLoop_none rfl loadTaxes, fillLoop_none rfl loadTimes, fillLoop_none rfl loadDetails,
    fillLoop_none rfl loadAccounts, fillLoop_none rfl loadNics⟩

theorem fetched_live {R : Type} [Activated R] {rows : List R} {row : R}
    (member : row ∈ fetched rows) : Recorded.key row ≠ 0 := by
  have passes := (List.mem_filter.mp member).2
  rw [Bool.and_eq_true] at passes
  simpa using passes.1

theorem countedAccounts_sublist :
    (countedAccounts limits tables).Sublist (fetched tables.accounts) :=
  (List.take_sublist ..).trans (List.filter_sublist.trans List.filter_sublist)

theorem countedNics_sublist : (countedNics limits tables).Sublist (fetched tables.nics) :=
  (List.take_sublist ..).trans List.filter_sublist

theorem LoadedAs.tax_uid (as' : LoadedAs limits tables loaded) {tax : Nat}
    (inside : tax < loaded.numTaxes) : (loaded.bank.taxes tax).uid ≠ 0 := by
  rw [as'.numTaxes] at inside
  rw [as'.taxes tax _ (List.getElem?_eq_getElem inside)]
  exact fetched_live (List.mem_of_mem_take (List.getElem_mem inside))

theorem LoadedAs.account_uid (as' : LoadedAs limits tables loaded) {account : Nat}
    (inside : account < loaded.numAccounts) : (loaded.bank.accounts account).uid ≠ 0 := by
  rw [as'.numAccounts] at inside
  rw [as'.accounts account _ (List.getElem?_eq_getElem inside)]
  exact fetched_live (countedAccounts_sublist.subset (List.getElem_mem inside))

/-- The tax of an account that has an entry. -/
theorem LoadedAs.finds_tax (as' : LoadedAs limits tables loaded) {row : AccountRow}
    (member : row ∈ countedAccounts limits tables) (nonzero : row.tax ≠ 0) :
    ∃ tax, findSlot TaxSlot.uid loaded.bank.taxes loaded.numTaxes row.tax = some tax := by
  have kept := (List.mem_filter.mp (List.mem_of_mem_take member)).2
  have other : (row.tax == 0) = false := by simpa using nonzero
  rw [other, Bool.or_false, ← findSlot_isSome as'.numTaxes as'.taxes] at kept
  exact Option.isSome_iff_exists.mp kept

/-- The account of a NIC that has an entry. -/
theorem LoadedAs.finds_account (as' : LoadedAs limits tables loaded) {row : NicsRow}
    (member : row ∈ countedNics limits tables) (nonzero : row.account ≠ 0) :
    ∃ account, findSlot AccntSlot.uid loaded.bank.accounts loaded.numAccounts row.account =
      some account := by
  have kept := (List.mem_filter.mp (List.mem_of_mem_take member)).2
  have other : (row.account == 0) = false := by simpa using nonzero
  have entries (i : Nat) (row : AccountRow)
      (found : (countedAccounts limits tables)[i]? = some row) :
      (loaded.bank.accounts i).uid = row.n := by rw [as'.accounts i row found]
  rw [other, Bool.or_false, ← findSlot_isSome as'.numAccounts entries] at kept
  exact Option.isSome_iff_exists.mp kept

/-- The entries have the right links if and only if no row with an entry has the number 0 where
the number of another row should be. -/
theorem LoadedAs.linked_iff (as' : LoadedAs limits tables loaded) :
    Linked tables loaded ↔ (∀ row ∈ countedAccounts limits tables, row.tax ≠ 0) ∧
      ∀ row ∈ countedNics limits tables, row.account ≠ 0 := by
  constructor
  · intro linked
    constructor
    · intro row member zero
      obtain ⟨i, found⟩ := List.mem_iff_getElem?.mp member
      obtain ⟨rows, _, length, entries⟩ := linked.accounts
      have inside : i < rows.length := by
        rw [length, as'.numAccounts]
        exact (List.getElem?_eq_some_iff.mp found).1
      obtain ⟨_, tax, pointer, below, _⟩ := entries i _ (List.getElem?_eq_getElem inside)
      rw [as'.accounts i row found] at pointer
      exact as'.tax_uid below ((findSlot_some pointer).2.trans zero)
    · intro row member zero
      obtain ⟨i, found⟩ := List.mem_iff_getElem?.mp member
      obtain ⟨rows, _, length, entries⟩ := linked.nics
      have inside : i < rows.length := by
        rw [length, as'.numNics]
        exact (List.getElem?_eq_some_iff.mp found).1
      obtain ⟨_, account, pointer, below, _⟩ := entries i _ (List.getElem?_eq_getElem inside)
      rw [as'.nics i row found] at pointer
      exact as'.account_uid below ((findSlot_some pointer).2.trans zero)
  · rintro ⟨taxes, accounts⟩
    constructor
    · refine ⟨_, countedNics_sublist, as'.numNics.symm, fun i row found => ?_⟩
      have member := List.mem_of_getElem? found
      obtain ⟨account, pointer⟩ := as'.finds_account member (accounts row member)
      rw [as'.nics i row found]
      exact ⟨rfl, account, pointer, findSlot_some pointer⟩
    · intro rule pushed
      obtain ⟨row, member, same⟩ := as'.pushed rule pushed
      obtain ⟨i, found⟩ := List.mem_iff_getElem?.mp member
      refine ⟨i, as'.numNics ▸ (List.getElem?_eq_some_iff.mp found).1, ?_⟩
      rw [as'.nics i row found]
      exact same
    · refine ⟨_, countedAccounts_sublist, as'.numAccounts.symm, fun i row found => ?_⟩
      have member := List.mem_of_getElem? found
      obtain ⟨tax, pointer⟩ := as'.finds_tax member (taxes row member)
      rw [as'.accounts i row found]
      exact ⟨rfl, tax, pointer, findSlot_some pointer⟩
    · exact as'.details

end Loading

/-! ### Billing what is loaded -/

section Bill

variable {limits : Limits} {bank : Bank} {numNics : Nat}

/-- Pointers that can be followed from the NICs to the ends of the lists. -/
structure Followable (limits : Limits) (bank : Bank) (nic account tax : Nat) (refs : List Nat) :
    Prop where
  toAccount : (bank.nics nic).account = some account
  accountInside : account < limits.maxAccounts
  toTax : (bank.accounts account).tax = some tax
  taxInside : tax < limits.maxTaxes
  chain : Chain (fun place => (bank.td place).next) (bank.taxes tax).td refs
  inside : ∀ place ∈ refs, place < limits.maxTaxDetails

/-- Every NIC can be followed, and its number is that of its rule. -/
def Bank.Followed (limits : Limits) (bank : Bank) (numNics : Nat) : Prop :=
  ∀ nic < numNics, (bank.nics nic).uid = (bank.nics nic).rule.uid ∧
    ∃ account tax refs, Followable limits bank nic account tax refs

def detailList (td : Nat → TdSlot) : Nat → Option Nat → List TaxDet
  | 0, _ => []
  | _ + 1, none => []
  | fuel + 1, some place => (td place).det :: detailList td fuel (td place).next

def Bank.nicList (limits : Limits) (bank : Bank) (numNics : Nat) : List Nic :=
  (List.range numNics).map fun i => {
    rule := (bank.nics i).rule
    account := (bank.nics i).account.map fun account => {
      uid := (bank.accounts account).uid
      tax := (bank.accounts account).tax.map fun tax => {
        defTaxToCli := (bank.taxes tax).defTaxToCli
        defTaxFromCli := (bank.taxes tax).defTaxFromCli
        td := detailList bank.td (limits.maxTaxDetails + 1) (bank.taxes tax).td } } }

theorem detailList_chain {td : Nat → TdSlot} {start : Option Nat} {refs : List Nat} {fuel : Nat}
    (chain : Chain (fun place => (td place).next) start refs) (enough : refs.length < fuel) :
    detailList td fuel start = refs.map fun place => (td place).det := by
  induction refs generalizing start fuel with
  | nil =>
    have ended : start = none := chain
    subst ended
    cases fuel with
    | zero => rfl
    | succ fuel => rfl
  | cons place rest ih =>
    obtain ⟨rfl, later⟩ := chain
    cases fuel with
    | zero => cases enough
    | succ fuel =>
      rw [detailList, List.map_cons, ih later (Nat.lt_of_succ_lt_succ enough)]

/-- The walk through a list finds the first detail that applies. -/
theorem findTd_chain {td : Nat → TdSlot} {session : QxLog} {start : Option Nat} {refs : List Nat}
    {fuel : Nat} (chain : Chain (fun place => (td place).next) start refs)
    (inside : ∀ place ∈ refs, place < limits.maxTaxDetails) (enough : refs.length < fuel) :
    findTd limits td session fuel start =
      .ok ((refs.map fun place => (td place).det).find? (·.applies session)) := by
  induction refs generalizing start fuel with
  | nil =>
    have ended : start = none := chain
    subst ended
    cases fuel with
    | zero => cases enough
    | succ fuel => rfl
  | cons place rest ih =>
    obtain ⟨rfl, later⟩ := chain
    cases fuel with
    | zero => cases enough
    | succ fuel =>
      have further := ih later (fun other member => inside other (List.mem_cons_of_mem place member))
        (Nat.lt_of_succ_lt_succ enough)
      rw [findTd, if_pos (inside place List.mem_cons_self), List.map_cons, List.find?_cons, further]
      cases (td place).det.applies session <;> rfl

/-- A list in the array is no longer than the array. -/
theorem Followable.short {nic account tax : Nat} {refs : List Nat}
    (followable : Followable limits bank nic account tax refs) :
    refs.length < limits.maxTaxDetails + 1 := by
  have once := followable.chain.visits_once
  have within : refs ⊆ List.range limits.maxTaxDetails := fun place member =>
    List.mem_range.mpr (followable.inside place member)
  have short := (once.subperm within).length_le
  rw [List.length_range] at short
  exact Nat.lt_succ_of_le short

/-- Billing follows the pointers to what they lead to, and to the record of the logger. -/
theorem bill_eq (followed : bank.Followed limits numNics) (dataUnits : Int) (time : UInt32)
    (session : QxLog) :
    bank.bill limits numNics dataUnits time session =
      .ok ((sessionNic (bank.nicList limits numNics) session).bind
        (logRecord dataUnits time · session)) := by
  unfold Bank.bill sessionNic Bank.nicList
  rw [List.find?_map]
  simp only [Function.comp_def]
  cases found : (List.range numNics).find? fun i =>
      decide (memcmp session.mac.toList (bank.nics i).rule.mac.toList 6 = 0) &&
        session.ipClnt == (bank.nics i).rule.ipAddr with
  | none => rfl
  | some nic =>
    have inside := List.mem_range.mp (List.mem_of_find?_eq_some found)
    obtain ⟨uid, account, tax, refs, followable⟩ := followed nic inside
    have list := detailList_chain followable.chain followable.short
    have walk := @findTd_chain limits bank.td session _ _ _ followable.chain followable.inside
      followable.short
    have first : deref limits.maxAccounts (bank.nics nic).account = .ok account := by
      rw [followable.toAccount]
      exact if_pos followable.accountInside
    have second : deref limits.maxTaxes (bank.accounts account).tax = .ok tax := by
      rw [followable.toTax]
      exact if_pos followable.taxInside
    simp only [bind, Except.bind, first, second, walk]
    simp only [Option.map_some, Option.bind_some, logRecord, followable.toAccount,
      followable.toTax, list, sessionCost, sessionTaxDet, uid, TaxDet.applies]
    generalize List.find? _ (refs.map fun place => (bank.td place).det) = chosen
    cases chosen with
    | none => rfl
    | some td => rfl

/-- No NIC with an account that is known is without one where the logger bills it. -/
theorem logRecord_followed (followed : bank.Followed limits numNics) (dataUnits : Int)
    (time : UInt32) (session : QxLog) :
    ∀ nic ∈ bank.nicList limits numNics, logRecord dataUnits time nic session ≠ none := by
  intro nic member
  obtain ⟨i, inside, rfl⟩ := List.mem_map.mp member
  obtain ⟨_, account, tax, refs, followable⟩ := followed i (List.mem_range.mp inside)
  simp [logRecord, followable.toAccount, followable.toTax]

end Bill

section Rounds

variable {limits : Limits} {tables : BillingTables} {loaded : Loaded}

/-- What is loaded from rows with the right numbers can be followed. -/
theorem LoadedAs.followed (as' : LoadedAs limits tables loaded)
    (taxes : ∀ row ∈ countedAccounts limits tables, row.tax ≠ 0)
    (accounts : ∀ row ∈ countedNics limits tables, row.account ≠ 0) :
    loaded.bank.Followed limits loaded.numNics := by
  intro nic inside
  rw [as'.numNics] at inside
  have found := List.getElem?_eq_getElem inside
  have member := List.getElem_mem inside
  obtain ⟨account, pointer⟩ := as'.finds_account member (accounts _ member)
  have below := (findSlot_some pointer).1
  have below' := as'.numAccounts ▸ below
  have member' := List.getElem_mem below'
  obtain ⟨tax, pointer'⟩ := as'.finds_tax member' (taxes _ member')
  have inside' := (findSlot_some pointer').1
  obtain ⟨rows, _, length, lists⟩ := as'.details
  obtain ⟨refs, chain, known⟩ := lists tax inside'
  have entry := as'.nics nic _ found
  have entry' := as'.accounts account _ (List.getElem?_eq_getElem below')
  refine ⟨by rw [entry]; rfl, account, tax, refs, ?_⟩
  constructor
  · rw [entry]
    exact pointer
  · refine Nat.lt_of_lt_of_le below' ?_
    unfold countedAccounts
    rw [List.length_take]
    exact Nat.min_le_left ..
  · rw [entry']
    exact pointer'
  · rw [as'.numTaxes, List.length_take] at inside'
    exact Nat.lt_of_lt_of_le inside' (Nat.min_le_left ..)
  · exact chain
  · intro place member
    obtain ⟨row, here, _⟩ := known place member
    have bound := (List.getElem?_eq_some_iff.mp here).1
    rw [length] at bound
    exact Nat.lt_of_lt_of_le bound as'.numTd

/-- The two sets of arrays, of which one is loaded and the other one is in use. -/
structure Banks where
  shdw : Bank
  crnt : Bank
  numShdw : Nat
  numCrnt : Nat
  times : Nat → TtSlot

/-- The loading, and the swap after it. -/
def Banks.round (limits : Limits) (banks : Banks) (hour : Fin 24) (tables : BillingTables) :
    Except LoadFault Banks :=
  (load limits hour banks.times banks.shdw tables).map fun loaded => {
    shdw := banks.crnt
    crnt := loaded.bank
    numShdw := banks.numCrnt
    numCrnt := loaded.numNics
    times := loaded.times }

/-- One round of the billing loop. -/
def LoadStep (limits : Limits) (banks : Banks) (label : Fin 24 × BillingTables) (next : Banks) :
    Prop :=
  banks.round limits label.1 label.2 = .ok next

theorem linkable_iff : Linkable limits tables ↔ Room limits tables ∧
    (∀ row ∈ countedAccounts limits tables, row.tax ≠ 0) ∧
    ∀ row ∈ countedNics limits tables, row.account ≠ 0 := by
  constructor
  · intro linkable
    exact ⟨⟨linkable.taxes, linkable.taxTimes, linkable.taxDetails, linkable.accounts,
      linkable.nics⟩, linkable.tax, linkable.account⟩
  · rintro ⟨room, tax, account⟩
    exact ⟨room.taxes, room.taxTimes, room.taxDetails, room.accounts, room.nics, tax, account⟩

/-- The arrays of both sets can be followed after every round. -/
theorem banks_followed {start final : Banks} {labels : List (Fin 24 × BillingTables)}
    (run : Run (Under (LoadStep limits) fun _ label => Linkable limits label.2) start labels final)
    (shdw : start.shdw.Followed limits start.numShdw)
    (crnt : start.crnt.Followed limits start.numCrnt) :
    final.shdw.Followed limits final.numShdw ∧ final.crnt.Followed limits final.numCrnt := by
  refine @Run.invariant _ _ _ (fun banks => banks.shdw.Followed limits banks.numShdw ∧
    banks.crnt.Followed limits banks.numCrnt) _ _ _ run ⟨shdw, crnt⟩ ?_
  rintro banks ⟨hour, tables⟩ next ⟨_, crnt⟩ ⟨step, linkable⟩
  obtain ⟨loaded, done, rfl⟩ := map_eq_ok.mp step
  obtain ⟨room, taxes, accounts⟩ := linkable_iff.mp linkable
  obtain ⟨_, done', as'⟩ := @loaded_as limits hour banks.times banks.shdw tables room
  rw [done] at done'
  cases done'
  exact ⟨crnt, as'.followed taxes accounts⟩

theorem loading_links_iff (hour : Fin 24) (times : Nat → TtSlot) (bank : Bank) :
    (∃ loaded, load limits hour times bank tables = .ok loaded ∧ Linked tables loaded) ↔
      Linkable limits tables := by
  rw [linkable_iff]
  constructor
  · rintro ⟨loaded, done, linked⟩
    have room := load_room done
    obtain ⟨_, done', as'⟩ := @loaded_as limits hour times bank tables room
    rw [done] at done'
    cases done'
    exact ⟨room, as'.linked_iff.mp linked⟩
  · rintro ⟨room, nonzero⟩
    obtain ⟨loaded, done, as'⟩ := @loaded_as limits hour times bank tables room
    exact ⟨loaded, done, as'.linked_iff.mpr nonzero⟩

end Rounds

/-- What is loaded has the right links if and only if the rows have no 0 where the number of
another row should be; in rounds that load such rows no session meets a pointer that leads
nowhere. -/
theorem links_are_right_iff (limits : Limits) :
    (∀ (hour : Fin 24) (times : Nat → TtSlot) (bank : Bank) (tables : BillingTables),
      (∃ loaded, load limits hour times bank tables = .ok loaded ∧ Linked tables loaded) ↔
        Linkable limits tables) ∧
    (∀ (start final : Banks) (labels : List (Fin 24 × BillingTables)),
      start.numShdw = 0 → start.numCrnt = 0 →
      Run (Under (LoadStep limits) fun _ label => Linkable limits label.2) start labels final →
      ∀ (dataUnits : Int) (time : UInt32) (session : QxLog),
        (∃ answer, final.shdw.bill limits final.numShdw dataUnits time session = .ok answer) ∧
        ∀ nic ∈ final.shdw.nicList limits final.numShdw,
          logRecord dataUnits time nic session ≠ none) := by
  constructor
  · intro hour times bank tables
    exact loading_links_iff hour times bank
  · intro start final labels shdw crnt run dataUnits time session
    have empty (bank : Bank) : bank.Followed limits 0 := fun nic below => by cases below
    obtain ⟨followed, _⟩ := banks_followed run (shdw ▸ empty start.shdw) (crnt ▸ empty start.crnt)
    exact ⟨⟨_, bill_eq followed dataUnits time session⟩,
      logRecord_followed followed dataUnits time session⟩

/-- One tax, one account that pays it, and one NIC. -/
def onePayer (tax : UInt32) : BillingTables where
  taxes := [⟨1, 1, 0, 0⟩]
  taxTimes := []
  taxDetails := []
  accounts := [⟨1, tax, 0, 1, 1⟩]
  nics := [⟨1, 1, 1, 0x0100000a, ⟨#[1, 2, 3, 4, 5, 6], rfl⟩⟩]

def oneOfEach : Limits := ⟨1, 1, 1, 1, 1⟩

/-- Memory before anything is loaded. -/
def noBank : Bank where
  taxes _ := ⟨0, 0, 0, none⟩
  td _ := ⟨⟨0, 0, 0, 0, 0, 0⟩, none⟩
  accounts _ := ⟨0, none⟩
  nics _ := ⟨0, ⟨0, 0, ⟨#[0, 0, 0, 0, 0, 0], rfl⟩⟩, none⟩

def noBanks : Banks := ⟨noBank, noBank, 0, 0, fun _ => ⟨0, 0, 0⟩⟩

def paidPacket : QxLog :=
  ⟨⟨#[1, 2, 3, 4, 5, 6], rfl⟩, 8, 0x0100000a, 0, 6, 80, 80, 1000, 0⟩

theorem onePayer_linkable : Linkable oneOfEach (onePayer 1) := by
  refine linkable_iff.mpr ⟨?_, by decide +kernel, by decide +kernel⟩
  constructor <;> exact nofun

/-- Two rounds, and a packet of the first one is billed in the second. -/
theorem second_round_bills :
    ∃ final, Run (Under (LoadStep oneOfEach) fun _ label => Linkable oneOfEach label.2) noBanks
        [(0, onePayer 1), (1, onePayer 1)] final ∧ final.numShdw = 1 ∧
      ∃ answer, final.shdw.bill oneOfEach final.numShdw 1 0 paidPacket = .ok answer := by
  have run : Run (Under (LoadStep oneOfEach) fun _ label => Linkable oneOfEach label.2) noBanks
      [(0, onePayer 1), (1, onePayer 1)] _ :=
    .cons ⟨rfl, onePayer_linkable⟩ (.cons ⟨rfl, onePayer_linkable⟩ .nil)
  exact ⟨_, run, rfl, ((links_are_right_iff oneOfEach).2 _ _ _ rfl rfl run 1 0 paidPacket).1⟩

/-- An account with the tax 0 gets an entry without a tax, and its packet is billed through
NULL. -/
theorem account_without_tax_is_billed :
    ∃ loaded, load oneOfEach 0 noBanks.times noBank (onePayer 0) = .ok loaded ∧
      ¬ Linked (onePayer 0) loaded ∧
      loaded.bank.bill oneOfEach loaded.numNics 1 0 paidPacket = .error .null := by
  refine ⟨_, rfl, fun linked => ?_, rfl⟩
  have linkable := (@loading_links_iff oneOfEach (onePayer 0) 0 noBanks.times noBank).mp
    ⟨_, rfl, linked⟩
  exact absurd linkable.tax (by decide +kernel)

end QNXStuff.QXBilling
