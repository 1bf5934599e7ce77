import QNXStuff.QXBase.Records
import Mathlib.Algebra.BigOperators.Group.List.Basic
import Mathlib.Algebra.Field.Rat
import Mathlib.Data.List.ReduceOption
import Mathlib.Data.Rat.Cast.Defs
import Mathlib.Tactic.FieldSimp
import Mathlib.Tactic.Ring

/-! The end of a day: every account pays its part of the monthly tax. -/

namespace QNXStuff.QXBilling

open Execution
open QXBase (ErrorCode Recorded Records nextLive_spec)

/-- A row of "taxes" as it is used here; money is an exact number. -/
structure MonthTax where
  n : UInt32
  monTax : ℚ
  deriving DecidableEq

/-- A row of "accounts". -/
structure TaxedAccount where
  n : UInt32
  tax : UInt32
  sum : ℚ
  deriving DecidableEq

/-- A row of "payments". -/
structure Payment where
  acc : UInt32
  dPay : Int
  sum : ℚ
  desc : String
  deriving DecidableEq

instance : Recorded MonthTax := ⟨MonthTax.n⟩

instance : Recorded TaxedAccount := ⟨TaxedAccount.n⟩

/-- `struct tm` -/
structure Tm where
  year : Int
  mon : Fin 12
  mday : Nat
  deriving DecidableEq

def monDay (mon : Fin 12) : Nat :=
  [31, 28, 31, 30, 31, 30, 31, 31, 30, 31, 30, 31].get (mon.cast rfl)

def twoDigits (number : Nat) : String :=
  if number < 10 then "0" ++ toString number else toString number

/-- `strftime( .. "%F" .. )` -/
def isoDate (tm : Tm) : String :=
  toString (1900 + tm.year) ++ "-" ++ twoDigits (tm.mon + 1) ++ "-" ++ twoDigits tm.mday

/-- "tell people what they pay for" -/
def payDesc (tm : Tm) : String := "Monthly tax. (payment for " ++ isoDate tm ++ ")"

/-- The tables of the thread; `accounts` is with the connection for updates. -/
structure EodTables where
  taxes : List MonthTax
  accounts : Records TaxedAccount
  payments : List Payment

/-- `log_t_tm` and `log_t_time` when the thread is woken. -/
structure EodEvent where
  tm : Tm
  time : Int
  deriving DecidableEq

/-- What `QBASE_U_SUB` does to the sum. -/
def TaxedAccount.pay (paySum : ℚ) (account : TaxedAccount) : TaxedAccount :=
  { account with sum := account.sum - paySum }

def EodEvent.payment (event : EodEvent) (aid : UInt32) (paySum : ℚ) : Payment :=
  ⟨aid, event.time, -paySum, payDesc event.tm⟩

/-- "this account is to be updated": what the server answers is printed only. -/
def chargeAccount (event : EodEvent) (paySum : ℚ) (tables : EodTables) (aid : UInt32) : EodTables :=
  let (accounts, _) := tables.accounts.seek aid
  let (accounts, _) := accounts.updcur (·.pay paySum)
  { tables with
    accounts := accounts, payments := tables.payments ++ [event.payment aid paySum] }

/-- A loop over the records of a table has not ended. -/
inductive EodFault where
  | endless
  deriving DecidableEq

/-- One turn of `while( QBASE_E_OK == Qbase_fetch( .. ) )` over the records that `rows` finds in
the tables, from the position where the connection stands. -/
def fetchTurn {R : Type} [Recorded R] (rows : EodTables → List R)
    (visit : EodTables → R → Except EodFault EodTables) (state : EodTables × Nat) :
    Except EodFault (Pass (EodTables × Nat) EodTables) :=
  match Records.nextLive ((rows state.1).drop state.2) state.2 with
  | none => .ok (.stop state.1)
  | some (position, record) =>
    (visit state.1 record).map fun tables => .again (tables, position + 1)

def fetchLoop {R : Type} [Recorded R] (rows : EodTables → List R)
    (visit : EodTables → R → Except EodFault EodTables) (tables : EodTables) :
    Except EodFault EodTables :=
  loop (fetchTurn rows visit) .endless ((rows tables).length + 1) (tables, 0)

def EodTables.accountRows (tables : EodTables) : List TaxedAccount := tables.accounts.rows

/-- The body of the loop over the accounts. -/
def visitAccount (event : EodEvent) (tid : UInt32) (paySum : ℚ) (tables : EodTables)
    (account : TaxedAccount) : Except EodFault EodTables :=
  if tid = account.tax then .ok (chargeAccount event paySum tables account.n) else .ok tables

/-- The body of the loop over the taxes. -/
def visitTax (event : EodEvent) (tables : EodTables) (tax : MonthTax) :
    Except EodFault EodTables :=
  let paySum : ℚ := monDay event.tm.mon
  if tax.monTax = 0 then .ok tables
  else fetchLoop EodTables.accountRows (visitAccount event tax.n (tax.monTax / paySum)) tables

/-- `EOD_func` from one wait to the next. -/
def eodFunc (tables : EodTables) (event : EodEvent) : Except EodFault EodTables :=
  fetchLoop EodTables.taxes (visitTax event) tables

/-! ### What a day should cost -/

/-- The years with a 29th of February; `tm_year` counts from 1900. -/
def Tm.leap (tm : Tm) : Prop :=
  (1900 + tm.year) % 4 = 0 ∧ (1900 + tm.year) % 100 ≠ 0 ∨ (1900 + tm.year) % 400 = 0

instance {tm : Tm} : Decidable tm.leap := inferInstanceAs (Decidable (_ ∨ _))

def Tm.days (tm : Tm) : Nat :=
  if tm.mon = 1 then if tm.leap then 29 else 28
  else if tm.mon ∈ [3, 5, 8, 10] then 30
  else 31

/-- The live plans of an account that cost something. -/
def plansOf (taxes : List MonthTax) (account : TaxedAccount) : List MonthTax :=
  taxes.filter fun tax => tax.n == account.tax && tax.n != 0 && tax.monTax != 0

/-- What an account owes for a month. -/
def owed (taxes : List MonthTax) (account : TaxedAccount) : Option ℚ :=
  if account.n = 0 then none else (plansOf taxes account).head?.map MonthTax.monTax

/-- An account after it has paid for one of so many days. -/
def paidFor (taxes : List MonthTax) (days : Nat) (account : TaxedAccount) : TaxedAccount :=
  match owed taxes account with
  | some monTax => account.pay (monTax / days)
  | none => account

def paymentFor (taxes : List MonthTax) (days : Nat) (event : EodEvent) (account : TaxedAccount) :
    Option Payment :=
  (owed taxes account).map fun monTax => event.payment account.n (monTax / days)

/-- Every account that owes something has paid one part of so many, and no other account. -/
structure PartPaid (days : Nat) (tables : EodTables) (event : EodEvent) (next : EodTables) :
    Prop where
  taxes : next.taxes = tables.taxes
  accounts : next.accounts.rows = tables.accounts.rows.map (paidFor tables.taxes days)
  payments : ∃ made, next.payments = tables.payments ++ made ∧
    made.Perm (tables.accounts.rows.filterMap (paymentFor tables.taxes days event))

/-- The accounts that owe something are where their numbers say and have one plan. -/
def Chargeable (tables : EodTables) : Prop :=
  ∀ position, ∀ inside : position < tables.accounts.rows.length,
    owed tables.taxes (tables.accounts.rows.get ⟨position, inside⟩) ≠ none →
      Records.place (tables.accounts.rows.get ⟨position, inside⟩).n = position ∧
      (plansOf tables.taxes (tables.accounts.rows.get ⟨position, inside⟩)).length = 1

/-- And nobody owes anything in the February of a leap year. -/
def Billable (tables : EodTables) (event : EodEvent) : Prop :=
  Chargeable tables ∧
    (event.tm.mon = 1 → event.tm.leap → ∀ account ∈ tables.accounts.rows,
      owed tables.taxes account = none)

instance {tables : EodTables} : Decidable (Chargeable tables) :=
  inferInstanceAs (Decidable (∀ _, _))

instance {tables : EodTables} {event : EodEvent} : Decidable (Billable tables event) :=
  inferInstanceAs (Decidable (_ ∧ _))

/-! ### Runs -/

/-- An event, or a change by other clients. -/
inductive EodStep (others : EodTables → EodTables → Prop) :
    EodTables → Option EodEvent → EodTables → Prop where
  | event {tables event next} (done : eodFunc tables event = .ok next) :
      EodStep others tables (some event) next
  | other {tables next} (changed : others tables next) : EodStep others tables none next

def BillableAt (tables : EodTables) (label : Option EodEvent) : Prop :=
  ∀ event, label = some event → Billable tables event

/-- A step that charges what it should when it is an event. -/
def RightStep (others : EodTables → EodTables → Prop) (tables : EodTables)
    (label : Option EodEvent) (next : EodTables) : Prop :=
  EodStep others tables label next ∧
    ∀ event, label = some event → PartPaid event.tm.days tables event next

/-- The payments of an account together. -/
def paidTotal (payments : List Payment) (acc : UInt32) : ℚ :=
  ((payments.filter fun payment => payment.acc == acc).map Payment.sum).sum

/-- Others leave the account at this position, what it owes and its payments. -/
def Leaves (position : Nat) (tables next : EodTables) : Prop :=
  next.accounts.rows[position]? = tables.accounts.rows[position]? ∧
    ∀ account, tables.accounts.rows[position]? = some account →
      owed next.taxes account = owed tables.taxes account ∧
      paidTotal next.payments account.n = paidTotal tables.payments account.n

def daysOf (labels : List (Option EodEvent)) : List Tm := labels.reduceOption.map EodEvent.tm

def wholeMonth (year : Int) (mon : Fin 12) : List Tm :=
  (List.range (Tm.days ⟨year, mon, 1⟩)).map fun day => ⟨year, mon, day + 1⟩

theorem monDay_eq {tm : Tm} (calendar : ¬ (tm.mon = 1 ∧ tm.leap)) : monDay tm.mon = tm.days := by
  unfold Tm.days
  by_cases february : tm.mon = 1
  · have common : ¬ tm.leap := fun leap => calendar ⟨february, leap⟩
    rw [if_pos february, if_neg common, february]
    rfl
  · rw [if_neg february]
    generalize tm.mon = mon at february
    revert mon
    decide

/-! ### Fetching -/

section Fetching

variable {R : Type} [Recorded R] {rows : EodTables → List R}
  {visit : EodTables → R → Except EodFault EodTables}

/-- What holds at the first record and is passed on by every record, dead or live, holds behind
the last one; the loop ends. -/
theorem fetchLoop_rule {holds : EodTables → Nat → Prop} {tables : EodTables}
    (start : holds tables 0)
    (dead : ∀ tables position record, holds tables position →
      (rows tables)[position]? = some record → Recorded.key record = 0 →
      holds tables (position + 1))
    (live : ∀ tables position record, holds tables position →
      (rows tables)[position]? = some record → Recorded.key record ≠ 0 →
      ∃ next, visit tables record = .ok next ∧ (rows next).length = (rows tables).length ∧
        holds next (position + 1)) :
    ∃ final, fetchLoop rows visit tables = .ok final ∧
      (rows final).length = (rows tables).length ∧ holds final (rows final).length := by
  have passed {tables : EodTables} {first last : Nat} (below : first ≤ last)
      (inside : last ≤ (rows tables).length) (between : ∀ other record, first ≤ other →
        other < last → (rows tables)[other]? = some record → Recorded.key record = 0)
      (here : holds tables first) : holds tables last := by
    induction last, below using Nat.le_induction with
    | base => exact here
    | succ last below ih =>
      have found := List.getElem?_eq_getElem (show last < (rows tables).length from inside)
      refine dead _ _ _ (ih (Nat.le_of_succ_le inside) fun other record above before =>
        between other record above (Nat.lt_succ_of_lt before)) found ?_
      exact between last _ below (Nat.lt_succ_self last) found
  refine @loop_rule_free _ _ _ (fetchTurn rows visit) .endless
    (fun state => (rows state.1).length = (rows tables).length ∧
      state.2 ≤ (rows state.1).length ∧ holds state.1 state.2)
    (fun state => (rows state.1).length - state.2)
    (fun outcome => ∃ final, outcome = .ok final ∧
      (rows final).length = (rows tables).length ∧ holds final (rows final).length)
    ?_ _ (tables, 0) ⟨rfl, Nat.zero_le _, start⟩ (Nat.lt_succ_of_le (Nat.sub_le ..))
  rintro ⟨now, first⟩ ⟨length, inside, here⟩
  have next := nextLive_spec (rows now) first
  unfold fetchTurn
  dsimp only
  split at next
  · rename_i position record found
    obtain ⟨above, entry, alive, between⟩ := next
    have before := (List.getElem?_eq_some_iff.mp entry).1
    have there := passed above (Nat.le_of_lt before) between here
    obtain ⟨then', done, kept, behind⟩ := live _ _ _ there entry alive
    rw [found]
    dsimp only
    rw [done]
    refine ⟨⟨kept.trans length, ?_, behind⟩, ?_⟩
    · simp only [kept]
      exact before
    · simp only [kept]
      omega
  · rename_i none
    rw [none]
    exact ⟨now, rfl, length, passed inside (Nat.le_refl _) (fun other record above _ found =>
      next other record above found) here⟩

end Fetching

section Charging

variable {tables : EodTables} {event : EodEvent} {tid : UInt32} {paySum : ℚ}

theorem updcur_length {R : Type} [Recorded R] (table : Records R) (change : R → R) :
    (table.updcur change).1.rows.length = table.rows.length := by
  unfold Records.updcur
  split
  · rfl
  · split
    · rfl
    · exact List.length_set ..

theorem seek_rows {R : Type} (table : Records R) (key : UInt32) :
    (table.seek key).1.rows = table.rows := by
  unfold Records.seek
  split
  · rfl
  · rfl

theorem chargeAccount_length (aid : UInt32) :
    (chargeAccount event paySum tables aid).accountRows.length = tables.accountRows.length := by
  unfold chargeAccount EodTables.accountRows
  dsimp only
  rw [updcur_length, seek_rows]

/-- The account at the place of its number pays. -/
theorem chargeAccount_found {account : TaxedAccount}
    (found : tables.accounts.rows[Records.place account.n]? = some account)
    (live : account.n ≠ 0) :
    ∃ next, chargeAccount event paySum tables account.n = next ∧ next.taxes = tables.taxes ∧
      next.accounts.rows = tables.accounts.rows.set (Records.place account.n)
        (account.pay paySum) ∧
      next.payments = tables.payments ++ [event.payment account.n paySum] := by
  have inside := (List.getElem?_eq_some_iff.mp found).1
  refine ⟨_, rfl, rfl, ?_, rfl⟩
  unfold chargeAccount Records.updcur
  simp only [Records.seek_accepted (Nat.le_of_lt inside), found]
  have alive : ¬ Recorded.key account = 0 := live
  rw [if_neg alive]

def charge (tid : UInt32) (paySum : ℚ) (account : TaxedAccount) : TaxedAccount :=
  if account.n ≠ 0 ∧ account.tax = tid then account.pay paySum else account

def chargePayment (event : EodEvent) (tid : UInt32) (paySum : ℚ) (account : TaxedAccount) :
    Option Payment :=
  if account.n ≠ 0 ∧ account.tax = tid then some (event.payment account.n paySum) else none

/-- Records of which those in front of a position are changed. -/
def changedBelow {R : Type} (change : R → R) (rows : List R) (position : Nat) : List R :=
  (rows.take position).map change ++ rows.drop position

theorem changedBelow_next {R : Type} {change : R → R} {rows : List R} {position : Nat} {record : R}
    (found : (changedBelow change rows position)[position]? = some record) :
    rows[position]? = some record ∧ changedBelow change rows (position + 1) =
      (changedBelow change rows position).set position (change record) := by
  unfold changedBelow at found ⊢
  have inside : position < rows.length := by
    have bound := (List.getElem?_eq_some_iff.mp found).1
    simp only [List.length_append, List.length_map, List.length_take, List.length_drop] at bound
    omega
  have front : ((rows.take position).map change).length = position := by
    rw [List.length_map, List.length_take, Nat.min_eq_left (Nat.le_of_lt inside)]
  have here : rows[position]? = some record := by
    rw [List.getElem?_append_right (Nat.le_of_eq front), front, Nat.sub_self,
      List.getElem?_drop] at found
    exact found
  obtain ⟨_, entry⟩ := List.getElem?_eq_some_iff.mp here
  refine ⟨here, ?_⟩
  rw [List.drop_eq_getElem_cons inside, entry, List.set_append_right _ _ (Nat.le_of_eq front),
    front, Nat.sub_self, List.set_cons_zero, List.take_add_one, here, List.map_append]
  simp

/-- The loop over the accounts charges those of the plan. -/
theorem accounts_charged
    (placed : ∀ (position : Nat) (account : TaxedAccount),
      tables.accounts.rows[position]? = some account → account.n ≠ 0 → account.tax = tid →
      Records.place account.n = position) :
    ∃ final, fetchLoop EodTables.accountRows (visitAccount event tid paySum) tables = .ok final ∧
      final.taxes = tables.taxes ∧
      final.accounts.rows = tables.accounts.rows.map (charge tid paySum) ∧
      final.payments = tables.payments ++
        tables.accounts.rows.filterMap (chargePayment event tid paySum) := by
  have next {rows : List TaxedAccount} {position : Nat} {account : TaxedAccount}
      (found : rows[position]? = some account) :
      (rows.take (position + 1)).filterMap (chargePayment event tid paySum) =
        (rows.take position).filterMap (chargePayment event tid paySum) ++
          (chargePayment event tid paySum account).toList := by
    rw [List.take_add_one, found, List.filterMap_append]
    simp only [Option.toList_some, List.filterMap_cons, List.filterMap_nil]
    cases chargePayment event tid paySum account <;> rfl
  -- an account that does not pay
  have idle {now : EodTables} {position : Nat} {account : TaxedAccount}
      (found : now.accounts.rows[position]? = some account)
      (free : ¬ (account.n ≠ 0 ∧ account.tax = tid))
      (rows : now.accounts.rows = changedBelow (charge tid paySum) tables.accounts.rows position)
      (payments : now.payments = tables.payments ++
        (tables.accounts.rows.take position).filterMap (chargePayment event tid paySum)) :
      now.accounts.rows =
        changedBelow (charge tid paySum) tables.accounts.rows (position + 1) ∧
      now.payments = tables.payments ++ (tables.accounts.rows.take (position + 1)).filterMap
        (chargePayment event tid paySum) := by
    rw [rows] at found
    obtain ⟨here, changed⟩ := changedBelow_next found
    have same : charge tid paySum account = account := if_neg free
    have nothing : chargePayment event tid paySum account = none := if_neg free
    rw [changed, next here, same, nothing]
    refine ⟨?_, by simpa using payments⟩
    rw [← (List.getElem?_eq_some_iff.mp found).2, List.set_getElem_self]
    exact rows
  have turn := @fetchLoop_rule _ _ EodTables.accountRows (visitAccount event tid paySum)
    (fun now position => now.taxes = tables.taxes ∧
      now.accounts.rows = changedBelow (charge tid paySum) tables.accounts.rows position ∧
      now.payments = tables.payments ++
        (tables.accounts.rows.take position).filterMap (chargePayment event tid paySum)) tables
    ?_ ?_ ?_
  · obtain ⟨final, done, length, taxes, accounts, payments⟩ := turn
    have whole : final.accountRows.length = tables.accounts.rows.length := length
    unfold changedBelow at accounts
    rw [whole, List.take_length, List.drop_length, List.append_nil] at accounts
    rw [whole, List.take_length] at payments
    exact ⟨final, done, taxes, accounts, payments⟩
  · exact ⟨rfl, by simp [changedBelow], by simp⟩
  · intro now position account holds found dead
    obtain ⟨taxes, rows, payments⟩ := holds
    exact ⟨taxes, idle found (fun pays => pays.1 dead) rows payments⟩
  · intro now position account holds found live
    obtain ⟨taxes, rows, payments⟩ := holds
    by_cases pays : account.tax = tid
    · have found' := found
      unfold EodTables.accountRows at found'
      rw [rows] at found'
      obtain ⟨here, changed⟩ := changedBelow_next found'
      have place := placed position account here live pays
      have change : charge tid paySum account = account.pay paySum := if_pos ⟨live, pays⟩
      have payment : chargePayment event tid paySum account =
          some (event.payment account.n paySum) := if_pos ⟨live, pays⟩
      have entry : now.accounts.rows[Records.place account.n]? = some account := by
        rw [place]
        exact found
      obtain ⟨_, rfl, sameTaxes, newRows, newPayments⟩ :=
        @chargeAccount_found now event paySum account entry live
      refine ⟨_, if_pos pays.symm, chargeAccount_length account.n, sameTaxes.trans taxes, ?_, ?_⟩
      · rw [newRows, changed, change, place, rows]
      · rw [newPayments, next here, payment, payments, List.append_assoc]
        rfl
    · exact ⟨now, if_neg fun same => pays same.symm, rfl, taxes,
        idle found (fun both => pays both.2) rows payments⟩

end Charging

/-! ### The taxes one after the other -/

section Plans

variable {taxes : List MonthTax} {tax : MonthTax} {account : TaxedAccount} {position : Nat}

/-- A plan that costs something, and is the plan of the account. -/
def Costs (tax : MonthTax) (account : TaxedAccount) : Prop :=
  tax.n = account.tax ∧ tax.n ≠ 0 ∧ tax.monTax ≠ 0

instance : Decidable (Costs tax account) := inferInstanceAs (Decidable (_ ∧ _))

theorem plansOf_next (found : taxes[position]? = some tax) :
    plansOf (taxes.take (position + 1)) account =
      plansOf (taxes.take position) account ++ if Costs tax account then [tax] else [] := by
  have passes : (tax.n == account.tax && tax.n != 0 && tax.monTax != 0) =
      decide (Costs tax account) := by
    rw [Bool.eq_iff_iff, decide_eq_true_iff]
    simp [Costs, and_assoc]
  unfold plansOf
  rw [List.take_add_one, found, List.filter_append, Option.toList_some, List.filter_cons, passes,
    List.filter_nil]
  simp only [decide_eq_true_eq]

theorem owed_free (found : taxes[position]? = some tax)
    (free : ¬ (account.n ≠ 0 ∧ Costs tax account)) :
    owed (taxes.take (position + 1)) account = owed (taxes.take position) account := by
  unfold owed
  by_cases dead : account.n = 0
  · rw [if_pos dead, if_pos dead]
  · have other : ¬ Costs tax account := fun costs => free ⟨dead, costs⟩
    rw [if_neg dead, if_neg dead, plansOf_next found, if_neg other, List.append_nil]

/-- The only plan of an account is in front of no other. -/
theorem owed_costs (found : taxes[position]? = some tax) (live : account.n ≠ 0)
    (costs : Costs tax account) (single : (plansOf taxes account).length = 1) :
    owed (taxes.take position) account = none ∧
      owed (taxes.take (position + 1)) account = some tax.monTax := by
  have next := @plansOf_next taxes tax account position found
  rw [if_pos costs] at next
  have before : plansOf (taxes.take position) account = [] := by
    have whole : plansOf taxes account = plansOf (taxes.take (position + 1)) account ++
        plansOf (taxes.drop (position + 1)) account := by
      unfold plansOf
      rw [← List.filter_append, List.take_append_drop]
    rw [whole, next] at single
    simp only [List.length_append, List.length_cons, List.length_nil] at single
    exact List.eq_nil_of_length_eq_zero (by omega)
  rw [before] at next
  unfold owed
  rw [if_neg live, if_neg live, before, next]
  exact ⟨rfl, rfl⟩

/-- An account with a plan that costs something owes. -/
theorem owed_of_costs (member : tax ∈ taxes) (live : account.n ≠ 0) (costs : Costs tax account) :
    owed taxes account ≠ none := by
  have plan : tax ∈ plansOf taxes account := by
    unfold plansOf
    rw [List.mem_filter]
    exact ⟨member, by simpa [Costs, and_assoc] using costs⟩
  unfold owed
  rw [if_neg live]
  cases plans : plansOf taxes account with
  | nil => simp [plans] at plan
  | cons first rest => exact nofun

theorem paidFor_n (days : Nat) : (paidFor taxes days account).n = account.n := by
  unfold paidFor
  split
  · rfl
  · rfl

theorem paidFor_tax (days : Nat) : (paidFor taxes days account).tax = account.tax := by
  unfold paidFor
  split
  · rfl
  · rfl

end Plans

/-- Two functions that produce something from different records, one after the other. -/
theorem filterMap_both {A B : Type} {first second both : A → Option B} {records : List A}
    (each : ∀ record ∈ records,
      second record = none ∧ both record = first record ∨
      first record = none ∧ both record = second record) :
    (records.filterMap first ++ records.filterMap second).Perm (records.filterMap both) := by
  induction records with
  | nil => exact .nil
  | cons record rest ih =>
    have later := ih fun other member => each other (List.mem_cons_of_mem record member)
    simp only [List.filterMap_cons]
    rcases each record List.mem_cons_self with ⟨none, same⟩ | ⟨none, same⟩
    · rw [none, same]
      cases first record with
      | none => exact later
      | some made => exact later.cons made
    · rw [none, same]
      cases second record with
      | none => exact later
      | some made => exact List.perm_middle.trans (later.cons made)

section Day

variable {tables : EodTables} {event : EodEvent}

/-- What the plans in front of a position have cost. -/
structure PaidBelow (tables : EodTables) (event : EodEvent) (now : EodTables) (position : Nat) :
    Prop where
  taxes : now.taxes = tables.taxes
  accounts : now.accounts.rows = tables.accounts.rows.map
    (paidFor (tables.taxes.take position) (monDay event.tm.mon))
  payments : ∃ made, now.payments = tables.payments ++ made ∧
    made.Perm (tables.accounts.rows.filterMap
      (paymentFor (tables.taxes.take position) (monDay event.tm.mon) event))

theorem PaidBelow.skip {now : EodTables} {position : Nat} {tax : MonthTax}
    (paid : PaidBelow tables event now position) (found : tables.taxes[position]? = some tax)
    (free : tax.n = 0 ∨ tax.monTax = 0) : PaidBelow tables event now (position + 1) := by
  have same (account : TaxedAccount) : owed (tables.taxes.take (position + 1)) account =
      owed (tables.taxes.take position) account :=
    owed_free found fun ⟨_, _, live, costs⟩ => free.elim live costs
  constructor
  · exact paid.taxes
  · rw [paid.accounts]
    refine List.map_congr_left fun account _ => ?_
    unfold paidFor
    rw [same]
  · obtain ⟨made, payments, perm⟩ := paid.payments
    refine ⟨made, payments, perm.trans (List.Perm.of_eq ?_)⟩
    refine List.filterMap_congr fun account _ => ?_
    unfold paymentFor
    rw [same]

theorem Chargeable.at (chargeable : Chargeable tables) {position : Nat} {account : TaxedAccount}
    (found : tables.accounts.rows[position]? = some account)
    (owes : owed tables.taxes account ≠ none) :
    Records.place account.n = position ∧ (plansOf tables.taxes account).length = 1 := by
  obtain ⟨inside, rfl⟩ := List.getElem?_eq_some_iff.mp found
  exact chargeable position inside owes

/-- The loop over the accounts for one plan. -/
theorem PaidBelow.next {now : EodTables} {position : Nat} {tax : MonthTax}
    (chargeable : Chargeable tables) (paid : PaidBelow tables event now position)
    (found : tables.taxes[position]? = some tax) (live : tax.n ≠ 0) (costs : tax.monTax ≠ 0) :
    ∃ final, fetchLoop EodTables.accountRows
        (visitAccount event tax.n (tax.monTax / (monDay event.tm.mon : ℚ))) now = .ok final ∧
      PaidBelow tables event final (position + 1) := by
  have member := List.mem_of_getElem? found
  have single {account : TaxedAccount} (here : account ∈ tables.accounts.rows)
      (alive : account.n ≠ 0) (mine : tax.n = account.tax) :
      (plansOf tables.taxes account).length = 1 := by
    obtain ⟨index, there⟩ := List.mem_iff_getElem?.mp here
    exact (chargeable.at there (owed_of_costs member alive ⟨mine, live, costs⟩)).2
  obtain ⟨final, done, taxes, accounts, payments⟩ :=
    @accounts_charged now event tax.n (tax.monTax / (monDay event.tm.mon : ℚ)) (by
      intro index account entry alive mine
      rw [paid.accounts, List.getElem?_map] at entry
      obtain ⟨before, there, rfl⟩ := Option.map_eq_some_iff.mp entry
      rw [paidFor_n] at alive ⊢
      rw [paidFor_tax] at mine
      exact (chargeable.at there (owed_of_costs member alive ⟨mine.symm, live, costs⟩)).1)
  refine ⟨final, done, taxes.trans paid.taxes, ?_, ?_⟩
  · rw [accounts, paid.accounts, List.map_map]
    refine List.map_congr_left fun account here => ?_
    unfold charge
    simp only [Function.comp_apply, paidFor_n, paidFor_tax]
    by_cases pays : account.n ≠ 0 ∧ account.tax = tax.n
    · obtain ⟨none, some⟩ := owed_costs found pays.1 ⟨pays.2.symm, live, costs⟩
        (single here pays.1 pays.2.symm)
      rw [if_pos pays]
      simp only [paidFor, none, some]
    · rw [if_neg pays]
      unfold paidFor
      rw [owed_free found fun both => pays ⟨both.1, both.2.1.symm⟩]
  · obtain ⟨made, before, perm⟩ := paid.payments
    refine ⟨_, by rw [payments, before, List.append_assoc], ?_⟩
    refine (perm.append_right _).trans ?_
    rw [paid.accounts, List.filterMap_map]
    refine filterMap_both fun account here => ?_
    simp only [Function.comp_apply, chargePayment, paidFor_n, paidFor_tax, paymentFor]
    by_cases pays : account.n ≠ 0 ∧ account.tax = tax.n
    · obtain ⟨none, some⟩ := owed_costs found pays.1 ⟨pays.2.symm, live, costs⟩
        (single here pays.1 pays.2.symm)
      rw [if_pos pays, none, some]
      exact .inr ⟨rfl, rfl⟩
    · rw [if_neg pays, owed_free found fun both => pays ⟨both.1, both.2.1.symm⟩]
      exact .inl ⟨rfl, rfl⟩

/-- An event charges every account that owes something the part of one of the days of
`mon_day`. -/
theorem eodFunc_charges (chargeable : Chargeable tables) :
    ∃ next, eodFunc tables event = .ok next ∧
      PartPaid (monDay event.tm.mon) tables event next := by
  have turn := @fetchLoop_rule _ _ EodTables.taxes (visitTax event)
    (PaidBelow tables event) tables ?_ ?_ ?_
  · obtain ⟨next, done, length, taxes, accounts, payments⟩ := turn
    rw [taxes, List.take_length] at accounts payments
    exact ⟨next, done, taxes, accounts, payments⟩
  · have nothing (account : TaxedAccount) : owed [] account = none := by
      unfold owed
      split
      · rfl
      · rfl
    have unpaid : paidFor [] (monDay event.tm.mon) = id := by
      funext account
      simp [paidFor, nothing]
    constructor
    · rfl
    · rw [List.take_zero, unpaid, List.map_id]
    · refine ⟨[], (List.append_nil _).symm, ?_⟩
      simp [paymentFor, nothing]
  · intro now position tax paid found dead
    rw [paid.taxes] at found
    exact paid.skip found (.inl dead)
  · intro now position tax paid found live
    rw [paid.taxes] at found
    unfold visitTax
    dsimp only
    by_cases free : tax.monTax = 0
    · rw [if_pos free]
      exact ⟨now, rfl, rfl, paid.skip found (.inr free)⟩
    · rw [if_neg free]
      obtain ⟨final, done, later⟩ := paid.next chargeable found live free
      exact ⟨final, done, by rw [later.taxes, paid.taxes], later⟩

/-- An event comes to its end whatever the tables hold. -/
theorem eodFunc_returns (tables : EodTables) (event : EodEvent) :
    ∃ next, eodFunc tables event = .ok next := by
  have turn := @fetchLoop_rule _ _ EodTables.taxes (visitTax event)
    (fun now _ => now.taxes = tables.taxes) tables rfl (fun _ _ _ same _ _ => same) ?_
  · obtain ⟨next, done, _⟩ := turn
    exact ⟨next, done⟩
  · intro now position tax same found live
    unfold visitTax
    dsimp only
    split
    · exact ⟨now, rfl, rfl, same⟩
    · have inner := @fetchLoop_rule _ _ EodTables.accountRows
        (visitAccount event tax.n (tax.monTax / (monDay event.tm.mon : ℚ)))
        (fun now _ => now.taxes = tables.taxes) now same (fun _ _ _ same _ _ => same) ?_
      · obtain ⟨final, done, _, later⟩ := inner
        exact ⟨final, done, by rw [later, same], later⟩
      · intro now position account same found live
        unfold visitAccount
        split
        · exact ⟨_, rfl, chargeAccount_length account.n, same⟩
        · exact ⟨now, rfl, rfl, same⟩

end Day

/-! ### The days of a month together -/

section Month

variable {tables next : EodTables} {event : EodEvent} {position days : Nat}
  {account : TaxedAccount} {monTax : ℚ}

/-- Without the February of a leap year `mon_day` has the days of the months. -/
theorem Billable.calendar (billable : Billable tables event)
    (paid : PartPaid (monDay event.tm.mon) tables event next) :
    PartPaid event.tm.days tables event next := by
  by_cases february : event.tm.mon = 1 ∧ event.tm.leap
  · have nothing := billable.2 february.1 february.2
    have same (some : Nat) : tables.accounts.rows.map (paidFor tables.taxes some) =
        tables.accounts.rows := by
      conv_rhs => rw [← List.map_id tables.accounts.rows]
      refine List.map_congr_left fun account here => ?_
      simp [paidFor, nothing account here]
    have none (some : Nat) :
        tables.accounts.rows.filterMap (paymentFor tables.taxes some event) = [] := by
      simp only [List.filterMap_eq_nil_iff]
      intro account here
      simp [paymentFor, nothing account here]
    obtain ⟨taxes, accounts, payments⟩ := paid
    rw [same] at accounts
    rw [none] at payments
    refine ⟨taxes, ?_, ?_⟩
    · rw [same]
      exact accounts
    · rw [none]
      exact payments
  · rw [← monDay_eq february]
    exact paid

theorem paidTotal_append (first second : List Payment) (acc : UInt32) :
    paidTotal (first ++ second) acc = paidTotal first acc + paidTotal second acc := by
  unfold paidTotal
  rw [List.filter_append, List.map_append, List.sum_append]

theorem paidTotal_perm {first second : List Payment} (perm : first.Perm second) (acc : UInt32) :
    paidTotal first acc = paidTotal second acc :=
  ((perm.filter _).map _).sum_eq

theorem paidTotal_other {payments : List Payment} {acc : UInt32}
    (other : ∀ payment ∈ payments, payment.acc ≠ acc) : paidTotal payments acc = 0 := by
  have none : payments.filter (fun payment => payment.acc == acc) = [] := by
    rw [List.filter_eq_nil_iff]
    intro payment member
    simpa using other payment member
  unfold paidTotal
  rw [none]
  rfl

theorem payments_of_account (chargeable : Chargeable tables)
    (found : tables.accounts.rows[position]? = some account)
    (owes : owed tables.taxes account = some monTax) :
    paidTotal (tables.accounts.rows.filterMap (paymentFor tables.taxes days event)) account.n =
      -(monTax / days) := by
  have here := (chargeable.at found (by simp [owes])).1
  obtain ⟨inside, entry⟩ := List.getElem?_eq_some_iff.mp found
  -- the payments for the other accounts
  have others {rows : List TaxedAccount} (elsewhere : ∀ other ∈ rows, ∃ index, index ≠ position ∧
      tables.accounts.rows[index]? = some other) :
      paidTotal (rows.filterMap (paymentFor tables.taxes days event)) account.n = 0 := by
    refine paidTotal_other fun payment member same => ?_
    obtain ⟨other, mine, made⟩ := List.mem_filterMap.mp member
    obtain ⟨index, apart, there⟩ := elsewhere other mine
    obtain ⟨_, owes', rfl⟩ := Option.map_eq_some_iff.mp made
    have place := (chargeable.at there (by simp [owes'])).1
    have same : other.n = account.n := same
    rw [same] at place
    exact apart (place.symm.trans here)
  have front := @others (tables.accounts.rows.take position) fun other member => by
    obtain ⟨index, there⟩ := List.mem_iff_getElem?.mp member
    have below : index < position := by
      have bound := (List.getElem?_eq_some_iff.mp there).1
      rw [List.length_take] at bound
      omega
    rw [List.getElem?_take_of_lt below] at there
    exact ⟨index, Nat.ne_of_lt below, there⟩
  have back := @others (tables.accounts.rows.drop (position + 1)) fun other member => by
    obtain ⟨index, there⟩ := List.mem_iff_getElem?.mp member
    rw [List.getElem?_drop] at there
    exact ⟨_, by omega, there⟩
  have split : tables.accounts.rows =
      tables.accounts.rows.take position ++ account :: tables.accounts.rows.drop (position + 1) := by
    rw [← entry, List.getElem_cons_drop, List.take_append_drop]
  have one : paidTotal [event.payment account.n (monTax / days)] account.n = -(monTax / days) := by
    simp [paidTotal, EodEvent.payment]
  rw [split, List.filterMap_append, paidTotal_append, front, zero_add, List.filterMap_cons]
  simp only [paymentFor, owes, Option.map_some]
  rw [← List.singleton_append, paidTotal_append, one]
  exact (congrArg _ back).trans (add_zero _)

/-- An event that charges an account one of so many parts, or a step that leaves it alone. -/
def PartStep (days position : Nat) (tables : EodTables) (label : Option EodEvent)
    (next : EodTables) : Prop :=
  match label with
  | some event => Chargeable tables ∧ PartPaid days tables event next
  | none => Leaves position tables next

/-- What an account has paid in a number of events. -/
structure HasPaid (before after : EodTables) (account now : TaxedAccount) (amount : ℚ) : Prop where
  sum : now.sum = account.sum - amount
  payments : paidTotal after.payments account.n = paidTotal before.payments account.n - amount

/-- The charges of the events of a run add up, and so do the payments. -/
theorem charges_add_up {start final : EodTables} {labels : List (Option EodEvent)}
    (run : Run (PartStep days position) start labels final)
    (found : start.accounts.rows[position]? = some account)
    (owes : owed start.taxes account = some monTax) :
    ∃ now, final.accounts.rows[position]? = some now ∧
      HasPaid start final account now (labels.reduceOption.length * (monTax / days)) := by
  induction run generalizing account with
  | nil => exact ⟨account, found, by simp [List.reduceOption], by simp [List.reduceOption]⟩
  | @cons state label next labels final first _ ih =>
    cases label with
    | none =>
      obtain ⟨same, kept⟩ := (first : Leaves position state next)
      obtain ⟨owes', total⟩ := kept account found
      obtain ⟨now, later, sum, payments⟩ := ih (same.trans found) (owes'.trans owes)
      exact ⟨now, later, sum, payments.trans (by rw [total]; rfl)⟩
    | some event =>
      obtain ⟨chargeable, taxes, accounts, made, added, perm⟩ :=
        (first : Chargeable state ∧ PartPaid days state event next)
      have pays : paidFor state.taxes days account = account.pay (monTax / days) := by
        simp [paidFor, owes]
      have there : next.accounts.rows[position]? = some (account.pay (monTax / days)) := by
        rw [accounts, List.getElem?_map, found, Option.map_some, pays]
      have owes' : owed next.taxes (account.pay (monTax / days)) = some monTax := by
        rw [taxes]
        exact owes
      obtain ⟨now, later, sum, payments⟩ := ih there owes'
      have payment : paidTotal next.payments account.n =
          paidTotal state.payments account.n + -(monTax / days) := by
        rw [added, paidTotal_append, paidTotal_perm perm, payments_of_account chargeable found owes]
      refine ⟨now, later, sum.trans ?_, payments.trans ?_⟩
      · simp only [TaxedAccount.pay, List.reduceOption_cons_of_some, List.length_cons,
          Nat.cast_succ]
        ring
      · simp only [TaxedAccount.pay, List.reduceOption_cons_of_some, List.length_cons,
          Nat.cast_succ, payment]
        ring

theorem daysOf_whole {labels : List (Option EodEvent)} {year : Int} {mon : Fin 12}
    (whole : daysOf labels = wholeMonth year mon) :
    labels.reduceOption.length = Tm.days ⟨year, mon, 1⟩ ∧
      ∀ event, some event ∈ labels → event.tm.days = Tm.days ⟨year, mon, 1⟩ := by
  constructor
  · have length := congrArg List.length whole
    simpa [daysOf, wholeMonth] using length
  · intro event member
    have day : event.tm ∈ wholeMonth year mon := by
      rw [← whole]
      exact List.mem_map_of_mem (List.reduceOption_mem_iff.mpr member)
    obtain ⟨_, _, same⟩ := List.mem_map.mp day
    rw [← same]
    rfl

theorem Tm.days_pos (tm : Tm) : 0 < tm.days := by
  unfold Tm.days
  split
  · split <;> decide
  · split <;> decide

/-- The events of a month take the tax of a month. -/
theorem month_adds_up {start final : EodTables} {labels : List (Option EodEvent)} {year : Int}
    {mon : Fin 12} (run : Run (Under (EodStep (Leaves position)) BillableAt) start labels final)
    (whole : daysOf labels = wholeMonth year mon)
    (found : start.accounts.rows[position]? = some account)
    (owes : owed start.taxes account = some monTax) :
    ∃ now, final.accounts.rows[position]? = some now ∧ HasPaid start final account now monTax := by
  obtain ⟨count, same⟩ := daysOf_whole whole
  have within := @Run.under _ _ _ (fun _ label => ∀ event, label = some event →
    event.tm.days = Tm.days ⟨year, mon, 1⟩) _ _ _ run
    (fun label member _ event here => same event (here ▸ member))
  have charges : Run (PartStep (Tm.days ⟨year, mon, 1⟩) position) start labels final := by
    refine within.mono ?_
    rintro state label next ⟨⟨step, billable⟩, month⟩
    rcases step with ⟨done⟩ | ⟨changed⟩
    · rename_i event
      have billable := billable event rfl
      obtain ⟨_, done', paid⟩ := @eodFunc_charges state event billable.1
      rw [done] at done'
      cases done'
      refine ⟨billable.1, ?_⟩
      rw [← month event rfl]
      exact billable.calendar paid
    · exact changed
  obtain ⟨now, later, paid⟩ := charges_add_up charges found owes
  have exact' : (labels.reduceOption.length : ℚ) * (monTax / Tm.days ⟨year, mon, 1⟩) = monTax := by
    have some : (Tm.days ⟨year, mon, 1⟩ : ℚ) ≠ 0 :=
      Nat.cast_ne_zero.mpr (Nat.ne_of_gt (Tm.days_pos _))
    rw [count]
    field_simp
  rw [exact'] at paid
  exact ⟨now, later, paid⟩

end Month

def TaxedAccount.numbers (account : TaxedAccount) : UInt32 × UInt32 := (account.n, account.tax)

/-- The same plans, and the same accounts but for what they have paid. -/
def SamePlans (tables state : EodTables) : Prop :=
  state.taxes = tables.taxes ∧
    state.accounts.rows.map TaxedAccount.numbers = tables.accounts.rows.map TaxedAccount.numbers

section Same

variable {tables state next : EodTables} {event : EodEvent} {days : Nat}
  {account account' : TaxedAccount}

theorem plansOf_numbers {taxes : List MonthTax} (same : account'.numbers = account.numbers) :
    plansOf taxes account' = plansOf taxes account ∧ owed taxes account' = owed taxes account := by
  obtain ⟨n, tax⟩ := Prod.ext_iff.mp same
  have n : account'.n = account.n := n
  have tax : account'.tax = account.tax := tax
  have plans : plansOf taxes account' = plansOf taxes account := by
    unfold plansOf
    rw [tax]
  refine ⟨plans, ?_⟩
  unfold owed
  rw [n, plans]

theorem SamePlans.paid (same : SamePlans tables state) (paid : PartPaid days state event next) :
    SamePlans tables next := by
  refine ⟨paid.taxes.trans same.1, ?_⟩
  rw [paid.accounts, List.map_map, ← same.2]
  refine List.map_congr_left fun account _ => ?_
  exact Prod.ext (paidFor_n days) (paidFor_tax days)

theorem SamePlans.chargeable (same : SamePlans tables state) (chargeable : Chargeable tables) :
    Chargeable state := by
  intro position inside owes
  have there := congrArg (·[position]?) same.2
  simp only [List.getElem?_map, List.getElem?_eq_getElem inside, Option.map_some] at there
  obtain ⟨account, found, numbers⟩ := Option.map_eq_some_iff.mp there.symm
  have numbers : (state.accounts.rows.get ⟨position, inside⟩).numbers = account.numbers :=
    numbers.symm
  obtain ⟨plans, owed⟩ := @plansOf_numbers _ _ state.taxes numbers
  rw [owed, same.1] at owes
  rw [plans, same.1, show (state.accounts.rows.get ⟨position, inside⟩).n = account.n from
    (Prod.ext_iff.mp numbers).1]
  exact chargeable.at found owes

theorem SamePlans.billable (same : SamePlans tables state) (billable : Billable tables event) :
    Billable state event := by
  refine ⟨same.chargeable billable.1, fun february leap account member => ?_⟩
  have there := List.mem_map_of_mem (f := TaxedAccount.numbers) member
  rw [same.2] at there
  obtain ⟨before, member', numbers⟩ := List.mem_map.mp there
  rw [same.1, (plansOf_numbers numbers.symm).2]
  exact billable.2 february leap before member'

/-- Any number of events of chargeable tables is carried out. -/
theorem events_run (chargeable : Chargeable tables) (others : EodTables → EodTables → Prop)
    {condition : EodEvent → Prop} {events : List EodEvent}
    (meets : ∀ event ∈ events, condition event) :
    ∃ final, Run (Under (EodStep others) fun state label => SamePlans tables state ∧
      ∀ event, label = some event → condition event) tables (events.map some) final := by
  suffices later : ∀ state, SamePlans tables state → ∃ final,
      Run (Under (EodStep others) fun state label => SamePlans tables state ∧
        ∀ event, label = some event → condition event) state (events.map some) final from
    later tables ⟨rfl, rfl⟩
  induction events with
  | nil => exact fun state _ => ⟨state, .nil⟩
  | cons event rest ih =>
    intro state same
    obtain ⟨next, done, paid⟩ := @eodFunc_charges state event (same.chargeable chargeable)
    obtain ⟨final, run⟩ := ih (fun other member => meets other (List.mem_cons_of_mem event member))
      next (same.paid paid)
    refine ⟨final, .cons ⟨.event done, same, fun other here => ?_⟩ run⟩
    cases here
    exact meets event List.mem_cons_self

end Same

/-- An event always comes to its end. Of billable tables it charges every account what it owes for
a day, and the days of a month take the tax of the month from an account and record it. -/
theorem months_are_charged (others : EodTables → EodTables → Prop) (start : EodTables) :
    (∀ event, ∃ next, eodFunc start event = .ok next) ∧
    (∀ (final : EodTables) (labels : List (Option EodEvent)),
      Run (Under (EodStep others) BillableAt) start labels final →
      Run (RightStep others) start labels final) ∧
    (∀ (position : Nat) (final : EodTables) (labels : List (Option EodEvent)) (year : Int)
      (mon : Fin 12) (account : TaxedAccount) (monTax : ℚ),
      Run (Under (EodStep (Leaves position)) BillableAt) start labels final →
      daysOf labels = wholeMonth year mon → start.accounts.rows[position]? = some account →
      owed start.taxes account = some monTax →
      ∃ now, final.accounts.rows[position]? = some now ∧
        HasPaid start final account now monTax) := by
  refine ⟨eodFunc_returns start, ?_, ?_⟩
  · intro final labels run
    refine run.mono ?_
    rintro state label next ⟨step, billable⟩
    refine ⟨step, fun event here => ?_⟩
    subst here
    have billable := billable event rfl
    obtain ⟨_, done, paid⟩ := @eodFunc_charges state event billable.1
    rcases step with ⟨done'⟩
    rw [done] at done'
    cases done'
    exact billable.calendar paid
  · intro position final labels year mon account monTax run whole found owes
    exact month_adds_up run whole found owes

/-- One account whose plan costs 28 a month. -/
def oneAccount : EodTables where
  taxes := [⟨1, 28⟩]
  accounts := ⟨[⟨1, 1, 100⟩], 0, .ok⟩
  payments := []

def februaryOf (year : Int) : List EodEvent :=
  (wholeMonth year 1).map fun tm => ⟨tm, 0⟩

theorem daysOf_februaryOf (year : Int) :
    daysOf ((februaryOf year).map some) = wholeMonth year 1 := by
  have back : EodEvent.tm ∘ (fun tm => ⟨tm, 0⟩ : Tm → EodEvent) = id := rfl
  unfold daysOf februaryOf
  rw [List.reduceOption, List.filterMap_map]
  simp [back]

theorem february_2006_is_charged :
    ∃ final now, final.accounts.rows[0]? = some now ∧
      HasPaid oneAccount final ⟨1, 1, 100⟩ now 28 := by
  have billable : ∀ event ∈ februaryOf 106, Billable oneAccount event := by decide +kernel
  have chargeable : Chargeable oneAccount := by decide +kernel
  obtain ⟨final, run⟩ := events_run chargeable (Leaves 0) billable
  obtain ⟨now, paid⟩ := (months_are_charged (Leaves 0) oneAccount).2.2 0 final _ 106 1 ⟨1, 1, 100⟩ 28
    (run.mono fun state label next step =>
      ⟨step.1, fun event here => step.2.1.billable (step.2.2 event here)⟩)
    (daysOf_februaryOf 106) rfl (by decide +kernel)
  exact ⟨final, now, paid⟩

/-- In 2008 the 29 days of February cost 29. -/
theorem february_2008_costs_more :
    ∃ final now, Run (EodStep (Leaves 0)) oneAccount ((februaryOf 108).map some) final ∧
      daysOf ((februaryOf 108).map some) = wholeMonth 108 1 ∧
      oneAccount.accounts.rows[0]? = some ⟨1, 1, 100⟩ ∧
      owed oneAccount.taxes ⟨1, 1, 100⟩ = some 28 ∧
      final.accounts.rows[0]? = some now ∧ now.sum = 71 ∧
      ¬ HasPaid oneAccount final ⟨1, 1, 100⟩ now 28 := by
  have chargeable : Chargeable oneAccount := by decide +kernel
  have february : ∀ event ∈ februaryOf 108, monDay event.tm.mon = 28 := by decide +kernel
  have owes : owed oneAccount.taxes ⟨1, 1, 100⟩ = some 28 := by decide +kernel
  have days : ((februaryOf 108).map some).reduceOption.length = 29 := by decide +kernel
  obtain ⟨final, run⟩ := events_run chargeable (Leaves 0) february
  have charges : Run (PartStep 28 0) oneAccount ((februaryOf 108).map some) final := by
    refine run.mono ?_
    rintro state label next ⟨step, same, short⟩
    rcases step with ⟨done⟩ | ⟨left⟩
    · rename_i event
      obtain ⟨_, done', paid⟩ := @eodFunc_charges state event (same.chargeable chargeable)
      rw [done] at done'
      cases done'
      rw [short event rfl] at paid
      exact ⟨same.chargeable chargeable, paid⟩
    · exact left
  obtain ⟨now, found, paid⟩ := charges_add_up charges rfl owes
  have sum : now.sum = 71 := by
    rw [paid.sum, days]
    norm_num
  refine ⟨final, now, run.mono fun _ _ _ step => step.1, daysOf_februaryOf 108, rfl, owes, found,
    sum, fun right => ?_⟩
  have less := right.sum
  rw [sum] at less
  norm_num at less

end QNXStuff.QXBilling
