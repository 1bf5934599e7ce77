import QNXStuff.QXBase.CurrentRow
import QNXStuff.QXBilling.BilledPackets

/-! The end of a period of the logger: every session is stored in the log and charged to the
account of its NIC, by a `SEEK` and an `UPDCUR` on a connection of their own. -/

namespace QNXStuff.QXBilling

open Execution Memory
open QXBase hiding Control

structure TaxDet where
  ipAddr : UInt32
  ipMask : UInt32
  ipProto : UInt16
  ipPort : UInt16
  taxToCli : Float
  taxFromCli : Float

/-- `qxl_tax_t`; `td` is the list that begins there. -/
structure Tax where
  defTaxToCli : Float
  defTaxFromCli : Float
  td : List TaxDet

structure Accnt where
  uid : UInt32
  tax : Option Tax

structure Nic where
  rule : RuleNics
  account : Option Accnt

/-- What a row of the log says about a session. -/
structure LogRecord where
  time : UInt32
  nic : UInt32
  session : QxLog
  stocli : Float
  stohst : Float
  accpay : UInt32

/-- "find appropriate NIC" -/
def sessionNic (nics : List Nic) (session : QxLog) : Option Nic :=
  nics.find? fun nic =>
    decide (memcmp session.mac.toList nic.rule.mac.toList 6 = 0) &&
      session.ipClnt == nic.rule.ipAddr

/-- "we found appropriate tax detail" -/
def sessionTaxDet (tax : Tax) (session : QxLog) : Option TaxDet :=
  tax.td.find? fun td =>
    td.ipAddr == (session.ipHost &&& td.ipMask) &&
      (td.ipProto == 0 || td.ipProto == session.ipProto) &&
      (td.ipPort == 0 || td.ipPort == session.portHost)

/-- "how much this session costed client": for the bytes to the client and for those from it. -/
def sessionCost (dataUnits : Int) (tax : Tax) (session : QxLog) : Float × Float :=
  let cost (rate : Float) (bytes : UInt32) := rate * bytes.toFloat / Float.ofInt dataUnits
  match sessionTaxDet tax session with
  | some td => (cost td.taxToCli session.bytesToCli, cost td.taxFromCli session.bytesToHost)
  | none =>
    (cost tax.defTaxToCli session.bytesToCli, cost tax.defTaxFromCli session.bytesToHost)

/-- The fields of the row in the log; a null pointer is followed when the NIC has no account,
or the account no tax. -/
def logRecord (dataUnits : Int) (time : UInt32) (nic : Nic) (session : QxLog) :
    Option LogRecord :=
  nic.account.bind fun account => account.tax.map fun tax =>
    let cost := sessionCost dataUnits tax session
    { time := time, nic := nic.rule.uid, session := session
      stocli := cost.1, stohst := cost.2, accpay := account.uid }

/-! ### The update of an account -/

/-- `QXL_ACCOUNTS_SUM` -/
abbrev accountsSum : Nat := 4

def headerValue (desc : TableDesc) (field : Nat) : Nat :=
  4 + desc.fieldNum + (desc.fields.getD field ⟨0, 0, 0⟩).offset

/-- `updacc_row` with the cost of a session in it. -/
def updaccRow (desc : TableDesc) (cost : Float) : List UInt8 :=
  overwrite ((getUpdateHeader desc).set (4 + accountsSum) (UInt8.ofNat actSub))
    (headerValue desc accountsSum) (bytesOf 8 cost.toBits.toNat)

/-! ### The logger and the server -/

/-- Where the logger is in the loop over the sessions; `rslt` is what the `SEEK` was
answered. -/
inductive ChargeStage where
  | sessions (rest : List QxLog)
  | seeking (account : UInt32) (cost : Float) (rest : List QxLog)
  | updating (account : UInt32) (cost : Float) (rslt : ErrorCode) (rest : List QxLog)
  | exited

/-- The table of accounts in the server, and the logger that works with it. -/
structure Charging where
  accounts : Server
  updacc : ConnId
  dataUnits : Int
  time : UInt32
  nics : List Nic
  stage : ChargeStage

/-- What happens next: a request of another connection, a new period, the next session with
the code for its row in the log, the next request to the table of accounts. -/
inductive ChargeInput where
  | other (conn : ConnId) (request : Request)
  | period (time : UInt32) (nics : List Nic) (sessions : List QxLog)
  | session (inserted : ErrorCode)
  | request

inductive ChargeEvent where
  | answered (reply : Reply)
  | logged (record : LogRecord)
  | silent

/-- An input that does not come in this state, a null pointer, or a fault of the server. -/
inductive ChargeFault where
  | elsewhere
  | null
  | server (fault : Fault)
  deriving DecidableEq

namespace Charging

def withAccounts (state : Charging) (stage : ChargeStage) (accounts : Server) : Charging :=
  { state with accounts := accounts, stage := stage }

/-- "store sessions into database and update accounts - !!! MONEY !!!" -/
def storeSession (state : Charging) (session : QxLog) (rest : List QxLog) (inserted : ErrorCode) :
    Except ChargeFault (Charging × ChargeEvent) :=
  match sessionNic state.nics session with
  | none => .ok ({ state with stage := .sessions rest }, .silent)
  | some nic =>
    match logRecord state.dataUnits state.time nic session with
    | none => .error .null
    | some record =>
      if inserted = .ok then
        .ok ({ state with
          stage := .seeking record.accpay (record.stocli + record.stohst) rest },
          .logged record)
      else .ok ({ state with stage := .exited }, .silent)

/-- The rule that the `UPDCUR` of a session applies. -/
def rule (state : Charging) (cost : Float) : List UInt8 :=
  updaccRow state.accounts.table.layout.toTableDesc cost

/-- "update account"; the codes of the answers are printed, and the logger goes on. -/
def request (state : Charging) : Except ChargeFault (Charging × ChargeEvent) :=
  match state.stage with
  | .seeking account cost rest =>
    match state.accounts.handle state.updacc
        (.control (.seek (bytesOf 4 account.toNat))) with
    | .error fault => .error (.server fault)
    | .ok (accounts, .status rslt) =>
      .ok (state.withAccounts (.updating account cost rslt rest) accounts,
        .answered (.status rslt))
    | .ok _ => .error .elsewhere
  | .updating _ cost _ rest =>
    match state.accounts.handle state.updacc (.change (.updcur (state.rule cost))) with
    | .error fault => .error (.server fault)
    | .ok (accounts, reply) =>
      .ok (state.withAccounts (.sessions rest) accounts, .answered reply)
  | _ => .error .elsewhere

/-- No client loads a table that the logger has selected. -/
def handle (state : Charging) : ChargeInput → Except ChargeFault (Charging × ChargeEvent)
  | .other conn request =>
    if conn = state.updacc ∨ request = .reload then .error .elsewhere
    else
      match state.accounts.handle conn request with
      | .error fault => .error (.server fault)
      | .ok (accounts, reply) =>
        .ok (state.withAccounts state.stage accounts, .answered reply)
  | .period time nics sessions =>
    match state.stage with
    | .sessions [] =>
      .ok ({ state with time := time, nics := nics, stage := .sessions sessions }, .silent)
    | _ => .error .elsewhere
  | .session inserted =>
    match state.stage with
    | .sessions (session :: rest) => state.storeSession session rest inserted
    | _ => .error .elsewhere
  | .request => state.request

/-- The logger before its first period. -/
def start (accounts : Server) (updacc : ConnId) (dataUnits : Int) : Charging where
  accounts := accounts
  updacc := updacc
  dataUnits := dataUnits
  time := 0
  nics := []
  stage := .sessions []

/-- The position of the row from which the `UPDCUR` subtracts. -/
def charged (state : Charging) (cost : Float) : Option Nat :=
  currentRow state.accounts.table (state.accounts.ocbs state.updacc) (state.rule cost)

/-- The `UPDCUR` charges this account or none. -/
def ChargesOnly (state : Charging) (account : UInt32) (cost : Float) : Prop :=
  ∀ position, state.charged cost = some position →
    keyOf (state.accounts.table.row position) = account.toNat

/-- The place of the row that the connection stands at: that of the account when the `SEEK`
succeeded, and otherwise the first one. -/
def place (account : UInt32) (rslt : ErrorCode) : Nat :=
  if rslt = .ok then (account.toNat + (2 ^ 32 - 1)) % 2 ^ 32 else 0

/-- At this place there is no row, a deleted one or the account. -/
def AccountAt (state : Charging) (account : UInt32) (rslt : ErrorCode) : Prop :=
  state.accounts.table.index ≠ 0 → place account rslt < state.accounts.table.stored →
    keyOf (state.accounts.table.row (place account rslt)) ≠ 0 →
    keyOf (state.accounts.table.row (place account rslt)) = account.toNat

end Charging

abbrev ChargeStep : Charging → ChargeInput × ChargeEvent → Charging → Prop :=
  Answers Charging.handle

/-! ### The update header -/

section Header

variable {desc : TableDesc}

theorem updaccRow_fits (desc : TableDesc) (cost : Float) :
    (Change.updcur (updaccRow desc cost)).fits desc = true := by
  refine decide_eq_true ?_
  rw [← getUpdateHeader_length desc,
    ← @List.length_set _ (getUpdateHeader desc) (4 + accountsSum) (UInt8.ofNat actSub)]
  exact length_overwrite_le ..

/-- The rule of a session subtracts its cost from the balance and changes nothing else. -/
theorem updaccRow_subtracts (layout : Layout) {field : FieldDesc} (cost : Float)
    (found : layout.fields[accountsSum]? = some field) (double : field.type = typeDouble)
    (row : Row) :
    updateRow layout.toTableDesc (updaccRow layout.toTableDesc cost) row =
      .ok (overwrite row field.offset (bytesOf 8 (updateDouble actSub
        (wordOf ((row.drop field.offset).take 8)) cost.toBits.toNat))) := by
  have inside : accountsSum < layout.fieldNum := (List.getElem?_eq_some_iff.mp found).1
  have inRow := layout.sound.inRow field (List.mem_of_getElem? found)
  have width : field.width = 8 := by
    unfold FieldDesc.width
    rw [double]
    rfl
  have value : headerValue layout.toTableDesc accountsSum = 4 + layout.fieldNum + field.offset := by
    unfold headerValue
    rw [List.getD_eq_getElem?_getD, found]
    rfl
  have room : 4 + layout.fieldNum + field.offset ≤
      ((getUpdateHeader layout.toTableDesc).set (4 + accountsSum) (UInt8.ofNat actSub)).length := by
    rw [List.length_set, getUpdateHeader_length]
    omega
  have action (other : Nat) (below : other < layout.fieldNum) :
      (updaccRow layout.toTableDesc cost).getD (4 + other) 0 =
        if other = accountsSum then UInt8.ofNat actSub else 0 := by
    have header := getUpdateHeader_action layout.toTableDesc below
    rw [updaccRow, value, overwrite_before (by omega) room, List.getD_eq_getElem?_getD,
      List.getElem?_set]
    by_cases here : other = accountsSum
    · subst here
      rw [if_pos rfl, if_pos (by rw [getUpdateHeader_length]; omega), if_pos rfl]
      rfl
    · rw [if_neg (by omega), if_neg here, ← List.getD_eq_getElem?_getD, header]
  rw [updateRow_single found fun other below apart => by rw [action other below, if_neg apart]]
  unfold updateRowField
  have acts : ((updaccRow layout.toTableDesc cost).getD (4 + accountsSum) 0).toNat = actSub := by
    rw [action _ inside, if_pos rfl]
    rfl
  have read : ((updaccRow layout.toTableDesc cost).drop (4 + layout.fieldNum + field.offset)).take 8 =
      bytesOf 8 cost.toBits.toNat := by
    have written := overwrite_read room (bytesOf 8 cost.toBits.toNat)
    rw [bytesOf_length] at written
    rw [updaccRow, value, written]
  have small : cost.toBits.toNat < 256 ^ 8 := cost.toBits.toNat_lt
  simp only [acts, width, read]
  rw [if_neg (by decide)]
  unfold updateField
  rw [double, wordOf_bytesOf, Nat.mod_eq_of_lt small]
  rfl

end Header

/-! ### Runs -/

section Runs

variable {state next : Charging}

/-- The connection for updates has its table and no filters, and after a `SEEK` it stands where
the answer says. -/
structure Charging.Standing (state : Charging) : Prop where
  pool : state.accounts.table.Ok
  selected : (state.accounts.ocbs state.updacc).selected = true
  unfiltered : (state.accounts.ocbs state.updacc).filters = []
  sought : ∀ account cost rslt rest, state.stage = .updating account cost rslt rest →
    (state.accounts.ocbs state.updacc).record = Charging.place account rslt

theorem Charging.Standing.start {server : Server} {updacc : ConnId} {dataUnits : Int}
    (pool : server.table.Ok) (selected : (server.ocbs updacc).selected = true)
    (unfiltered : (server.ocbs updacc).filters = []) :
    (Charging.start server updacc dataUnits).Standing :=
  ⟨pool, selected, unfiltered, nofun⟩

/-- A request that leaves the connection its table and its filters. -/
theorem Charging.Standing.answered (standing : state.Standing) {accounts : Server}
    {stage : ChargeStage} {ocb : Ocb} (pool : accounts.table.Ok)
    (now : accounts.ocbs state.updacc = ocb)
    (selected : ocb.selected = (state.accounts.ocbs state.updacc).selected)
    (filters : ocb.filters = (state.accounts.ocbs state.updacc).filters)
    (sought : ∀ account cost rslt rest, stage = .updating account cost rslt rest →
      ocb.record = Charging.place account rslt) :
    (state.withAccounts stage accounts).Standing := by
  subst now
  exact ⟨pool, selected.trans standing.selected, filters.trans standing.unfiltered, sought⟩

/-- Requests of the other connections leave the connection for updates. -/
theorem Charging.Standing.other (standing : state.Standing) {conn : ConnId} {request : Request}
    {accounts : Server} {reply : Reply} (apart : conn ≠ state.updacc) (loaded : request ≠ .reload)
    (answered : state.accounts.handle conn request = .ok (accounts, reply)) :
    (state.withAccounts state.stage accounts).Standing :=
  standing.answered
    (handle_ok standing.pool (fun released => absurd released loaded) answered)
    ((handle_ocb apart answered).trans (if_neg loaded)) rfl rfl standing.sought

/-- Both answers to a `SEEK` tell where the connection stands. -/
theorem Charging.Standing.seek (standing : state.Standing) (account : UInt32) (cost : Float)
    (rest : List QxLog) {accounts : Server} {rslt : ErrorCode}
    (answered : state.accounts.handle state.updacc
      (.control (.seek (bytesOf 4 account.toNat))) = .ok (accounts, .status rslt)) :
    (state.withAccounts (.updating account cost rslt rest) accounts).Standing := by
  rw [seek_answer _ standing.selected account.toNat_lt] at answered
  dsimp only at answered
  by_cases beyond : state.accounts.table.index < (account.toNat + (2 ^ 32 - 1)) % 2 ^ 32
  · rw [if_pos beyond] at answered
    cases answered
    refine standing.answered standing.pool (Function.update_self ..) rfl rfl ?_
    rintro _ _ _ _ ⟨⟩
    exact (if_neg nofun).symm
  · rw [if_neg beyond] at answered
    cases answered
    refine standing.answered standing.pool (Function.update_self ..) rfl rfl ?_
    rintro _ _ _ _ ⟨⟩
    exact (if_pos rfl).symm

/-- The `UPDCUR` leaves the connection where it stands. -/
theorem Charging.Standing.update (standing : state.Standing) (message : List UInt8)
    (rest : List QxLog) {accounts : Server} {reply : Reply}
    (answered : state.accounts.handle state.updacc (.change (.updcur message)) =
      .ok (accounts, reply)) :
    (state.withAccounts (.sessions rest) accounts).Standing := by
  have pool : accounts.table.Ok := handle_ok standing.pool (fun none => by cases none) answered
  obtain ⟨changed, done, same⟩ := map_eq_ok.mp answered
  cases same
  exact standing.answered pool (Function.update_self ..) rfl rfl nofun

theorem Charging.Standing.step (standing : state.Standing) {label : ChargeInput × ChargeEvent}
    (step : ChargeStep state label next) : next.Standing := by
  obtain ⟨input, event⟩ := label
  have step : state.handle input = .ok (next, event) := step
  cases input with
  | other conn request =>
    simp only [Charging.handle] at step
    split at step
    · cases step
    · next other =>
      obtain ⟨apart, loaded⟩ := not_or.mp other
      split at step
      · cases step
      · next answered =>
        cases step
        exact standing.other apart loaded answered
  | period time nics sessions =>
    simp only [Charging.handle] at step
    split at step
    · cases step
      exact ⟨standing.pool, standing.selected, standing.unfiltered, nofun⟩
    · cases step
  | session inserted =>
    simp only [Charging.handle] at step
    split at step
    · unfold Charging.storeSession at step
      repeat' split at step
      all_goals
        cases step
        try exact ⟨standing.pool, standing.selected, standing.unfiltered, nofun⟩
    · cases step
  | request =>
    simp only [Charging.handle, Charging.request] at step
    split at step
    · next account cost rest _ =>
      split at step
      · cases step
      · next answered =>
        cases step
        exact standing.seek account cost rest answered
      · cases step
    · next rest _ =>
      split at step
      · cases step
      · next answered =>
        cases step
        exact standing.update _ rest answered
    · cases step

/-- The row that is charged is the one at the place of the account, when there is one. -/
theorem Charging.Standing.charges_iff (standing : state.Standing) {account : UInt32}
    {cost : Float} {rslt : ErrorCode} {rest : List QxLog}
    (stage : state.stage = .updating account cost rslt rest) :
    state.ChargesOnly account cost ↔ state.AccountAt account rslt := by
  have record := standing.sought account cost rslt rest stage
  have filter (position : Nat) : dataFilter (state.accounts.ocbs state.updacc).filters
      (state.accounts.table.row position) = .pass ↔
        keyOf (state.accounts.table.row position) ≠ 0 := by
    rw [standing.unfiltered, dataFilter]
    split
    · next dead => exact ⟨nofun, fun live => absurd dead live⟩
    · next live => exact ⟨fun _ => live, fun _ => rfl⟩
  unfold Charging.ChargesOnly Charging.charged Charging.AccountAt
  simp only [currentRow_eq_some, filter, record]
  constructor
  · intro only counted inside live
    exact only _ ⟨⟨standing.selected, updaccRow_fits .., counted, inside, live⟩, rfl⟩
  · rintro there _ ⟨⟨_, _, counted, inside, live⟩, rfl⟩
    exact there counted inside live

/-- While the keys are the places, an accepted `SEEK` leads to the account. -/
theorem Charging.AccountAt.of_found (pool : state.accounts.table.Ok)
    (placed : ∀ position < state.accounts.table.stored,
      KeyedAt position (state.accounts.table.row position)) (account : UInt32) :
    state.AccountAt account .ok := by
  intro _ inside live
  have key := (placed _ inside).resolve_right live
  have bound := stored_lt pool
  have small := account.toNat_lt
  rw [key]
  unfold Charging.place at inside ⊢
  rw [if_pos rfl] at inside ⊢
  omega

end Runs

/-- After any `SEEK` the `UPDCUR` subtracts from one row at most, and that is the row of the
account if and only if no other account is at the place where the `SEEK` has left the
connection: the place of the account, or the first one when the `SEEK` was refused. An accepted one
leads to no other account while the keys are the places. -/
theorem session_charges_account_iff {start server : Server} {exchanges : List Exchange}
    {updacc : ConnId} {dataUnits : Int} {state : Charging}
    {labels : List (ChargeInput × ChargeEvent)} {account : UInt32} {cost : Float}
    {rslt : ErrorCode} {rest : List QxLog} (initial : Initial start)
    (history : Run LoadedStep start exchanges server)
    (selected : (server.ocbs updacc).selected = true)
    (unfiltered : (server.ocbs updacc).filters = [])
    (run : Run ChargeStep (Charging.start server updacc dataUnits) labels state)
    (stage : state.stage = .updating account cost rslt rest) :
    (∀ next event, ChargeStep state (.request, event) next →
      AppliedTo state.accounts.table (state.rule cost) (state.charged cost) next.accounts.table) ∧
    (state.ChargesOnly account cost ↔ state.AccountAt account rslt) ∧
    (rslt = .ok → (∀ position < state.accounts.table.stored,
      KeyedAt position (state.accounts.table.row position)) → state.ChargesOnly account cost) ∧
    ∀ field, state.accounts.table.layout.fields[accountsSum]? = some field →
      field.type = typeDouble → ∀ row,
      updateRow state.accounts.table.layout.toTableDesc (state.rule cost) row =
        .ok (overwrite row field.offset (bytesOf 8 (updateDouble actSub
          (wordOf ((row.drop field.offset).take 8)) cost.toBits.toNat))) := by
  have pool : server.table.Ok := by
    refine history.invariant (motive := fun server => server.table.Ok) initial.ok.1.pool ?_
    rintro server ⟨⟨conn, request⟩, reply⟩ next ok ⟨answered, loaded⟩
    exact handle_ok ok loaded answered
  have standing : state.Standing :=
    run.invariant (motive := Charging.Standing) (.start pool selected unfiltered)
      fun _ _ _ standing step => standing.step step
  have charges := standing.charges_iff stage
  refine ⟨fun next event step => ?_, charges, ?_, fun field found double row =>
    updaccRow_subtracts _ cost found double row⟩
  rotate_left
  · rintro rfl placed
    exact charges.mpr (.of_found standing.pool placed account)
  have step : state.request = .ok (next, event) := step
  unfold Charging.request at step
  rw [stage] at step
  dsimp only at step
  split at step
  · cases step
  · next answered =>
    cases step
    obtain ⟨changed, done, same⟩ := map_eq_ok.mp answered
    cases same
    exact updcur_applied standing.pool done

/-! ### Two accounts -/

/-- Ten fields, of which the balance is a double, and one row to a page. -/
def accountsLayout : Layout where
  toTableDesc := (setFieldMetrics (newTbldesc 9 1 3 "accounts") accountsSum typeDouble 0).1
  sound := by refine ⟨?_, ?_, ?_, ?_, ?_, ?_⟩ <;> decide

/-- The table as it is created. -/
def accountsServer : Server where
  table :=
    { layout := accountsLayout, index := 0
      heap := Function.update blankHeap 0 (diskPage (fun _ => 0) 44 0 0)
      fresh := 1, pages := some 0, lastPage := 0, pLocks := 1, hFile := 0
      dFile := File.pwrite { size := 0, byte := fun _ => 0 } 0 (fun _ => 0) 44 }
  ocbs := fun _ => Ocb.calloc

theorem accountsServer_initial : Initial accountsServer := ⟨accountsLayout, blankHeap, rfl⟩

/-- Two accounts are opened, and the second one gets the number 9; then the logger comes. -/
def opensAccounts : List (ConnId × Request) :=
  let desc := accountsLayout.toTableDesc
  let row := List.replicate 44 0
  let renumber := overwrite ((getUpdateHeader desc).set 4 (UInt8.ofNat actSet))
    (headerValue desc 0) (bytesOf 4 9)
  [(0, .control .select), (0, .insert 44 row), (0, .insert 44 row),
    (0, .control (.seek (bytesOf 4 2))), (0, .change (.updcur renumber)), (1, .control .select)]

/-- A session of the NIC of this account. -/
def chargesAccount (uid : UInt32) : List ChargeInput :=
  let tax : Tax := { defTaxToCli := 1, defTaxFromCli := 1, td := [] }
  [.period 0 [{ rule := onlyNic, account := some { uid := uid, tax := some tax } }] [fromClient],
    .session .ok, .request]

/-- Between its two requests, when the second one goes to the first row. -/
def AtFirstRow (state : Charging) (uid : UInt32) (rslt : ErrorCode) : Prop :=
  ∃ cost rest, state.stage = .updating uid cost rslt rest ∧
    state.charged cost = some 0 ∧ state.accounts.table.index = 2 ∧
    state.accounts.table.stored = 2 ∧ keyOf (state.accounts.table.row 0) = 1

/-- What is to be seen of it. -/
def seesFirstRow (state : Charging) (uid : UInt32) (rslt : ErrorCode) : Bool :=
  match state.stage with
  | .updating account _ code _ =>
    decide (account = uid ∧ code = rslt ∧ state.accounts.ocbs state.updacc =
      { Ocb.calloc with selected := true, qerrno := rslt } ∧ state.accounts.table.index = 2 ∧
      state.accounts.table.stored = 2 ∧ keyOf (state.accounts.table.row 0) = 1)
  | _ => false

theorem atFirstRow_of_sees {state : Charging} {uid : UInt32} {rslt : ErrorCode}
    (sees : seesFirstRow state uid rslt = true) : AtFirstRow state uid rslt := by
  unfold seesFirstRow at sees
  split at sees
  · next account cost code rest stage =>
    obtain ⟨rfl, rfl, ocb, index, stored, key⟩ := of_decide_eq_true sees
    refine ⟨cost, rest, stage, currentRow_eq_some.mpr ⟨⟨?_, updaccRow_fits .., ?_, ?_, ?_⟩, ?_⟩,
      index, stored, key⟩
    · rw [ocb]
    · rw [index]
      decide
    · rw [stored]
      decide
    · rw [ocb]
      exact if_neg (by rw [key]; decide)
    · rw [ocb]
      rfl
  · cases sees

/-- What is to be seen of the connection for updates, and of the logger that starts now. -/
def logsSession (uid : UInt32) (rslt : ErrorCode) (server : Server) : Ocb × Except ChargeFault Bool :=
  (server.ocbs 1, (replay Charging.handle (Charging.start server 1 1000000)
    (chargesAccount uid)).map fun final => seesFirstRow final.1 uid rslt)

/-- The two runs, up to the answer to the `SEEK`. -/
theorem charging_run (uid : UInt32) (rslt : ErrorCode)
    (seen : (replay (fun (server : Server) (input : ConnId × Request) =>
        server.handle input.1 input.2) accountsServer opensAccounts).map (fun final =>
          (final.2, logsSession uid rslt final.1)) =
      .ok ([.status .ok, .written 44, .written 44, .status .ok, .status .ok, .status .ok],
        ({ Ocb.calloc with selected := true }, .ok true))) :
    ∃ server exchanges labels state, Run LoadedStep accountsServer exchanges server ∧
      (server.ocbs 1).selected = true ∧ (server.ocbs 1).filters = [] ∧
      Run ChargeStep (Charging.start server 1 1000000) labels state ∧
      AtFirstRow state uid rslt := by
  obtain ⟨server, run, logs⟩ := replay_run _ accountsServer opensAccounts _ _ _ seen
  obtain ⟨ocb, sees⟩ := Prod.mk.inj logs
  obtain ⟨labels, state, charging, sees⟩ := replay_reaches Charging.handle
    (Charging.start server 1 1000000) (chargesAccount uid)
    (fun final _ => seesFirstRow final uid rslt) true sees
  refine ⟨server, _, labels, state, run.under ?_, by rw [ocb], by rw [ocb]; rfl, charging,
    atFirstRow_of_sees sees⟩
  rintro _ (_ | ⟨_, _ | ⟨_, _ | ⟨_, _ | ⟨_, _ | ⟨_, _ | ⟨_, ⟨⟩⟩⟩⟩⟩⟩⟩) state
  all_goals exact nofun

/-- The server refuses the `SEEK` for the account 9, which is in the second row, and the cost
is subtracted from the first one. -/
theorem refused_seek_charges_first_account :
    ∃ server exchanges labels state, Run LoadedStep accountsServer exchanges server ∧
      Run ChargeStep (Charging.start server 1 1000000) labels state ∧
      ∃ cost rest, state.stage = .updating 9 cost .pkey rest ∧
        state.charged cost = some 0 ∧ keyOf (state.accounts.table.row 0) = 1 ∧
        ¬ state.ChargesOnly 9 cost := by
  obtain ⟨server, exchanges, labels, state, run, _, _, charging,
    cost, rest, stage, charged, _, _, key⟩ := charging_run 9 .pkey (by decide +kernel)
  refine ⟨server, exchanges, labels, state, run, charging, cost, rest, stage, charged, key, ?_⟩
  intro only
  have same := only 0 charged
  rw [key] at same
  cases same

/-- The account 1 is charged. -/
theorem found_account_is_charged :
    ∃ (state : Charging) (cost : Float), state.charged cost = some 0 ∧ keyOf (state.accounts.table.row 0) = 1 ∧
      state.ChargesOnly 1 cost := by
  obtain ⟨server, exchanges, labels, state, run, selected, unfiltered, charging,
    cost, rest, stage, charged, _, _, key⟩ := charging_run 1 .ok (by decide +kernel)
  refine ⟨state, cost, charged, key, (session_charges_account_iff accountsServer_initial run
    selected unfiltered charging stage).2.1.mpr fun _ _ _ => ?_⟩
  exact key

end QNXStuff.QXBilling
