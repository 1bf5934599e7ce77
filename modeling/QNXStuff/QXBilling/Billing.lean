import QNXStuff.QXBilling.Logging
import QNXStuff.QXBilling.RuleRounds

/-! The filter and the logger at work: packets are matched and stored in the filter, while the
logger loads the rules of the next period and bills what was stored in the last one. -/

namespace QNXStuff.QXBilling

open Execution
open QXBase (memcmp)

def retRmeActiveonly : UInt32 := 1
def retRmeEveryone : UInt32 := 2

/-! ### Sessions -/

/-- "compare packets" -/
def sameSession (pkt session : QxLog) : Bool :=
  decide (memcmp pkt.mac.toList session.mac.toList 6 = 0) &&
    pkt.ipHost == session.ipHost && pkt.ipClnt == session.ipClnt &&
    pkt.portHost == session.portHost && pkt.ipProto == session.ipProto &&
    pkt.dlcProto == session.dlcProto

/-- One packet joins the session it belongs to, or is one of its own. -/
def addToSessions (sessions : List QxLog) (pkt : QxLog) : List QxLog :=
  match sessions.findIdx? (sameSession pkt) with
  | some index => sessions.modify index fun session =>
      { session with
        bytesToCli := session.bytesToCli + pkt.bytesToCli
        bytesToHost := session.bytesToHost + pkt.bytesToHost }
  | none => sessions ++ [pkt]

/-- "form sessions out of packets log" -/
def formSessions (captured : List QxLog) : List QxLog := captured.foldl addToSessions []

/-- "Find appropriate NIC"; `none` is "session has no associated NIC". -/
def findNic (nics : List RuleNics) (session : QxLog) : Option RuleNics :=
  nics.find? fun nic =>
    decide (memcmp session.mac.toList nic.mac.toList 6 = 0) && session.ipClnt == nic.ipAddr

/-! ### The two programs -/

/-- Where a packet is on its way through the filter. -/
inductive PktStage where
  | idle
  | parsed (pkt : QxLog)
  | exempted (pkt : QxLog) (exmpt : UInt32)
  | admitted (pkt : QxLog)
  deriving DecidableEq

/-- Where the logger is in its loop, or the filter in `QXC_SWAP_GET_LOG` on its behalf. -/
inductive Control where
  | loading
  | logSwapped (rgn : Nat) (cnt : UInt32)
  | exemptsSwapped (rgn : Nat) (cnt : UInt32)
  | nicsSwapped (rgn : Nat) (cnt : UInt32)
  | billing (rgn : Nat) (cnt : UInt32)
  deriving DecidableEq

structure NicRow where
  rule : RuleNics
  account : UInt32

/-- The filter with the threads that packets pass it in, and the lists of the logger:
`accounts` are the numbers of the accounts that were loaded. -/
structure Billing (PktThread : Type) where
  log : Log
  rules : Rules
  packets : PktThread → PktStage
  accounts : List UInt32
  crntNics : List RuleNics
  shdwNics : List RuleNics
  maxNics : Nat
  control : Control

inductive BillingInput (PktThread : Type) where
  | arrive (thread : PktThread) (pkt : QxLog)
  | thread (thread : PktThread)
  | addExempt (rule : RuleExempt)
  | readAccounts (accounts : List UInt32)
  | readNic (row : NicRow)
  | control

inductive BillingEvent where
  | passed (pkt : QxLog) (logged : Bool)
  | blocked (pkt : QxLog)
  | swapped (rgn : Nat) (cnt : UInt32)
  | silent
  deriving DecidableEq

/-- An input that does not come in this state, or a search in the rules that does not end. -/
inductive BillingFault where
  | elsewhere
  | hangs
  deriving DecidableEq

namespace Billing

variable {PktThread : Type} [DecidableEq PktThread]

def setPacket (state : Billing PktThread) (thread : PktThread) (stage : PktStage) :
    Billing PktThread :=
  { state with packets := Function.update state.packets thread stage }

/-- `qxc_rx_up` and `qxc_rx_down`, one check at a time. -/
def threadStep (state : Billing PktThread) (thread : PktThread) :
    Except BillingFault (Billing PktThread × BillingEvent) :=
  match state.packets thread with
  | .idle => .error .elsewhere
  | .parsed pkt =>
    let exmpt := state.rules.ruleMatchExempt pkt
    if exmpt = retRmeEveryone then .ok (state.setPacket thread .idle, .passed pkt false)
    else .ok (state.setPacket thread (.exempted pkt exmpt), .silent)
  | .exempted pkt exmpt =>
    match state.rules.ruleMatchClient pkt with
    | none => .error .hangs
    | some false => .ok (state.setPacket thread .idle, .blocked pkt)
    | some true =>
      if exmpt = retRmeActiveonly then .ok (state.setPacket thread .idle, .passed pkt false)
      else .ok (state.setPacket thread (.admitted pkt), .silent)
  | .admitted pkt =>
    let (stored, log) := state.log.logStorePkt pkt
    .ok ({ state.setPacket thread .idle with log := log },
      if stored then .passed pkt true else .blocked pkt)

/-- "read active NICs, link them to accounts and push to nfm-qxc" -/
def readNic (state : Billing PktThread) (row : NicRow) : Except BillingFault (Billing PktThread) :=
  if row.account ∈ state.accounts then
    match state.rules.call (.addNic row.rule) with
    | none => .error .hangs
    | some rules => .ok { state with rules := rules, shdwNics := state.shdwNics ++ [row.rule] }
  else if row.account = 0 then .ok { state with shdwNics := state.shdwNics ++ [row.rule] }
  else .ok state

/-- `QXC_SWAP_GET_LOG`, the pointer swap of the logger behind it, and the next round. -/
def controlStep (state : Billing PktThread) : Billing PktThread × BillingEvent :=
  match state.control with
  | .loading =>
    let ((rgn, cnt), log) := state.log.logSwapLog
    ({ state with log := log, control := .logSwapped rgn cnt }, .silent)
  | .logSwapped rgn cnt =>
    ({ state with rules := state.rules.swapExempts, control := .exemptsSwapped rgn cnt }, .silent)
  | .exemptsSwapped rgn cnt =>
    ({ state with rules := state.rules.swapNics, control := .nicsSwapped rgn cnt }, .silent)
  | .nicsSwapped rgn cnt =>
    ({ state with
      crntNics := state.shdwNics
      shdwNics := state.crntNics
      control := .billing rgn cnt }, .swapped rgn cnt)
  | .billing _ _ => ({ state with shdwNics := [], control := .loading }, .silent)

def handle (state : Billing PktThread) :
    BillingInput PktThread → Except BillingFault (Billing PktThread × BillingEvent)
  | .arrive thread pkt =>
    match state.packets thread with
    | .idle => .ok (state.setPacket thread (.parsed pkt), .silent)
    | _ => .error .elsewhere
  | .thread thread => state.threadStep thread
  | .addExempt rule =>
    if state.control = .loading then
      .ok ({ state with rules := (state.rules.ruleAddExempt rule).2 }, .silent)
    else .error .elsewhere
  | .readAccounts accounts =>
    if state.control = .loading then .ok ({ state with accounts := accounts }, .silent)
    else .error .elsewhere
  | .readNic row =>
    -- the loop ends when the buffer is full
    if state.control = .loading ∧ state.shdwNics.length < state.maxNics then
      (state.readNic row).map fun next => (next, .silent)
    else .error .elsewhere
  | .control => .ok state.controlStep

/-- The filter as it is loaded and the logger before its loop. -/
def start (PktThread : Type) (log : Log) (rules : Rules) (maxNics : Nat) : Billing PktThread where
  log := log
  rules := rules
  packets _ := .idle
  accounts := []
  crntNics := []
  shdwNics := []
  maxNics := maxNics
  control := .loading

/-- What the logger finds in the region that a swap has returned. -/
def captured (state : Billing PktThread) (rgn : Nat) (cnt : UInt32) : List QxLog :=
  (state.log.slots (shmLogs rgn) cnt).map Prod.snd

/-- While a region is billed, each packet in it and each session made of them has a NIC. -/
def Billed (state : Billing PktThread) : Prop :=
  ∀ rgn cnt, state.control = .billing rgn cnt →
    (∀ pkt ∈ state.captured rgn cnt, findNic state.shdwNics pkt ≠ none) ∧
    ∀ session ∈ formSessions (state.captured rgn cnt), findNic state.shdwNics session ≠ none

end Billing

abbrev BillingLabel (PktThread : Type) := BillingInput PktThread × BillingEvent

abbrev BillingStep {PktThread : Type} [DecidableEq PktThread] :
    Billing PktThread → BillingLabel PktThread → Billing PktThread → Prop :=
  Answers Billing.handle

end QNXStuff.QXBilling
