import QNXStuff.Library.SearchTree
import QNXStuff.QXBase.Row

/-! The rules of the billing filter: destinations that cost nothing and the clients that may
pass. Both are collected in one buffer while the packets are checked against another. -/

namespace QNXStuff.QXBilling

open LinkedList SearchTree
open QXBase (memcmp)

abbrev Mac := Vector UInt8 6

def protoDlcIPv4 : UInt16 := 0x0008
def protoIPv4TCP : UInt16 := 6
def protoIPv4UDP : UInt16 := 17

/-- `qx_log_t`: what is captured from a packet. -/
structure QxLog where
  mac : Mac
  dlcProto : UInt16
  ipClnt : UInt32
  ipHost : UInt32
  ipProto : UInt16
  portClnt : UInt16
  portHost : UInt16
  bytesToCli : UInt32
  bytesToHost : UInt32
  deriving DecidableEq

structure RuleExempt where
  active : UInt32
  ipMask : UInt32
  ipAddr : UInt32
  ipProto : UInt16
  ipPortLo : UInt16
  ipPortHi : UInt16
  dlcProto : UInt16
  deriving DecidableEq

structure RuleNics where
  uid : UInt32
  ipAddr : UInt32
  mac : Mac
  deriving DecidableEq

/-- The two buffers that `rule_init_lists` allocates for the rules of a kind. -/
inductive Buffer where
  | first
  | second
  deriving DecidableEq

/-- The address of a client rule. -/
abbrev NicRef := Buffer × Nat

/-- `qxc_rule_nics_t` -/
structure NicNode where
  rule : RuleNics
  left : Option NicRef
  right : Option NicRef
  deriving DecidableEq

/-- The variables of `qxc_rules.c` and the buffers they point to. -/
structure Rules where
  exRule : Buffer → Nat → RuleExempt
  exRulActive : Buffer
  exRulShadow : Buffer
  exCount : Nat
  exActiveCount : Nat
  exLimit : Nat
  node : NicRef → NicNode
  ncRulActive : Buffer
  ncRulShadow : Buffer
  ncRulList : Option NicRef
  ncCount : Nat
  ncLimit : Nat

/-- `rule_init_lists`, with what lies in the memory that `malloc` returns. -/
def ruleInitLists (exRule : Buffer → Nat → RuleExempt) (node : NicRef → NicNode)
    (exCnt ncCnt : Nat) : Rules where
  exRule := exRule
  exRulActive := .first
  exRulShadow := .second
  exCount := 0
  exActiveCount := 0
  exLimit := exCnt
  node := node
  ncRulActive := .first
  ncRulShadow := .second
  ncRulList := none
  ncCount := 0
  ncLimit := ncCnt

/-! ### Destinations -/

/-- The checks that `rule_match_exempt` makes of one rule. -/
def RuleExempt.admits (rule : RuleExempt) (pkt : QxLog) : Bool :=
  rule.dlcProto == pkt.dlcProto &&
  (pkt.dlcProto != protoDlcIPv4 ||
    ((pkt.ipHost &&& rule.ipMask) == rule.ipAddr &&
      (rule.ipProto == 0 ||
        (pkt.ipProto == rule.ipProto &&
          ((pkt.ipProto != protoIPv4TCP && pkt.ipProto != protoIPv4UDP) ||
            (rule.ipPortLo ≤ pkt.portHost && pkt.portHost ≤ rule.ipPortHi))))))

namespace Rules

/-- The first rule that matches says whose traffic is exempt. -/
def ruleMatchExempt (rules : Rules) (pkt : QxLog) : UInt32 :=
  let listed := (List.range rules.exActiveCount).map (rules.exRule rules.exRulActive)
  match listed.find? (·.admits pkt) with
  | some rule => rule.active
  | none => 0

def ruleAddExempt (rules : Rules) (rule : RuleExempt) : Nat × Rules :=
  if rules.exCount = rules.exLimit then (0, rules)
  else
    (1, { rules with
      exRule := Function.update rules.exRule rules.exRulShadow
        (Function.update (rules.exRule rules.exRulShadow) rules.exCount rule)
      exCount := rules.exCount + 1 })

/-! ### Clients -/

/-- `memcmp( node->rule.mac, mac, 6 ) < 0` -/
def below (rules : Rules) (mac : Mac) (ref : NicRef) : Bool :=
  decide (memcmp (rules.node ref).rule.mac.toList mac.toList 6 < 0)

def children (rules : Rules) : Children NicRef where
  left ref := (rules.node ref).left
  right ref := (rules.node ref).right

/-- Where both loops go from a node. -/
def next (rules : Rules) : Mac → NicRef → Option NicRef :=
  rules.children.next rules.below

/-- "both mac and ip matched" -/
def hits (rules : Rules) (pkt : QxLog) (ref : NicRef) : Bool :=
  decide (memcmp (rules.node ref).rule.mac.toList pkt.mac.toList 6 = 0) &&
    (rules.node ref).rule.ipAddr == pkt.ipClnt

/-- `none` is a search that goes on after as many nodes as a list may have. -/
def ruleMatchClient (rules : Rules) (pkt : QxLog) : Option Bool :=
  (findFrom (rules.next pkt.mac) (rules.hits pkt) rules.ncLimit rules.ncRulList).map Option.isSome

def setNode (rules : Rules) (ref : NicRef) (node : NicNode) : Rules :=
  { rules with node := Function.update rules.node ref node }

/-- "correctly link in the rule": `nic->left = ref` or `nic->right = ref`. -/
def link (rules : Rules) (mac : Mac) (nic ref : NicRef) : Rules :=
  rules.setNode nic
    (if rules.below mac nic then { rules.node nic with left := some ref }
    else { rules.node nic with right := some ref })

/-- `none` is a search for a place that goes on after all nodes of the buffer. -/
def ruleAddNic (rules : Rules) (rule : RuleNics) : Option (Nat × Rules) :=
  if rules.ncCount = rules.ncLimit then some (0, rules)
  else
    let ref := (rules.ncRulShadow, rules.ncCount)
    let copied := rules.setNode ref { rule := rule, left := none, right := none }
    -- the first rule of a round is the root
    if rules.ncCount = 0 then some (1, { copied with ncCount := rules.ncCount + 1 })
    else
      match findFrom (copied.next rule.mac) (fun nic => (copied.next rule.mac nic).isNone)
          rules.ncCount (some (rules.ncRulShadow, 0)) with
      | some (some nic) =>
        some (1, { copied.link rule.mac nic ref with ncCount := rules.ncCount + 1 })
      | _ => none

/-! ### The swap -/

/-- The first critical section of `rule_swap_lists` and what follows it. -/
def swapExempts (rules : Rules) : Rules :=
  { rules with
    exRulActive := rules.exRulShadow
    exActiveCount := rules.exCount
    exRulShadow := rules.exRulActive
    exCount := 0 }

/-- The second critical section and what follows it. -/
def swapNics (rules : Rules) : Rules :=
  { rules with
    ncRulList := if rules.ncCount = 0 then none else some (rules.ncRulShadow, 0)
    ncCount := 0
    ncRulActive := rules.ncRulShadow
    ncRulShadow := rules.ncRulActive }

def ruleSwapLists (rules : Rules) : Rules := rules.swapExempts.swapNics

end Rules

end QNXStuff.QXBilling
