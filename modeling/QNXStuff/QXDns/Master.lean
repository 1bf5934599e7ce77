import QNXStuff.QXDns.MasterNames

/-! The master database of the DNS server: what the configuration puts into it, and what it answers. -/

namespace QNXStuff.QXDns

open Execution Memory

/-- `s_addr`, as it is sent. -/
structure InAddr where
  a : UInt8
  b : UInt8
  c : UInt8
  d : UInt8
  deriving DecidableEq

def InAddr.bytes (addr : InAddr) : List UInt8 := [addr.a, addr.b, addr.c, addr.d]

/-- `mr_inaddr_t`: what differs in the answers that are prepared, and the name in IN-ADDR.ARPA. -/
structure MasterInAddr where
  addr : InAddr
  ttl : UInt32
  arpa : List UInt8
  deriving DecidableEq

/-- `qxdns_mr_t` -/
structure MasterRecord where
  ttl : UInt32
  aliases : List (List UInt8)
  inaddrs : List MasterInAddr
  cname : List UInt8
  deriving DecidableEq

/-- `qxdns_mz_t` -/
structure MasterZone where
  hosts : List MasterRecord
  zoneName : List UInt8
  deriving DecidableEq

/-! ### The configuration -/

/-- `qxdns_new_mz`, in front of the zones that are there. -/
def qxdnsNewMz (rootZone : List MasterZone) (name : List UInt8) :
    Except MasterFault (List MasterZone) := do
  let zoneName ← rcpyString 256 name
  .ok ({ hosts := [], zoneName := zoneName } :: rootZone)

def qxdnsNewMr (cname : List UInt8) (ttl : UInt32) : Except MasterFault MasterRecord := do
  let cname ← rcpyString 256 cname
  .ok { ttl := ttl, aliases := [], inaddrs := [], cname := cname }

def qxdnsAddMrAlias (host : MasterRecord) (name : List UInt8) : Except MasterFault MasterRecord := do
  let name ← rcpyString 252 name
  .ok { host with aliases := name :: host.aliases }

/-- A number in `inet_ntoa`. -/
def decimal (number : UInt8) : List UInt8 := QXMail.ascii (toString number.toNat)

/-- `"%s.IN-ADDR.ARPA"` for `inet_ntoa` of the address that is turned round. -/
def arpaText (addr : InAddr) : List UInt8 :=
  [46].intercalate ([addr.d, addr.c, addr.b, addr.a].map decimal) ++ QXMail.ascii ".IN-ADDR.ARPA"

def qxdnsAddMrAddr (host : MasterRecord) (addr : InAddr) : Except MasterFault MasterRecord := do
  let arpa ← rcpyString 32 ((arpaText addr).take 31)
  .ok { host with inaddrs := { addr := addr, ttl := host.ttl, arpa := arpa } :: host.inaddrs }

def qxdnsAddMr (zone : MasterZone) (host : MasterRecord) : MasterZone :=
  { zone with hosts := host :: zone.hosts }

/-! ### Looking for a host -/

/-- The loop over the hosts of a zone: the first one that the body takes, and what it found. -/
def findHost {Found : Type} (sought : MasterRecord → Except MasterFault (Option Found)) :
    List MasterRecord → Except MasterFault (Option (MasterRecord × Found))
  | [] => .ok none
  | host :: rest => do
    match ← sought host with
    | some found => .ok (some (host, found))
    | none => findHost sought rest

/-- The loop over the zones. -/
def findZone {Found : Type}
    (sought : MasterZone → MasterRecord → Except MasterFault (Option Found)) :
    List MasterZone → Except MasterFault (Option (MasterZone × MasterRecord × Found))
  | [] => .ok none
  | zone :: rest => do
    match ← findHost (sought zone) zone.hosts with
    | some (host, found) => .ok (some (zone, host, found))
    | none => findZone sought rest

/-- The first of some names that matches, as its `*zone_ptr`. -/
def matchNames (qname : Block) (zname : List UInt8) (fuel : Nat) :
    List (List UInt8) → Except MasterFault (Option UInt16)
  | [] => .ok none
  | name :: rest => do
    let (same, zonePtr) ← rcmpNames qname name zname fuel
    if same then .ok (some zonePtr) else matchNames qname zname fuel rest

/-- `add_cname` and `zone_ptr` for a host with the name. -/
def hostNamed (qname : Block) (fuel : Nat) (zone : MasterZone) (host : MasterRecord) :
    Except MasterFault (Option (Bool × UInt16)) := do
  let (same, zonePtr) ← rcmpNames qname host.cname zone.zoneName fuel
  if same then .ok (some (false, zonePtr))
  else (matchNames qname zone.zoneName fuel host.aliases).map (Option.map (true, ·))

/-- `zone_ptr` for a host with the address. -/
def hostAddressed (qname : Block) (fuel : Nat) (zone : MasterZone) (host : MasterRecord) :
    Except MasterFault (Option UInt16) :=
  matchNames qname zone.zoneName fuel (host.inaddrs.map MasterInAddr.arpa)

/-! ### The answer -/

def dnsTA : List UInt8 := [0, 1]
def dnsTCname : List UInt8 := [0, 5]
def dnsTPtr : List UInt8 := [0, 12]
def dnsCIn : List UInt8 := [0, 1]

/-- `dnsh->OPT |= bits`, where the bits are in its first byte. -/
def setOpt (pkt : Block) (bits : UInt8) : Block := Function.update pkt 2 (pkt 2 ||| bits)

/-- `DNS_OPT_QR`, `DNS_OPT_AA` and `DNS_OPT_TC` -/
def optQR : UInt8 := 0x80
def optAA : UInt8 := 0x04
def optTC : UInt8 := 0x02

/-- "fix query header" -/
def fixHeader (pkt : Block) (anCount : Nat) (bits : UInt8) : Block :=
  setOpt (writeBytes pkt 6 (endianRet 2 anCount ++ endianRet 2 0 ++ endianRet 2 0)) bits

/-- "in case of truncation" -/
def truncated (pkt : Block) : Block :=
  setOpt (writeBytes pkt 6 [0, 1]) (optAA ||| optTC ||| optQR)

/-- A record behind the packet whose data is the name of the host; `none` when it is truncated, else
where the data ends. -/
def addName (pkt : Block) (datalen : Nat) (type : List UInt8) (zone : MasterZone)
    (host : MasterRecord) (zonePtr : UInt16) (fuel : Nat) :
    Except MasterFault (Block × Option Nat) := do
  let rdata := datalen + 12
  let pkt ← pktWrite pkt datalen ([0xC0, 12] ++ type ++ dnsCIn ++ endianRet 4 host.ttl.toNat)
  let (pkt, anPtr) ← rprtName pkt rdata host.cname zone.zoneName zonePtr (502 - datalen) fuel
  match anPtr with
  | none => .ok (pkt, none)
  | some anPtr =>
    let pkt ← pktWrite pkt (datalen + 10) (endianRet 2 (anPtr - rdata))
    .ok (pkt, some anPtr)

/-- `pkt`, `datalen`, `len` and `an_count`. The next answer goes to `datalen`. -/
structure Answering where
  pkt : Block
  datalen : Nat
  len : Int
  anCount : Nat

/-- `ans_a_t` with a pointer to the name. -/
def ansA (ansPtr : List UInt8) (inaddr : MasterInAddr) : List UInt8 :=
  ansPtr ++ dnsTA ++ dnsCIn ++ endianRet 4 inaddr.ttl.toNat ++ endianRet 2 4 ++ inaddr.addr.bytes

/-- "now add all available IP addresses". The comparison with `sizeof` is one without sign. -/
def addAddresses (ansPtr : List UInt8) :
    List MasterInAddr → Answering → Except MasterFault Answering
  | [], state => .ok state
  | inaddr :: rest, state =>
    if state.len % 2 ^ 32 < 16 then .ok state
    else do
      let pkt ← pktWrite state.pkt state.datalen (ansA ansPtr inaddr)
      addAddresses ansPtr rest
        { pkt := pkt, datalen := state.datalen + 16, len := state.len - 16
          anCount := state.anCount + 1 }

/-- The packet, `datalen` and the return code. -/
structure MasterReply where
  pkt : Block
  datalen : Nat
  found : Bool

/-- The addresses of a host, and the header, behind the name if it is needed. -/
def finishA (ansPtr : List UInt8) (host : MasterRecord) (state : Answering) :
    Except MasterFault MasterReply := do
  let state ← addAddresses ansPtr host.inaddrs state
  .ok { pkt := fixHeader state.pkt state.anCount optQR, datalen := state.datalen, found := true }

/-- `case DNS_T_A`, when a host was found. -/
def answerA (pkt : Block) (datalen : Nat) (zone : MasterZone) (host : MasterRecord)
    (addCname : Bool) (zonePtr : UInt16) (fuel : Nat) : Except MasterFault MasterReply := do
  if addCname then
    let (pkt, anPtr) ← addName pkt datalen dnsTCname zone host zonePtr fuel
    match anPtr with
    | none => .ok { pkt := truncated pkt, datalen := datalen, found := true }
    | some anPtr =>
      finishA (endianRet 2 (0xC000 ||| (datalen + 12))) host
        { pkt := pkt, datalen := anPtr, len := 512 - anPtr, anCount := 1 }
  else
    finishA [0xC0, 12] host { pkt := pkt, datalen := datalen, len := 512 - datalen, anCount := 0 }

/-- `case DNS_T_PTR`, when a host was found. -/
def answerPtr (pkt : Block) (datalen : Nat) (zone : MasterZone) (host : MasterRecord)
    (zonePtr : UInt16) (fuel : Nat) : Except MasterFault MasterReply := do
  let (pkt, anPtr) ← addName pkt datalen dnsTPtr zone host zonePtr fuel
  match anPtr with
  | none => .ok { pkt := truncated pkt, datalen := datalen, found := true }
  | some anPtr =>
    .ok { pkt := fixHeader pkt 1 (optQR ||| optAA), datalen := anPtr, found := true }

/-- `qname` -/
def queriedName (pkt : Block) : Block := fun position => pkt (12 + position)

/-- `qxdns_master_lookup`. Behind its 512 bytes the packet is what lies in memory. -/
def qxdnsMasterLookup (rootZone : List MasterZone) (pkt : Block) (datalen fuel : Nat) :
    Except MasterFault MasterReply := do
  let notFound : MasterReply := { pkt := pkt, datalen := datalen, found := false }
  if readBytes pkt (datalen - 2) 2 ≠ dnsCIn then .ok notFound
  else if readBytes pkt (datalen - 4) 2 = dnsTA then
    match ← findZone (hostNamed (queriedName pkt) fuel) rootZone with
    | none => .ok notFound
    | some (zone, host, addCname, zonePtr) => answerA pkt datalen zone host addCname zonePtr fuel
  else if readBytes pkt (datalen - 4) 2 = dnsTPtr then
    match ← findZone (hostAddressed (queriedName pkt) fuel) rootZone with
    | none => .ok notFound
    | some (zone, host, zonePtr) => answerPtr pkt datalen zone host zonePtr fuel
  else .ok notFound

end QNXStuff.QXDns
