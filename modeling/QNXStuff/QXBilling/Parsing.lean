import QNXStuff.Library.Memory
import QNXStuff.QXBilling.Rules

/-! What the filter reads of a frame, and which of it was captured. -/

namespace QNXStuff.QXBilling

open Memory

def pktLogLen : Nat := 80

/-- `QXC_PKT_TOCLI` and `QXC_PKT_FROMCLI` -/
inductive PktDir where
  | toCli
  | fromCli
  deriving DecidableEq

/-- The words of the header as the processor reads them. -/
def word16 (raw : Block) (place : Nat) : UInt16 := UInt16.ofNat (wordOf (readBytes raw place 2))

def word32 (raw : Block) (place : Nat) : UInt32 := UInt32.ofNat (wordOf (readBytes raw place 4))

/-- `ENDIAN_BE16` -/
def bigEndian16 (raw : Block) (place : Nat) : UInt16 :=
  UInt16.ofNat (256 * (raw place).toNat + (raw (place + 1)).toNat)

/-- `memcpy( pkt_parsed->mac, &pkt_raw[place], 6 )` -/
def macAt (raw : Block) (place : Nat) : Mac := Vector.ofFn fun index : Fin 6 => raw (place + index)

/-- `(ip_hdr->h_ver & 0x0F) << 2` -/
def ipLen (raw : Block) : Nat := (raw 14 &&& 0x0F).toNat <<< 2

/-- The record after `memset`. -/
def noPkt : QxLog where
  mac := Vector.replicate 6 0
  dlcProto := 0
  ipClnt := 0
  ipHost := 0
  ipProto := 0
  portClnt := 0
  portHost := 0
  bytesToCli := 0
  bytesToHost := 0

/-- "if IP family protocol is TCP or UDP - then parse ports" -/
def parsePorts (raw : Block) (pktRawLen : Nat) (dir : PktDir) (pkt : QxLog) : QxLog × Bool :=
  if pkt.ipProto = protoIPv4TCP ∨ pkt.ipProto = protoIPv4UDP then
    if pktRawLen < ipLen raw + 18 then (pkt, false)
    else
      let srcPort := bigEndian16 raw (ipLen raw + 14)
      let dstPort := bigEndian16 raw (ipLen raw + 16)
      match dir with
      | .toCli => ({ pkt with portHost := srcPort, portClnt := dstPort }, true)
      | .fromCli => ({ pkt with portHost := dstPort, portClnt := srcPort }, true)
  else (pkt, true)

/-- "get IP addresses" -/
def ipFields (raw : Block) (dir : PktDir) (pkt : QxLog) : QxLog :=
  let ipSrc := word32 raw 26
  let ipDst := word32 raw 30
  let ipProto := UInt16.ofNat (raw 23).toNat
  match dir with
  | .toCli => { pkt with ipHost := ipSrc, ipClnt := ipDst, ipProto := ipProto }
  | .fromCli => { pkt with ipHost := ipDst, ipClnt := ipSrc, ipProto := ipProto }

/-- "protocol is IPv4" -/
def parseIp (raw : Block) (pktRawLen : Nat) (dir : PktDir) (pkt : QxLog) : QxLog × Bool :=
  if (raw 14 &&& 0xF0) ≠ 0x40 then (pkt, false)
  else if pktRawLen < ipLen raw + 14 then (pkt, false)
  else parsePorts raw pktRawLen dir (ipFields raw dir pkt)

def PktDir.macPlace : PktDir → Nat
  | .toCli => 0
  | .fromCli => 6

/-- `log_parse_pkt`: the record and whether the packet was parsed. -/
def logParsePkt (raw : Block) (pktRawLen : Nat) (dir : PktDir) : QxLog × Bool :=
  if pktRawLen < 14 then (noPkt, false)
  else
    let pkt := { noPkt with mac := macAt raw dir.macPlace, dlcProto := word16 raw 12 }
    if pkt.dlcProto ≠ protoDlcIPv4 then (pkt, true)
    else parseIp raw pktRawLen dir pkt

/-! ### What the result depends on -/

section Captured

variable {raw raw' : Block} {pktRawLen : Nat}

/-- Two buffers that agree on the captured bytes. -/
def SameCapture (raw raw' : Block) (pktRawLen : Nat) : Prop :=
  ∀ position < pktRawLen, raw' position = raw position

theorem SameCapture.readBytes_eq (same : SameCapture raw raw' pktRawLen) {place count : Nat}
    (inside : place + count ≤ pktRawLen) : readBytes raw' place count = readBytes raw place count :=
  readBytes_congr fun position below => same _ (by omega)

theorem SameCapture.word16_eq (same : SameCapture raw raw' pktRawLen) {place : Nat}
    (inside : place + 2 ≤ pktRawLen) : word16 raw' place = word16 raw place := by
  unfold word16
  rw [same.readBytes_eq inside]

theorem SameCapture.word32_eq (same : SameCapture raw raw' pktRawLen) {place : Nat}
    (inside : place + 4 ≤ pktRawLen) : word32 raw' place = word32 raw place := by
  unfold word32
  rw [same.readBytes_eq inside]

theorem SameCapture.bigEndian16_eq (same : SameCapture raw raw' pktRawLen) {place : Nat}
    (inside : place + 2 ≤ pktRawLen) : bigEndian16 raw' place = bigEndian16 raw place := by
  unfold bigEndian16
  rw [same place (by omega), same (place + 1) (by omega)]

theorem SameCapture.macAt_eq (same : SameCapture raw raw' pktRawLen) {place : Nat}
    (inside : place + 6 ≤ pktRawLen) : macAt raw' place = macAt raw place := by
  unfold macAt
  congr 1
  funext index
  exact same _ (by omega)

theorem SameCapture.ipLen_eq (same : SameCapture raw raw' pktRawLen) (inside : 14 < pktRawLen) :
    ipLen raw' = ipLen raw := by
  unfold ipLen
  rw [same 14 inside]

theorem SameCapture.parsePorts_eq (same : SameCapture raw raw' pktRawLen) (inside : 14 < pktRawLen)
    (dir : PktDir) (pkt : QxLog) :
    parsePorts raw' pktRawLen dir pkt = parsePorts raw pktRawLen dir pkt := by
  unfold parsePorts
  rw [same.ipLen_eq inside]
  by_cases short : pktRawLen < ipLen raw + 18
  · rw [if_pos short, if_pos short]
  · rw [if_neg short, if_neg short, same.bigEndian16_eq (by omega), same.bigEndian16_eq (by omega)]

theorem SameCapture.ipFields_eq (same : SameCapture raw raw' pktRawLen) (inside : 34 ≤ pktRawLen)
    (dir : PktDir) (pkt : QxLog) : ipFields raw' dir pkt = ipFields raw dir pkt := by
  unfold ipFields
  rw [same.word32_eq (by omega), same.word32_eq (by omega), same 23 (by omega)]

/-- The bytes of the headers that are looked at were captured: the version and length of an IPv4
header, and the whole fixed part of it when it is taken for one. -/
def HeaderCaptured (raw : Block) (pktRawLen : Nat) : Prop :=
  14 ≤ pktRawLen → word16 raw 12 = protoDlcIPv4 →
    14 < pktRawLen ∧ ((raw 14 &&& 0xF0) = 0x40 → ipLen raw + 14 ≤ pktRawLen → 34 ≤ pktRawLen)

theorem SameCapture.logParsePkt_eq (same : SameCapture raw raw' pktRawLen)
    (captured : HeaderCaptured raw pktRawLen) (dir : PktDir) :
    logParsePkt raw' pktRawLen dir = logParsePkt raw pktRawLen dir := by
  unfold logParsePkt
  by_cases short : pktRawLen < 14
  · rw [if_pos short, if_pos short]
  · have place : dir.macPlace + 6 ≤ pktRawLen := by
      cases dir <;> simp only [PktDir.macPlace] <;> omega
    rw [if_neg short, if_neg short, same.macAt_eq place, same.word16_eq (by omega)]
    by_cases other : word16 raw 12 ≠ protoDlcIPv4
    · simp only [if_pos other]
    · obtain ⟨inside, whole⟩ := captured (Nat.not_lt.mp short) (not_not.mp other)
      simp only [if_neg other]
      unfold parseIp
      rw [same 14 inside, same.ipLen_eq inside]
      by_cases version : (raw 14 &&& 0xF0) ≠ 0x40
      · rw [if_pos version, if_pos version]
      · by_cases cut : pktRawLen < ipLen raw + 14
        · rw [if_neg version, if_neg version, if_pos cut, if_pos cut]
        · have fixed := whole (not_not.mp version) (Nat.not_lt.mp cut)
          rw [if_neg version, if_neg version, if_neg cut, if_neg cut, same.ipFields_eq fixed,
            same.parsePorts_eq inside]

/-! ### Bytes that were not captured -/

theorem logParsePkt_ip (long : 14 ≤ pktRawLen) (ipv4 : word16 raw 12 = protoDlcIPv4) (dir : PktDir) :
    logParsePkt raw pktRawLen dir = parseIp raw pktRawLen dir
      { noPkt with mac := macAt raw dir.macPlace, dlcProto := word16 raw 12 } := by
  unfold logParsePkt
  rw [if_neg (Nat.not_lt.mpr long)]
  exact if_neg (not_not.mpr ipv4)

theorem parsePorts_ipHost (raw : Block) (pktRawLen : Nat) (dir : PktDir) (pkt : QxLog) :
    (parsePorts raw pktRawLen dir pkt).1.ipHost = pkt.ipHost := by
  unfold parsePorts
  split
  · split
    · rfl
    · cases dir <;> rfl
  · rfl

/-- The address of the host is read as soon as the header seems to be there. -/
theorem logParsePkt_ipHost (long : 14 ≤ pktRawLen) (ipv4 : word16 raw 12 = protoDlcIPv4)
    (version : (raw 14 &&& 0xF0) = 0x40) (fits : ipLen raw + 14 ≤ pktRawLen) :
    (logParsePkt raw pktRawLen .fromCli).1.ipHost = word32 raw 30 := by
  rw [logParsePkt_ip long ipv4]
  unfold parseIp
  rw [if_neg (not_not.mpr version), if_neg (Nat.not_lt.mpr fits), parsePorts_ipHost]
  rfl

theorem sameCapture_update (raw : Block) {pktRawLen place : Nat} (outside : pktRawLen ≤ place)
    (byte : UInt8) : SameCapture raw (Function.update raw place byte) pktRawLen :=
  fun _ inside => Function.update_of_ne (by omega) ..

theorem SameCapture.trans {third : Block} (first : SameCapture raw raw' pktRawLen)
    (second : SameCapture raw' third pktRawLen) : SameCapture raw third pktRawLen :=
  fun position inside => (second position inside).trans (first position inside)

theorem parseIp_wrong (pktRawLen : Nat) (dir : PktDir) (pkt : QxLog)
    (version : (raw 14 &&& 0xF0) ≠ 0x40) : (parseIp raw pktRawLen dir pkt).2 = false := by
  unfold parseIp
  rw [if_pos version]

theorem parseIp_icmp (dir : PktDir) (pkt : QxLog) (version : (raw 14 &&& 0xF0) = 0x40)
    (fits : ipLen raw + 14 ≤ pktRawLen) (icmp : raw 23 = 1) :
    (parseIp raw pktRawLen dir pkt).2 = true := by
  have ipProto : (ipFields raw dir pkt).ipProto = 1 := by
    unfold ipFields
    rw [icmp]
    cases dir <;> rfl
  unfold parseIp parsePorts
  rw [if_neg (not_not.mpr version), if_neg (Nat.not_lt.mpr fits), ipProto, if_neg (by decide)]

/-- The last byte of the destination address. -/
theorem word32_update_ne (raw : Block) :
    word32 (Function.update raw 33 0) 30 ≠ word32 (Function.update raw 33 1) 30 := by
  intro same
  have values := congrArg UInt32.toNat same
  have first := (raw 30).toNat_lt
  have second := (raw 31).toNat_lt
  have third := (raw 32).toNat_lt
  simp [word32, readBytes, List.range_succ, wordOf] at values
  omega

/-- The result is the same, whatever is behind the captured bytes. -/
def DependsOnCaptured (raw : Block) (pktRawLen : Nat) : Prop :=
  ∀ raw', SameCapture raw raw' pktRawLen →
    ∀ dir, logParsePkt raw' pktRawLen dir = logParsePkt raw pktRawLen dir

/-- A frame of 14 bytes may be taken for a packet or not. -/
theorem DependsOnCaptured.version (depends : DependsOnCaptured raw pktRawLen)
    (long : 14 ≤ pktRawLen) (ipv4 : word16 raw 12 = protoDlcIPv4) : 14 < pktRawLen := by
  by_contra short
  have all : pktRawLen = 14 := by omega
  subst all
  have rejected := sameCapture_update raw (Nat.le_refl 14) 0
  have versioned := sameCapture_update raw (Nat.le_refl 14) 0x40
  have accepted := versioned.trans (sameCapture_update _ (show 14 ≤ 23 by decide) 1)
  have first := depends _ rejected .toCli
  have second := depends _ accepted .toCli
  rw [← first, logParsePkt_ip (Nat.le_refl 14) ((rejected.word16_eq (by decide)).trans ipv4),
    logParsePkt_ip (Nat.le_refl 14) ((accepted.word16_eq (by decide)).trans ipv4)] at second
  have refused := @parseIp_wrong (Function.update raw 14 0) 14 .toCli
    { noPkt with
      mac := macAt (Function.update raw 14 0) PktDir.toCli.macPlace
      dlcProto := word16 (Function.update raw 14 0) 12 } (by rw [Function.update_self]; decide)
  have version : Function.update (Function.update raw 14 0x40) 23 1 14 = 0x40 := by
    rw [Function.update_of_ne (by decide), Function.update_self]
  have fits : ipLen (Function.update (Function.update raw 14 0x40) 23 1) + 14 ≤ 14 := by
    unfold ipLen
    rw [version]
    decide
  have taken := parseIp_icmp .toCli
    { noPkt with
      mac := macAt (Function.update (Function.update raw 14 0x40) 23 1) PktDir.toCli.macPlace
      dlcProto := word16 (Function.update (Function.update raw 14 0x40) 23 1) 12 }
    (by rw [version]; decide) fits (Function.update_self ..)
  rw [second, refused] at taken
  cases taken

/-- The destination address of a packet is read from behind the captured bytes. -/
theorem DependsOnCaptured.header (depends : DependsOnCaptured raw pktRawLen)
    (long : 14 < pktRawLen) (ipv4 : word16 raw 12 = protoDlcIPv4)
    (version : (raw 14 &&& 0xF0) = 0x40) (fits : ipLen raw + 14 ≤ pktRawLen) :
    34 ≤ pktRawLen := by
  by_contra short
  have host : ∀ byte, (logParsePkt raw pktRawLen .fromCli).1.ipHost =
      word32 (Function.update raw 33 byte) 30 := by
    intro byte
    have same := sameCapture_update raw (show pktRawLen ≤ 33 by omega) byte
    rw [← depends _ same .fromCli]
    refine logParsePkt_ipHost (by omega) ?_ ?_ ?_
    · rw [same.word16_eq (by omega), ipv4]
    · rw [same 14 long, version]
    · rw [same.ipLen_eq long]
      exact fits
  exact word32_update_ne raw ((host 0).symm.trans (host 1))

/-- The result depends on captured bytes only, exactly when the headers were captured as far as
they are looked at. -/
theorem parse_depends_on_captured_iff (raw : Block) (pktRawLen : Nat) :
    DependsOnCaptured raw pktRawLen ↔ HeaderCaptured raw pktRawLen := by
  constructor
  · intro depends long ipv4
    have inside := depends.version long ipv4
    exact ⟨inside, fun version fits => depends.header inside ipv4 version fits⟩
  · exact fun captured raw' same dir => same.logParsePkt_eq captured dir

/-- The captured part of an IPv4 frame without a header: 15 bytes. -/
def headless : Block := fun position =>
  if position = 12 then 0x08 else if position = 14 then 0x40 else 0

/-- Where the rest of the buffer differs, so does the packet. -/
theorem headless_frame_differs :
    ∃ raw', SameCapture headless raw' 15 ∧
      logParsePkt raw' 15 .fromCli ≠ logParsePkt headless 15 .fromCli := by
  refine ⟨Function.update headless 33 1, sameCapture_update headless (by decide) 1, ?_⟩
  intro same
  have hosts := congrArg (fun result => result.1.ipHost) same
  revert hosts
  decide +kernel

end Captured

end QNXStuff.QXBilling
