import QNXStuff.QXBilling.BilledPackets
import QNXStuff.QXBilling.Parsing

/-! The two directions of the filter: a frame and its mirror image are treated alike. -/

namespace QNXStuff.QXBilling

open Memory

/-! ### The two handlers -/

/-- `npkt_t`: a frame on its way through io-net. -/
structure Npkt where
  framelen : UInt32
  data : Block

/-- `cell`, `endpoint` and `iface` of an interface. -/
structure IfInfo where
  cell : UInt16
  endpoint : UInt16
  iface : UInt16
  deriving DecidableEq

/-- The variables of the filter. -/
structure Qxc where
  interface : IfInfo
  rules : Rules
  log : Log

/-- What becomes of a frame. -/
inductive Taken where
  | passed
  | stored (pkt : QxLog)
  | blocked
  deriving DecidableEq

/-- `min(npkt->framelen, PKT_LOG_LEN)` -/
def Npkt.rawLen (npkt : Npkt) : Nat := min npkt.framelen.toNat pktLogLen

/-- "copy its contents to the buffer"; what is behind them was on the stack. -/
def Npkt.capture (npkt : Npkt) (stack : Block) : Block := fun position =>
  if position < npkt.rawLen then npkt.data position else stack position

/-- From "3) Check if this packet is allowed to pass without taxes" on. -/
def Qxc.takes (qxc : Qxc) (pkt : QxLog) : Option (Taken × Log) :=
  let pktExmpt := qxc.rules.ruleMatchExempt pkt
  if pktExmpt = retRmeEveryone then some (.passed, qxc.log)
  else
    match qxc.rules.ruleMatchClient pkt with
    | none => none
    | some false => some (.blocked, qxc.log)
    | some true =>
      if pktExmpt = retRmeActiveonly then some (.passed, qxc.log)
      else
        let (stored, log) := qxc.log.logStorePkt pkt
        some (if stored then .stored pkt else .blocked, log)

/-- A frame that is no message; `none` is a search for a client that does not end. -/
def Qxc.rx (qxc : Qxc) (dir : PktDir) (addBytes : QxLog → UInt32 → QxLog) (iface : IfInfo)
    (npkt : Npkt) (stack : Block) : Option (Taken × Log) :=
  if qxc.interface ≠ iface then some (.passed, qxc.log)
  else
    let (pkt, parsed) := logParsePkt (npkt.capture stack) npkt.rawLen dir
    if !parsed then some (.blocked, qxc.log)
    else qxc.takes (addBytes pkt npkt.framelen)

def Qxc.qxcRxUp (qxc : Qxc) : IfInfo → Npkt → Block → Option (Taken × Log) :=
  qxc.rx .fromCli fun pkt framelen => { pkt with bytesToHost := framelen }

def Qxc.qxcRxDown (qxc : Qxc) : IfInfo → Npkt → Block → Option (Taken × Log) :=
  qxc.rx .toCli fun pkt framelen => { pkt with bytesToCli := framelen }

/-! ### The mirror image of a frame -/

/-- Two ranges of a frame are exchanged. -/
def exchanged (raw : Block) (first second count : Nat) : Block := fun position =>
  if first ≤ position ∧ position < first + count then raw (position - first + second)
  else if second ≤ position ∧ position < second + count then raw (position - second + first)
  else raw position

def HasPorts (raw : Block) : Prop :=
  UInt16.ofNat (raw 23).toNat = protoIPv4TCP ∨ UInt16.ofNat (raw 23).toNat = protoIPv4UDP

instance (raw : Block) : Decidable (HasPorts raw) := inferInstanceAs (Decidable (_ ∨ _))

/-- Source and destination are exchanged: the MACs, the IP addresses and the ports. -/
def mirror (raw : Block) : Block :=
  let macs := exchanged raw 0 6 6
  if word16 raw 12 ≠ protoDlcIPv4 then macs
  else
    let addresses := exchanged macs 26 30 4
    if HasPorts raw then exchanged addresses (ipLen raw + 14) (ipLen raw + 16) 2 else addresses

def Npkt.mirror (npkt : Npkt) : Npkt := { npkt with data := QXBilling.mirror npkt.data }

section Exchange

variable {raw : Block} {first second count position : Nat}

theorem exchanged_first (inside : position < count) :
    exchanged raw first second count (first + position) = raw (second + position) := by
  unfold exchanged
  rw [if_pos (by omega), Nat.add_sub_cancel_left, Nat.add_comm]

theorem exchanged_second (apart : first + count ≤ second) (inside : position < count) :
    exchanged raw first second count (second + position) = raw (first + position) := by
  unfold exchanged
  rw [if_neg (by omega), if_pos (by omega), Nat.add_sub_cancel_left, Nat.add_comm]

theorem exchanged_other (before : position < first ∨ first + count ≤ position)
    (behind : position < second ∨ second + count ≤ position) :
    exchanged raw first second count position = raw position := by
  unfold exchanged
  rw [if_neg (by omega), if_neg (by omega)]

end Exchange

/-- One buffer holds the mirror image of what the other holds, as far as that is parsed. -/
structure MirrorOf (raw raw' : Block) : Prop where
  mac : ∀ position < 6, raw' position = raw (6 + position)
  dlc : ∀ position < 2, raw' (12 + position) = raw (12 + position)
  ip : word16 raw 12 = protoDlcIPv4 → raw' 14 = raw 14 ∧ raw' 23 = raw 23 ∧
    (∀ position < 4, raw' (26 + position) = raw (30 + position)) ∧
    (∀ position < 4, raw' (30 + position) = raw (26 + position))
  ports : word16 raw 12 = protoDlcIPv4 → HasPorts raw →
    (∀ position < 2, raw' (ipLen raw + 14 + position) = raw (ipLen raw + 16 + position)) ∧
    (∀ position < 2, raw' (ipLen raw + 16 + position) = raw (ipLen raw + 14 + position))

section Mirrored

variable {raw raw' : Block} {pktRawLen : Nat}

/-- The image of a frame whose IPv4 header has at least 20 bytes. -/
theorem mirror_mirrorOf (whole : word16 raw 12 = protoDlcIPv4 → 20 ≤ ipLen raw) :
    MirrorOf raw (mirror raw) := by
  have sources : ∀ position < 6, exchanged raw 0 6 6 position = raw (6 + position) := by
    intro position inside
    have moved := @exchanged_first raw 0 6 6 position inside
    rwa [Nat.zero_add] at moved
  have macs : ∀ position, 12 ≤ position → exchanged raw 0 6 6 position = raw position :=
    fun position behind => exchanged_other (by omega) (by omega)
  by_cases ipv4 : word16 raw 12 = protoDlcIPv4
  · have long := whole ipv4
    have addressed : mirror raw =
        if HasPorts raw then
          exchanged (exchanged (exchanged raw 0 6 6) 26 30 4) (ipLen raw + 14) (ipLen raw + 16) 2
        else exchanged (exchanged raw 0 6 6) 26 30 4 := if_neg (not_not.mpr ipv4)
    have header : ∀ position < 34,
        mirror raw position = exchanged (exchanged raw 0 6 6) 26 30 4 position := by
      intro position inside
      rw [addressed]
      split
      · exact exchanged_other (by omega) (by omega)
      · rfl
    have untouched : ∀ position, position < 26 ∨ 34 ≤ position →
        exchanged (exchanged raw 0 6 6) 26 30 4 position = exchanged raw 0 6 6 position :=
      fun position outside => exchanged_other (by omega) (by omega)
    refine ⟨fun position inside => ?_, fun position inside => ?_,
      fun _ => ⟨?_, ?_, fun position inside => ?_, fun position inside => ?_⟩,
      fun _ ports => ⟨fun position inside => ?_, fun position inside => ?_⟩⟩
    · rw [header _ (by omega), untouched _ (by omega), sources position inside]
    · rw [header _ (by omega), untouched _ (by omega), macs _ (by omega)]
    · rw [header _ (by omega), untouched _ (by omega), macs _ (by omega)]
    · rw [header _ (by omega), untouched _ (by omega), macs _ (by omega)]
    · rw [header _ (by omega), exchanged_first inside, macs _ (by omega)]
    · rw [header _ (by omega), exchanged_second (by omega) inside, macs _ (by omega)]
    · rw [addressed, if_pos ports, exchanged_first inside, untouched _ (by omega),
        macs _ (by omega)]
    · rw [addressed, if_pos ports, exchanged_second (by omega) inside, untouched _ (by omega),
        macs _ (by omega)]
  · have plain : mirror raw = exchanged raw 0 6 6 := if_pos ipv4
    refine ⟨fun position inside => ?_, fun position inside => ?_, fun here => absurd here ipv4,
      fun here => absurd here ipv4⟩
    · rw [plain, sources position inside]
    · rw [plain, macs _ (by omega)]

theorem word16_congr {place place' : Nat}
    (same : ∀ position < 2, raw' (place' + position) = raw (place + position)) :
    word16 raw' place' = word16 raw place := by
  unfold word16
  rw [readBytes_congr same]

theorem word32_congr {place place' : Nat}
    (same : ∀ position < 4, raw' (place' + position) = raw (place + position)) :
    word32 raw' place' = word32 raw place := by
  unfold word32
  rw [readBytes_congr same]

theorem bigEndian16_congr {place place' : Nat}
    (same : ∀ position < 2, raw' (place' + position) = raw (place + position)) :
    bigEndian16 raw' place' = bigEndian16 raw place := by
  have first := same 0 (by decide)
  have second := same 1 (by decide)
  unfold bigEndian16
  rw [Nat.add_zero, Nat.add_zero] at first
  rw [first, second]

/-- The mirror image is parsed as going to the client like the frame as coming from it. -/
theorem MirrorOf.logParsePkt (image : MirrorOf raw raw') (pktRawLen : Nat) :
    logParsePkt raw' pktRawLen .toCli = logParsePkt raw pktRawLen .fromCli := by
  have mac : macAt raw' 0 = macAt raw 6 := by
    unfold macAt
    congr 1
    funext index
    rw [Nat.zero_add]
    exact image.mac index index.isLt
  have dlc : word16 raw' 12 = word16 raw 12 := word16_congr image.dlc
  unfold QXBilling.logParsePkt
  simp only [PktDir.macPlace, mac, dlc]
  by_cases short : pktRawLen < 14
  · rw [if_pos short, if_pos short]
  · rw [if_neg short, if_neg short]
    by_cases other : word16 raw 12 ≠ protoDlcIPv4
    · rw [if_pos other, if_pos other]
    · rw [if_neg other, if_neg other]
      have ipv4 : word16 raw 12 = protoDlcIPv4 := not_not.mp other
      obtain ⟨version, proto, source, destination⟩ := image.ip ipv4
      have length : ipLen raw' = ipLen raw := by
        unfold ipLen
        rw [version]
      unfold parseIp
      rw [version, length]
      by_cases wrong : (raw 14 &&& 0xF0) ≠ 0x40
      · rw [if_pos wrong, if_pos wrong]
      · rw [if_neg wrong, if_neg wrong]
        by_cases cut : pktRawLen < ipLen raw + 14
        · rw [if_pos cut, if_pos cut]
        · rw [if_neg cut, if_neg cut]
          unfold parsePorts ipFields
          simp only [word32_congr source, word32_congr destination, proto, length]
          by_cases ports : HasPorts raw
          · obtain ⟨from', to'⟩ := image.ports ipv4 ports
            rw [bigEndian16_congr from', bigEndian16_congr to']
          · unfold HasPorts at ports
            rw [if_neg ports, if_neg ports]

/-- A frame is parsed when it is as long as its headers say. -/
theorem parsed_length {dir : PktDir} (parsed : (QXBilling.logParsePkt raw pktRawLen dir).2 = true) :
    14 ≤ pktRawLen ∧ (word16 raw 12 = protoDlcIPv4 → ipLen raw + 14 ≤ pktRawLen ∧
      (HasPorts raw → ipLen raw + 18 ≤ pktRawLen)) := by
  by_cases short : pktRawLen < 14
  · unfold QXBilling.logParsePkt at parsed
    rw [if_pos short] at parsed
    cases parsed
  · refine ⟨Nat.not_lt.mp short, fun ipv4 => ?_⟩
    rw [logParsePkt_ip (Nat.not_lt.mp short) ipv4] at parsed
    unfold parseIp at parsed
    split at parsed
    · cases parsed
    · split at parsed
      · cases parsed
      · next fits =>
        refine ⟨Nat.not_lt.mp fits, fun ports => ?_⟩
        by_contra cut
        have ipProto : ∀ pkt, (ipFields raw dir pkt).ipProto = UInt16.ofNat (raw 23).toNat := by
          intro pkt
          cases dir <;> rfl
        unfold HasPorts at ports
        unfold parsePorts at parsed
        rw [ipProto, if_pos ports, if_pos (Nat.not_le.mp cut)] at parsed
        cases parsed

/-- What was captured of a frame and of its mirror image, whatever is behind it. -/
theorem capture_mirrorOf {npkt : Npkt} {stack : Block} (stack' : Block)
    (parsed : (QXBilling.logParsePkt (npkt.capture stack) npkt.rawLen .fromCli).2 = true)
    (whole : word16 (npkt.capture stack) 12 = protoDlcIPv4 → 20 ≤ ipLen (npkt.capture stack)) :
    MirrorOf (npkt.capture stack) (npkt.mirror.capture stack') := by
  obtain ⟨long, headers⟩ := parsed_length parsed
  have read : ∀ position < npkt.rawLen, npkt.capture stack position = npkt.data position :=
    fun position inside => if_pos inside
  have seen : ∀ position < npkt.rawLen,
      npkt.mirror.capture stack' position = mirror npkt.data position :=
    fun position inside => if_pos inside
  have dlc : word16 (npkt.capture stack) 12 = word16 npkt.data 12 :=
    word16_congr fun position inside => read _ (by omega)
  have length : 14 < npkt.rawLen → ipLen (npkt.capture stack) = ipLen npkt.data := by
    intro inside
    unfold ipLen
    rw [read 14 inside]
  have image : MirrorOf npkt.data (mirror npkt.data) := by
    refine mirror_mirrorOf fun ipv4 => ?_
    have fits := (headers (dlc.trans ipv4)).1
    have header := whole (dlc.trans ipv4)
    rw [← length (by omega)]
    exact header
  refine ⟨fun position inside => ?_, fun position inside => ?_, fun ipv4 => ?_,
    fun ipv4 ports => ?_⟩
  · rw [seen _ (by omega), read _ (by omega), image.mac position inside]
  · rw [seen _ (by omega), read _ (by omega), image.dlc position inside]
  · have fits := (headers ipv4).1
    have header := whole ipv4
    obtain ⟨version, proto, source, destination⟩ := image.ip (dlc.symm.trans ipv4)
    refine ⟨?_, ?_, fun position inside => ?_, fun position inside => ?_⟩
    · rw [seen _ (by omega), read _ (by omega), version]
    · rw [seen _ (by omega), read _ (by omega), proto]
    · rw [seen _ (by omega), read _ (by omega), source position inside]
    · rw [seen _ (by omega), read _ (by omega), destination position inside]
  · have fits := (headers ipv4).2 ports
    have header := whole ipv4
    have carried : HasPorts npkt.data := by
      unfold HasPorts at ports ⊢
      rwa [read 23 (by omega)] at ports
    obtain ⟨source, destination⟩ := image.ports (dlc.symm.trans ipv4) carried
    rw [length (by omega)] at fits ⊢
    refine ⟨fun position inside => ?_, fun position inside => ?_⟩
    · rw [seen _ (by omega), read _ (by omega), source position inside]
    · rw [seen _ (by omega), read _ (by omega), destination position inside]

end Mirrored

/-! ### Decisions -/

/-- The same is done in both directions, with a record for each. -/
inductive Alike (log : Log) (up down : QxLog) :
    Option (Taken × Log) → Option (Taken × Log) → Prop where
  | endless : Alike log up down none none
  | passed : Alike log up down (some (.passed, log)) (some (.passed, log))
  | blocked (after : Log) : Alike log up down (some (.blocked, after)) (some (.blocked, after))
  | stored : Alike log up down (some (.stored up, (log.logStorePkt up).2))
      (some (.stored down, (log.logStorePkt down).2))

/-- Neither the rules nor the room in the log depend on the bytes. -/
theorem takes_alike (qxc : Qxc) (record : QxLog) (framelen : UInt32) :
    Alike qxc.log { record with bytesToHost := framelen } { record with bytesToCli := framelen }
      (qxc.takes { record with bytesToHost := framelen })
      (qxc.takes { record with bytesToCli := framelen }) := by
  have exempt : qxc.rules.ruleMatchExempt { record with bytesToCli := framelen } =
      qxc.rules.ruleMatchExempt { record with bytesToHost := framelen } := rfl
  have client : qxc.rules.ruleMatchClient { record with bytesToCli := framelen } =
      qxc.rules.ruleMatchClient { record with bytesToHost := framelen } := rfl
  unfold Qxc.takes
  rw [exempt, client]
  dsimp only
  split
  · exact .passed
  · split
    · exact .endless
    · exact .blocked qxc.log
    · split
      · exact .passed
      · by_cases room : qxc.log.activeCount < qxc.log.logLimit
        · have stored : ∀ pkt, (qxc.log.logStorePkt pkt).1 = true := fun _ => decide_eq_true room
          rw [if_pos (stored _), if_pos (stored _)]
          exact .stored
        · have full : ∀ pkt, (qxc.log.logStorePkt pkt).1 = false := fun _ => decide_eq_false room
          have after : ∀ pkt, (qxc.log.logStorePkt pkt).2 = qxc.log.reserve.2.clamp := fun _ =>
            if_neg room
          rw [full, full, after, after]
          exact .blocked _

/-- A frame of a client and its mirror image to the client: the same record, and the same is done. -/
theorem mirrored_frames_are_taken_alike (qxc : Qxc) (iface : IfInfo) {npkt : Npkt}
    {stack : Block} (stack' : Block)
    (parsed : (logParsePkt (npkt.capture stack) npkt.rawLen .fromCli).2 = true)
    (whole : word16 (npkt.capture stack) 12 = protoDlcIPv4 → 20 ≤ ipLen (npkt.capture stack)) :
    ∃ record, logParsePkt (npkt.capture stack) npkt.rawLen .fromCli = (record, true) ∧
      logParsePkt (npkt.mirror.capture stack') npkt.mirror.rawLen .toCli = (record, true) ∧
      Alike qxc.log { record with bytesToHost := npkt.framelen }
        { record with bytesToCli := npkt.framelen }
        (qxc.qxcRxUp iface npkt stack) (qxc.qxcRxDown iface npkt.mirror stack') := by
  have image := capture_mirrorOf stack' parsed whole
  have same := image.logParsePkt npkt.rawLen
  obtain ⟨record, up⟩ : ∃ record,
      logParsePkt (npkt.capture stack) npkt.rawLen .fromCli = (record, true) :=
    ⟨_, Prod.ext rfl parsed⟩
  have down : logParsePkt (npkt.mirror.capture stack') npkt.mirror.rawLen .toCli = (record, true) :=
    same.trans up
  refine ⟨record, up, down, ?_⟩
  unfold Qxc.qxcRxUp Qxc.qxcRxDown Qxc.rx
  rw [up, down]
  by_cases other : qxc.interface ≠ iface
  · rw [if_pos other, if_pos other]
    exact .passed
  · rw [if_neg other, if_neg other]
    exact takes_alike qxc record npkt.framelen

def tcpFrame : Npkt where
  framelen := 60
  data position :=
    if position = 12 then 0x08 else if position = 13 then 0x00 else if position = 14 then 0x45
    else if position = 23 then 6 else UInt8.ofNat position

/-- A TCP frame is sent to the port at its bytes 36 and 37, and both filters do the same with it. -/
theorem tcp_frame_is_taken_alike :
    ∃ record, record.portHost = 0x2425 ∧
      logParsePkt (tcpFrame.mirror.capture fun _ => 0) 60 .toCli = (record, true) ∧
      Alike oneClient.log { record with bytesToHost := 60 } { record with bytesToCli := 60 }
        (Qxc.qxcRxUp ⟨⟨0, 0, 0⟩, oneClient.rules, oneClient.log⟩ ⟨0, 0, 0⟩ tcpFrame fun _ => 0)
        (Qxc.qxcRxDown ⟨⟨0, 0, 0⟩, oneClient.rules, oneClient.log⟩ ⟨0, 0, 0⟩ tcpFrame.mirror
          fun _ => 0) := by
  obtain ⟨record, up, down, alike⟩ := mirrored_frames_are_taken_alike
    ⟨⟨0, 0, 0⟩, oneClient.rules, oneClient.log⟩ ⟨0, 0, 0⟩ (fun _ => 0)
    (show (logParsePkt (tcpFrame.capture fun _ => 0) tcpFrame.rawLen .fromCli).2 = true by
      decide +kernel)
    (fun _ => by decide +kernel)
  refine ⟨record, ?_, down, alike⟩
  have port : (logParsePkt (tcpFrame.capture fun _ => 0) tcpFrame.rawLen .fromCli).1.portHost =
      0x2425 := by decide +kernel
  rwa [up] at port

end QNXStuff.QXBilling
