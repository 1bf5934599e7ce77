import QNXStuff.Library.Memory
import QNXStuff.QXVpn.Calls

/-! The GRE packets of a call: their acknowledgments, their sequence numbers and the payloads
that come to the switch over the PPP protocols. -/

namespace QNXStuff.QXVpn

open Execution Memory

/-- `gre_packet_t`, as it stands in memory. -/
structure GrePacket where
  flags : UInt16
  protocol : UInt16
  keyHw : UInt16
  keyLw : UInt16
  dat1 : UInt32
  dat2 : UInt32
  deriving DecidableEq

def greProtocol : UInt16 := 0x0B88
def greFlS : UInt16 := 0x0010
def greFlA : UInt16 := 0x8000
def greSanityMask : UInt16 := 0x7fef
def greSanityValue : UInt16 := 0x0120

/-- `recv` into `pkt_in`, behind which `pkt_out` follows. -/
def recvSize : Nat := 1514

namespace GrePacket

def hasSeq (gp : GrePacket) : Bool := gp.flags &&& greFlS ≠ 0
def hasAck (gp : GrePacket) : Bool := gp.flags &&& greFlA ≠ 0

/-- The sequence number of the payload, where there is one. -/
def seq (gp : GrePacket) : UInt32 := endianBe32 gp.dat1

def ack (gp : GrePacket) : UInt32 := endianBe32 (if gp.hasSeq then gp.dat2 else gp.dat1)

/-- Where the payload starts: at `dat3` or at `dat2`. -/
def payload (gp : GrePacket) : Nat := if gp.hasAck then 16 else 12

end GrePacket

/-- Why a packet is discarded. -/
inductive Refusal where
  | ipVersion
  | sanity
  | protocol
  | callId
  | ack
  | sequence
  deriving DecidableEq

/-- What becomes of a packet. A payload is answered with a packet of its length, or with a bare
acknowledgment. -/
inductive Verdict where
  | nothing
  | refused (why : Refusal)
  | noData
  | notPpp
  | passed (seq : UInt32) (proto : UInt16) (sent : Nat)
  deriving DecidableEq

/-- A client with the bytes from `pkt_in` on and the sequence numbers of the payloads that have
come to the switch. -/
structure Session where
  client : Client
  pktIn : Block
  passed : List UInt32

/-- The GRE header at a place of a packet. -/
def greAt (block : Block) (place : Nat) : GrePacket where
  flags := UInt16.ofNat (wordOf (readBytes block place 2))
  protocol := UInt16.ofNat (wordOf (readBytes block (place + 2) 2))
  keyHw := UInt16.ofNat (wordOf (readBytes block (place + 4) 2))
  keyLw := UInt16.ofNat (wordOf (readBytes block (place + 6) 2))
  dat1 := UInt32.ofNat (wordOf (readBytes block (place + 8) 4))
  dat2 := UInt32.ofNat (wordOf (readBytes block (place + 12) 4))

namespace Session

/-- What has been received overwrites the front of what was there. -/
def receive (session : Session) (bytes : List UInt8) : Session :=
  { session with pktIn := writeBytes session.pktIn 0 (bytes.take recvSize) }

/-- "we look into the IP version/length field and determine the offset to GRE" -/
def greOffset (session : Session) : Nat := (session.pktIn 0 &&& 0x0F).toNat * 4

def gre (session : Session) : GrePacket := greAt session.pktIn session.greOffset

def ipV4 (session : Session) : Bool := session.pktIn 0 &&& 0xF0 = 0x40

/-- "perform sanity check" -/
def checkGre (session : Session) : Option Refusal :=
  if !session.ipV4 then some .ipVersion
  else if session.gre.flags &&& greSanityMask ≠ greSanityValue then some .sanity
  else if session.gre.protocol ≠ greProtocol then some .protocol
  else if session.gre.keyLw ≠ session.client.callId then some .callId
  else none

/-- "is this really PPP packet?" -/
def isPpp (session : Session) : Bool :=
  let place := session.greOffset + session.gre.payload
  session.pktIn place = 0xFF ∧ session.pktIn (place + 1) = 0x03

/-- The peer acknowledges a packet that was not sent, or one before that it acknowledged last. -/
def wrongAck (session : Session) : Bool :=
  session.gre.hasAck ∧
    (session.gre.ack < session.client.sndAck ∨ session.gre.ack ≥ session.client.sndNum)

def takeAck (session : Session) : Session :=
  if session.gre.hasAck then
    { session with client := { session.client with sndAck := session.gre.ack } }
  else session

def takeSeq (session : Session) : Session :=
  { session with client := { session.client with rcvNum := session.gre.seq } }

/-- The switch over the protocols, none of which places anything into the output buffer, and the
reply. The header of the reply is left out: it is written through `&ppp_out`, over the stack. -/
def passOn (session : Session) : Session × Verdict :=
  let gp := session.gre
  let place := session.greOffset + gp.payload
  let proto := UInt16.ofNat (wordOf (readBytes session.pktIn (place + 2) 2))
  let datalen := (endianBe16 gp.keyHw).toNat
  let session := { session with passed := session.passed ++ [gp.seq] }
  if datalen ≠ 0 then
    ({ session with client := { session.client with sndNum := session.client.sndNum + 1 } },
      .passed gp.seq proto (datalen + 18))
  else (session, .passed gp.seq proto 12)

/-- `handle_ppp` behind `recv`. -/
def handleGre (session : Session) : Session × Verdict :=
  match session.checkGre with
  | some why => (session, .refused why)
  | none =>
    if session.wrongAck then (session, .refused .ack)
    else
      let session := session.takeAck
      if !session.gre.hasSeq then (session, .noData)
      else if session.gre.seq < session.client.rcvNum then (session, .refused .sequence)
      else
        let session := session.takeSeq
        if !session.isPpp then (session, .notPpp) else session.passOn

/-- `handle_ppp` on the result of `recv`. -/
def handlePpp (session : Session) : Option (List UInt8) → Session × Verdict
  | none => (session, .nothing)
  | some bytes => (session.receive bytes).handleGre

def handle (session : Session) (input : Option (List UInt8)) :
    Except Empty (Session × Verdict) :=
  .ok (session.handlePpp input)

end Session

abbrev GreLabel := Option (List UInt8) × Verdict

abbrev GreStep : Session → GreLabel → Session → Prop := Answers Session.handle

/-- The sequence numbers of the payloads that came to the switch. -/
def passedOf (labels : List GreLabel) : List UInt32 :=
  labels.filterMap fun label =>
    match label.2 with
    | .passed seq _ _ => some seq
    | _ => none

def Verdict.Refuses : Verdict → Prop
  | .refused _ => True
  | _ => False

/-- The counters of both directions are as they were. -/
structure SameCounters (client next : Client) : Prop where
  sndNum : next.sndNum = client.sndNum
  sndAck : next.sndAck = client.sndAck
  rcvNum : next.rcvNum = client.rcvNum

namespace Session

/-- A received packet, behind the checks of its header and of its acknowledgment: one that is
refused for its sequence number acknowledges nothing new, one whose payload is passed on is not
the one that was passed on last, and the number of the reply is not the last before 2^32, unless
nothing has been acknowledged. -/
def Fine (session : Session) : Prop :=
  session.checkGre = none → session.wrongAck = false → session.gre.hasSeq →
    if session.gre.seq < session.client.rcvNum then
      session.gre.hasAck → session.gre.ack = session.client.sndAck
    else session.isPpp →
      session.passed.getLast? ≠ some session.gre.seq ∧
        ((endianBe16 session.gre.keyHw).toNat ≠ 0 → session.client.sndNum = 0xFFFFFFFF →
          (if session.gre.hasAck then session.gre.ack else session.client.sndAck) = 0)

def Sound (session : Session) : Option (List UInt8) → Prop
  | none => True
  | some bytes => (session.receive bytes).Fine

instance (session : Session) : Decidable session.Fine := inferInstanceAs (Decidable (_ → _))

instance (session : Session) (input : Option (List UInt8)) : Decidable (session.Sound input) :=
  match input with
  | none => isTrue trivial
  | some bytes => inferInstanceAs (Decidable (session.receive bytes).Fine)

/-- The record of a call before its first packet. -/
structure Ready (session : Session) : Prop where
  acked : session.client.sndAck ≤ session.client.sndNum
  passed : session.passed = []

end Session

abbrev SoundStep : Session → GreLabel → Session → Prop :=
  Under GreStep fun session label => session.Sound label.1

namespace Session

/-- What one packet does to the counters and to what has been passed on. -/
structure Moved (session next : Session) (verdict : Verdict) : Prop where
  ahead : session.client.sndAck ≤ next.client.sndAck
  acked : session.client.sndAck ≤ session.client.sndNum → next.client.sndAck ≤ next.client.sndNum
  expected : session.client.rcvNum ≤ next.client.rcvNum
  passed : next.passed = session.passed ++ passedOf [(none, verdict)]
  fresh : ∀ seq ∈ passedOf [(none, verdict)],
    session.client.rcvNum ≤ seq ∧ seq = next.client.rcvNum ∧ session.passed.getLast? ≠ some seq
  refused : verdict.Refuses → SameCounters session.client next.client

/-- A packet that changes nothing but the buffer. -/
theorem Moved.still {session next : Session} {verdict : Verdict}
    (client : next.client = session.client) (passed : next.passed = session.passed)
    (silent : passedOf [(none, verdict)] = []) : session.Moved next verdict := by
  constructor
  · rw [client]
    exact UInt32.le_refl _
  · rw [client]
    exact id
  · rw [client]
    exact UInt32.le_refl _
  · rw [passed, silent, List.append_nil]
  · rw [silent]
    exact nofun
  · intro _
    rw [client]
    exact ⟨rfl, rfl, rfl⟩

/-- An acknowledgment that is taken is of a packet that was sent. -/
theorem takeAck_spec {session : Session} (right : session.wrongAck = false) :
    session.client.sndAck ≤ session.takeAck.client.sndAck ∧
      (session.client.sndAck ≤ session.client.sndNum →
        session.takeAck.client.sndAck ≤ session.client.sndNum) ∧
      session.takeAck.client.sndAck =
        (if session.gre.hasAck then session.gre.ack else session.client.sndAck) := by
  unfold takeAck
  cases has : session.gre.hasAck with
  | false =>
    simp only [Bool.false_eq_true, ↓reduceIte]
    exact ⟨UInt32.le_refl _, id, trivial⟩
  | true =>
    simp only [wrongAck, has, true_and, decide_eq_false_iff_not, not_or, UInt32.not_lt,
      ge_iff_le, UInt32.not_le] at right
    simp only [↓reduceIte]
    exact ⟨right.1, fun _ => UInt32.le_of_lt right.2, trivial⟩

theorem takeAck_frame (session : Session) :
    session.takeAck.client.sndNum = session.client.sndNum ∧
      session.takeAck.client.rcvNum = session.client.rcvNum ∧
      session.takeAck.passed = session.passed ∧ session.takeAck.pktIn = session.pktIn := by
  unfold takeAck
  split
  · exact ⟨rfl, rfl, rfl, rfl⟩
  · exact ⟨rfl, rfl, rfl, rfl⟩

/-- What a payload that is passed on does behind its checks. -/
theorem passOn_moved {session : Session} (ordered : session.client.rcvNum ≤ session.gre.seq)
    (fresh : session.passed.getLast? ≠ some session.gre.seq)
    (room : (endianBe16 session.gre.keyHw).toNat ≠ 0 → session.client.sndNum = 0xFFFFFFFF →
      session.client.sndAck = 0) :
    session.Moved session.takeSeq.passOn.1 session.takeSeq.passOn.2 := by
  have new : ∀ seq ∈ [session.gre.seq], session.client.rcvNum ≤ seq ∧
      seq = session.gre.seq ∧ session.passed.getLast? ≠ some seq := by
    intro seq member
    obtain rfl := List.mem_singleton.mp member
    exact ⟨ordered, rfl, fresh⟩
  unfold passOn
  dsimp only [takeSeq]
  split
  · rename_i data
    refine ⟨UInt32.le_refl _, fun acked => ?_, ordered, rfl, new, False.elim⟩
    by_cases last : session.client.sndNum = 0xFFFFFFFF
    · show session.client.sndAck ≤ session.client.sndNum + 1
      rw [room data last]
      exact UInt32.zero_le
    · exact UInt32.le_trans acked (UInt32.le_of_lt (UInt32.lt_add_one last))
  · exact ⟨UInt32.le_refl _, id, ordered, rfl, new, False.elim⟩

/-- What follows the acknowledgment, seen from before it. -/
theorem Moved.behind_ack {session next : Session} {verdict : Verdict}
    (right : session.wrongAck = false) (moved : session.takeAck.Moved next verdict)
    (old : verdict.Refuses → session.takeAck.client.sndAck = session.client.sndAck) :
    session.Moved next verdict := by
  obtain ⟨ahead, acked, -⟩ := takeAck_spec right
  obtain ⟨sndNum, rcvNum, passed, -⟩ := session.takeAck_frame
  have expected := moved.expected
  have fresh := moved.fresh
  rw [rcvNum] at expected
  rw [rcvNum, passed] at fresh
  refine ⟨UInt32.le_trans ahead moved.ahead, fun sound => moved.acked ?_, expected, ?_, fresh, ?_⟩
  · rw [sndNum]
    exact acked sound
  · rw [moved.passed, passed]
  · intro refuses
    obtain ⟨num, ack, rcv⟩ := moved.refused refuses
    exact ⟨num.trans sndNum, ack.trans (old refuses), rcv.trans rcvNum⟩

theorem takeSeq_moved {session : Session} (ordered : session.client.rcvNum ≤ session.gre.seq) :
    session.Moved session.takeSeq .notPpp :=
  ⟨UInt32.le_refl _, id, ordered, (List.append_nil _).symm, nofun, False.elim⟩

/-- An acknowledgment changes nothing that the rest of the packet is read by. -/
theorem takeAck_reads (session : Session) :
    session.takeAck.gre = session.gre ∧ session.takeAck.isPpp = session.isPpp := by
  have pktIn := session.takeAck_frame.2.2.2
  have gre : session.takeAck.gre = session.gre := by
    unfold gre greOffset
    rw [pktIn]
  refine ⟨gre, ?_⟩
  unfold isPpp
  rw [gre]
  unfold greOffset
  rw [pktIn]

/-- The checks of one packet, in their order. -/
theorem handleGre_moved {session : Session} (fine : session.Fine) :
    session.Moved session.handleGre.1 session.handleGre.2 := by
  unfold handleGre
  cases checked : session.checkGre with
  | some why => exact .still rfl rfl rfl
  | none =>
    cases right : session.wrongAck with
    | true => exact .still rfl rfl rfl
    | false =>
      obtain ⟨gre, ppp⟩ := session.takeAck_reads
      obtain ⟨sndNum, rcvNum, passed, -⟩ := session.takeAck_frame
      have taken := (takeAck_spec right).2.2
      have fine := fine checked right
      simp only [Bool.false_eq_true, ↓reduceIte]
      rw [gre, rcvNum]
      cases numbered : session.gre.hasSeq with
      | false => exact .behind_ack right (.still rfl rfl rfl) False.elim
      | true =>
        have fine := fine numbered
        by_cases late : session.gre.seq < session.client.rcvNum
        · rw [if_pos late] at fine
          simp only [Bool.not_true, Bool.false_eq_true, ↓reduceIte, late]
          refine .behind_ack right (.still rfl rfl rfl) fun _ => taken.trans ?_
          split
          · rename_i has
            exact fine has
          · rfl
        · rw [if_neg late] at fine
          have ordered : session.takeAck.client.rcvNum ≤ session.takeAck.gre.seq := by
            rw [gre, rcvNum]
            exact UInt32.not_lt.mp late
          have isPpp : session.takeAck.takeSeq.isPpp = session.isPpp := ppp
          simp only [Bool.not_true, Bool.false_eq_true, ↓reduceIte, late, isPpp]
          cases framed : session.isPpp with
          | false => exact .behind_ack right (takeSeq_moved ordered) False.elim
          | true =>
            obtain ⟨fresh, room⟩ := fine framed
            rw [← taken] at room
            have moved := passOn_moved ordered (gre ▸ passed ▸ fresh) (gre ▸ sndNum ▸ room)
            apply Moved.behind_ack right moved
            unfold passOn
            dsimp only
            split
            · exact False.elim
            · exact False.elim

theorem step_moved {session next : Session} {label : GreLabel}
    (step : SoundStep session label next) : session.Moved next label.2 := by
  obtain ⟨input, verdict⟩ := label
  obtain ⟨handled, sound⟩ := step
  have handled : session.handlePpp input = (next, verdict) := Except.ok.inj handled
  cases input with
  | none =>
    cases handled
    exact .still rfl rfl rfl
  | some bytes =>
    have moved := handleGre_moved sound
    have made : (session.receive bytes).handleGre = (next, verdict) := handled
    rw [made] at moved
    exact ⟨moved.ahead, moved.acked, moved.expected, moved.passed, moved.fresh, moved.refused⟩

/-- What has been passed on is what the packets tell, in order, and up to the counter. -/
structure GreInv (labels : List GreLabel) (session : Session) : Prop where
  passed : session.passed = passedOf labels
  ordered : session.passed.Pairwise (· < ·)
  expected : ∀ seq ∈ session.passed, seq ≤ session.client.rcvNum
  acked : session.client.sndAck ≤ session.client.sndNum

/-- A number behind all those of an ascending list, but not its last, comes after them. -/
theorem ascending_concat {numbers : List UInt32} {bound number : UInt32}
    (ascending : numbers.Pairwise (· < ·)) (bounded : ∀ other ∈ numbers, other ≤ bound)
    (behind : bound ≤ number) (fresh : numbers.getLast? ≠ some number) :
    (numbers ++ [number]).Pairwise (· < ·) := by
  refine List.pairwise_append.mpr ⟨ascending, List.pairwise_singleton _ _, fun other member => ?_⟩
  intro same one
  obtain rfl := List.mem_singleton.mp one
  have near := UInt32.le_trans (bounded other member) behind
  refine UInt32.lt_of_le_of_ne near fun same => ?_
  subst same
  -- the number is in the list, so that no later one is in it
  obtain ⟨before, after, rfl⟩ := List.append_of_mem member
  cases after with
  | nil => exact fresh List.getLast?_concat
  | cons later rest =>
    have more : other < later :=
      (List.pairwise_cons.mp (List.pairwise_append.mp ascending).2.1).1 later List.mem_cons_self
    have least := UInt32.le_trans (bounded later (by simp)) behind
    exact UInt32.not_lt.mpr least more

theorem GreInv.step {labels : List GreLabel} {session next : Session} {label : GreLabel}
    (inv : GreInv labels session) (step : SoundStep session label next) :
    GreInv (labels ++ [label]) next := by
  have moved := step_moved step
  have told : passedOf [label] = passedOf [(none, label.2)] := rfl
  have split : passedOf (labels ++ [label]) = passedOf labels ++ passedOf [label] :=
    List.filterMap_append
  refine ⟨?_, ?_, ?_, moved.acked inv.acked⟩
  · rw [moved.passed, inv.passed, split, told]
  · rw [moved.passed]
    have fresh := moved.fresh
    cases now : passedOf [(none, label.2)] with
    | nil =>
      rw [List.append_nil]
      exact inv.ordered
    | cons seq rest =>
      rw [now] at fresh
      obtain ⟨behind, -, new⟩ := fresh seq List.mem_cons_self
      have one : rest = [] := by
        have short : (passedOf [(none, label.2)]).length ≤ 1 := List.length_filterMap_le _ _
        rw [now, List.length_cons] at short
        exact List.length_eq_zero_iff.mp (by omega)
      rw [one]
      exact ascending_concat inv.ordered inv.expected behind new
  · intro seq member
    rw [moved.passed] at member
    rcases List.mem_append.mp member with old | now
    · exact UInt32.le_trans (inv.expected seq old) moved.expected
    · rw [(moved.fresh seq now).2.1]
      exact UInt32.le_refl _

theorem run_inv {start session : Session} {labels : List GreLabel} (ready : start.Ready)
    (run : Run SoundStep start labels session) : GreInv labels session := by
  have first : GreInv [] start := by
    constructor
    · exact ready.passed
    · rw [ready.passed]
      exact .nil
    · rw [ready.passed]
      exact nofun
    · exact ready.acked
  exact run.history first fun past state label next inv step => inv.step step

theorem run_ahead {session later : Session} {labels : List GreLabel}
    (run : Run SoundStep session labels later) :
    session.client.sndAck ≤ later.client.sndAck := by
  induction run with
  | nil => exact UInt32.le_refl _
  | cons first _ ih => exact UInt32.le_trans (step_moved first).ahead ih

end Session

/-- While the packets are sound, payloads are passed on in the order of their numbers, each once,
acknowledgments go forward up to what was sent, and a discarded packet leaves the counters. -/
theorem payloads_pass_in_order {start session later : Session} {labels further : List GreLabel}
    (ready : start.Ready) (run : Run SoundStep start labels session)
    (rest : Run SoundStep session further later) :
    (passedOf labels).Pairwise (· < ·) ∧ session.client.sndAck ≤ session.client.sndNum ∧
      session.client.sndAck ≤ later.client.sndAck ∧
      ∀ label next, SoundStep session label next → label.2.Refuses →
        SameCounters session.client next.client := by
  have inv := Session.run_inv ready run
  refine ⟨?_, inv.acked, Session.run_ahead rest, fun label next step => ?_⟩
  · rw [← inv.passed]
    exact inv.ordered
  · exact (Session.step_moved step).refused

/-- A GRE packet with a sequence number behind an IP header of 20 bytes, for a call of number 3. -/
def dataPacket (seq : UInt8) : List UInt8 :=
  [0x45] ++ List.replicate 19 0 ++ [0x30, 0x01, 0x88, 0x0B, 0, 4, 3, 0, 0, 0, 0, seq] ++
    [0xFF, 0x03, 0xC0, 0x21]

/-- The record of a call that was just set up. -/
def newCall : Session where
  client := ⟨.established, magicCookie, 7, 1, ourCallId, 0xffffffff, 0xffffffff, some 9, 0, 0, 0⟩
  pktIn := fun _ => 0
  passed := []

theorem newCall_ready : newCall.Ready := ⟨UInt32.le_refl _, rfl⟩

/-- Two payloads are passed on, and one between them comes too late. -/
theorem two_payloads_pass :
    ∃ labels session, passedOf labels = [5, 7] ∧
      ((passedOf labels).Pairwise (· < ·) ∧ session.client.sndAck ≤ session.client.sndNum ∧
        session.client.sndAck ≤ session.client.sndAck ∧
        ∀ label next, SoundStep session label next → label.2.Refuses →
          SameCounters session.client next.client) := by
  obtain ⟨labels, session, run, seen⟩ := replay_reaches (guarded Session.handle Session.Sound)
    newCall [some (dataPacket 5), none, some (dataPacket 7), some (dataPacket 6)]
    (fun _ labels => passedOf labels) [5, 7] (by decide +kernel)
  exact ⟨labels, session, seen, payloads_pass_in_order newCall_ready (run_guarded run) .nil⟩

/-- A packet that comes twice is passed on twice. -/
theorem duplicate_passes_again :
    ∃ labels session, Run GreStep newCall labels session ∧ ¬ (passedOf labels).Pairwise (· < ·) := by
  obtain ⟨labels, session, run, seen⟩ := replay_reaches Session.handle newCall
    [some (dataPacket 5), some (dataPacket 5)] (fun _ labels => passedOf labels) [5, 5]
    (by decide +kernel)
  refine ⟨labels, session, run, ?_⟩
  rw [seen]
  decide

end QNXStuff.QXVpn
