import Mathlib.Data.List.Basic
import QNXStuff.Library.Execution

/-! The control connection of a PPTP client, and the GRE socket of its call. -/

namespace QNXStuff.QXVpn

open Execution

/-- `CC_STATE_IDLE` and `CC_STATE_ESTABLISHED`: nothing sets `CC_STATE_WAIT`. -/
inductive CcState where
  | idle
  | established
  deriving DecidableEq

/-- `client_t`, with `none` for a `raw_sock` of -1. -/
structure Client where
  ccState : CcState
  ccCookie : UInt32
  ccCallId : UInt16
  ccCallSn : UInt16
  callId : UInt16
  saccm : UInt32
  raccm : UInt32
  rawSock : Option Nat
  sndNum : UInt32
  sndAck : UInt32
  rcvNum : UInt32
  deriving DecidableEq

/-- What a control message says by its `ccm_type`: the fields that `handle_ccm` reads, as they
stand in memory. -/
inductive Payload where
  | startReq (pver reserved : UInt16)
  | startRep
  | stopReq (reserved : UInt16)
  | stopRep
  | echoReq
  | echoRep
  | ocallReq (callId callSn reserved : UInt16)
  | ocallRep
  | icallReq
  | icallRep
  | icallCon
  | ccleaReq (callId reserved : UInt16)
  | cdiscNfy
  | waneRnfy
  | slinkNfo (reserved : UInt16) (sendAccm recvAccm : UInt32)
  | unknown

/-- What `socket`, `connect` and `select_attach` will do. -/
structure GreSetup where
  socket : Option Nat
  connects : Bool
  attaches : Bool

/-- A message that has passed the first sanity checks: `msglen` bytes were received. -/
structure Message where
  msglen : UInt16
  payload : Payload
  setup : GreSetup

inductive Reply where
  | startRep (pver reserc : UInt16) (framing bearer : UInt32) (maxchan fwver : UInt16)
  | stopRep (reserc : UInt16)
  | ocallRep (callId callIdPeer reserc cause : UInt16) (speed : UInt32)
      (pktWindowSize pktDelay : UInt16) (pchanId : UInt32)
  | cdiscNfy (callId reserc cause reserved : UInt16)
  deriving DecidableEq

/-- What `handle_ccm` sends, and its result. -/
structure Answer where
  reply : Option Reply
  result : Int
  deriving DecidableEq

def magicCookie : UInt32 := 0x4D3C2B1A
def pptpProtoVersion : UInt16 := 0x0100

def startRepOk : UInt16 := 0x0001
def startRepCe : UInt16 := 0x0003
def startRepPe : UInt16 := 0x0005
def stopRepOk : UInt16 := 0x0001
def ocallRepOk : UInt16 := 0x0001
def ocallRepGe : UInt16 := 0x0002
def ocallRepNc : UInt16 := 0x0003
def ocallRepNa : UInt16 := 0x0007
def cdiscNfyGe : UInt16 := 0x0002
def cdiscNfyRq : UInt16 := 0x0004
def ccGeNc : UInt16 := 0x0100
def ccGeNr : UInt16 := 0x0400
def ccGeBc : UInt16 := 0x0500

/-- `ENDIAN_BE16` on a little-endian machine. -/
def endianBe16 (word : UInt16) : UInt16 := word <<< 8 ||| word >>> 8

/-- `ENDIAN_BE32` on a little-endian machine. -/
def endianBe32 (word : UInt32) : UInt32 :=
  let inner : UInt32 := 0xFF00
  word <<< 24 ||| (word &&& inner) <<< 8 ||| (word >>> 8 &&& inner) ||| word >>> 24

/-- The number that the server gives to every call. -/
def ourCallId : UInt16 := 3

/-- A client's record, the GRE sockets that were attached for it and not closed, and whether the
record has been destroyed. -/
structure Connection where
  client : Client
  attached : List Nat
  closed : Bool
  deriving DecidableEq

/-- The record is destroyed, or a descriptor that is open is given again. -/
inductive CcFault where
  | gone
  | inUse
  deriving DecidableEq

namespace Connection

/-- `client->raw_sock = -1` -/
def noSock (connection : Connection) : Connection :=
  { connection with client := { connection.client with rawSock := none } }

/-- The socket of a new call, and what the peer is told of it. -/
def openGre (connection : Connection) (setup : GreSetup) : Except CcFault (Connection × UInt16) :=
  match setup.socket with
  | none => .ok (connection.noSock, ocallRepNc)
  | some sock =>
    if sock ∈ connection.attached then .error .inUse
    else if !setup.connects then .ok (connection.noSock, ocallRepGe ||| ccGeNr)
    else if !setup.attaches then .ok (connection.noSock, ocallRepGe ||| ccGeNr)
    else
      .ok ({ connection with
              client := { connection.client with rawSock := some sock }
              attached := sock :: connection.attached }, ocallRepOk)

/-- `client->cc_call_id`, `client->cc_call_sn` and `client->call_id` -/
def setCall (connection : Connection) (ccCallId ccCallSn callId : UInt16) : Connection :=
  { connection with
    client := { connection.client with ccCallId := ccCallId, ccCallSn := ccCallSn, callId := callId } }

def startRequest (connection : Connection) (pver : UInt16) : Connection × Answer :=
  let reply (reserc : UInt16) : Option Reply :=
    some (.startRep (endianBe16 pptpProtoVersion) reserc (endianBe32 3) 0 0 (endianBe16 1))
  if connection.client.ccState ≠ .idle then (connection, ⟨reply startRepCe, 0⟩)
  else if endianBe16 pver < pptpProtoVersion then (connection, ⟨reply startRepPe, -1⟩)
  else
    ({ connection with
        client := { connection.client with ccState := .established, ccCookie := magicCookie } },
      ⟨reply startRepOk, 0⟩)

/-- CMT_OCALLREQ: what the call fields become does not depend on the outcome. -/
def callRequest (connection : Connection) (callId callSn : UInt16) (setup : GreSetup) :
    Except CcFault (Connection × Answer) :=
  let answer (connection : Connection) (reserc : UInt16) (result : Int) : Connection × Answer :=
    let connection := connection.setCall callId callSn ourCallId
    (connection,
      ⟨some (.ocallRep connection.client.callId connection.client.ccCallId reserc 0
        (endianBe32 100000000) (endianBe16 8) (endianBe16 10) 0), result⟩)
  if connection.client.ccState ≠ .established then
    .ok (answer connection (ocallRepGe ||| ccGeNc) (-1))
  else if connection.client.ccCallId ≠ 0 ∧ connection.client.ccCallSn ≠ 0 then
    .ok (answer connection ocallRepNa 0)
  else (connection.openGre setup).map fun opened => answer opened.1 opened.2 0

/-- CMT_CCLEAREQ: "clear call data" -/
def clearRequest (connection : Connection) (callId : UInt16) : Connection × Answer :=
  let reserc := if callId ≠ connection.client.ccCallId then cdiscNfyGe ||| ccGeBc else cdiscNfyRq
  (connection.setCall 0 0 0, ⟨some (.cdiscNfy callId reserc 0 0), 0⟩)

/-- CMT_SLINKNFO: "only allowed if state is ESTABLISHED and outgoing call was populated" -/
def setLinkInfo (connection : Connection) (sendAccm recvAccm : UInt32) : Connection × Answer :=
  let client := connection.client
  if client.ccState = .established ∧ client.ccCallId ≠ 0 ∧ client.ccCallSn ≠ 0 then
    ({ connection with client := { client with saccm := sendAccm, raccm := recvAccm } }, ⟨none, 0⟩)
  else (connection, ⟨none, -1⟩)

/-- The switch over the types of messages. -/
def handleCcm (connection : Connection) (message : Message) :
    Except CcFault (Connection × Answer) :=
  let refuse : Except CcFault (Connection × Answer) := .ok (connection, ⟨none, -1⟩)
  match message.payload with
  | .startReq pver reserved =>
    if reserved ≠ 0 then refuse else .ok (connection.startRequest pver)
  | .stopReq reserved =>
    if reserved ≠ 0 then refuse else .ok (connection, ⟨some (.stopRep stopRepOk), -1⟩)
  | .echoReq | .echoRep | .unknown => .ok (connection, ⟨none, message.msglen.toNat⟩)
  | .ocallReq callId callSn reserved =>
    if reserved ≠ 0 then refuse else connection.callRequest callId callSn message.setup
  | .ccleaReq callId reserved =>
    if reserved ≠ 0 then refuse else .ok (connection.clearRequest callId)
  | .slinkNfo reserved sendAccm recvAccm =>
    if reserved ≠ 0 then refuse else .ok (connection.setLinkInfo sendAccm recvAccm)
  | .startRep | .stopRep | .ocallRep | .icallReq | .icallRep | .icallCon | .cdiscNfy
  | .waneRnfy => refuse

/-- `destroy_client`: the sockets that the record names are closed. -/
def destroyClient (connection : Connection) : Connection :=
  { connection with
    attached := connection.attached.filter fun sock => connection.client.rawSock ≠ some sock
    closed := true }

/-- `cc_action` on `cc_sock` -/
def ccAction (connection : Connection) (message : Message) :
    Except CcFault (Connection × Answer) :=
  if connection.closed then .error .gone
  else
    (connection.handleCcm message).map fun handled =>
      (if handled.2.result < 0 then handled.1.destroyClient else handled.1, handled.2)

/-- "set all fields of client to initial state" -/
def lstnAction : Connection where
  client := ⟨.idle, 0, 0, 0, 0, 0xffffffff, 0xffffffff, none, 0, 0, 0⟩
  attached := []
  closed := false

end Connection

abbrev CcLabel := Message × Answer

abbrev CcStep : Connection → CcLabel → Connection → Prop := Answers Connection.ccAction

/-! ### The call that the answers tell of -/

/-- A call that was accepted, by the numbers of its request. -/
structure Call where
  callId : UInt16
  callSn : UInt16
  deriving DecidableEq

def track (call : Option Call) (label : CcLabel) : Option Call :=
  match label.1.payload, label.2.reply with
  | .ocallReq callId callSn _, some (.ocallRep _ _ reserc _ _ _ _ _) =>
    if reserc = ocallRepOk then some ⟨callId, callSn⟩ else call
  | .ccleaReq _ _, some (.cdiscNfy _ reserc _ _) => if reserc = cdiscNfyRq then none else call
  | _, _ => call

/-- The call that was accepted last and has not been cleared. -/
def acceptedCall (labels : List CcLabel) : Option Call := labels.foldl track none

/-- The call fields describe an accepted call. -/
def Describes (client : Client) : Option Call → Prop
  | none => False
  | some call =>
    client.ccCallId = call.callId ∧ client.ccCallSn = call.callSn ∧ client.callId = ourCallId

instance (client : Client) (call : Option Call) : Decidable (Describes client call) :=
  match call with
  | none => isFalse id
  | some _ => inferInstanceAs (Decidable (_ ∧ _))

/-- The fields describe an accepted call exactly when a GRE socket is attached, and there is at
most one. -/
structure Consistent (labels : List CcLabel) (connection : Connection) : Prop where
  described : connection.closed = false →
    (Describes connection.client (acceptedCall labels) ↔ connection.client.rawSock ≠ none)
  single : connection.attached.length ≤ 1

/-- The answer refuses the request for a call, or to clear one. -/
def Refused (answer : Answer) : Prop :=
  match answer.reply with
  | some (.ocallRep _ _ reserc _ _ _ _ _) => reserc ≠ ocallRepOk
  | some (.cdiscNfy _ reserc _ _) => reserc ≠ cdiscNfyRq
  | _ => False

structure SameCall (connection next : Connection) : Prop where
  ccCallId : next.client.ccCallId = connection.client.ccCallId
  ccCallSn : next.client.ccCallSn = connection.client.ccCallSn
  callId : next.client.callId = connection.client.callId
  rawSock : next.client.rawSock = connection.client.rawSock
  attached : next.attached = connection.attached

/-- A call is asked for where none is and the socket can be had, or once more with its own nonzero
numbers; and to clear a call is asked for only where no socket is attached. -/
def Payload.Proper (client : Client) (setup : GreSetup) : Payload → Prop
  | .ocallReq callId callSn reserved => reserved = 0 →
    client.ccState = .established ∧
      if client.ccCallId ≠ 0 ∧ client.ccCallSn ≠ 0 then
        callId = client.ccCallId ∧ callSn = client.ccCallSn
      else client.rawSock = none ∧ setup.socket ≠ none ∧ setup.connects ∧ setup.attaches
  | .ccleaReq _ reserved => reserved = 0 → client.rawSock = none
  | _ => True

instance (client : Client) (setup : GreSetup) (payload : Payload) :
    Decidable (payload.Proper client setup) :=
  match payload with
  | .ocallReq _ _ _ => inferInstanceAs (Decidable (_ → _))
  | .ccleaReq _ _ => inferInstanceAs (Decidable (_ → _))
  | .startReq _ _ | .startRep | .stopReq _ | .stopRep | .echoReq | .echoRep | .ocallRep
  | .icallReq | .icallRep | .icallCon | .cdiscNfy | .waneRnfy | .slinkNfo _ _ _
  | .unknown => isTrue trivial

abbrev Proper (connection : Connection) (message : Message) : Prop :=
  message.payload.Proper connection.client message.setup

abbrev ProperStep : Connection → CcLabel → Connection → Prop :=
  Under CcStep fun connection label => Proper connection label.1

namespace Connection

/-- What holds of the fields when there is a call, and when there is none. -/
def Holds (connection : Connection) : Option Call → Prop
  | none => connection.client.ccCallId = 0 ∧ connection.client.ccCallSn = 0 ∧
      connection.client.callId = 0 ∧ connection.client.rawSock = none
  | some call => Describes connection.client (some call) ∧ connection.client.rawSock ≠ none

/-- An open connection is the call it tells of, and no socket is forgotten. -/
structure CallInv (connection : Connection) (call : Option Call) : Prop where
  holds : connection.closed = false → connection.Holds call
  attached : connection.attached = if connection.closed then [] else connection.client.rawSock.toList

theorem lstnAction_inv : lstnAction.CallInv none := by
  constructor
  · intro _
    exact ⟨rfl, rfl, rfl, rfl⟩
  · rfl

theorem CallInv.consistent {connection : Connection} {labels : List CcLabel}
    (inv : connection.CallInv (acceptedCall labels)) : Consistent labels connection := by
  constructor
  · intro opened
    have holds := inv.holds opened
    cases called : acceptedCall labels with
    | none =>
      rw [called] at holds
      constructor
      · exact False.elim
      · intro some
        exact some holds.2.2.2
    | some call =>
      rw [called] at holds
      exact ⟨fun _ => holds.2, fun _ => holds.1⟩
  · rw [inv.attached]
    cases connection.closed with
    | false => cases connection.client.rawSock <;> simp
    | true => simp

/-- A message that does not touch the call fields. -/
theorem CallInv.frame {connection next : Connection} {call : Option Call}
    (inv : connection.CallInv call) (same : SameCall connection next)
    (closed : next.closed = connection.closed) : next.CallInv call := by
  constructor
  · intro opened
    have holds := inv.holds (closed ▸ opened)
    cases call with
    | none => exact ⟨same.ccCallId ▸ holds.1, same.ccCallSn ▸ holds.2.1, same.callId ▸ holds.2.2.1,
        same.rawSock ▸ holds.2.2.2⟩
    | some call =>
      obtain ⟨⟨ccCallId, ccCallSn, callId⟩, some⟩ := holds
      exact ⟨⟨same.ccCallId.trans ccCallId, same.ccCallSn.trans ccCallSn, same.callId.trans callId⟩,
        same.rawSock ▸ some⟩
  · rw [same.attached, inv.attached, closed, same.rawSock]

/-- The record is destroyed with the only socket that it has. -/
theorem CallInv.destroy {connection : Connection} {call other : Option Call}
    (inv : connection.CallInv call) (opened : connection.closed = false) :
    connection.destroyClient.CallInv other := by
  constructor
  · intro still
    cases still
  · have attached := inv.attached
    rw [opened] at attached
    simp only [destroyClient, attached]
    cases connection.client.rawSock <;> simp

/-- A refused request is for no new call, and clears none. -/
theorem track_refused {call : Option Call} {message : Message} {answer : Answer}
    (refused : Refused answer) : track call (message, answer) = call := by
  unfold Refused at refused
  unfold track
  split at refused
  · rename_i replied
    rw [replied]
    cases message.payload <;> first | rfl | exact if_neg refused
  · rename_i replied
    rw [replied]
    cases message.payload <;> first | rfl | exact if_neg refused
  · exact refused.elim

/-- A proper request for a call is answered with the call, or asks again for the one there is. -/
theorem callRequest_keeps {connection next : Connection} {call : Option Call} {callId callSn : UInt16}
    {message : Message} {answer : Answer} (inv : connection.CallInv call)
    (opened : connection.closed = false)
    (asks : message.payload = .ocallReq callId callSn 0)
    (proper : Proper connection message)
    (done : connection.callRequest callId callSn message.setup = .ok (next, answer)) :
    next.closed = false ∧ answer.result = 0 ∧ next.CallInv (track call (message, answer)) ∧
      (Refused answer → SameCall connection next) := by
  simp only [Proper, asks, Payload.Proper, forall_const] at proper
  obtain ⟨established, proper⟩ := proper
  have holds := inv.holds opened
  have attached := inv.attached
  rw [opened] at attached
  unfold callRequest at done
  rw [if_neg (not_not_intro established)] at done
  by_cases busy : connection.client.ccCallId ≠ 0 ∧ connection.client.ccCallSn ≠ 0
  · rw [if_pos busy] at proper done
    obtain ⟨rfl, rfl⟩ := proper
    cases done
    have same : SameCall connection
        (connection.setCall connection.client.ccCallId connection.client.ccCallSn ourCallId) := by
      cases call with
      | none => exact absurd holds.1 busy.1
      | some call => exact ⟨rfl, rfl, holds.1.2.2.symm, rfl, rfl⟩
    refine ⟨opened, rfl, ?_, fun _ => same⟩
    rw [track_refused]
    · exact inv.frame same rfl
    · exact (by decide : ocallRepNa ≠ ocallRepOk)
  · rw [if_neg busy] at proper done
    obtain ⟨free, sock, connects, attaches⟩ := proper
    obtain ⟨fd, given⟩ := Option.ne_none_iff_exists'.mp sock
    rw [free] at attached
    have fresh : fd ∉ connection.attached := by
      rw [attached]
      exact List.not_mem_nil
    simp only [openGre, given, if_neg fresh, connects, attaches] at done
    cases done
    refine ⟨opened, rfl, ?_, fun refused => absurd rfl refused⟩
    simp only [track, asks, ↓reduceIte]
    constructor
    · intro _
      exact ⟨⟨rfl, rfl, rfl⟩, Option.some_ne_none fd⟩
    · show fd :: connection.attached = if connection.closed then [] else [fd]
      rw [attached, opened]
      rfl

/-- Where no socket is attached, clearing a call changes nothing. -/
theorem clearRequest_keeps {connection : Connection} {call : Option Call} {callId : UInt16}
    {message : Message} (inv : connection.CallInv call) (opened : connection.closed = false)
    (asks : message.payload = .ccleaReq callId 0) (free : connection.client.rawSock = none) :
    (connection.clearRequest callId).1.CallInv
        (track call (message, (connection.clearRequest callId).2)) ∧
      SameCall connection (connection.clearRequest callId).1 := by
  cases call with
  | some call => exact absurd free (inv.holds opened).2
  | none =>
    obtain ⟨ccCallId, ccCallSn, callId', -⟩ := inv.holds opened
    have same : SameCall connection (connection.setCall 0 0 0) :=
      ⟨ccCallId.symm, ccCallSn.symm, callId'.symm, rfl, rfl⟩
    refine ⟨?_, same⟩
    have kept : track none (message, (connection.clearRequest callId).2) = none := by
      unfold track clearRequest
      simp only [asks]
      exact ite_self none
    rw [kept]
    exact inv.frame same rfl

/-- A message that is neither for a call nor to clear one, or that is not answered. -/
theorem CallInv.quiet {connection next : Connection} {call : Option Call} {message : Message}
    {answer : Answer} (inv : connection.CallInv call) (opened : connection.closed = false)
    (same : SameCall connection next) (closed : next.closed = connection.closed)
    (untold : track call (message, answer) = call) (accepts : ¬ Refused answer) :
    next.closed = false ∧ next.CallInv (track call (message, answer)) ∧
      (Refused answer → answer.result = 0 ∧ SameCall connection next) := by
  refine ⟨closed.trans opened, ?_, fun refused => absurd refused accepts⟩
  rw [untold]
  exact inv.frame same closed

/-- A message that is dropped: the connection is to be closed. -/
theorem CallInv.dropped {connection next : Connection} {call : Option Call} {message : Message}
    {answer : Answer} (inv : connection.CallInv call) (opened : connection.closed = false)
    (done : (.ok (connection, ⟨none, -1⟩) : Except CcFault (Connection × Answer)) =
      .ok (next, answer)) :
    next.closed = false ∧ next.CallInv (track call (message, answer)) ∧
      (Refused answer → answer.result = 0 ∧ SameCall connection next) := by
  cases done
  apply inv.quiet opened ⟨rfl, rfl, rfl, rfl, rfl⟩ rfl
  · unfold track
    cases message.payload <;> rfl
  · exact id

theorem startRequest_same (connection : Connection) (pver : UInt16) :
    SameCall connection (connection.startRequest pver).1 ∧
      (connection.startRequest pver).1.closed = connection.closed ∧
      ¬ Refused (connection.startRequest pver).2 := by
  unfold startRequest
  split
  · exact ⟨⟨rfl, rfl, rfl, rfl, rfl⟩, rfl, id⟩
  · split
    · exact ⟨⟨rfl, rfl, rfl, rfl, rfl⟩, rfl, id⟩
    · exact ⟨⟨rfl, rfl, rfl, rfl, rfl⟩, rfl, id⟩

theorem setLinkInfo_same (connection : Connection) (sendAccm recvAccm : UInt32) :
    SameCall connection (connection.setLinkInfo sendAccm recvAccm).1 ∧
      (connection.setLinkInfo sendAccm recvAccm).1.closed = connection.closed ∧
      ¬ Refused (connection.setLinkInfo sendAccm recvAccm).2 := by
  unfold setLinkInfo
  dsimp only
  split
  · exact ⟨⟨rfl, rfl, rfl, rfl, rfl⟩, rfl, id⟩
  · exact ⟨⟨rfl, rfl, rfl, rfl, rfl⟩, rfl, id⟩

/-- What one proper message leaves, one case for each type. -/
theorem handleCcm_keeps {connection next : Connection} {call : Option Call} {message : Message}
    {answer : Answer} (inv : connection.CallInv call) (opened : connection.closed = false)
    (proper : Proper connection message)
    (done : connection.handleCcm message = .ok (next, answer)) :
    next.closed = false ∧ next.CallInv (track call (message, answer)) ∧
      (Refused answer → answer.result = 0 ∧ SameCall connection next) := by
  unfold handleCcm at done
  cases asks : message.payload with
  | startReq pver reserved =>
    simp only [asks] at done
    split at done
    · exact inv.dropped opened done
    · have started := connection.startRequest_same pver
      rw [Except.ok.inj done] at started
      obtain ⟨same, closed, accepts⟩ := started
      apply inv.quiet opened same closed _ accepts
      simp only [track, asks]
  | stopReq reserved =>
    simp only [asks] at done
    split at done
    · exact inv.dropped opened done
    · cases done
      apply inv.quiet opened ⟨rfl, rfl, rfl, rfl, rfl⟩ rfl _ id
      simp only [track, asks]
  | ocallReq callId callSn reserved =>
    simp only [asks] at done
    split at done
    · exact inv.dropped opened done
    · rename_i zero
      obtain rfl := Decidable.not_not.mp zero
      obtain ⟨still, result, kept, same⟩ := callRequest_keeps inv opened asks proper done
      exact ⟨still, kept, fun refused => ⟨result, same refused⟩⟩
  | ccleaReq callId reserved =>
    simp only [asks] at done
    split at done
    · exact inv.dropped opened done
    · rename_i zero
      obtain rfl := Decidable.not_not.mp zero
      have free : connection.client.rawSock = none := by
        simp only [Proper, asks, Payload.Proper, forall_const] at proper
        exact proper
      cases done
      obtain ⟨kept, same⟩ := clearRequest_keeps inv opened asks free
      exact ⟨opened, kept, fun _ => ⟨rfl, same⟩⟩
  | slinkNfo reserved sendAccm recvAccm =>
    simp only [asks] at done
    split at done
    · exact inv.dropped opened done
    · have linked := connection.setLinkInfo_same sendAccm recvAccm
      rw [Except.ok.inj done] at linked
      obtain ⟨same, closed, accepts⟩ := linked
      apply inv.quiet opened same closed _ accepts
      simp only [track, asks]
  | echoReq | echoRep | unknown =>
    simp only [asks] at done
    cases done
    apply inv.quiet opened ⟨rfl, rfl, rfl, rfl, rfl⟩ rfl _ id
    simp only [track, asks]
  | startRep | stopRep | ocallRep | icallReq | icallRep | icallCon | cdiscNfy | waneRnfy =>
    simp only [asks] at done
    exact inv.dropped opened done

/-- One step of an open connection, with the record destroyed behind a failure. -/
theorem ccAction_keeps {connection next : Connection} {call : Option Call} {label : CcLabel}
    (inv : connection.CallInv call) (proper : Proper connection label.1)
    (step : CcStep connection label next) :
    next.CallInv (track call label) ∧ (Refused label.2 → SameCall connection next) := by
  obtain ⟨message, answer⟩ := label
  have done : connection.ccAction message = .ok (next, answer) := step
  unfold ccAction at done
  cases opened : connection.closed with
  | true =>
    rw [opened] at done
    cases done
  | false =>
    simp only [opened, Bool.false_eq_true, ↓reduceIte] at done
    obtain ⟨⟨handled, told⟩, made, ended⟩ := map_eq_ok.mp done
    simp only [Prod.mk.injEq] at ended
    obtain ⟨ended, rfl⟩ := ended
    obtain ⟨still, kept, same⟩ := handleCcm_keeps inv opened proper made
    split at ended
    · rename_i failed
      subst ended
      refine ⟨kept.destroy still, fun refused => ?_⟩
      have result := (same refused).1
      omega
    · subst ended
      exact ⟨kept, fun refused => (same refused).2⟩

theorem run_keeps {labels : List CcLabel} {connection : Connection}
    (run : Run ProperStep lstnAction labels connection) :
    connection.CallInv (acceptedCall labels) := by
  have start : lstnAction.CallInv (acceptedCall []) := lstnAction_inv
  refine run.history (motive := fun past connection => connection.CallInv (acceptedCall past))
    start fun past state label next inv step => ?_
  unfold acceptedCall
  rw [List.foldl_append]
  exact (ccAction_keeps inv step.2 step.1).1

end Connection

/-- While every request is proper, the call fields stay consistent, and a refused request leaves
them and the socket alone. -/
theorem calls_stay_consistent {labels : List CcLabel} {connection : Connection}
    (run : Run ProperStep Connection.lstnAction labels connection) :
    Consistent labels connection ∧
      ∀ label next, ProperStep connection label next → Refused label.2 →
        SameCall connection next := by
  have inv := Connection.run_keeps run
  exact ⟨inv.consistent, fun label next step => (Connection.ccAction_keeps inv step.2 step.1).2⟩

/-- A message of its length, where sockets can be had. -/
def plain (msglen : UInt16) (payload : Payload) : Message := ⟨msglen, payload, ⟨some 9, true, true⟩⟩

/-- A call is set up and asked for again. -/
theorem one_call_is_consistent :
    ∃ labels connection, connection.client.rawSock = some 9 ∧
      (Consistent labels connection ∧
        ∀ label next, ProperStep connection label next → Refused label.2 →
          SameCall connection next) := by
  obtain ⟨labels, connection, run, called⟩ := replay_reaches
    (guarded Connection.ccAction Proper) .lstnAction
    [plain 156 (.startReq 1 0), plain 168 (.ocallReq 7 1 0), plain 168 (.ocallReq 7 1 0)]
    (fun connection _ => connection.client.rawSock) (some 9) (by decide +kernel)
  exact ⟨labels, connection, called, calls_stay_consistent (run_guarded run)⟩

/-- A second call is refused, and its numbers take the place of the first one's. -/
theorem refused_call_takes_numbers :
    ∃ labels connection, Run CcStep .lstnAction labels connection ∧ ¬ Consistent labels connection := by
  obtain ⟨labels, connection, run, seen⟩ := replay_reaches Connection.ccAction .lstnAction
    [plain 156 (.startReq 1 0), plain 168 (.ocallReq 7 1 0), plain 168 (.ocallReq 8 2 0)]
    (fun connection labels => (connection.closed, decide (Describes connection.client
      (acceptedCall labels)), connection.client.rawSock)) (false, false, some 9) (by decide +kernel)
  simp only [Prod.mk.injEq, decide_eq_false_iff_not] at seen
  obtain ⟨opened, undescribed, attached⟩ := seen
  refine ⟨labels, connection, run, fun consistent => undescribed ?_⟩
  apply (consistent.described opened).mpr
  rw [attached]
  exact Option.some_ne_none 9

end QNXStuff.QXVpn
