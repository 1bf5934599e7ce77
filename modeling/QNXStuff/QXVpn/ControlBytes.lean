import QNXStuff.Library.Memory
import QNXStuff.QXMail.Text
import QNXStuff.QXVpn.Calls

/-! The control messages as they stand in the buffer of `handle_ccm`, where a reply is written over
its request, and what a peer learns of the contents that the buffer had before. -/

namespace QNXStuff.QXVpn

open Execution Memory
open QXMail (ascii)

/-! ### Requests -/

/-- What `recv` puts into the buffer of `sizeof(cc_message_t)` bytes. -/
structure Chunk where
  bytes : List UInt8
  some : 0 < bytes.length
  fits : bytes.length ≤ 224

def Chunk.size (chunk : Chunk) : Nat := chunk.bytes.length

/-- The buffer behind `recv`. -/
def Chunk.message (chunk : Chunk) (old : Block) : Block := writeBytes old 0 chunk.bytes

/-- Fields of two and of four bytes, as they stand in memory. -/
def word16 (message : Block) (place : Nat) : UInt16 :=
  UInt16.ofNat (wordOf (readBytes message place 2))

def word32 (message : Block) (place : Nat) : UInt32 :=
  UInt32.ofNat (wordOf (readBytes message place 4))

def pptpmtCm : UInt16 := 0x0100

def cmtStartReq : UInt16 := 0x0100
def cmtStartRep : UInt16 := 0x0200
def cmtStopReq : UInt16 := 0x0300
def cmtStopRep : UInt16 := 0x0400
def cmtEchoReq : UInt16 := 0x0500
def cmtEchoRep : UInt16 := 0x0600
def cmtOcallReq : UInt16 := 0x0700
def cmtOcallRep : UInt16 := 0x0800
def cmtIcallReq : UInt16 := 0x0900
def cmtIcallRep : UInt16 := 0x0A00
def cmtIcallCon : UInt16 := 0x0B00
def cmtCcleaReq : UInt16 := 0x0C00
def cmtCdiscNfy : UInt16 := 0x0D00
def cmtWanerNfy : UInt16 := 0x0E00
def cmtSlinkNfo : UInt16 := 0x0F00

/-- "First sanity checks", of `msglen`, `cookie`, `pptpm_type` and `reserved`. -/
def Sane (message : Block) (result : Nat) : Prop :=
  result = (endianBe16 (word16 message 0)).toNat ∧ magicCookie = word32 message 4 ∧
    word16 message 2 = pptpmtCm ∧ word16 message 10 = 0

instance (message : Block) (result : Nat) : Decidable (Sane message result) :=
  inferInstanceAs (Decidable (_ ∧ _))

/-- The fields of `message.data`, by `ccm_type`. -/
def payloadOf (message : Block) : Payload :=
  let ccmType := word16 message 8
  if ccmType = cmtStartReq then .startReq (word16 message 12) (word16 message 14)
  else if ccmType = cmtStartRep then .startRep
  else if ccmType = cmtStopReq then .stopReq (word16 message 14)
  else if ccmType = cmtStopRep then .stopRep
  else if ccmType = cmtEchoReq then .echoReq
  else if ccmType = cmtEchoRep then .echoRep
  else if ccmType = cmtOcallReq then
    .ocallReq (word16 message 12) (word16 message 14) (word16 message 38)
  else if ccmType = cmtOcallRep then .ocallRep
  else if ccmType = cmtIcallReq then .icallReq
  else if ccmType = cmtIcallRep then .icallRep
  else if ccmType = cmtIcallCon then .icallCon
  else if ccmType = cmtCcleaReq then .ccleaReq (word16 message 12) (word16 message 14)
  else if ccmType = cmtCdiscNfy then .cdiscNfy
  else if ccmType = cmtWanerNfy then .waneRnfy
  else if ccmType = cmtSlinkNfo then
    .slinkNfo (word16 message 14) (word32 message 16) (word32 message 20)
  else .unknown

/-- How far the fields of a payload reach. -/
def Payload.reads : Payload → Nat
  | .startReq _ _ | .stopReq _ | .ccleaReq _ _ => 16
  | .ocallReq _ _ _ => 40
  | .slinkNfo _ _ _ => 24
  | _ => 12

/-! ### Replies -/

def qxVpnVendorString : List UInt8 := ascii "PPTP server (c) -=\x7b MikeP \x7d=-"

def hostName : List UInt8 := ascii "qnx.catnet.kaluga.org"

def Reply.writes : Reply → List (Nat × List UInt8)
  | .startRep pver reserc framing bearer maxchan fwver =>
    [(14, bytesOf 2 reserc.toNat), (12, bytesOf 2 pver.toNat), (16, bytesOf 4 framing.toNat),
      (20, bytesOf 4 bearer.toNat), (24, bytesOf 2 maxchan.toNat), (26, bytesOf 2 fwver.toNat),
      (28, hostName ++ [0]), (92, qxVpnVendorString ++ [0]), (8, bytesOf 2 cmtStartRep.toNat)]
  | .stopRep reserc => [(12, bytesOf 2 reserc.toNat), (8, bytesOf 2 cmtStopRep.toNat)]
  | .ocallRep callId callIdPeer reserc cause speed pktWindowSize pktDelay pchanId =>
    [(16, bytesOf 2 reserc.toNat), (12, bytesOf 2 callId.toNat), (14, bytesOf 2 callIdPeer.toNat),
      (18, bytesOf 2 cause.toNat), (20, bytesOf 4 speed.toNat), (24, bytesOf 2 pktWindowSize.toNat),
      (26, bytesOf 2 pktDelay.toNat), (28, bytesOf 4 pchanId.toNat),
      (8, bytesOf 2 cmtOcallRep.toNat), (0, bytesOf 2 (endianBe16 32).toNat)]
  | .cdiscNfy _ reserc cause reserved =>
    -- `call_id` stays where it is, and of `stats` only the first byte is written
    [(14, bytesOf 2 reserc.toNat), (16, bytesOf 2 cause.toNat), (18, bytesOf 2 reserved.toNat),
      (20, [0]), (0, bytesOf 2 (endianBe16 148).toNat), (8, bytesOf 2 cmtCdiscNfy.toNat)]

/-- `sendsize` -/
def Reply.size : Reply → Nat
  | .startRep _ _ _ _ _ _ => 144 + 12
  | .stopRep _ => 4 + 12
  | .ocallRep _ _ _ _ _ _ _ _ => 20 + 12
  | .cdiscNfy _ _ _ _ => 136 + 12

/-- The message with the reply. -/
def writeAll (message : Block) (writes : List (Nat × List UInt8)) : Block :=
  writes.foldl (fun message write => writeBytes message write.1 write.2) message

/-- The bytes that are sent. -/
def Reply.send (reply : Reply) (message : Block) : List UInt8 :=
  readBytes (writeAll message reply.writes) 0 reply.size

/-- The types that come to `send` with a `sendsize` of zero. -/
def Payload.falls : Payload → Bool
  | .echoReq | .echoRep | .unknown => true
  | _ => false

/-- The connection, what `send` is called with, if it is, and the result. -/
structure Outcome where
  connection : Connection
  sent : Option (List UInt8)
  result : Int
  deriving DecidableEq

/-- `handle_ccm`, with the earlier contents of its buffer. -/
def handleCcmIn (connection : Connection) (setup : GreSetup) (chunk : Chunk) (old : Block) :
    Except CcFault Outcome :=
  let message := chunk.message old
  if Sane message chunk.size then
    (connection.handleCcm ⟨UInt16.ofNat chunk.size, payloadOf message, setup⟩).map fun handled =>
      let sent := match handled.2.reply with
        | some reply => some (reply.send message)
        | none => if (payloadOf message).falls then some [] else none
      ⟨handled.1, sent, handled.2.result⟩
  else .ok ⟨connection, none, -1⟩

def lengthField (bytes : List UInt8) : Nat := (endianBe16 (UInt16.ofNat (wordOf (bytes.take 2)))).toNat

/-- If the message is answered, then with as many bytes as the reply says, and the answer and the
connection are the same whatever stood in the buffer. -/
def RepliesRight (connection : Connection) (setup : GreSetup) (chunk : Chunk) : Prop :=
  ∀ old outcome bytes, handleCcmIn connection setup chunk old = .ok outcome →
    outcome.sent = some bytes → bytes ≠ [] →
    bytes.length = lengthField bytes ∧
      ∀ old', handleCcmIn connection setup chunk old' = .ok outcome

def Payload.Answered : Payload → Prop
  | .startReq _ reserved | .stopReq reserved | .ocallReq _ _ reserved | .ccleaReq _ reserved =>
    reserved = 0
  | _ => False

/-- A size that is the one of the reply, where this does not set the length, and contains the fields
that are read and the bytes of the reply that are not written. -/
def Payload.Enough (size : Nat) : Payload → Prop
  | .startReq _ _ => size = 156
  | .stopReq _ => size = 16
  | .ocallReq _ _ _ => 40 ≤ size
  | .ccleaReq _ _ => 148 ≤ size
  | _ => True

/-- Requests that pass the checks and are answered have enough bytes. -/
def Complete (chunk : Chunk) : Prop :=
  ∀ old, Sane (chunk.message old) chunk.size → (payloadOf (chunk.message old)).Answered →
    (payloadOf (chunk.message old)).Enough chunk.size

/-! ### Buffers with the same bytes -/

section Buffers

variable {message message' : Block} {count place : Nat}

/-- The first bytes are the same. -/
def Alike (message message' : Block) (count : Nat) : Prop :=
  ∀ position < count, message position = message' position

theorem word16_congr (alike : Alike message message' count) (inside : place + 2 ≤ count) :
    word16 message place = word16 message' place := by
  unfold word16
  rw [readBytes_congr fun position low => alike (place + position) (by omega)]

theorem word16_ne_zero (high : message (place + 1) ≠ 0) : word16 message place ≠ 0 := by
  intro zero
  have first := (message place).toNat_lt
  have second := (message (place + 1)).toNat_lt
  have value : (message place).toNat + 256 * ((message (place + 1)).toNat + 256 * 0) < 2 ^ 16 := by
    omega
  have word : (word16 message place).toNat =
      (message place).toNat + 256 * ((message (place + 1)).toNat + 256 * 0) :=
    UInt16.toNat_ofNat_of_lt' value
  have some : (message (place + 1)).toNat ≠ 0 := fun none => high (UInt8.toNat_inj.mp none)
  rw [zero] at word
  have none : (0 : UInt16).toNat = 0 := rfl
  omega

theorem word32_congr (alike : Alike message message' count) (inside : place + 4 ≤ count) :
    word32 message place = word32 message' place := by
  unfold word32
  rw [readBytes_congr fun position low => alike (place + position) (by omega)]

theorem sane_congr (alike : Alike message message' count) (inside : 12 ≤ count) (result : Nat) :
    Sane message result ↔ Sane message' result := by
  unfold Sane
  rw [word16_congr alike (by omega : 0 + 2 ≤ count), word32_congr alike (by omega : 4 + 4 ≤ count),
    word16_congr alike (by omega : 2 + 2 ≤ count), word16_congr alike (by omega : 10 + 2 ≤ count)]

theorem Payload.reads_header (payload : Payload) : 12 ≤ payload.reads := by
  cases payload with
  | startReq _ _ => exact Nat.le_add_right 12 4
  | stopReq _ => exact Nat.le_add_right 12 4
  | ccleaReq _ _ => exact Nat.le_add_right 12 4
  | ocallReq _ _ _ => exact Nat.le_add_right 12 28
  | slinkNfo _ _ _ => exact Nat.le_add_right 12 12
  | _ => exact Nat.le_refl 12

/-- Payloads that are chosen by one condition. -/
theorem payload_ite {condition : Prop} [Decidable condition] {first second first' second' : Payload}
    (yes : first.reads ≤ count → first = first') (no : second.reads ≤ count → second = second') :
    (if condition then first else second).reads ≤ count →
      (if condition then first else second) = if condition then first' else second' := by
  by_cases holds : condition
  · rw [if_pos holds, if_pos holds]
    exact yes
  · rw [if_neg holds, if_neg holds]
    exact no

/-- The payload depends on its fields only. -/
theorem payloadOf_congr (alike : Alike message message' count)
    (inside : (payloadOf message).reads ≤ count) : payloadOf message = payloadOf message' := by
  have header := (payloadOf message).reads_header
  have kind : word16 message 8 = word16 message' 8 := word16_congr alike (by omega)
  have short (place reads : Nat) (low : place + 2 ≤ reads) (inside : reads ≤ count) :
      word16 message place = word16 message' place := word16_congr alike (low.trans inside)
  have long (place reads : Nat) (low : place + 4 ≤ reads) (inside : reads ≤ count) :
      word32 message place = word32 message' place := word32_congr alike (low.trans inside)
  revert inside
  unfold payloadOf
  rw [← kind]
  refine payload_ite (fun inside => ?_) <| payload_ite (fun _ => rfl) <|
    payload_ite (fun inside => ?_) <| payload_ite (fun _ => rfl) <| payload_ite (fun _ => rfl) <|
    payload_ite (fun _ => rfl) <| payload_ite (fun inside => ?_) <| payload_ite (fun _ => rfl) <|
    payload_ite (fun _ => rfl) <| payload_ite (fun _ => rfl) <| payload_ite (fun _ => rfl) <|
    payload_ite (fun inside => ?_) <| payload_ite (fun _ => rfl) <| payload_ite (fun _ => rfl) <|
    payload_ite (fun inside => ?_) fun _ => rfl
  · rw [short 12 16 (by decide) inside, short 14 16 (by decide) inside]
  · rw [short 14 16 (by decide) inside]
  · rw [short 12 40 (by decide) inside, short 14 40 (by decide) inside,
      short 38 40 (by decide) inside]
  · rw [short 12 16 (by decide) inside, short 14 16 (by decide) inside]
  · rw [short 14 24 (by decide) inside, long 16 24 (by decide) inside,
      long 20 24 (by decide) inside]

theorem writeAll_congr {writes : List (Nat × List UInt8)} {position : Nat}
    (same : message position = message' position) :
    writeAll message writes position = writeAll message' writes position := by
  unfold writeAll
  induction writes generalizing message message' with
  | nil => exact same
  | cons write writes ih =>
    refine ih ?_
    show writeBytes message write.1 write.2 position = writeBytes message' write.1 write.2 position
    rw [writeBytes, writeBytes, same]

theorem writeAll_outside {writes : List (Nat × List UInt8)} {position : Nat}
    (outside : ∀ write ∈ writes, position < write.1 ∨ write.1 + write.2.length ≤ position) :
    writeAll message writes position = message position := by
  unfold writeAll
  induction writes generalizing message with
  | nil => rfl
  | cons write writes ih =>
    obtain ⟨here, others⟩ := List.forall_mem_cons.mp outside
    rw [List.foldl_cons, ih others, writeBytes_outside here]

theorem Reply.send_congr (reply : Reply) (alike : Alike message message' count)
    (inside : reply.size ≤ count) : reply.send message = reply.send message' :=
  readBytes_congr fun position low => writeAll_congr (alike _ (by omega))

end Buffers

/-! ### Answers -/

section Answers

variable {connection next : Connection} {setup : GreSetup} {message message' : Block}
  {size : UInt16} {payload : Payload} {answer : Answer} {reply : Reply}

/-- A descriptor that `socket` gives is not open already. -/
def GreSetup.Fresh (setup : GreSetup) (connection : Connection) : Prop :=
  ∀ sock, setup.socket = some sock → sock ∉ connection.attached

def Reply.For : Reply → Payload → Prop
  | .startRep _ _ _ _ _ _, .startReq _ _ => True
  | .stopRep _, .stopReq _ => True
  | .ocallRep _ _ _ _ _ _ _ _, .ocallReq _ _ _ => True
  | .cdiscNfy _ _ _ _, .ccleaReq _ _ => True
  | _, _ => False

theorem startRequest_reply (connection : Connection) (pver : UInt16) :
    ∃ reply, (connection.startRequest pver).2.reply = some reply ∧
      ∀ pver reserved, reply.For (.startReq pver reserved) := by
  unfold Connection.startRequest
  dsimp only
  split
  · exact ⟨_, rfl, fun _ _ => trivial⟩
  · split
    · exact ⟨_, rfl, fun _ _ => trivial⟩
    · exact ⟨_, rfl, fun _ _ => trivial⟩

theorem openGre_ok (fresh : setup.Fresh connection) :
    ∃ opened, connection.openGre setup = .ok opened := by
  unfold Connection.openGre
  cases given : setup.socket with
  | none => exact ⟨_, rfl⟩
  | some sock =>
    dsimp only
    rw [if_neg (fresh sock given)]
    split
    · exact ⟨_, rfl⟩
    · split
      · exact ⟨_, rfl⟩
      · exact ⟨_, rfl⟩

theorem callRequest_ok (fresh : setup.Fresh connection) (callId callSn : UInt16) :
    ∃ next answer reply, connection.callRequest callId callSn setup = .ok (next, answer) ∧
      answer.reply = some reply ∧
      ∀ callId callSn reserved, reply.For (.ocallReq callId callSn reserved) := by
  unfold Connection.callRequest
  dsimp only
  split
  · exact ⟨_, _, _, rfl, rfl, fun _ _ _ => trivial⟩
  · split
    · exact ⟨_, _, _, rfl, rfl, fun _ _ _ => trivial⟩
    · obtain ⟨opened, done⟩ := openGre_ok fresh
      rw [done]
      exact ⟨_, _, _, rfl, rfl, fun _ _ _ => trivial⟩

/-- A request that is answered gets the reply that belongs to it. -/
theorem handleCcm_answered (fresh : setup.Fresh connection) (answered : payload.Answered) :
    ∃ next answer reply, connection.handleCcm ⟨size, payload, setup⟩ = .ok (next, answer) ∧
      answer.reply = some reply ∧ reply.For payload := by
  cases payload with
  | startReq pver reserved =>
    obtain ⟨reply, given, suits⟩ := startRequest_reply connection pver
    refine ⟨_, _, reply, if_neg ?_, given, suits _ _⟩
    exact not_not.mpr answered
  | stopReq reserved =>
    refine ⟨_, _, _, if_neg ?_, rfl, trivial⟩
    exact not_not.mpr answered
  | ocallReq callId callSn reserved =>
    obtain ⟨next, answer, reply, done, given, suits⟩ := callRequest_ok fresh callId callSn
    refine ⟨next, answer, reply, (if_neg ?_).trans done, given, suits _ _ _⟩
    exact not_not.mpr answered
  | ccleaReq callId reserved =>
    refine ⟨_, _, .cdiscNfy _ _ _ _, if_neg ?_, rfl, trivial⟩
    exact not_not.mpr answered
  | _ => exact absurd answered id

theorem handleCcm_unanswered (unanswered : ¬ payload.Answered) :
    ∃ next answer, connection.handleCcm ⟨size, payload, setup⟩ = .ok (next, answer) ∧
      answer.reply = none ∧ (payload.falls = true → next = connection) := by
  cases payload with
  | startReq pver reserved => exact ⟨_, _, if_pos unanswered, rfl, nofun⟩
  | stopReq reserved => exact ⟨_, _, if_pos unanswered, rfl, nofun⟩
  | ocallReq callId callSn reserved => exact ⟨_, _, if_pos unanswered, rfl, nofun⟩
  | ccleaReq callId reserved => exact ⟨_, _, if_pos unanswered, rfl, nofun⟩
  | slinkNfo reserved sendAccm recvAccm =>
    by_cases zero : reserved = 0
    · refine ⟨(connection.setLinkInfo sendAccm recvAccm).1,
        (connection.setLinkInfo sendAccm recvAccm).2, if_neg (not_not.mpr zero), ?_, nofun⟩
      unfold Connection.setLinkInfo
      dsimp only
      split
      · rfl
      · rfl
    · exact ⟨_, _, if_pos zero, rfl, nofun⟩
  | _ => exact ⟨_, _, rfl, rfl, fun _ => rfl⟩

end Answers

/-! ### The buffer -/

section Buffer

variable {connection : Connection} {setup : GreSetup} {chunk : Chunk} {old old' : Block}
  {message : Block} {payload : Payload} {reply : Reply}

theorem handleCcmIn_answered (fresh : setup.Fresh connection)
    (answered : (payloadOf (chunk.message old)).Answered) :
    ∃ (next : Connection) (result : Int) (reply : Reply), reply.For (payloadOf (chunk.message old)) ∧
      ∀ old', Sane (chunk.message old') chunk.size →
        payloadOf (chunk.message old') = payloadOf (chunk.message old) →
        handleCcmIn connection setup chunk old' =
          .ok ⟨next, some (reply.send (chunk.message old')), result⟩ := by
  obtain ⟨next, answer, reply, done, given, suits⟩ :=
    @handleCcm_answered connection setup (UInt16.ofNat chunk.size) _ fresh answered
  refine ⟨next, answer.result, reply, suits, fun old' sane' same => ?_⟩
  unfold handleCcmIn
  dsimp only
  rw [if_pos sane', same, done]
  simp only [Except.map, given]

theorem handleCcmIn_unanswered (sane : Sane (chunk.message old) chunk.size)
    (unanswered : ¬ (payloadOf (chunk.message old)).Answered) :
    ∃ next result, handleCcmIn connection setup chunk old =
        .ok ⟨next, if (payloadOf (chunk.message old)).falls then some [] else none, result⟩ ∧
      ((payloadOf (chunk.message old)).falls = true → next = connection) := by
  obtain ⟨next, answer, done, none, falls⟩ :=
    @handleCcm_unanswered connection setup (UInt16.ofNat chunk.size) _ unanswered
  refine ⟨next, answer.result, ?_, falls⟩
  unfold handleCcmIn
  dsimp only
  rw [if_pos sane, done]
  simp only [Except.map, none]

/-- What was received is the same in every buffer. -/
theorem alike_message (chunk : Chunk) (old old' : Block) :
    Alike (chunk.message old) (chunk.message old') chunk.size := by
  intro position low
  have inside : 0 ≤ position ∧ position < 0 + chunk.bytes.length :=
    ⟨Nat.zero_le _, by rw [Nat.zero_add]; exact low⟩
  rw [Chunk.message, Chunk.message, writeBytes, writeBytes, if_pos inside, if_pos inside]

/-- A byte of the buffer behind what was received. -/
theorem message_update {place : Nat} (behind : chunk.size ≤ place) (byte : UInt8) :
    chunk.message (Function.update old place byte) =
      Function.update (chunk.message old) place byte := by
  unfold Chunk.size at behind
  funext position
  by_cases here : position = place
  · subst here
    rw [Function.update_self, Chunk.message, writeBytes_outside (.inr (by omega)),
      Function.update_self]
  · rw [Function.update_of_ne here, Chunk.message, Chunk.message, writeBytes, writeBytes,
      Function.update_of_ne here]

theorem alike_update (message : Block) (place : Nat) (byte : UInt8) :
    Alike message (Function.update message place byte) place :=
  fun _ low => (Function.update_of_ne (Nat.ne_of_lt low) ..).symm

/-- The bytes of a request that has enough of them contain its fields and its reply. -/
theorem Payload.Enough.covers {size : Nat} (enough : payload.Enough size)
    (suits : reply.For payload) : reply.size ≤ size ∧ payload.reads ≤ size := by
  cases payload with
  | startReq _ _ =>
    cases reply with
    | startRep _ _ _ _ _ _ =>
      have size : size = 156 := enough
      subst size
      exact ⟨Nat.le_refl 156, Nat.le_add_right 16 140⟩
    | _ => exact absurd suits id
  | stopReq _ =>
    cases reply with
    | stopRep _ =>
      have size : size = 16 := enough
      subst size
      exact ⟨Nat.le_refl 16, Nat.le_refl 16⟩
    | _ => exact absurd suits id
  | ocallReq _ _ _ =>
    cases reply with
    | ocallRep _ _ _ _ _ _ _ _ =>
      have size : 40 ≤ size := enough
      exact ⟨(Nat.le_add_right 32 8).trans size, size⟩
    | _ => exact absurd suits id
  | ccleaReq _ _ =>
    cases reply with
    | cdiscNfy _ _ _ _ =>
      have size : 148 ≤ size := enough
      exact ⟨size, (Nat.le_add_right 16 132).trans size⟩
    | _ => exact absurd suits id
  | _ => exact absurd suits (by cases reply <;> exact id)

/-- The length that a reply tells: that of the request, where it is not set. -/
def Payload.told (result size : Nat) : Payload → Nat
  | .startReq _ _ | .stopReq _ => result
  | _ => size

/-- A request of enough bytes is told the size of its reply. -/
theorem Payload.Enough.told {size : Nat} (enough : payload.Enough size) (suits : reply.For payload) :
    reply.size = payload.told size reply.size := by
  cases payload with
  | startReq _ _ =>
    cases reply with
    | startRep _ _ _ _ _ _ => exact enough.symm
    | _ => exact absurd suits id
  | stopReq _ =>
    cases reply with
    | stopRep _ => exact enough.symm
    | _ => exact absurd suits id
  | _ => rfl

theorem Reply.size_pos (reply : Reply) : 2 ≤ reply.size := by
  cases reply with
  | startRep _ _ _ _ _ _ => exact Nat.le_add_left 2 154
  | stopRep _ => exact Nat.le_add_left 2 14
  | ocallRep _ _ _ _ _ _ _ _ => exact Nat.le_add_left 2 30
  | cdiscNfy _ _ _ _ => exact Nat.le_add_left 2 146

theorem Reply.send_length (reply : Reply) (message : Block) :
    (reply.send message).length = reply.size := readBytes_length ..

theorem Reply.send_take (reply : Reply) (message : Block) :
    (reply.send message).take 2 = readBytes (writeAll message reply.writes) 0 2 := by
  have size : reply.size = 2 + (reply.size - 2) := by
    have most := reply.size_pos
    omega
  rw [Reply.send, size, readBytes_append]
  exact List.take_left' (readBytes_length ..)

theorem lengthField_send {result : Nat} (sane : Sane message result) (suits : reply.For payload) :
    lengthField (reply.send message) = payload.told result reply.size := by
  have kept (outside : ∀ write ∈ reply.writes, 2 ≤ write.1) :
      lengthField (reply.send message) = result := by
    have same : readBytes (writeAll message reply.writes) 0 2 = readBytes message 0 2 :=
      readBytes_congr fun position low => writeAll_outside fun write member =>
        .inl (by have := outside write member; omega)
    rw [lengthField, reply.send_take, same]
    exact sane.1.symm
  cases reply with
  | startRep _ _ _ _ _ _ =>
    cases payload with
    | startReq _ _ => exact kept (by simp [Reply.writes])
    | _ => exact absurd suits id
  | stopRep _ =>
    cases payload with
    | stopReq _ => exact kept (by simp [Reply.writes])
    | _ => exact absurd suits id
  | ocallRep callId callIdPeer reserc cause speed pktWindowSize pktDelay pchanId =>
    cases payload with
    | ocallReq _ _ _ =>
      have set : readBytes (writeAll message (Reply.ocallRep callId callIdPeer reserc cause speed
          pktWindowSize pktDelay pchanId).writes) 0 2 = bytesOf 2 (endianBe16 32).toNat :=
        readBytes_writeBytes _ 0 (bytesOf 2 (endianBe16 32).toNat)
      have value : (endianBe16 (UInt16.ofNat (wordOf (bytesOf 2 (endianBe16 32).toNat)))).toNat = 32 := by
        decide
      rw [lengthField, Reply.send_take, set]
      exact value
    | _ => exact absurd suits id
  | cdiscNfy callId reserc cause reserved =>
    cases payload with
    | ccleaReq _ _ =>
      have set : readBytes (writeAll message (Reply.cdiscNfy callId reserc cause reserved).writes) 0 2 =
          bytesOf 2 (endianBe16 148).toNat :=
        (readBytes_writeBytes_outside (.inl (by decide))).trans
          (readBytes_writeBytes _ 0 (bytesOf 2 (endianBe16 148).toNat))
      have value :
          (endianBe16 (UInt16.ofNat (wordOf (bytesOf 2 (endianBe16 148).toNat)))).toNat = 148 := by
        decide
      rw [lengthField, Reply.send_take, set]
      exact value
    | _ => exact absurd suits id

/-- A payload of another kind is not the one that was chosen. -/
theorem other_ite {condition : Prop} [Decidable condition] {first second chosen : Payload}
    (other : first ≠ chosen) (choice : (if condition then first else second) = chosen) :
    second = chosen := by
  rcases ite_eq_iff.mp choice with ⟨_, same⟩ | ⟨_, same⟩
  · exact absurd same other
  · exact same

theorem ccmType_ocallReq {callId callSn reserved : UInt16}
    (request : payloadOf message = .ocallReq callId callSn reserved) :
    word16 message 8 = cmtOcallReq := by
  unfold payloadOf at request
  have front := other_ite (by nofun) <| other_ite (by nofun) <| other_ite (by nofun) <|
    other_ite (by nofun) <| other_ite (by nofun) <| other_ite (by nofun) request
  rcases ite_eq_iff.mp front with ⟨kind, _⟩ | ⟨_, behind⟩
  · exact kind
  · have last := other_ite (by nofun) <| other_ite (by nofun) <| other_ite (by nofun) <|
      other_ite (by nofun) <| other_ite (by nofun) <| other_ite (by nofun) <|
      other_ite (by nofun) <| other_ite (by nofun) behind
    cases last

theorem payloadOf_ocallReq (request : word16 message 8 = cmtOcallReq) :
    payloadOf message = .ocallReq (word16 message 12) (word16 message 14) (word16 message 38) := by
  unfold payloadOf
  rw [request]
  rfl

/-- A request that has enough bytes is answered alike whatever stood in the buffer. -/
theorem repliesRight_of_complete (fresh : setup.Fresh connection) (complete : Complete chunk) :
    RepliesRight connection setup chunk := by
  intro old outcome bytes done sent filled
  by_cases sane : Sane (chunk.message old) chunk.size
  · by_cases answered : (payloadOf (chunk.message old)).Answered
    · obtain ⟨next, result, reply, suits, answers⟩ := handleCcmIn_answered fresh answered
      have enough := complete old sane answered
      obtain ⟨reaches, reads⟩ := enough.covers suits
      have here := answers old sane rfl
      rw [done] at here
      cases here
      cases sent
      refine ⟨?_, fun old' => ?_⟩
      · rw [Reply.send_length, lengthField_send sane suits]
        exact enough.told suits
      · have alike := alike_message chunk old old'
        have header := (payloadOf (chunk.message old)).reads_header
        rw [answers old' ((sane_congr alike (by omega) _).mp sane)
          (payloadOf_congr alike reads).symm, ← reply.send_congr alike reaches]
    · obtain ⟨next, result, here, _⟩ := @handleCcmIn_unanswered connection setup _ _ sane answered
      rw [done] at here
      cases here
      rcases ite_eq_iff.mp sent with ⟨_, empty⟩ | ⟨_, none⟩
      · cases empty
        exact absurd rfl filled
      · cases none
  · have here : handleCcmIn connection setup chunk old = .ok ⟨connection, none, -1⟩ := if_neg sane
    rw [done] at here
    cases here
    cases sent

/-- A reply that is right although its request is too short would not depend on bytes that it
contains. -/
theorem complete_of_repliesRight (fresh : setup.Fresh connection)
    (right : RepliesRight connection setup chunk) : Complete chunk := by
  intro old sane answered
  obtain ⟨next, result, reply, suits, answers⟩ := handleCcmIn_answered fresh answered
  have filled : reply.send (chunk.message old) ≠ [] := by
    intro empty
    have size := reply.size_pos
    rw [← reply.send_length (chunk.message old), empty] at size
    exact absurd size (by decide)
  obtain ⟨length, same⟩ := right old _ _ (answers old sane rfl) rfl filled
  rw [Reply.send_length, lengthField_send sane suits] at length
  cases request : payloadOf (chunk.message old) with
  | startReq _ _ =>
    rw [request] at suits length
    cases reply with
    | startRep _ _ _ _ _ _ => exact length.symm
    | _ => exact absurd suits id
  | stopReq _ =>
    rw [request] at suits length
    cases reply with
    | stopRep _ => exact length.symm
    | _ => exact absurd suits id
  | ocallReq callId callSn reserved =>
    by_contra few
    have few : chunk.size ≤ 39 := Nat.le_of_not_lt few
    -- the second byte of `reserved` was not received
    have message := @message_update chunk old 39 few 1
    have alike := alike_update (chunk.message old) 39 1
    rw [← message] at alike
    have kind := (word16_congr alike (by decide : 8 + 2 ≤ 39)).symm.trans
      (ccmType_ocallReq request)
    have reserved : word16 (chunk.message (Function.update old 39 1)) 38 ≠ 0 := by
      refine word16_ne_zero ?_
      rw [message, Function.update_self]
      decide
    have sane' := (sane_congr alike (by decide) _).mp sane
    have unanswered : ¬ (payloadOf (chunk.message (Function.update old 39 1))).Answered := by
      rw [payloadOf_ocallReq kind]
      exact reserved
    obtain ⟨next', result', refused, _⟩ :=
      @handleCcmIn_unanswered connection setup _ _ sane' unanswered
    rw [same (Function.update old 39 1), payloadOf_ocallReq kind] at refused
    cases refused
  | ccleaReq callId reserved =>
    rw [request] at suits
    by_contra few
    have few : chunk.size ≤ 147 := Nat.le_of_not_lt few
    -- the last byte of the reply was neither received nor written
    let byte := chunk.message old 147 + 1
    have message := @message_update chunk old 147 few byte
    have alike := alike_update (chunk.message old) 147 byte
    rw [← message] at alike
    have reads : (payloadOf (chunk.message old)).reads ≤ 147 := by
      rw [request]
      exact Nat.le_add_right 16 131
    have other := answers (Function.update old 147 byte) ((sane_congr alike (by decide) _).mp sane)
      (payloadOf_congr alike reads).symm
    rw [same (Function.update old 147 byte)] at other
    have bytes : reply.send (chunk.message old) =
        reply.send (chunk.message (Function.update old 147 byte)) := by
      injection other with other
      injection other with _ sent
      injection sent
    cases reply with
    | cdiscNfy replyId reserc cause reserved =>
      have last (message : Block) :
          ((Reply.cdiscNfy replyId reserc cause reserved).send message).getD 147 0 = message 147 :=
        (readBytes_getD _ (show 147 < 148 by decide)).trans
          (writeAll_outside (by simp [Reply.writes]))
      have byte_eq := congrArg (List.getD · 147 0) bytes
      simp only [last, message, Function.update_self] at byte_eq
      have changed := congrArg UInt8.toNat byte_eq
      rw [UInt8.toNat_add] at changed
      have low := (chunk.message old 147).toNat_lt
      have one : (1 : UInt8).toNat = 1 := rfl
      omega
    | _ => exact absurd suits id
  | _ => trivial

/-- `send` without bytes is what an echo, or a message of no known type, comes to, and the connection
stays. -/
theorem sends_nothing {outcome : Outcome} (fresh : setup.Fresh connection)
    (done : handleCcmIn connection setup chunk old = .ok outcome) :
    (outcome.sent = some [] ↔ Sane (chunk.message old) chunk.size ∧
        (payloadOf (chunk.message old)).falls = true) ∧
      (outcome.sent = some [] → outcome.connection = connection) := by
  by_cases sane : Sane (chunk.message old) chunk.size
  · by_cases answered : (payloadOf (chunk.message old)).Answered
    · obtain ⟨next, result, reply, _, answers⟩ := handleCcmIn_answered fresh answered
      have here := answers old sane rfl
      rw [done] at here
      cases here
      have filled : some (reply.send (chunk.message old)) ≠ some [] := by
        intro empty
        have size := reply.size_pos
        rw [← reply.send_length (chunk.message old), Option.some.inj empty] at size
        exact absurd size (by decide)
      refine ⟨⟨fun empty => absurd empty filled, fun both => ?_⟩, fun empty => absurd empty filled⟩
      have falls := both.2
      cases request : payloadOf (chunk.message old) with
      | echoReq | echoRep | unknown =>
        rw [request] at answered
        exact absurd answered id
      | _ =>
        rw [request] at falls
        cases falls
    · obtain ⟨next, result, here, same⟩ :=
        @handleCcmIn_unanswered connection setup _ _ sane answered
      rw [done] at here
      cases here
      by_cases falls : (payloadOf (chunk.message old)).falls = true
      · exact ⟨⟨fun _ => ⟨sane, falls⟩, fun _ => if_pos falls⟩, fun _ => same falls⟩
      · have none : (if (payloadOf (chunk.message old)).falls = true then some []
            else none : Option (List UInt8)) = none := if_neg falls
        rw [none]
        exact ⟨⟨nofun, fun both => absurd both.2 falls⟩, nofun⟩
  · have here : handleCcmIn connection setup chunk old = .ok ⟨connection, none, -1⟩ := if_neg sane
    rw [done] at here
    cases here
    exact ⟨⟨nofun, fun both => absurd both.1 sane⟩, nofun⟩

/-- Answers have the size that they tell, and do not depend on the earlier contents of the buffer,
if and only if the requests have enough bytes. An echo gets nothing. -/
theorem replies_right_iff (fresh : setup.Fresh connection) :
    (RepliesRight connection setup chunk ↔ Complete chunk) ∧
      ∀ old outcome, handleCcmIn connection setup chunk old = .ok outcome →
        (outcome.sent = some [] ↔ Sane (chunk.message old) chunk.size ∧
          (payloadOf (chunk.message old)).falls = true) ∧
        (outcome.sent = some [] → outcome.connection = connection) :=
  ⟨⟨complete_of_repliesRight fresh, repliesRight_of_complete fresh⟩,
    fun _ _ done => sends_nothing fresh done⟩

end Buffer

/-! ### Two short requests -/

/-- A request of 16 bytes: the header and the first two words of its data. -/
def shortRequest (ccmType first : UInt8) : Chunk where
  bytes := [0, 16, 0, 1, 0x1A, 0x2B, 0x3C, 0x4D, 0, ccmType, 0, 0, first, 0, 0, 0]
  some := Nat.succ_pos _
  fits := Nat.le_add_right 16 208

/-- No descriptor is to be had. -/
def noSocket : GreSetup := ⟨none, false, false⟩

theorem noSocket_fresh (connection : Connection) : noSocket.Fresh connection := by
  intro sock given
  cases given

theorem stop_is_answered_right : RepliesRight Connection.lstnAction noSocket (shortRequest 3 1) := by
  refine (replies_right_iff (noSocket_fresh _)).1.mpr fun old _ _ => ?_
  have kind : word16 ((shortRequest 3 1).message old) 8 = cmtStopReq := by rfl
  unfold payloadOf
  rw [kind]
  rfl

/-- A start request without names is answered with what stood in the buffer. -/
theorem short_start_is_answered :
    ¬ RepliesRight Connection.lstnAction noSocket (shortRequest 1 1) := by
  intro right
  have complete := complete_of_repliesRight (noSocket_fresh _) right
  have kind : word16 ((shortRequest 1 1).message fun _ => 0) 8 = cmtStartReq := by decide
  have request : payloadOf ((shortRequest 1 1).message fun _ => 0) =
      .startReq (word16 ((shortRequest 1 1).message fun _ => 0) 12)
        (word16 ((shortRequest 1 1).message fun _ => 0) 14) := by
    unfold payloadOf
    rw [kind]
    rfl
  have enough := complete (fun _ => 0) (by decide) (by rw [request]; rfl)
  rw [request] at enough
  have size : 16 = 156 := enough
  exact absurd size (by decide)

end QNXStuff.QXVpn
