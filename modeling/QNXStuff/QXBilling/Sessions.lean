import QNXStuff.Library.Grouping
import QNXStuff.QXBilling.BilledPackets
import Mathlib.Data.UInt

/-! The sessions of a packet log: one for each key, with the bytes of all its packets. -/

namespace QNXStuff.QXBilling

open Grouping

/-- The parts of a packet that are compared. -/
structure SessionKey where
  mac : Mac
  ipHost : UInt32
  ipClnt : UInt32
  portHost : UInt16
  ipProto : UInt16
  dlcProto : UInt16
  deriving DecidableEq

def sessionKey (pkt : QxLog) : SessionKey :=
  ⟨pkt.mac, pkt.ipHost, pkt.ipClnt, pkt.portHost, pkt.ipProto, pkt.dlcProto⟩

/-- A session takes the bytes of a packet over. -/
def addBytes (session pkt : QxLog) : QxLog :=
  { session with
    bytesToCli := session.bytesToCli + pkt.bytesToCli
    bytesToHost := session.bytesToHost + pkt.bytesToHost }

/-- Packets are gathered into sessions. -/
def sessions : Gathering QxLog SessionKey where
  key := sessionKey
  join := addBytes
  join_key _ _ := rfl

def bytes (pkt : QxLog) : UInt32 × UInt32 := (pkt.bytesToCli, pkt.bytesToHost)

theorem bytes_join (session pkt : QxLog) :
    bytes (sessions.join session pkt) = bytes session + bytes pkt := rfl

theorem sameSession_eq (pkt session : QxLog) :
    sameSession pkt session = decide (sessions.key pkt = sessions.key session) := by
  rw [Bool.eq_iff_iff, decide_eq_true_iff]
  simp only [sameSession, sessions, sessionKey, Bool.and_eq_true, decide_eq_true_iff, mac_memcmp,
    beq_iff_eq, SessionKey.mk.injEq, and_assoc]

/-- The billing loop gathers the packets by their keys. -/
theorem formSessions_eq (captured : List QxLog) : formSessions captured = sessions.gather captured := by
  have step : addToSessions = sessions.add := by
    funext groups pkt
    have same : sameSession pkt = fun session =>
        decide (sessions.key pkt = sessions.key session) := funext (sameSession_eq pkt)
    unfold addToSessions Gathering.add
    rw [same]
    rfl
  unfold formSessions Gathering.gather
  rw [step]

/-- A sum of 32-bit counters is the sum modulo `2^32`. -/
theorem sum_toNat (counts : List UInt32) :
    counts.sum.toNat = (counts.map UInt32.toNat).sum % 2 ^ 32 := by
  induction counts with
  | nil => rfl
  | cons count rest ih =>
    rw [List.sum_cons, List.map_cons, List.sum_cons, UInt32.toNat_add, ih, Nat.add_mod_mod]

theorem sum_bytes (packets : List QxLog) :
    (packets.map bytes).sum =
      ((packets.map QxLog.bytesToCli).sum, (packets.map QxLog.bytesToHost).sum) := by
  induction packets with
  | nil => rfl
  | cons pkt rest ih =>
    rw [List.map_cons, List.sum_cons, ih, List.map_cons, List.map_cons, List.sum_cons, List.sum_cons]
    rfl

/-! ### Every log -/

def packetsOf (key : SessionKey) (captured : List QxLog) : List QxLog :=
  captured.filter fun pkt => decide (sessionKey pkt = key)

structure SessionsOf (captured formed : List QxLog) : Prop where
  distinct : (formed.map sessionKey).Nodup
  covered : ∀ key, (∃ session ∈ formed, sessionKey session = key) ↔
    ∃ pkt ∈ captured, sessionKey pkt = key
  toCli : ∀ session ∈ formed, session.bytesToCli.toNat =
    ((packetsOf (sessionKey session) captured).map fun pkt => pkt.bytesToCli.toNat).sum % 2 ^ 32
  toHost : ∀ session ∈ formed, session.bytesToHost.toNat =
    ((packetsOf (sessionKey session) captured).map fun pkt => pkt.bytesToHost.toNat).sum % 2 ^ 32
  fits : formed.length ≤ captured.length

theorem formSessions_sessionsOf (captured : List QxLog) :
    SessionsOf captured (formSessions captured) := by
  rw [formSessions_eq]
  have total : ∀ session ∈ sessions.gather captured,
      bytes session = ((packetsOf (sessionKey session) captured).map bytes).sum := by
    intro session member
    have weighed := Gathering.gather_weight bytes_join member
    exact weighed
  refine ⟨sessions.gather_nodup captured, fun key => ?_, fun session member => ?_,
    fun session member => ?_, sessions.gather_length captured⟩
  · have keys : key ∈ (sessions.gather captured).map sessionKey ↔ key ∈ captured.map sessionKey :=
      sessions.mem_gather_keys
    rwa [List.mem_map, List.mem_map] at keys
  · have same := total session member
    rw [sum_bytes] at same
    have toCli : session.bytesToCli = _ := congrArg Prod.fst same
    rw [toCli, sum_toNat, List.map_map]
    rfl
  · have same := total session member
    rw [sum_bytes] at same
    have toHost : session.bytesToHost = _ := congrArg Prod.snd same
    rw [toHost, sum_toNat, List.map_map]
    rfl

/-- A record without the port of the client, which is not compared. -/
def withoutPort (session : QxLog) : QxLog := { session with portClnt := 0 }

/-- The record of a key and the bytes of its packets. -/
def billed (key : SessionKey) (counts : UInt32 × UInt32) : QxLog where
  mac := key.mac
  dlcProto := key.dlcProto
  ipClnt := key.ipClnt
  ipHost := key.ipHost
  ipProto := key.ipProto
  portClnt := 0
  portHost := key.portHost
  bytesToCli := counts.1
  bytesToHost := counts.2

theorem sessions_reordered {captured reordered : List QxLog} (order : captured.Perm reordered) :
    ((formSessions captured).map withoutPort).Perm ((formSessions reordered).map withoutPort) := by
  rw [formSessions_eq, formSessions_eq]
  have same := (Gathering.gather_perm bytes_join order).map fun entry => billed entry.1 entry.2
  rw [List.map_map, List.map_map] at same
  exact same

/-- The sessions of a log are the sums of its packets, in whatever order these come. -/
theorem sessions_sum_packets (captured : List QxLog) :
    SessionsOf captured (formSessions captured) ∧
      ∀ reordered, captured.Perm reordered →
        ((formSessions captured).map withoutPort).Perm
          ((formSessions reordered).map withoutPort) :=
  ⟨formSessions_sessionsOf captured, fun _ order => sessions_reordered order⟩

/-- A session shows the client's port of its first packet. -/
theorem first_port_is_shown :
    ∃ captured reordered, captured.Perm reordered ∧
      ¬ (formSessions captured).Perm (formSessions reordered) := by
  refine ⟨[fromClient, { fromClient with portClnt := 81 }],
    [{ fromClient with portClnt := 81 }, fromClient], List.Perm.swap .., ?_⟩
  decide

end QNXStuff.QXBilling
