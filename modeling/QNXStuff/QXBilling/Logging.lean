import QNXStuff.Library.Execution
import QNXStuff.QXBilling.Rules

/-! The packet log of the billing filter: two shared memory regions, one of which the packet
threads fill while the logger reads the other. -/

namespace QNXStuff.QXBilling

open Execution

/-- The shared memory objects `/dev/qxc_log0` and `/dev/qxc_log1`. -/
inductive LogRegion where
  | log0
  | log1
  deriving DecidableEq

def LogRegion.other : LogRegion → LogRegion
  | .log0 => .log1
  | .log1 => .log0

/-- `shm_logs[log_id]` -/
def shmLogs (logId : Nat) : LogRegion := if logId = 0 then .log0 else .log1

/-- The variables of `qxc_logging.c` and the regions they point to. -/
structure Log where
  region : LogRegion → Nat → QxLog
  activeLog : LogRegion
  shadowLog : LogRegion
  logFdNum : Nat
  activeCount : UInt32
  shadowCount : UInt32
  logLimit : UInt32

/-- `log_init`. The number of slots is an `int` that is not negative. -/
def logInit (region : LogRegion → Nat → QxLog) (numSlots : Fin (2 ^ 31)) : Log where
  region := region
  activeLog := .log0
  shadowLog := .log1
  logFdNum := 0
  activeCount := 0
  shadowCount := 0
  logLimit := UInt32.ofNat numSlots

namespace Log

/-- `atomic_add_value( &active_count, 1 )` returns the old value. -/
def reserve (log : Log) : UInt32 × Log :=
  (log.activeCount, { log with activeCount := log.activeCount + 1 })

/-- `memcpy( &active_log[slot], pkt, sizeof(qx_log_t) )` -/
def copy (log : Log) (slot : UInt32) (pkt : QxLog) : Log :=
  { log with
    region := Function.update log.region log.activeLog
      (Function.update (log.region log.activeLog) slot.toNat pkt) }

/-- `active_count = log_limit` -/
def clamp (log : Log) : Log := { log with activeCount := log.logLimit }

/-- What is done with a reserved slot. -/
def fill (log : Log) (slot : UInt32) (pkt : QxLog) : Log :=
  if slot < log.logLimit then log.copy slot pkt else log.clamp

/-- `log_store_pkt`, as far as no other thread comes in between. -/
def logStorePkt (log : Log) (pkt : QxLog) : Bool × Log :=
  let (slot, log) := log.reserve
  (slot < log.logLimit, log.fill slot pkt)

/-- `shadow_count = active_count` -/
def saveCount (log : Log) : Log := { log with shadowCount := log.activeCount }

/-- `active_count = 0` -/
def restart (log : Log) : Log := { log with activeCount := 0 }

/-- `active_log = shadow_log` -/
def switch (log : Log) : Log := { log with activeLog := log.shadowLog }

/-- `shadow_log = tmp` -/
def giveBack (log : Log) (tmp : LogRegion) : Log := { log with shadowLog := tmp }

/-- `*cnt = shadow_count; *rgn = log_fd_num; log_fd_num = (log_fd_num==1 ? 0:1);` -/
def answer (log : Log) : (Nat × UInt32) × Log :=
  ((log.logFdNum, log.shadowCount),
    { log with logFdNum := if log.logFdNum = 1 then 0 else 1 })

def logSwapLog (log : Log) : (Nat × UInt32) × Log :=
  (log.saveCount.restart.switch.giveBack log.activeLog).answer

/-- The slots of a region below a count. -/
def slots (log : Log) (region : LogRegion) (count : UInt32) : List (Nat × QxLog) :=
  (List.range count.toNat).map fun slot => (slot, log.region region slot)

end Log

/-! ### The threads -/

/-- `pthread_t` is a positive `int`. -/
abbrev Thread := Fin (2 ^ 31)

/-- Where a packet thread is in `log_store_pkt`: it holds the read lock until it has `left`. -/
inductive Writer where
  | idle
  | entered (pkt : QxLog)
  | reserved (pkt : QxLog) (slot : UInt32)
  | filled (pkt : QxLog) (slot : UInt32)
  | left (pkt : QxLog) (slot : UInt32)
  deriving DecidableEq

/-- Where the manager thread is in `log_swap_log`. -/
inductive Swapper where
  | idle
  | begun (tmp : LogRegion)
  | locked (tmp : LogRegion)
  | counted (tmp : LogRegion)
  | restarted (tmp : LogRegion)
  | switched (tmp : LogRegion)
  | unlocked (tmp : LogRegion)
  | restored
  deriving DecidableEq

/-- The log with the threads; `readers` and `writing` are who holds `log_rwlock`. -/
structure Logging where
  log : Log
  readers : List Thread
  writing : Bool
  writers : Thread → Writer
  swapper : Swapper

/-- A packet thread calls `log_store_pkt` or goes on in it, or the manager in `log_swap_log`. -/
inductive LogMove where
  | store (thread : Thread) (pkt : QxLog)
  | thread (thread : Thread)
  | swap

inductive LogEvent where
  | called (thread : Thread) (pkt : QxLog)
  | copied (thread : Thread) (slot : UInt32) (pkt : QxLog)
  | returned (thread : Thread) (pkt : QxLog) (result : Bool)
  | restarted
  | swapped (rgn : Nat) (cnt : UInt32)
  | silent
  deriving DecidableEq

/-- A thread that waits for a lock, or one that is not where the move says. -/
inductive LogFault where
  | blocked
  | elsewhere
  deriving DecidableEq

namespace Logging

def setWriter (state : Logging) (thread : Thread) (writer : Writer) : Logging :=
  { state with writers := Function.update state.writers thread writer }

def setSwapper (state : Logging) (swapper : Swapper) : Logging := { state with swapper := swapper }

/-- A packet thread has taken the read lock. -/
def enter (state : Logging) (thread : Thread) (pkt : QxLog) : Logging :=
  { state.setWriter thread (.entered pkt) with readers := thread :: state.readers }

def storeStep (state : Logging) (thread : Thread) (pkt : QxLog) :
    Except LogFault (Logging × LogEvent) :=
  match state.writers thread with
  | .idle =>
    if state.writing then .error .blocked else .ok (state.enter thread pkt, .called thread pkt)
  | _ => .error .elsewhere

def threadStep (state : Logging) (thread : Thread) : Except LogFault (Logging × LogEvent) :=
  match state.writers thread with
  | .idle => .error .elsewhere
  | .entered pkt =>
    let (slot, log) := state.log.reserve
    .ok ({ state.setWriter thread (.reserved pkt slot) with log := log }, .silent)
  | .reserved pkt slot =>
    .ok ({ state.setWriter thread (.filled pkt slot) with log := state.log.fill slot pkt },
      if slot < state.log.logLimit then .copied thread slot pkt else .silent)
  | .filled pkt slot =>
    .ok ({ state.setWriter thread (.left pkt slot) with readers := state.readers.erase thread },
      .silent)
  | .left pkt slot =>
    .ok (state.setWriter thread .idle, .returned thread pkt (slot < state.log.logLimit))

def swapStep (state : Logging) : Except LogFault (Logging × LogEvent) :=
  match state.swapper with
  | .idle => .ok (state.setSwapper (.begun state.log.activeLog), .silent)
  | .begun tmp =>
    if state.writing || !state.readers.isEmpty then .error .blocked
    else .ok ({ state.setSwapper (.locked tmp) with writing := true }, .silent)
  | .locked tmp => .ok ({ state.setSwapper (.counted tmp) with log := state.log.saveCount }, .silent)
  | .counted tmp =>
    .ok ({ state.setSwapper (.restarted tmp) with log := state.log.restart }, .restarted)
  | .restarted tmp => .ok ({ state.setSwapper (.switched tmp) with log := state.log.switch }, .silent)
  | .switched tmp => .ok ({ state.setSwapper (.unlocked tmp) with writing := false }, .silent)
  | .unlocked tmp => .ok ({ state.setSwapper .restored with log := state.log.giveBack tmp }, .silent)
  | .restored =>
    let ((rgn, cnt), log) := state.log.answer
    .ok ({ state.setSwapper .idle with log := log }, .swapped rgn cnt)

def handle (state : Logging) : LogMove → Except LogFault (Logging × LogEvent)
  | .store thread pkt => state.storeStep thread pkt
  | .thread thread => state.threadStep thread
  | .swap => state.swapStep

/-- The module as `log_init` leaves it. -/
def start (region : LogRegion → Nat → QxLog) (numSlots : Fin (2 ^ 31)) : Logging where
  log := logInit region numSlots
  readers := []
  writing := false
  writers _ := .idle
  swapper := .idle

end Logging

/-- A log call or a part of one, and what it did. -/
abbrev LogLabel := LogMove × LogEvent

abbrev LogStep : Logging → LogLabel → Logging → Prop := Answers Logging.handle

end QNXStuff.QXBilling
