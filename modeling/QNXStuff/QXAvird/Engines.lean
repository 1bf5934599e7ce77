import QNXStuff.Library.Execution
import QNXStuff.Library.SharedLock

/-! Qavird: the threads that scan with an engine and tell about it, and those that replace it. -/

namespace QNXStuff.QXAvird

open Execution SharedLock

/-- `struct cl_node *` -/
abbrev Node := Nat

/-- What is used of `struct cl_cvd`. -/
structure ClCvd where
  version : Int
  sigs : Int
  fl : Int
  stime : Int
  deriving DecidableEq

/-- `struct Qavird_info` -/
structure QavirdInfo where
  signum : Int
  virfound : UInt32
  fdone : UInt32
  startup : Int
  baseTime : Int
  mVer : Int
  mSig : Int
  mFl : Int
  mBtime : Int
  dVer : Int
  dSig : Int
  dFl : Int
  dBtime : Int
  deriving DecidableEq

def QavirdInfo.withMain (info : QavirdInfo) (cvd : ClCvd) : QavirdInfo :=
  { info with mVer := cvd.version, mSig := cvd.sigs, mFl := cvd.fl, mBtime := cvd.stime }

def QavirdInfo.withDaily (info : QavirdInfo) (cvd : ClCvd) : QavirdInfo :=
  { info with dVer := cvd.version, dSig := cvd.sigs, dFl := cvd.fl, dBtime := cvd.stime }

/-- An engine in memory: the signatures that `cl_loaddbdir` has counted, and whether `cl_build` has
been through. -/
structure Engine where
  signum : Int
  built : Bool
  deriving DecidableEq

/-- The codes of the answers. -/
inductive Retval where
  | data
  | clean
  | virus
  | internal
  deriving DecidableEq

def clClean : Int := 0
def clVirus : Int := 1

/-- `nbytes = snprintf(data,msg->i.nbytes,"%s",text)` and what is sent of `data` then. -/
def answerText (size : Nat) (text : List UInt8) : List UInt8 :=
  let data := text.take (size - 1) ++ [0]
  let nbytes := if text.length < size then text.length + 1 else size
  data.take nbytes

/-- An answer to a client: `ret_val` and the bytes behind it. -/
structure Answer where
  retval : Retval
  data : List UInt8
  deriving DecidableEq

/-- Where a thread is in `Qavird_devctl`. A descriptor is used for one call at a time, so that
`cl_errno` of its OCB is a variable of the call. -/
inductive AvThread where
  | idle
  /-- INFO, with the lock: in `memcpy`, which has got to `fdone`, and behind it -/
  | informing
  | copying (signum : Int) (virfound : UInt32)
  | informed (data : QavirdInfo)
  /-- SCANFILE, with the lock: before `cl_scanfile`, in it, and at the two counters -/
  | entered (size : Nat)
  | scanning (node : Node) (size : Nat)
  | found (answer : Answer)
  | scanned (answer : Answer)
  | counted (answer : Answer)
  /-- AVBASERELOAD, up to the lock: `old_node`, `new_cl_root_node` and `new_state_info` -/
  | loading (oldNode : Node) (info : QavirdInfo)
  | building (oldNode newNode : Node) (info : QavirdInfo)
  | mainHeader (oldNode newNode : Node) (info : QavirdInfo)
  | dailyHeader (oldNode newNode : Node) (info : QavirdInfo)
  | timing (oldNode newNode : Node) (info : QavirdInfo)
  | ready (oldNode newNode : Node) (info : QavirdInfo)
  /-- with the lock, and behind it -/
  | switching (oldNode newNode : Node) (info : QavirdInfo)
  | carrying (oldNode : Node) (info : QavirdInfo)
  | storing (oldNode : Node) (info : QavirdInfo)
  | stored (oldNode : Node)
  | freeing (oldNode : Node)
  deriving DecidableEq

/-- `cl_root_node_rwlock` -/
def AvThread.hold : AvThread → Hold
  | .informing | .copying .. | .informed .. => .shared
  | .entered .. | .scanning .. | .found .. | .scanned .. | .counted .. => .shared
  | .switching .. | .carrying .. | .storing .. | .stored .. => .exclusive
  | _ => .free

/-- `cl_root_node`, the engines that are allocated, `state_info`, and the pool of threads. -/
structure Qavird (Thread : Type) where
  clRootNode : Node
  engines : Node → Option Engine
  stateInfo : QavirdInfo
  threads : Thread → AvThread

/-- A request comes, a call of the library or of the system returns, or a thread goes on. -/
inductive AvInput (Thread : Type) where
  | info (thread : Thread) (nbytes : Nat)
  | scanFile (thread : Thread) (nbytes : Nat)
  /-- `new_state_info` is not initialized. -/
  | reload (thread : Thread) (garbage : QavirdInfo)
  | other (thread : Thread)
  /-- `cl_scanfile`, with `cl_strerror` of its code -/
  | scan (thread : Thread) (code : Int) (virname strerror : List UInt8)
  | load (thread : Thread) (result : Except Int (Node × Int))
  | build (thread : Thread) (code : Int)
  | header (thread : Thread) (cvd : Option ClCvd)
  | time (thread : Thread) (now : Int)
  | goOn (thread : Thread)

inductive AvEvent (Thread : Type) where
  | silent
  | answered (thread : Thread) (answer : Answer)
  | told (thread : Thread) (data : QavirdInfo)
  | scanned (thread : Thread) (answer : Answer)
  /-- `ENOSYS` -/
  | refused (thread : Thread)
  deriving DecidableEq

/-- An engine is used or freed that is not allocated, or an input that does not come. -/
inductive AvFault where
  | wild
  | absent
  deriving DecidableEq

/-- `sizeof(struct Qavird_info)` -/
def infoSize : Nat := 52

namespace Qavird

variable {Thread : Type} [DecidableEq Thread]

def move (state : Qavird Thread) (thread : Thread) (now : AvThread) : Qavird Thread :=
  { state with threads := Function.update state.threads thread now }

abbrev Stepped (Thread : Type) := Except AvFault (Qavird Thread × AvEvent Thread)

def quiet (state : Qavird Thread) : Stepped Thread := .ok (state, .silent)

/-- The end of a call. -/
def reply (state : Qavird Thread) (thread : Thread) (answer : Answer) : Stepped Thread :=
  .ok (state.move thread .idle, .answered thread answer)

def clFree (state : Qavird Thread) (node : Node) : Except AvFault (Qavird Thread) :=
  if state.engines node = none then .error .wild
  else .ok { state with engines := Function.update state.engines node none }

/-- An error of a reload behind `cl_loaddbdir`. -/
def giveUp (state : Qavird Thread) (thread : Thread) (newNode : Node) : Stepped Thread :=
  (state.clFree newNode).bind fun state => state.reply thread ⟨.internal, []⟩

/-- What `cl_scanfile` makes of a call. -/
def scanResult (size : Nat) (code : Int) (virname strerror : List UInt8) : Answer :=
  if code = clVirus then ⟨.virus, answerText size virname⟩
  else if code = clClean then ⟨.clean, []⟩
  else ⟨.internal, answerText size strerror⟩

variable [Fintype Thread]

/-- A thread gets the lock and goes on with it. -/
def take (state : Qavird Thread) (thread : Thread) (now : AvThread) : Stepped Thread :=
  if MayTake AvThread.hold state.threads now.hold then (state.move thread now).quiet
  else .error .absent

/-- A thread that needs nothing from outside goes on. -/
def goOn (state : Qavird Thread) (thread : Thread) : Stepped Thread :=
  match state.threads thread with
  | .informing =>
    (state.move thread (.copying state.stateInfo.signum state.stateInfo.virfound)).quiet
  | .copying signum virfound =>
    (state.move thread
      (.informed { state.stateInfo with signum := signum, virfound := virfound })).quiet
  | .informed data => .ok (state.move thread .idle, .told thread data)
  | .entered size => (state.move thread (.scanning state.clRootNode size)).quiet
  | .found answer =>
    let info := { state.stateInfo with virfound := state.stateInfo.virfound + 1 }
    ({ state with stateInfo := info }.move thread (.scanned answer)).quiet
  | .scanned answer =>
    let info := { state.stateInfo with fdone := state.stateInfo.fdone + 1 }
    ({ state with stateInfo := info }.move thread (.counted answer)).quiet
  | .counted answer => .ok (state.move thread .idle, .scanned thread answer)
  | .ready oldNode newNode info => state.take thread (.switching oldNode newNode info)
  | .switching oldNode newNode info =>
    ({ state with clRootNode := newNode }.move thread (.carrying oldNode info)).quiet
  | .carrying oldNode info =>
    let info := { info with
      virfound := state.stateInfo.virfound
      fdone := state.stateInfo.fdone
      startup := state.stateInfo.startup }
    (state.move thread (.storing oldNode info)).quiet
  | .storing oldNode info => ({ state with stateInfo := info }.move thread (.stored oldNode)).quiet
  | .stored oldNode => (state.move thread (.freeing oldNode)).quiet
  | .freeing oldNode => (state.clFree oldNode).bind fun state => state.reply thread ⟨.clean, []⟩
  | _ => .error .absent

/-- `Qavird_devctl`, step by step -/
def handle (state : Qavird Thread) : AvInput Thread → Stepped Thread
  | .info thread nbytes =>
    if state.threads thread ≠ .idle then .error .absent
    else if nbytes < infoSize then state.reply thread ⟨.data, []⟩
    else state.take thread .informing
  | .scanFile thread nbytes =>
    if state.threads thread ≠ .idle then .error .absent
    else if nbytes < 3 then state.reply thread ⟨.data, []⟩
    else state.take thread (.entered nbytes)
  | .reload thread garbage =>
    if state.threads thread ≠ .idle then .error .absent
    else (state.move thread (.loading state.clRootNode { garbage with signum := 0 })).quiet
  | .other thread =>
    if state.threads thread ≠ .idle then .error .absent
    else .ok (state, .refused thread)
  | .scan thread code virname strerror =>
    match state.threads thread with
    | .scanning node size =>
      match state.engines node with
      | some ⟨_, true⟩ =>
        let answer := scanResult size code virname strerror
        (state.move thread (if code = clVirus then .found answer else .scanned answer)).quiet
      | _ => .error .wild
    | _ => .error .absent
  | .load thread result =>
    match state.threads thread, result with
    | .loading _ _, .error _ => state.reply thread ⟨.internal, []⟩
    | .loading oldNode info, .ok (newNode, signum) =>
      if state.engines newNode ≠ none then .error .absent
      else
        let engines := Function.update state.engines newNode (some ⟨signum, false⟩)
        ({ state with engines := engines }.move thread
          (.building oldNode newNode { info with signum := signum })).quiet
    | _, _ => .error .absent
  | .build thread code =>
    match state.threads thread with
    | .building oldNode newNode info =>
      match state.engines newNode with
      | none => .error .wild
      | some engine =>
        if code ≠ 0 then state.giveUp thread newNode
        else
          let engines := Function.update state.engines newNode (some { engine with built := true })
          ({ state with engines := engines }.move thread (.mainHeader oldNode newNode info)).quiet
    | _ => .error .absent
  | .header thread cvd =>
    match state.threads thread, cvd with
    | .mainHeader _ newNode _, none => state.giveUp thread newNode
    | .dailyHeader _ newNode _, none => state.giveUp thread newNode
    | .mainHeader oldNode newNode info, some cvd =>
      (state.move thread (.dailyHeader oldNode newNode (info.withMain cvd))).quiet
    | .dailyHeader oldNode newNode info, some cvd =>
      (state.move thread (.timing oldNode newNode (info.withDaily cvd))).quiet
    | _, _ => .error .absent
  | .time thread now =>
    match state.threads thread with
    | .timing oldNode newNode info =>
      (state.move thread (.ready oldNode newNode { info with baseTime := now })).quiet
    | _ => .error .absent
  | .goOn thread => state.goOn thread

/-- What `main` has prepared when it starts the pool. -/
def started (clRootNode : Node) (stateInfo : QavirdInfo) : Qavird Thread where
  clRootNode := clRootNode
  engines := Function.update (fun _ => none) clRootNode (some ⟨stateInfo.signum, true⟩)
  stateInfo := { stateInfo with virfound := 0, fdone := 0 }
  threads := fun _ => .idle

end Qavird

abbrev AvLabel (Thread : Type) := AvInput Thread × AvEvent Thread

abbrev AvStep {Thread : Type} [DecidableEq Thread] [Fintype Thread] :
    Qavird Thread → AvLabel Thread → Qavird Thread → Prop :=
  Answers Qavird.handle

end QNXStuff.QXAvird
