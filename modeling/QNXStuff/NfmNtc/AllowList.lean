import Mathlib.Data.List.Perm.Subperm
import QNXStuff.Library.Execution
import QNXStuff.Library.LinkedList
import QNXStuff.Library.Memory

/-! The list of addresses whose frames pass, as the resource manager and the packet path use it. -/

namespace QNXStuff.NfmNtc

open Execution LinkedList Memory

abbrev Ptr := Nat

structure MacCmp where
  nid : UInt32
  vid : UInt16
  deriving DecidableEq

structure BlockList where
  blockAddr : MacCmp
  next : Option Ptr
  prev : Option Ptr

/-- `blocklist`, what memory holds, and the entries that `malloc` gave and `free` did not take. -/
structure Ntc where
  blocklist : Option Ptr
  mem : Ptr → BlockList
  live : List Ptr

inductive NtcInput where
  | addBlock (blist : Ptr) (addr : MacCmp)
  | delBlock (addr : MacCmp)
  | rxUp (ofInterest : Bool) (frame : List UInt8)
  | rxDown (ofInterest : Bool) (frame : List UInt8)

inductive NtcEvent where
  | added (addr : MacCmp)
  | deleted (addr : MacCmp)
  | unlisted
  | passed
  | blocked
  deriving DecidableEq

/-- A list that does not end, or an address that `malloc` does not give. -/
inductive NtcFault where
  | endless
  | inUse
  deriving DecidableEq

namespace Ntc

def next (ntc : Ntc) (blist : Ptr) : Option Ptr := (ntc.mem blist).next

/-- The node ID is compared first. -/
def isMac (ntc : Ntc) (addr : MacCmp) (blist : Ptr) : Bool :=
  addr.nid == (ntc.mem blist).blockAddr.nid && addr.vid == (ntc.mem blist).blockAddr.vid

/-- `while( blist != NULL )` until an entry matches; there are at most as many as in memory. -/
def search (ntc : Ntc) (addr : MacCmp) : Option (Option Ptr) :=
  findFrom ntc.next (ntc.isMac addr) ntc.live.length ntc.blocklist

/-- NTC_ADDBLOCK: "make a new entry" on top of the list. -/
def addBlock (ntc : Ntc) (blist : Ptr) (addr : MacCmp) : Except NtcFault (Ntc × NtcEvent) :=
  if blist ∈ ntc.live then .error .inUse
  else
    let entry : BlockList := ⟨addr, none, none⟩
    let entry := if ntc.blocklist ≠ none then { entry with next := ntc.blocklist } else entry
    .ok ({ blocklist := some blist
           mem := Function.update ntc.mem blist entry
           live := blist :: ntc.live }, .added addr)

/-- `if( blist->next != NULL ) blist->next->prev = blist->prev;` -/
def fixNext (ntc : Ntc) (blist : Ptr) : Ntc :=
  match (ntc.mem blist).next with
  | none => ntc
  | some next =>
    { ntc with
      mem := Function.update ntc.mem next { ntc.mem next with prev := (ntc.mem blist).prev } }

/-- "if we delete the first item in the list": that is one whose `prev` is NULL. -/
def fixPrev (ntc : Ntc) (blist : Ptr) : Ntc :=
  match (ntc.mem blist).prev with
  | none => { ntc with blocklist := (ntc.mem blist).next }
  | some prev =>
    { ntc with
      mem := Function.update ntc.mem prev { ntc.mem prev with next := (ntc.mem blist).next } }

/-- "now we need to delete the node found" -/
def remove (ntc : Ntc) (blist : Ptr) : Ntc :=
  let ntc := (ntc.fixNext blist).fixPrev blist
  { ntc with live := ntc.live.erase blist }

/-- NTC_DELBLOCK -/
def delBlock (ntc : Ntc) (addr : MacCmp) : Except NtcFault (Ntc × NtcEvent) :=
  match ntc.search addr with
  | none => .error .endless
  | some none => .ok (ntc, .unlisted)
  | some (some blist) => .ok (ntc.remove blist, .deleted addr)

def frameMac (frame : List UInt8) (place : Nat) : MacCmp where
  nid := UInt32.ofNat (wordOf ((frame.drop place).take 4))
  vid := UInt16.ofNat (wordOf ((frame.drop (place + 4)).take 2))

/-- `*TOP == ARP_FRAME` -/
def isArp (frame : List UInt8) : Bool := wordOf ((frame.drop 12).take 2) == 0x0806

/-- A frame on its way up or down, with its peer's address at a place. -/
def filter (ntc : Ntc) (place : Nat) (ofInterest : Bool) (frame : List UInt8) :
    Except NtcFault NtcEvent :=
  if !ofInterest then .ok .passed
  else if isArp frame then .ok .passed
  else
    match ntc.search (frameMac frame place) with
    | none => .error .endless
    | some none => .ok .blocked
    | some (some _) => .ok .passed

/-- "tune in the MAC address of the destination host": that behind the first. -/
def ntcRxUp (ntc : Ntc) : Bool → List UInt8 → Except NtcFault NtcEvent := ntc.filter 6

def ntcRxDown (ntc : Ntc) : Bool → List UInt8 → Except NtcFault NtcEvent := ntc.filter 0

def handle (ntc : Ntc) : NtcInput → Except NtcFault (Ntc × NtcEvent)
  | .addBlock blist addr => ntc.addBlock blist addr
  | .delBlock addr => ntc.delBlock addr
  | .rxUp ofInterest frame => (ntc.ntcRxUp ofInterest frame).map fun event => (ntc, event)
  | .rxDown ofInterest frame => (ntc.ntcRxDown ofInterest frame).map fun event => (ntc, event)

/-- "set our blocklist to NULL" -/
def init : Ntc where
  blocklist := none
  mem := fun _ => ⟨⟨0, 0⟩, none, none⟩
  live := []

end Ntc

abbrev NtcLabel := NtcInput × NtcEvent

abbrev NtcStep : Ntc → NtcLabel → Ntc → Prop := Answers Ntc.handle

/-- How often an address was added, and how often it was deleted. -/
def additions (labels : List NtcLabel) (addr : MacCmp) : Nat :=
  labels.countP fun label => label.2 == .added addr

def deletions (labels : List NtcLabel) (addr : MacCmp) : Nat :=
  labels.countP fun label => label.2 == .deleted addr

/-- What the requests mean: a list of addresses, in which a request adds or deletes one, and a frame
passes if its address is there. -/
def listHandle (addrs : List MacCmp) : NtcInput → List MacCmp × NtcEvent
  | .addBlock _ addr => (addr :: addrs, .added addr)
  | .delBlock addr =>
    if addr ∈ addrs then (addrs.erase addr, .deleted addr) else (addrs, .unlisted)
  | .rxUp ofInterest frame => (addrs, frameEvent 6 ofInterest frame)
  | .rxDown ofInterest frame => (addrs, frameEvent 0 ofInterest frame)
where
  frameEvent (place : Nat) (ofInterest : Bool) (frame : List UInt8) : NtcEvent :=
    if ofInterest = false ∨ Ntc.isArp frame = true ∨ Ntc.frameMac frame place ∈ addrs then .passed
    else .blocked

def ListStep (addrs : List MacCmp) (label : NtcLabel) (addrs' : List MacCmp) : Prop :=
  listHandle addrs label.1 = (addrs', label.2)

namespace Ntc

/-- The addresses from `blocklist` on. -/
def addrs (ntc : Ntc) : List MacCmp :=
  (walk ntc.next ntc.live.length ntc.blocklist).map fun blist => (ntc.mem blist).blockAddr

/-- The address to delete is that of the first entry, or of none. -/
def FirstOrUnlisted (ntc : Ntc) : NtcInput → Prop
  | .delBlock addr => ntc.addrs.head? = some addr ∨ addr ∉ ntc.addrs
  | _ => True

instance {ntc : Ntc} {input : NtcInput} : Decidable (ntc.FirstOrUnlisted input) :=
  match input with
  | .addBlock _ _ => isTrue trivial
  | .delBlock _ => inferInstanceAs (Decidable (_ ∨ _))
  | .rxUp _ _ => isTrue trivial
  | .rxDown _ _ => isTrue trivial

/-- The entries of the list: `prev` is NULL in all of them, whatever stands before. -/
structure Holds (ntc : Ntc) (refs : List Ptr) : Prop where
  linked : Chain ntc.next ntc.blocklist refs
  nodup : refs.Nodup
  live : refs ⊆ ntc.live
  prev : ∀ ref ∈ refs, (ntc.mem ref).prev = none

section

variable {ntc after : Ntc} {refs : List Ptr} {addr : MacCmp} {blist : Ptr} {event : NtcEvent}

theorem init_holds : init.Holds [] where
  linked := rfl
  nodup := .nil
  live := nofun
  prev := nofun

theorem Holds.length_le (holds : ntc.Holds refs) : refs.length ≤ ntc.live.length :=
  (List.subperm_of_subset holds.nodup holds.live).length_le

theorem Holds.addrs_eq (holds : ntc.Holds refs) :
    ntc.addrs = refs.map fun blist => (ntc.mem blist).blockAddr := by
  rw [addrs, walk_chain holds.linked holds.length_le]

theorem isMac_iff : ntc.isMac addr blist = true ↔ (ntc.mem blist).blockAddr = addr := by
  cases entry : (ntc.mem blist).blockAddr with
  | mk nid vid =>
    cases addr with
    | mk nid' vid' =>
      simp only [isMac, entry, Bool.and_eq_true, beq_iff_eq, MacCmp.mk.injEq]
      exact and_congr eq_comm eq_comm

theorem Holds.search_eq (holds : ntc.Holds refs) :
    ntc.search addr = some (refs.find? (ntc.isMac addr)) :=
  findFrom_chain holds.linked _ holds.length_le

/-- The search finds an entry if the address is listed. -/
theorem Holds.search_none_iff (holds : ntc.Holds refs) :
    ntc.search addr = some none ↔ addr ∉ ntc.addrs := by
  rw [holds.search_eq, holds.addrs_eq]
  simp [isMac_iff]

/-- A list with one more entry. -/
def push (ntc : Ntc) (blist : Ptr) (addr : MacCmp) : Ntc where
  blocklist := some blist
  mem := Function.update ntc.mem blist ⟨addr, ntc.blocklist, none⟩
  live := blist :: ntc.live

theorem push_mem {other : Ptr} (apart : other ≠ blist) :
    (ntc.push blist addr).mem other = ntc.mem other :=
  Function.update_of_ne apart ..

@[simp] theorem push_mem_self :
    (ntc.push blist addr).mem blist = ⟨addr, ntc.blocklist, none⟩ :=
  Function.update_self ..

theorem push_next : (ntc.push blist addr).next = Function.update ntc.next blist ntc.blocklist := by
  funext other
  by_cases same : other = blist
  · simp [next, same]
  · simp [next, push_mem same, Function.update_of_ne same]

theorem Holds.push (holds : ntc.Holds refs) (outside : blist ∉ refs) :
    (ntc.push blist addr).Holds (blist :: refs) where
  linked := push_next ▸ holds.linked.push outside
  nodup := List.nodup_cons.mpr ⟨outside, holds.nodup⟩
  live := List.cons_subset_cons blist holds.live
  prev := by
    intro ref member
    rcases List.mem_cons.mp member with rfl | old
    · simp
    · rw [push_mem (ne_of_mem_of_not_mem old outside)]
      exact holds.prev ref old

theorem Holds.push_addrs (holds : ntc.Holds refs) (outside : blist ∉ refs) :
    (ntc.push blist addr).addrs = addr :: ntc.addrs := by
  rw [(holds.push outside).addrs_eq, holds.addrs_eq, List.map_cons, push_mem_self]
  refine congrArg _ (List.map_congr_left fun ref member => ?_)
  rw [push_mem (ne_of_mem_of_not_mem member outside)]

theorem addBlock_ok (done : ntc.addBlock blist addr = .ok (after, event)) :
    blist ∉ ntc.live ∧ after = ntc.push blist addr ∧ event = .added addr := by
  unfold addBlock at done
  split at done
  · cases done
  · next fresh =>
    refine ⟨fresh, ?_⟩
    cases first : ntc.blocklist with
    | none =>
      simp only [first, ne_eq, not_true_eq_false, if_false] at done
      cases done
      simp [push, first]
    | some head =>
      simp only [first, ne_eq, reduceCtorEq, not_false_eq_true, if_true] at done
      cases done
      simp [push, first]

@[simp] theorem fixNext_next {other : Ptr} :
    ((ntc.fixNext blist).mem other).next = (ntc.mem other).next := by
  unfold fixNext
  cases (ntc.mem blist).next with
  | none => rfl
  | some next =>
    by_cases same : other = next
    · simp [same]
    · simp [Function.update_of_ne same]

@[simp] theorem fixNext_blockAddr {other : Ptr} :
    ((ntc.fixNext blist).mem other).blockAddr = (ntc.mem other).blockAddr := by
  unfold fixNext
  cases (ntc.mem blist).next with
  | none => rfl
  | some next =>
    by_cases same : other = next
    · simp [same]
    · simp [Function.update_of_ne same]

@[simp] theorem fixNext_live : (ntc.fixNext blist).live = ntc.live := by
  unfold fixNext
  cases (ntc.mem blist).next with
  | none => rfl
  | some next => rfl

theorem fixNext_prev {other : Ptr} (here : (ntc.mem blist).prev = none)
    (there : (ntc.mem other).prev = none) : ((ntc.fixNext blist).mem other).prev = none := by
  unfold fixNext
  cases (ntc.mem blist).next with
  | none => exact there
  | some next =>
    by_cases same : other = next
    · simp [same, here]
    · simp [Function.update_of_ne same, there]

/-- `prev` says that every entry is the first. -/
theorem remove_eq (here : (ntc.mem blist).prev = none) :
    ntc.remove blist =
      ⟨ntc.next blist, (ntc.fixNext blist).mem, ntc.live.erase blist⟩ := by
  have first := fixNext_prev here here
  simp [remove, fixPrev, first, next]

/-- Deleting an entry drops what stands before it too. -/
theorem Holds.remove {front back : List Ptr} (holds : ntc.Holds (front ++ blist :: back)) :
    (ntc.remove blist).Holds back ∧
      (ntc.remove blist).addrs = back.map fun blist => (ntc.mem blist).blockAddr := by
  have here : blist ∈ front ++ blist :: back := by simp
  have first := holds.prev blist here
  obtain ⟨_, _, _, rest⟩ := segment_append.mp holds.linked
  have nodup := holds.nodup.of_append_right
  have removed : (ntc.remove blist).Holds back := by
    rw [remove_eq first]
    refine { linked := rest.congr fun ref member => fixNext_next
             nodup := nodup.of_cons
             live := ?_
             prev := ?_ }
    · intro ref member
      have apart : ref ≠ blist := by
        rintro rfl
        exact (List.nodup_cons.mp nodup).1 member
      exact (List.mem_erase_of_ne apart).mpr (holds.live (by simp [member]))
    · intro ref member
      exact fixNext_prev first (holds.prev ref (by simp [member]))
  refine ⟨removed, ?_⟩
  rw [removed.addrs_eq, remove_eq first]
  exact List.map_congr_left fun ref member => fixNext_blockAddr

/-- What a request deletes: the first entry with the address, and all before it. -/
theorem Holds.delBlock (holds : ntc.Holds refs)
    (done : ntc.delBlock addr = .ok (after, event)) :
    (addr ∉ ntc.addrs ∧ after = ntc ∧ event = .unlisted) ∨
      ∃ front back, ntc.addrs = front ++ addr :: back ∧ addr ∉ front ∧
        (∃ refs', after.Holds refs') ∧ after.addrs = back ∧ event = .deleted addr := by
  unfold Ntc.delBlock at done
  cases found : refs.find? (ntc.isMac addr) with
  | none =>
    have missing : ntc.search addr = some none := by rw [holds.search_eq, found]
    rw [missing] at done
    cases done
    exact .inl ⟨holds.search_none_iff.mp missing, rfl, rfl⟩
  | some blist =>
    rw [holds.search_eq, found] at done
    cases done
    obtain ⟨here, front, back, rfl, before⟩ := List.find?_eq_some_iff_append.mp found
    refine .inr ⟨front.map fun ref => (ntc.mem ref).blockAddr,
      back.map fun ref => (ntc.mem ref).blockAddr, ?_, ?_, ⟨back, holds.remove.1⟩,
      holds.remove.2, rfl⟩
    · rw [holds.addrs_eq, List.map_append, List.map_cons, isMac_iff.mp here]
    · intro member
      obtain ⟨ref, listed, same⟩ := List.mem_map.mp member
      have other := before ref listed
      rw [isMac_iff.mpr same] at other
      cases other

/-- A request deletes one entry if and only if that is the first. -/
theorem drop_eq_erase_iff {front back : List MacCmp} (outside : addr ∉ front) :
    back = (front ++ addr :: back).erase addr ↔ (front ++ addr :: back).head? = some addr := by
  rw [List.erase_append_right _ outside, List.erase_cons_head]
  cases front with
  | nil => simp
  | cons first rest =>
    have apart : first ≠ addr := (List.ne_of_not_mem_cons outside).symm
    constructor
    · intro same
      have lengths := congrArg List.length same
      simp only [List.length_append, List.length_cons] at lengths
      omega
    · intro same
      exact absurd (Option.some.inj same) apart

theorem Holds.filter_eq (holds : ntc.Holds refs) (place : Nat) (ofInterest : Bool)
    (frame : List UInt8) : ntc.filter place ofInterest frame =
      .ok (listHandle.frameEvent ntc.addrs place ofInterest frame) := by
  unfold Ntc.filter listHandle.frameEvent
  cases ofInterest with
  | false => simp
  | true =>
    by_cases arp : isArp frame = true
    · simp [arp]
    · simp only [Bool.not_true, Bool.false_eq_true, if_false, arp, false_or]
      have listed : ntc.search (frameMac frame place) = some none ↔
          frameMac frame place ∉ ntc.addrs := holds.search_none_iff
      rw [holds.search_eq] at listed ⊢
      cases found : refs.find? (ntc.isMac (frameMac frame place)) with
      | none =>
        have missing := listed.mp (by rw [found])
        simp [missing]
      | some blist =>
        have here : frameMac frame place ∈ ntc.addrs := by
          by_contra missing
          have nothing := listed.mpr missing
          rw [found] at nothing
          cases nothing
        simp [here]

theorem Holds.delBlock_abstract (holds : ntc.Holds refs)
    (done : ntc.delBlock addr = .ok (after, event))
    (first : ntc.addrs.head? = some addr ∨ addr ∉ ntc.addrs) :
    (∃ refs', after.Holds refs') ∧
      listHandle ntc.addrs (.delBlock addr) = (after.addrs, event) := by
  rcases holds.delBlock done with ⟨missing, rfl, rfl⟩ | ⟨front, back, split, outside, kept, dropped, rfl⟩
  · exact ⟨⟨refs, holds⟩, by simp [listHandle, missing]⟩
  · have listed : addr ∈ ntc.addrs := by simp [split]
    have head : ntc.addrs.head? = some addr := first.resolve_right (not_not.mpr listed)
    have erased : back = ntc.addrs.erase addr := by
      rw [split] at head ⊢
      exact (drop_eq_erase_iff outside).mpr head
    exact ⟨kept, by simp [listHandle, listed, dropped, erased]⟩

/-- A step under the condition is one of the list of addresses. -/
theorem Holds.step {label : NtcLabel} (holds : ntc.Holds refs) (step : NtcStep ntc label after)
    (first : ntc.FirstOrUnlisted label.1) :
    (∃ refs', after.Holds refs') ∧ ListStep ntc.addrs label after.addrs := by
  obtain ⟨input, event⟩ := label
  have done : ntc.handle input = .ok (after, event) := step
  cases input with
  | addBlock blist addr =>
    obtain ⟨fresh, rfl, rfl⟩ := addBlock_ok done
    have outside : blist ∉ refs := fun member => fresh (holds.live member)
    refine ⟨⟨_, holds.push outside⟩, ?_⟩
    simp only [ListStep, listHandle, holds.push_addrs outside]
  | delBlock addr => exact holds.delBlock_abstract done first
  | rxUp ofInterest frame =>
    obtain ⟨event', filtered, same⟩ := map_eq_ok.mp done
    cases same
    rw [ntcRxUp, holds.filter_eq] at filtered
    cases filtered
    exact ⟨⟨refs, holds⟩, rfl⟩
  | rxDown ofInterest frame =>
    obtain ⟨event', filtered, same⟩ := map_eq_ok.mp done
    cases same
    rw [ntcRxDown, holds.filter_eq] at filtered
    cases filtered
    exact ⟨⟨refs, holds⟩, rfl⟩

theorem Holds.not_endless (holds : ntc.Holds refs) (input : NtcInput) :
    ntc.handle input ≠ .error .endless := by
  intro failed
  cases input with
  | addBlock blist addr =>
    simp only [handle, Ntc.addBlock] at failed
    split at failed
    · cases failed
    · cases failed
  | delBlock addr =>
    simp only [handle, Ntc.delBlock, holds.search_eq] at failed
    split at failed
    · next spent => cases spent
    · cases failed
    · cases failed
  | rxUp ofInterest frame =>
    simp only [handle, ntcRxUp, holds.filter_eq] at failed
    cases failed
  | rxDown ofInterest frame =>
    simp only [handle, ntcRxDown, holds.filter_eq] at failed
    cases failed

/-- Whatever is deleted, the entries from `blocklist` on are a list. -/
theorem Holds.keep {label : NtcLabel} (holds : ntc.Holds refs) (step : NtcStep ntc label after) :
    ∃ refs', after.Holds refs' := by
  obtain ⟨input, event⟩ := label
  cases input with
  | delBlock addr =>
    rcases holds.delBlock step with ⟨-, rfl, -⟩ | ⟨front, back, -, -, kept, -, -⟩
    · exact ⟨refs, holds⟩
    · exact kept
  | _ => exact (holds.step step trivial).1

/-- A frame passes if its address was added more often than deleted. -/
theorem Holds.frame_passes_iff {place added deleted : Nat} {frame : List UInt8}
    (holds : ntc.Holds refs) (arp : isArp frame = false)
    (count : ntc.addrs.count (frameMac frame place) + deleted = added) :
    ntc.filter place true frame = .ok (if deleted < added then .passed else .blocked) := by
  rw [holds.filter_eq]
  have listed := List.count_pos_iff (a := frameMac frame place) (l := ntc.addrs)
  have same : frameMac frame place ∈ ntc.addrs ↔ deleted < added := by
    rw [← listed]
    omega
  simp [listHandle.frameEvent, arp, same]

/-- A request deletes one entry if and only if that is the first, or the address is not listed. -/
theorem Holds.deletes_one_iff (holds : ntc.Holds refs)
    (done : ntc.delBlock addr = .ok (after, event)) :
    after.addrs = ntc.addrs.erase addr ↔ ntc.FirstOrUnlisted (.delBlock addr) := by
  rcases holds.delBlock done with ⟨missing, rfl, -⟩ | ⟨front, back, split, outside, -, dropped, -⟩
  · exact ⟨fun _ => .inr missing, fun _ => (List.erase_of_not_mem missing).symm⟩
  · have listed : addr ∈ ntc.addrs := by simp [split]
    unfold FirstOrUnlisted
    rw [dropped, split, drop_eq_erase_iff outside, ← split]
    exact ⟨.inl, fun first => first.resolve_right (not_not.mpr listed)⟩

theorem run_holds {labels : List NtcLabel} (run : Run NtcStep init labels ntc) :
    ∃ refs, ntc.Holds refs :=
  run.invariant (motive := fun ntc => ∃ refs, ntc.Holds refs) ⟨[], init_holds⟩
    fun _ _ _ ⟨_, holds⟩ step => holds.keep step

theorem run_simulates {labels : List NtcLabel}
    (run : Run (Under NtcStep fun ntc label => ntc.FirstOrUnlisted label.1) init labels ntc) :
    Run ListStep [] labels ntc.addrs := by
  obtain ⟨target, abstract, -, rfl⟩ := @Run.simulate _ _ _ _ ListStep
    (fun ntc addrs => (∃ refs, ntc.Holds refs) ∧ ntc.addrs = addrs) _ _ _ [] run
    ⟨⟨[], init_holds⟩, rfl⟩
    (by
      rintro ntc label next _ ⟨⟨refs, holds⟩, rfl⟩ ⟨step, first⟩
      obtain ⟨kept, moved⟩ := holds.step step first
      exact ⟨next.addrs, moved, kept, rfl⟩)
  exact abstract

end

end Ntc

section

variable {addrs addrs' : List MacCmp} {label : NtcLabel} {labels : List NtcLabel}

theorem frameEvent_ne_added {place : Nat} {ofInterest : Bool} {frame : List UInt8}
    {addr : MacCmp} : listHandle.frameEvent addrs place ofInterest frame ≠ .added addr := by
  unfold listHandle.frameEvent
  split
  · nofun
  · nofun

theorem frameEvent_ne_deleted {place : Nat} {ofInterest : Bool} {frame : List UInt8}
    {addr : MacCmp} : listHandle.frameEvent addrs place ofInterest frame ≠ .deleted addr := by
  unfold listHandle.frameEvent
  split
  · nofun
  · nofun

theorem ListStep.count (step : ListStep addrs label addrs') (addr : MacCmp) :
    addrs'.count addr + deletions [label] addr = addrs.count addr + additions [label] addr := by
  obtain ⟨input, event⟩ := label
  have done : listHandle addrs input = (addrs', event) := step
  cases input with
  | addBlock blist other =>
    cases done
    by_cases same : other = addr
    · simp [additions, deletions, same]
    · simp [additions, deletions, same]
  | delBlock other =>
    simp only [listHandle] at done
    split at done
    · next listed =>
      cases done
      by_cases same : other = addr
      · subst same
        have positive := List.count_pos_iff.mpr listed
        simp [additions, deletions, List.count_erase_self]
        omega
      · simp [additions, deletions, same, List.count_erase_of_ne (Ne.symm same)]
    · cases done
      simp [additions, deletions]
  | rxUp ofInterest frame =>
    cases done
    simp [additions, deletions, frameEvent_ne_added, frameEvent_ne_deleted]
  | rxDown ofInterest frame =>
    cases done
    simp [additions, deletions, frameEvent_ne_added, frameEvent_ne_deleted]

theorem count_of_run (run : Run ListStep addrs labels addrs') (addr : MacCmp) :
    addrs'.count addr + deletions labels addr = addrs.count addr + additions labels addr := by
  induction run with
  | nil => rfl
  | cons first rest ih => 
    have moved := first.count addr
    simp only [additions, deletions, List.countP_cons, List.countP_nil] at moved ih ⊢
    omega

end

/-- In a run that deletes first or unlisted addresses only, the requests and frames are answered as
by the list of addresses, in which each is as often as it was added and not deleted; and any other
request deletes more than the address. -/
theorem allow_list_is_exact (labels : List NtcLabel) (final : Ntc)
    (run : Run NtcStep Ntc.init labels final) :
    (Run (Under NtcStep fun ntc label => ntc.FirstOrUnlisted label.1) Ntc.init labels final →
      Run ListStep [] labels final.addrs ∧
      (∀ addr, final.addrs.count addr + deletions labels addr = additions labels addr) ∧
      ∀ frame, Ntc.isArp frame = false →
        final.ntcRxUp true frame =
          .ok (if deletions labels (Ntc.frameMac frame 6) < additions labels (Ntc.frameMac frame 6)
            then .passed else .blocked) ∧
        final.ntcRxDown true frame =
          .ok (if deletions labels (Ntc.frameMac frame 0) < additions labels (Ntc.frameMac frame 0)
            then .passed else .blocked)) ∧
    (∀ input, final.handle input ≠ .error .endless) ∧
    ∀ addr event next, NtcStep final (.delBlock addr, event) next →
      (next.addrs = final.addrs.erase addr ↔ final.FirstOrUnlisted (.delBlock addr)) := by
  obtain ⟨refs, holds⟩ := Ntc.run_holds run
  refine ⟨?_, holds.not_endless, fun addr event next step => holds.deletes_one_iff step⟩
  intro guarded
  have simulated := Ntc.run_simulates guarded
  have counts : ∀ addr, final.addrs.count addr + deletions labels addr =
      additions labels addr := by
    intro addr
    simpa using count_of_run simulated addr
  refine ⟨simulated, counts, fun frame arp => ⟨?_, ?_⟩⟩
  · exact holds.frame_passes_iff arp (counts _)
  · exact holds.frame_passes_iff arp (counts _)

/-- A frame from an address, of a type that is not ARP's. -/
def frameFrom (node : UInt8) : List UInt8 := List.replicate 6 0 ++ [node, 0, 0, 0, 0, 0, 8, 0]

/-- Two addresses are added, and the one that was added last is deleted. -/
theorem last_added_is_deleted : ∃ labels final,
    Run (Under NtcStep fun ntc label => ntc.FirstOrUnlisted label.1) Ntc.init labels final ∧
      final.addrs = [⟨1, 0⟩] ∧ deletions labels ⟨2, 0⟩ = 1 ∧
      final.ntcRxUp true (frameFrom 1) = .ok .passed ∧
      final.ntcRxUp true (frameFrom 2) = .ok .blocked := by
  obtain ⟨labels, final, run, seen⟩ := replay_reaches (guarded Ntc.handle Ntc.FirstOrUnlisted)
    Ntc.init [.addBlock 10 ⟨1, 0⟩, .addBlock 20 ⟨2, 0⟩, .delBlock ⟨2, 0⟩, .delBlock ⟨3, 0⟩]
    (fun final labels => decide (final.addrs = [⟨1, 0⟩] ∧
      additions labels ⟨1, 0⟩ = 1 ∧ deletions labels ⟨1, 0⟩ = 0 ∧
      additions labels ⟨2, 0⟩ = 1 ∧ deletions labels ⟨2, 0⟩ = 1))
    true (by decide +kernel)
  have run := run_guarded run
  obtain ⟨addrs, added, deleted, added', deleted'⟩ := of_decide_eq_true seen
  obtain ⟨⟨-, -, frames⟩, -⟩ := (allow_list_is_exact labels final
    (run.mono fun _ _ _ step => step.1)).imp_left (· run)
  refine ⟨labels, final, run, addrs, deleted', ?_, ?_⟩
  · have passed := (frames (frameFrom 1) (by decide +kernel)).1
    rwa [show Ntc.frameMac (frameFrom 1) 6 = ⟨1, 0⟩ by decide +kernel, added, deleted] at passed
  · have passed := (frames (frameFrom 2) (by decide +kernel)).1
    rwa [show Ntc.frameMac (frameFrom 2) 6 = ⟨2, 0⟩ by decide +kernel, added', deleted'] at passed

/-- Deleting the address that was added first cuts off the client that was added behind it. -/
theorem deletion_cuts_off_other : ∃ labels final, Run NtcStep Ntc.init labels final ∧
    additions labels ⟨2, 0⟩ = 1 ∧ deletions labels ⟨2, 0⟩ = 0 ∧ final.addrs = [] ∧
    final.ntcRxUp true (frameFrom 2) = .ok .blocked := by
  obtain ⟨labels, final, run, seen⟩ := replay_reaches Ntc.handle Ntc.init
    [.addBlock 10 ⟨1, 0⟩, .addBlock 20 ⟨2, 0⟩, .delBlock ⟨1, 0⟩]
    (fun final labels => decide (additions labels ⟨2, 0⟩ = 1 ∧ deletions labels ⟨2, 0⟩ = 0 ∧
      final.addrs = [] ∧ (final.ntcRxUp true (frameFrom 2)).toOption = some .blocked))
    true (by decide +kernel)
  obtain ⟨added, deleted, empty, blocked⟩ := of_decide_eq_true seen
  refine ⟨labels, final, run, added, deleted, empty, ?_⟩
  cases verdict : final.ntcRxUp true (frameFrom 2) with
  | error fault =>
    rw [verdict] at blocked
    cases blocked
  | ok event =>
    rw [verdict] at blocked
    cases blocked
    rfl

end QNXStuff.NfmNtc
