import Mathlib.Data.List.Perm.Subperm
import Mathlib.Data.Set.Card
import Mathlib.Logic.Function.Basic

/-! Clients that hold at most one reference each, and how many hold the same one. -/

namespace QNXStuff.Holding

universe u v

variable {Client : Type u} {Ref : Type v}

def holders (holds : Client → Option Ref) (ref : Ref) : Set Client :=
  {client | holds client = some ref}

section

variable {holds : Client → Option Ref} {client : Client} {ref : Ref}

/-- A reference with one holder is held by nobody else. -/
theorem only_holder (finite : (holders holds ref).Finite) (held : holds client = some ref)
    (single : (holders holds ref).ncard ≤ 1) {other : Client} (held' : holds other = some ref) :
    other = client :=
  (Set.ncard_le_one finite).mp single other held' client held

variable [DecidableEq Client]

theorem holders_leave : holders (Function.update holds client none) ref =
    holders holds ref \ {client} := by
  ext other
  by_cases same : other = client
  · simp [holders, same]
  · simp [holders, same]

/-- A reference that the client does not hold keeps its holders. -/
theorem holders_leave_other (free : holds client ≠ some ref) :
    holders (Function.update holds client none) ref = holders holds ref := by
  rw [holders_leave]
  exact Set.sdiff_singleton_eq_self free

theorem ncard_leave (finite : (holders holds ref).Finite) (held : holds client = some ref) :
    (holders (Function.update holds client none) ref).ncard + 1 = (holders holds ref).ncard := by
  rw [holders_leave]
  exact Set.ncard_sdiff_singleton_add_one held finite

theorem finite_leave (finite : (holders holds ref).Finite) :
    (holders (Function.update holds client none) ref).Finite := by
  rw [holders_leave]
  exact finite.sdiff

theorem holders_take :
    holders (Function.update holds client (some ref)) ref = insert client (holders holds ref) := by
  ext other
  by_cases same : other = client
  · simp [holders, same]
  · simp [holders, same]

theorem holders_take_other (free : holds client = none) {other : Ref} (apart : other ≠ ref) :
    holders (Function.update holds client (some ref)) other = holders holds other := by
  ext another
  by_cases same : another = client
  · simp [holders, same, free, apart.symm]
  · simp [holders, same]

/-- A client that holds nothing takes a reference. -/
theorem ncard_take (finite : (holders holds ref).Finite) (free : holds client = none) :
    (holders (Function.update holds client (some ref)) ref).ncard =
      (holders holds ref).ncard + 1 := by
  rw [holders_take]
  refine Set.ncard_insert_of_notMem (fun held => ?_) finite
  have held : holds client = some ref := held
  rw [free] at held
  cases held

theorem finite_take (finite : (holders holds ref).Finite) :
    (holders (Function.update holds client (some ref)) ref).Finite := by
  rw [holders_take]
  exact finite.insert client

end

/-! What the clients of a list hold, one after the other. -/

section Listed

variable [DecidableEq Client] {clients : List Client} {client : Client}

theorem held_split (member : client ∈ clients) (holds : Client → Option Ref) :
    (clients.filterMap holds).Perm
      ((holds client).toList ++ (clients.erase client).filterMap holds) := by
  refine ((List.perm_cons_erase member).filterMap holds).trans ?_
  cases held : holds client <;> simp [held]

theorem held_update_outside (outside : client ∉ clients) (holds : Client → Option Ref)
    (taken : Option Ref) :
    clients.filterMap (Function.update holds client taken) = clients.filterMap holds := by
  refine List.filterMap_congr fun other member => Function.update_of_ne ?_ ..
  rintro rfl
  exact outside member

theorem held_update (nodup : clients.Nodup) (member : client ∈ clients)
    (holds : Client → Option Ref) (taken : Option Ref) :
    (clients.filterMap (Function.update holds client taken)).Perm
      (taken.toList ++ (clients.erase client).filterMap holds) := by
  have split := held_split member (Function.update holds client taken)
  rwa [Function.update_self, held_update_outside nodup.not_mem_erase] at split

/-- A client that joins without holding anything. -/
theorem held_join (outside : client ∉ clients) (holds : Client → Option Ref) :
    (client :: clients).filterMap (Function.update holds client none) =
      clients.filterMap holds := by
  rw [List.filterMap_cons_none (Function.update_self ..), held_update_outside outside]

theorem held_quit (nodup : clients.Nodup) (member : client ∈ clients)
    {holds : Client → Option Ref} (free : holds client = none) :
    ((clients.erase client).filterMap (Function.update holds client none)).Perm
      (clients.filterMap holds) := by
  have split := held_split member holds
  rw [free] at split
  rw [held_update_outside nodup.not_mem_erase]
  exact split.symm

/-- A client that gives up nothing takes what it is given. -/
theorem held_gain (nodup : clients.Nodup) (member : client ∈ clients)
    (holds : Client → Option Ref) (free : holds client = none) (taken : Option Ref) :
    (clients.filterMap (Function.update holds client taken)).Perm
      (taken.toList ++ clients.filterMap holds) := by
  have split := held_split member holds
  rw [free] at split
  exact (held_update nodup member holds taken).trans (split.symm.append_left _)

end Listed

end QNXStuff.Holding
