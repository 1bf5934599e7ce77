import Mathlib.Data.List.Nodup
import Mathlib.Data.List.Map2

/-! Entries that are only ever added, each on top of the last: a place stays good, and who searches
from an older top misses the newer entries alone. Entries are found by a key. -/

namespace QNXStuff.Registry

universe u v w

variable {Entry : Type u} {Key : Type v}

/-- The search from a top downwards. -/
def findBelow (hit : Entry → Bool) (entries : List Entry) : Nat → Option Nat
  | 0 => none
  | top + 1 =>
    match entries[top]? with
    | some entry => if hit entry then some top else findBelow hit entries top
    | none => findBelow hit entries top

variable {hit : Entry → Bool} {entries more : List Entry} {top place : Nat} {key : Entry → Key}

theorem findBelow_some (found : findBelow hit entries top = some place) :
    place < top ∧ ∃ entry, entries[place]? = some entry ∧ hit entry = true := by
  induction top with
  | zero => cases found
  | succ top ih =>
    simp only [findBelow] at found
    split at found
    · next entry here =>
      split at found
      · next meets =>
        cases found
        exact ⟨Nat.lt_succ_self _, entry, here, meets⟩
      · obtain ⟨below, entry, there, meets⟩ := ih found
        exact ⟨Nat.lt_succ_of_lt below, entry, there, meets⟩
    · obtain ⟨below, entry, there, meets⟩ := ih found
      exact ⟨Nat.lt_succ_of_lt below, entry, there, meets⟩

theorem findBelow_none (missing : findBelow hit entries top = none) :
    ∀ place < top, ∀ entry, entries[place]? = some entry → hit entry = false := by
  induction top with
  | zero => exact fun place below => absurd below (Nat.not_lt_zero place)
  | succ top ih =>
    simp only [findBelow] at missing
    intro place below entry there
    split at missing
    · next other here =>
      split at missing
      · cases missing
      · next misses =>
        rcases Nat.lt_succ_iff_lt_or_eq.mp below with lower | rfl
        · exact ih missing place lower entry there
        · rw [here] at there
          cases there
          exact Bool.eq_false_iff.mpr misses
    · next here =>
      rcases Nat.lt_succ_iff_lt_or_eq.mp below with lower | rfl
      · exact ih missing place lower entry there
      · rw [here] at there
        cases there

/-- Entries of different keys, at two places. -/
theorem place_unique (apart : (entries.map key).Nodup) {other : Nat} {first second : Entry}
    (here : entries[place]? = some first) (there : entries[other]? = some second)
    (same : key first = key second) : place = other := by
  have inside : place < (entries.map key).length := by
    rw [List.length_map]
    exact (List.getElem?_eq_some_iff.mp here).1
  refine (List.getElem?_inj inside apart).mp ?_
  rw [List.getElem?_map, List.getElem?_map, here, there, Option.map_some, Option.map_some, same]

/-- An entry of a key that is missing is added. -/
theorem nodup_added (apart : (entries.map key).Nodup) {entry : Entry}
    (missing : key entry ∉ entries.map key) : ((entries ++ [entry]).map key).Nodup := by
  rw [List.map_append, List.map_singleton]
  refine List.nodup_append.mpr ⟨apart, List.nodup_singleton _, ?_⟩
  intro old inside new last
  rw [List.mem_singleton.mp last]
  exact fun same => missing (same ▸ inside)

/-- An entry is changed and keeps its key. -/
theorem keys_modify {change : Entry → Entry} (keeps : ∀ entry, key (change entry) = key entry) :
    (entries.modify place change).map key = entries.map key := by
  refine List.ext_getElem? fun other => ?_
  rw [List.getElem?_map, List.getElem?_map, List.getElem?_modify]
  cases entries[other]? with
  | none => rfl
  | some entry =>
    by_cases here : place = other
    · simp [here, keeps]
    · simp [here]

theorem of_modify {change : Entry → Entry} {other : Nat} {entry : Entry}
    (there : (entries.modify place change)[other]? = some entry) :
    ∃ before, entries[other]? = some before ∧ entry = if other = place then change before else before := by
  rw [List.getElem?_modify] at there
  cases here : entries[other]? with
  | none =>
    rw [here] at there
    cases there
  | some before =>
    rw [here] at there
    cases there
    refine ⟨before, rfl, ?_⟩
    show (if place = other then change before else before) = _
    simp only [eq_comm]

section Latest

variable {Label : Type u} {Note : Type v}

/-- The last of what the labels so far note down. -/
def latest (note : Label → Option Note) (past : List Label) : Option Note :=
  (past.filterMap note).getLast?

variable {note : Label → Option Note} {past : List Label} {label : Label}

theorem latest_snoc : latest note (past ++ [label]) = (note label).or (latest note past) := by
  unfold latest
  rw [List.filterMap_append, List.getLast?_append]
  cases noted : note label with
  | none => simp [noted]
  | some value => simp [noted]

theorem latest_snoc_none (silent : note label = none) : latest note (past ++ [label]) = latest note past := by
  rw [latest_snoc, silent, Option.none_or]

theorem latest_drop (silent : note label = none) (behind : List Label) :
    latest note (past ++ [label] ++ behind) = latest note (past ++ behind) := by
  unfold latest
  simp [List.filterMap_append, silent]

theorem latest_snoc_some {value : Note} (noted : note label = some value) :
    latest note (past ++ [label]) = some value := by
  rw [latest_snoc, noted, Option.some_or]

end Latest

end QNXStuff.Registry
