import QNXStuff.QXDns.MasterNames
import QNXStuff.QXDns.Questions

/-! When the name of a query matches a stored one. -/

namespace QNXStuff.QXDns

open Execution Memory
open QXMail (toupper wireLabels dotted dottedBefore short_label)

structure QueryName (labels : List (List UInt8)) : Prop where
  sizes : ∀ label ∈ labels, 0 < label.length ∧ label.length < 64
  short : (wireLabels labels).length + 1 ≤ 255

/-- The labels of a name in the configuration: there are some, and they are made of characters
other than the dot, the zero and the byte 0xC0. -/
structure HostName (labels : List (List UInt8)) : Prop where
  some : labels ≠ []
  sizes : ∀ label ∈ labels, 0 < label.length ∧ label.length < 64
  plain : ∀ label ∈ labels, (46 : UInt8) ∉ label ∧ (0 : UInt8) ∉ label ∧ (0xC0 : UInt8) ∉ label

/-- The text of a name, with a dot at the end if it is to be completed. -/
def hostText (labels : List (List UInt8)) (relative : Bool) : List UInt8 :=
  if relative then dotted labels else [46].intercalate labels

def storedName (labels : List (List UInt8)) (relative : Bool) : List UInt8 :=
  wireLabels labels ++ if relative then [0xC0, 0] else [0]

/-- The same labels, without regard to case. -/
def SameLabels (labels labels' : List (List UInt8)) : Prop :=
  labels.map (List.map toupper) = labels'.map (List.map toupper)

instance (labels labels' : List (List UInt8)) : Decidable (SameLabels labels labels') :=
  inferInstanceAs (Decidable (_ = _))

/-! ### Storing -/

section Storing

variable {front behind label : List UInt8} {labels : List (List UInt8)} {hole : UInt8}

def lastLength (state : List UInt8 × Nat × Nat) : List UInt8 :=
  state.1.set state.2.1
    (if UInt8.ofNat (state.2.2 - state.2.1 - 1) = 0 then 0xC0
      else UInt8.ofNat (state.2.2 - state.2.1 - 1))

theorem rcpyString_eq_ok {size : Nat} {src stored : List UInt8} :
    rcpyString size src = .ok stored ↔
      src.length + 2 ≤ size ∧ stored = lastLength (rcpyLoop src (0 :: src ++ [0]) 0 1) := by
  unfold rcpyString
  by_cases fits : src.length + 2 ≤ size
  · rw [if_pos fits]
    exact ⟨fun done => ⟨fits, (Except.ok.inj done).symm⟩, fun done => congrArg _ done.2.symm⟩
  · rw [if_neg fits]
    exact ⟨nofun, fun done => absurd done.1 fits⟩

theorem rcpyLoop_part (dotless : (46 : UInt8) ∉ label) (rest dst : List UInt8) (i j : Nat) :
    rcpyLoop (label ++ rest) dst i j = rcpyLoop rest dst i (j + label.length) := by
  induction label generalizing j with
  | nil => rfl
  | cons byte label ih =>
    have here : byte ≠ 46 := fun dot => dotless (dot ▸ List.mem_cons_self)
    have later : (46 : UInt8) ∉ label := fun member => dotless (List.mem_cons_of_mem _ member)
    rw [List.cons_append, rcpyLoop, if_neg here, ih later, List.length_cons]
    congr 1
    omega

theorem set_middle (front : List UInt8) (hole byte : UInt8) (behind : List UInt8) :
    (front ++ hole :: behind).set front.length byte = front ++ byte :: behind := by
  rw [List.set_append_right _ _ (Nat.le_refl _), Nat.sub_self, List.set_cons_zero]

/-- At a dot the length is put in front of the label. -/
theorem rcpyLoop_label (dotless : (46 : UInt8) ∉ label) (rest : List UInt8) :
    rcpyLoop (label ++ 46 :: rest) (front ++ hole :: (label ++ 46 :: behind)) front.length
        (front.length + 1) =
      rcpyLoop rest ((front ++ UInt8.ofNat label.length :: label) ++ 46 :: behind)
        (front ++ UInt8.ofNat label.length :: label).length
        ((front ++ UInt8.ofNat label.length :: label).length + 1) := by
  have size : front.length + 1 + label.length - front.length - 1 = label.length := by omega
  have length : (front ++ UInt8.ofNat label.length :: label).length =
      front.length + 1 + label.length := by
    rw [List.length_append, List.length_cons]
    omega
  rw [rcpyLoop_part dotless, rcpyLoop, if_pos rfl, size, set_middle, length, List.append_assoc]
  rfl

/-- A name with a dot at its end is marked there. -/
theorem rcpyLoop_dotted (dotless : ∀ label ∈ labels, (46 : UInt8) ∉ label) :
    lastLength (rcpyLoop (dotted labels) (front ++ hole :: (dotted labels ++ [0])) front.length
      (front.length + 1)) = front ++ (wireLabels labels ++ [0xC0, 0]) := by
  induction labels generalizing front hole with
  | nil =>
    have none : front.length + 1 - front.length - 1 = 0 := by omega
    show (front ++ hole :: [0]).set front.length
      (if UInt8.ofNat (front.length + 1 - front.length - 1) = 0 then 0xC0
        else UInt8.ofNat (front.length + 1 - front.length - 1)) = front ++ [0xC0, 0]
    rw [none, set_middle]
    rfl
  | cons label labels ih =>
    obtain ⟨here, others⟩ := List.forall_mem_cons.mp dotless
    have text : dotted (label :: labels) = label ++ 46 :: dotted labels := by
      simp [dotted]
    rw [text, List.append_assoc, List.cons_append, rcpyLoop_label here, ih others]
    simp [wireLabels]

theorem rcpyLoop_absolute (dotless : ∀ other ∈ label :: labels, (46 : UInt8) ∉ other)
    (sizes : ∀ other ∈ label :: labels, 0 < other.length ∧ other.length < 64) :
    lastLength (rcpyLoop (label ++ dottedBefore labels)
      (front ++ hole :: (label ++ dottedBefore labels ++ [0])) front.length (front.length + 1)) =
      front ++ (wireLabels (label :: labels) ++ [0]) := by
  induction labels generalizing label front hole with
  | nil =>
    obtain ⟨some, short⟩ := sizes label List.mem_cons_self
    have filled := (short_label some short).2.1
    have size : front.length + 1 + label.length - front.length - 1 = label.length := by omega
    have ended := rcpyLoop_part (dotless label List.mem_cons_self) []
      (front ++ hole :: (label ++ [0])) front.length (front.length + 1)
    rw [List.append_nil] at ended
    show lastLength (rcpyLoop (label ++ []) (front ++ hole :: (label ++ [] ++ [0])) front.length
      (front.length + 1)) = front ++ (wireLabels [label] ++ [0])
    rw [List.append_nil, ended, rcpyLoop, lastLength]
    dsimp only
    rw [size, if_neg filled, set_middle]
    simp [wireLabels]
  | cons next labels ih =>
    obtain ⟨here, others⟩ := List.forall_mem_cons.mp dotless
    have text : dottedBefore (next :: labels) = 46 :: (next ++ dottedBefore labels) := by
      simp [dottedBefore]
    rw [text, List.append_assoc, List.cons_append, rcpyLoop_label here,
      ih others (List.forall_mem_cons.mp sizes).2]
    simp [wireLabels]

theorem HostName.stored (host : HostName labels) {relative : Bool} {size : Nat}
    {stored : List UInt8} (done : rcpyString size (hostText labels relative) = .ok stored) :
    stored = storedName labels relative := by
  have dotless : ∀ label ∈ labels, (46 : UInt8) ∉ label := fun label member =>
    (host.plain label member).1
  obtain ⟨_, rfl⟩ := rcpyString_eq_ok.mp done
  unfold hostText storedName
  cases relative with
  | true => exact @rcpyLoop_dotted [] labels 0 dotless
  | false =>
    obtain ⟨label, labels, rfl⟩ := List.exists_cons_of_ne_nil host.some
    rw [if_neg Bool.false_ne_true, if_neg Bool.false_ne_true, QXMail.intercalate_cons]
    exact @rcpyLoop_absolute [] label labels 0 dotless host.sizes

end Storing

/-! ### Comparing -/

theorem toupper_ofNat {size : Nat} (short : size < 64) :
    toupper (UInt8.ofNat size) = UInt8.ofNat size := by
  have all : ∀ size < 64, toupper (UInt8.ofNat size) = UInt8.ofNat size := by decide +kernel
  exact all size short

theorem toupper_eq_zero {byte : UInt8} : toupper byte = 0 ↔ byte = 0 := by
  have all : ∀ number < 256, toupper (UInt8.ofNat number) = 0 ↔ UInt8.ofNat number = 0 := by
    decide +kernel
  have this := all byte.toNat byte.toNat_lt
  rwa [UInt8.ofNat_toNat] at this

section Comparing

variable {qname : Block} {zname cstr part rest : List UInt8} {qi ni : Nat} {zonePtr : UInt16}
  {result : Bool × UInt16}

/-- A part of a stored name without its end and without the mark: if the name of the query has it,
what follows is compared, otherwise the names do not match. -/
theorem rcmpTurn_part (plain : ∀ byte ∈ part, byte ≠ 0 ∧ byte ≠ 0xC0)
    (here : cstr.drop ni = part ++ rest)
    (after : (readBytes qname qi part.length).map toupper = part.map toupper →
      Ends (rcmpTurn qname zname) ⟨qi + part.length, ni + part.length, cstr, zonePtr⟩ result)
    (otherwise : (readBytes qname qi part.length).map toupper ≠ part.map toupper →
      result = (false, zonePtr)) :
    Ends (rcmpTurn qname zname) ⟨qi, ni, cstr, zonePtr⟩ result := by
  induction part generalizing qi ni with
  | nil => exact after rfl
  | cons byte part ih =>
    obtain ⟨⟨some, unmarked⟩, others⟩ := List.forall_mem_cons.mp plain
    have stored : cstr.getD ni 0 = byte := by
      rw [getD_eq_headD, here]
      rfl
    have later : cstr.drop (ni + 1) = part ++ rest := by
      rw [← List.drop_drop, here, List.drop_one]
      rfl
    rw [List.length_cons, readBytes_succ, List.map_cons, List.map_cons] at after otherwise
    by_cases same : toupper (qname qi) = toupper byte
    · have queried : qname qi ≠ 0 := fun zero => some (toupper_eq_zero.mp
        (same.symm.trans (toupper_eq_zero.mpr zero)))
      refine .again ?_ (@ih (qi + 1) (ni + 1) others later (fun match' => ?_) fun differ => ?_)
      · simp only [rcmpTurn, stored, same, ne_eq, not_true_eq_false, if_false, if_neg queried]
      · have both := after (List.cons_eq_cons.mpr ⟨same, match'⟩)
        rwa [Nat.add_assoc qi, Nat.add_assoc ni, Nat.add_comm 1]
      · exact otherwise fun both => differ (List.cons_eq_cons.mp both).2
    · have differ := otherwise fun both => same (List.cons_eq_cons.mp both).1
      rw [differ]
      refine .stop ?_
      simp only [rcmpTurn, stored, if_pos same, if_neg unmarked]

theorem rcmpTurn_end (here : cstr.drop ni = [0]) :
    Ends (rcmpTurn qname zname) ⟨qi, ni, cstr, zonePtr⟩ (decide (qname qi = 0), zonePtr) := by
  have stored : cstr.getD ni 0 = 0 := by
    rw [getD_eq_headD, here]
    rfl
  refine .stop ?_
  by_cases zero : qname qi = 0
  · simp only [rcmpTurn, stored, zero, ne_eq, not_true_eq_false, if_false, if_true, decide_true]
  · have differ : toupper (qname qi) ≠ toupper 0 := fun same =>
      zero (toupper_eq_zero.mp (same.trans (toupper_eq_zero.mpr rfl)))
    simp only [rcmpTurn, stored, if_pos differ, decide_eq_false zero]
    exact if_neg (by decide)

theorem rcmpTurn_name (plain : ∀ byte ∈ part, byte ≠ 0 ∧ byte ≠ 0xC0)
    (here : cstr.drop ni = part ++ [0]) :
    Ends (rcmpTurn qname zname) ⟨qi, ni, cstr, zonePtr⟩
      (decide ((readBytes qname qi (part.length + 1)).map toupper = (part ++ [0]).map toupper),
        zonePtr) := by
  have whole : (readBytes qname qi (part.length + 1)).map toupper = (part ++ [0]).map toupper ↔
      (readBytes qname qi part.length).map toupper = part.map toupper ∧
        qname (qi + part.length) = 0 := by
    rw [readBytes_append, List.map_append, List.map_append]
    constructor
    · intro same
      obtain ⟨first, last⟩ := List.append_inj same (by simp)
      exact ⟨first, toupper_eq_zero.mp (List.cons_eq_cons.mp last).1⟩
    · rintro ⟨first, last⟩
      rw [first]
      show _ ++ [toupper (qname (qi + part.length))] = _
      rw [last]
      rfl
  refine rcmpTurn_part plain here (fun same => ?_) fun differ => ?_
  · have behind : cstr.drop (ni + part.length) = [0] := by
      rw [← List.drop_drop, here, List.drop_left' rfl]
    have ended := @rcmpTurn_end qname zname cstr (qi + part.length) _ zonePtr behind
    rwa [decide_eq_decide.mpr (whole.trans (and_iff_right same))]
  · rw [decide_eq_false fun both => differ (whole.mp both).1]

/-- A name with the mark, where the query goes on with a size: the zone is compared from there. -/
theorem rcmpTurn_marked (plain : ∀ byte ∈ part, byte ≠ 0 ∧ byte ≠ 0xC0)
    (here : cstr.drop ni = part ++ [0xC0, 0])
    (sized : (readBytes qname qi part.length).map toupper = part.map toupper →
      toupper (qname (qi + part.length)) ≠ 0xC0)
    (zone : (readBytes qname qi part.length).map toupper = part.map toupper →
      Ends (rcmpTurn qname zname) ⟨qi + part.length, 0, zname, UInt16.ofNat (qi + part.length + 12)⟩
        result)
    (otherwise : (readBytes qname qi part.length).map toupper ≠ part.map toupper →
      result = (false, zonePtr)) :
    Ends (rcmpTurn qname zname) ⟨qi, ni, cstr, zonePtr⟩ result := by
  refine rcmpTurn_part plain here (fun same => ?_) otherwise
  have stored : cstr.getD (ni + part.length) 0 = 0xC0 := by
    rw [getD_eq_headD, ← List.drop_drop, here, List.drop_left' rfl]
    rfl
  have differ : toupper (qname (qi + part.length)) ≠ toupper 0xC0 := sized same
  refine .again ?_ (zone same)
  simp only [rcmpTurn, stored, if_pos differ, if_true]

end Comparing

/-! ### Labels -/

section Labels

variable {qlabels labels labels' : List (List UInt8)} {qname : Block}

theorem wireLabels_append (labels labels' : List (List UInt8)) :
    wireLabels (labels ++ labels') = wireLabels labels ++ wireLabels labels' :=
  List.flatMap_append

theorem wireLabels_toupper (sizes : ∀ label ∈ labels, 0 < label.length ∧ label.length < 64) :
    (wireLabels labels).map toupper = wireLabels (labels.map (List.map toupper)) :=
  wireLabels_map (fun _ => toupper_ofNat) sizes

theorem sizes_toupper (sizes : ∀ label ∈ labels, 0 < label.length ∧ label.length < 64) :
    ∀ label ∈ labels.map (List.map toupper), 0 < label.length ∧ label.length < 64 := by
  intro label member
  obtain ⟨source, present, rfl⟩ := List.mem_map.mp member
  rw [List.length_map]
  exact sizes source present

theorem SameLabels.length (same : SameLabels labels labels')
    (sizes : ∀ label ∈ labels, 0 < label.length ∧ label.length < 64)
    (sizes' : ∀ label ∈ labels', 0 < label.length ∧ label.length < 64) :
    (wireLabels labels).length = (wireLabels labels').length := by
  have upper := congrArg List.length (congrArg wireLabels same)
  rwa [← wireLabels_toupper sizes, ← wireLabels_toupper sizes', List.length_map,
    List.length_map] at upper

/-- Labels that stand in front of what is sent are the first labels of the name. -/
theorem wireLabels_front {rest more : List UInt8}
    (sizes : ∀ label ∈ labels, 0 < label.length ∧ label.length < 64)
    (sizes' : ∀ label ∈ labels', 0 < label.length ∧ label.length < 64)
    (same : wireLabels labels' ++ 0 :: more = wireLabels labels ++ rest) :
    ∃ others, labels' = labels ++ others ∧ rest = wireLabels others ++ 0 :: more := by
  induction labels generalizing labels' with
  | nil => exact ⟨labels', rfl, same.symm⟩
  | cons label labels ih =>
    obtain ⟨⟨some, short⟩, others⟩ := List.forall_mem_cons.mp sizes
    obtain ⟨_, filled, size⟩ := short_label some short
    cases labels' with
    | nil =>
      have ended : 0 = UInt8.ofNat label.length := (List.cons_eq_cons.mp same).1
      exact absurd ended.symm filled
    | cons label' labels' =>
      obtain ⟨⟨some', short'⟩, others'⟩ := List.forall_mem_cons.mp sizes'
      obtain ⟨_, _, size'⟩ := short_label some' short'
      have split : UInt8.ofNat label'.length :: (label' ++ (wireLabels labels' ++ 0 :: more)) =
          UInt8.ofNat label.length :: (label ++ (wireLabels labels ++ rest)) := by
        simpa [wireLabels] using same
      obtain ⟨head, tail⟩ := List.cons_eq_cons.mp split
      have length : label'.length = label.length := by rw [← size', ← size, head]
      obtain ⟨rfl, behind⟩ := List.append_inj tail length
      obtain ⟨later, rfl, ending⟩ := ih others others' behind
      exact ⟨later, rfl, ending⟩

theorem HostName.plain_wire (host : HostName labels) :
    ∀ byte ∈ wireLabels labels, byte ≠ 0 ∧ byte ≠ 0xC0 := by
  intro byte member
  obtain ⟨label, present, inside⟩ := List.mem_flatMap.mp member
  obtain ⟨some, short⟩ := host.sizes label present
  obtain ⟨_, zeroless, markless⟩ := host.plain label present
  rcases List.mem_cons.mp inside with rfl | inside
  · obtain ⟨_, filled, size⟩ := short_label some short
    refine ⟨filled, fun mark => ?_⟩
    rw [mark] at size
    have size : 192 = label.length := size
    omega
  · exact ⟨fun zero => zeroless (zero ▸ inside), fun mark => markless (mark ▸ inside)⟩

/-- What is read from the packet of a query. -/
theorem asked_more (asked : readBytes qname 0 ((wireLabels qlabels).length + 1) =
    wireLabels qlabels ++ [0]) (query : QueryName qlabels) (count : Nat) :
    ∃ more, (readBytes qname 0 count).map toupper ++ (readBytes qname count
        ((wireLabels qlabels).length + 1)).map toupper =
      wireLabels (qlabels.map (List.map toupper)) ++ 0 :: more := by
  refine ⟨(readBytes qname ((wireLabels qlabels).length + 1) count).map toupper, ?_⟩
  have both := readBytes_append qname 0 count ((wireLabels qlabels).length + 1)
  rw [Nat.add_comm count, readBytes_append, asked, Nat.zero_add, Nat.zero_add] at both
  rw [← List.map_append, ← both, List.map_append, List.map_append, wireLabels_toupper query.sizes,
    List.append_assoc]
  rfl

/-- The bytes of the query are those of a name if and only if the labels are the same. -/
theorem asked_iff (asked : readBytes qname 0 ((wireLabels qlabels).length + 1) =
    wireLabels qlabels ++ [0]) (query : QueryName qlabels)
    (sizes : ∀ label ∈ labels, 0 < label.length ∧ label.length < 64) :
    (readBytes qname 0 ((wireLabels labels).length + 1)).map toupper =
      (wireLabels labels ++ [0]).map toupper ↔ SameLabels qlabels labels := by
  have stored : (wireLabels labels ++ [0]).map toupper =
      wireLabels (labels.map (List.map toupper)) ++ [0] := by
    rw [List.map_append, wireLabels_toupper sizes]
    rfl
  constructor
  · intro same
    obtain ⟨more, whole⟩ := asked_more asked query ((wireLabels labels).length + 1)
    rw [same, stored, List.append_assoc] at whole
    exact (wireLabels_unique (sizes_toupper query.sizes) (sizes_toupper sizes) whole.symm).1
  · intro same
    rw [← same.length query.sizes sizes, asked, stored, ← same, List.map_append, wireLabels_toupper query.sizes]
    rfl

/-- Behind labels that the query begins with stands a size, or its end. -/
theorem asked_size (asked : readBytes qname 0 ((wireLabels qlabels).length + 1) =
    wireLabels qlabels ++ [0]) (query : QueryName qlabels)
    (sizes : ∀ label ∈ labels, 0 < label.length ∧ label.length < 64)
    (begins : (readBytes qname 0 (wireLabels labels).length).map toupper =
      (wireLabels labels).map toupper) :
    toupper (qname (wireLabels labels).length) ≠ 0xC0 := by
  obtain ⟨more, whole⟩ := asked_more asked query (wireLabels labels).length
  rw [begins, wireLabels_toupper sizes] at whole
  obtain ⟨others, split, rest⟩ := wireLabels_front (sizes_toupper sizes)
    (sizes_toupper query.sizes) whole.symm
  rw [readBytes_succ, List.map_cons] at rest
  cases others with
  | nil =>
    rw [(List.cons_eq_cons.mp rest).1]
    decide
  | cons label others =>
    have head : toupper (qname (wireLabels labels).length) = UInt8.ofNat label.length :=
      (List.cons_eq_cons.mp rest).1
    have member : label ∈ qlabels.map (List.map toupper) := by
      rw [split]
      exact List.mem_append_right _ List.mem_cons_self
    obtain ⟨some, short⟩ := sizes_toupper query.sizes label member
    obtain ⟨_, _, size⟩ := short_label some short
    rw [head]
    intro mark
    rw [mark] at size
    have size : 192 = label.length := size
    omega

end Labels

/-- A name of a query is compared with a stored one to the end. -/
theorem compared_iff {qlabels nlabels zlabels : List (List UInt8)} {relative : Bool} {qname : Block}
    (query : QueryName qlabels) (host : HostName nlabels) (zone : HostName zlabels)
    (asked : readBytes qname 0 ((wireLabels qlabels).length + 1) = wireLabels qlabels ++ [0]) :
    ∃ matched zonePtr,
      Reaches (rcmpNames qname (storedName nlabels relative) (storedName zlabels false))
        (matched, zonePtr) ∧
      (matched = true ↔ SameLabels qlabels (nlabels ++ if relative then zlabels else [])) ∧
      (matched = true →
        zonePtr.toNat = if relative then 12 + (wireLabels nlabels).length else 0) := by
  cases relative with
  | false =>
    have ends := @rcmpTurn_name qname (storedName zlabels false) (storedName nlabels false)
      (wireLabels nlabels) 0 0 0 host.plain_wire rfl
    refine ⟨_, _, reaches_loop.mpr ends, ?_, fun _ => rfl⟩
    rw [decide_eq_true_iff, if_neg Bool.false_ne_true, List.append_nil]
    exact asked_iff asked query host.sizes
  | true =>
    have sizes : ∀ label ∈ nlabels ++ zlabels, 0 < label.length ∧ label.length < 64 :=
      List.forall_mem_append.mpr ⟨host.sizes, zone.sizes⟩
    have size : (wireLabels (nlabels ++ zlabels)).length + 1 =
        (wireLabels nlabels).length + ((wireLabels zlabels).length + 1) := by
      rw [wireLabels_append, List.length_append, Nat.add_assoc]
    -- the query has the labels of both names if it has those of the host, and behind them the zone's
    have both := asked_iff asked query sizes
    rw [size, readBytes_append, wireLabels_append, List.append_assoc, List.map_append,
      List.map_append, Nat.zero_add] at both
    rw [if_pos rfl, if_pos rfl]
    by_cases begins : (readBytes qname 0 (wireLabels nlabels).length).map toupper =
        (wireLabels nlabels).map toupper
    · have ends := @rcmpTurn_marked qname (storedName zlabels false) (storedName nlabels true)
        (wireLabels nlabels) 0 0 0 _ host.plain_wire rfl
        (fun _ => by rw [Nat.zero_add]; exact asked_size asked query host.sizes begins)
        (fun _ => rcmpTurn_name zone.plain_wire rfl) (fun differ => absurd begins differ)
      rw [Nat.zero_add] at ends
      rw [begins, List.append_cancel_left_eq] at both
      refine ⟨_, _, reaches_loop.mpr ends, by rw [decide_eq_true_iff, both], fun matched => ?_⟩
      have same := both.mp (of_decide_eq_true matched)
      have length := same.length query.sizes sizes
      have short := query.short
      rw [length] at short
      rw [UInt16.toNat_ofNat', Nat.add_comm 12]
      exact Nat.mod_eq_of_lt (by omega)
    · have ends := @rcmpTurn_marked qname (storedName zlabels false) (storedName nlabels true)
        (wireLabels nlabels) 0 0 0 (false, 0) host.plain_wire rfl
        (fun same => absurd same begins) (fun same => absurd same begins) (fun _ => rfl)
      refine ⟨false, 0, reaches_loop.mpr ends, ⟨nofun, fun same => ?_⟩, nofun⟩
      exact absurd (List.append_inj (both.mpr same) (by simp)).1 begins

/-- A name of a query and a stored one are compared to the end, and match if and only if they have
the same labels; then `zone_ptr` tells where the name of the zone begins. -/
theorem rcmp_names_iff {qlabels nlabels zlabels : List (List UInt8)} {relative : Bool}
    {qname : Block} {nsize zsize : Nat} {name zname : List UInt8}
    (query : QueryName qlabels) (host : HostName nlabels) (zone : HostName zlabels)
    (asked : readBytes qname 0 ((wireLabels qlabels).length + 1) = wireLabels qlabels ++ [0])
    (stored : rcpyString nsize (hostText nlabels relative) = .ok name)
    (storedZone : rcpyString zsize (hostText zlabels false) = .ok zname) :
    ∃ matched zonePtr, Reaches (rcmpNames qname name zname) (matched, zonePtr) ∧
      (matched = true ↔ SameLabels qlabels (nlabels ++ if relative then zlabels else [])) ∧
      (matched = true →
        zonePtr.toNat = if relative then 12 + (wireLabels nlabels).length else 0) := by
  rw [host.stored stored, zone.stored storedZone]
  exact compared_iff query host zone asked

/-- A packet from its name on. -/
def queried (bytes : List UInt8) : Block := fun position => bytes.getD position 0

/-- The name www. of the zone x, and a query in other letters. -/
theorem www_matches : ∃ matched zonePtr,
    Reaches (rcmpNames (queried [3, 87, 119, 87, 1, 88, 0]) [3, 119, 119, 119, 0xC0, 0] [1, 120, 0])
      (matched, zonePtr) ∧
      (matched = true ↔ SameLabels [[87, 119, 87], [88]] [[119, 119, 119], [120]]) ∧
      (matched = true → zonePtr.toNat = 16) :=
  @rcmp_names_iff [[87, 119, 87], [88]] [[119, 119, 119]] [[120]] true _ 64 64 _ _
    ⟨by decide, by decide⟩ ⟨by decide, by decide, by decide⟩ ⟨by decide, by decide, by decide⟩
    (by decide) (by decide) (by decide)

/-- A label with the byte 0xC0, in the name of a host or in that of a zone, matches others. -/
theorem marked_labels_match :
    (rcpyString 64 (hostText [[97, 0xC0, 98]] true) = .ok [3, 97, 0xC0, 98, 0xC0, 0] ∧
      rcpyString 64 (hostText [[120]] false) = .ok [1, 120, 0] ∧
      Reaches (rcmpNames (queried [3, 97, 1, 120, 0]) [3, 97, 0xC0, 98, 0xC0, 0] [1, 120, 0])
        (true, 14) ∧
      ¬ SameLabels [[97, 1, 120]] ([[97, 0xC0, 98]] ++ [[120]])) ∧
    rcpyString 64 (hostText [[104]] true) = .ok [1, 104, 0xC0, 0] ∧
      rcpyString 64 (hostText [[97, 0xC0, 1, 98]] false) = .ok [4, 97, 0xC0, 1, 98, 0] ∧
      Reaches (rcmpNames (queried [1, 104, 4, 97, 4, 97, 0xC0, 1, 98, 0]) [1, 104, 0xC0, 0]
        [4, 97, 0xC0, 1, 98, 0]) (true, 16) ∧
      ¬ SameLabels [[104], [97, 4, 97, 0xC0], [98]] ([[104]] ++ [[97, 0xC0, 1, 98]]) := by
  refine ⟨⟨by decide, by decide, ⟨16, by decide⟩, by decide⟩, by decide, by decide, ⟨16, by decide⟩,
    by decide⟩

end QNXStuff.QXDns
