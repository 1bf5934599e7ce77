import QNXStuff.Library.Splitting
import QNXStuff.QXMail.MxNames

/-! The answer to an MX question: when the loops that decode it end within the datagram and within
`rname`, and when the targets are the exchanges. -/

namespace QNXStuff.QXMail

open Execution Splitting

/-! ### Decoding -/

/-- `while(*here) here++`, over what the datagram has from there. -/
def skipQuery : List UInt8 → (here : Nat) → Except DecodeFault Nat
  | [], _ => .error .beyond
  | byte :: rest, here => if byte = 0 then .ok here else skipQuery rest (here + 1)

/-- "skip the ZONE section in the answer": every byte is looked at, also those of labels. -/
def skipZone : List UInt8 → (here : Nat) → Except DecodeFault Nat
  | [], _ => .error .beyond
  | byte :: rest, here =>
    if byte &&& 0xc0 = 0xc0 then .ok (here + 2)
    else if byte = 0 then .ok (here + 1)
    else skipZone rest (here + 1)

/-- An answer of any type: where the next one is looked for, and the name in it. -/
def decodeRecord (message : List UInt8) (fuel here : Nat) :
    Except DecodeFault (Nat × List UInt8) := do
  let start ← skipZone (message.drop here) here
  let length ← readWord message (start + 8)
  let rname ← decodeName message fuel (start + 12)
  .ok (start + 12 + length - 2, rname)

/-- "read all available answers"; `targets` is a stack. -/
def decodeRecords (message : List UInt8) (fuel : Nat) :
    (ancount here : Nat) → (targets : List (List UInt8)) → Except DecodeFault (List (List UInt8))
  | 0, _, targets => .ok targets
  | ancount + 1, here, targets => do
    let (here, rname) ← decodeRecord message fuel here
    decodeRecords message fuel ancount here (rname :: targets)

/-- "analize the answer" -/
def decodeAnswer (message rcptDomain : List UInt8) (fuel : Nat) :
    Except DecodeFault (List (List UInt8)) := do
  let ancount ← readWord message 6
  if ancount = 0 then .ok [rcptDomain.drop 1]
  else
    let here ← skipQuery (message.drop 12) 12
    decodeRecords message fuel ancount (here + 5) []

/-! ### What is in a datagram -/

/-- The labels that are met from one place to another, also through pointers. -/
inductive NamePath (message : List UInt8) : Nat → List (List UInt8) → Nat → Prop where
  | done (place : Nat) : NamePath message place [] place
  | pointer {place stop word : Nat} {high : UInt8} {labels : List (List UInt8)}
      (found : message[place]? = some high) (mark : high &&& 0xc0 = 0xc0)
      (target : readWord message place = .ok word)
      (rest : NamePath message (word % 2 ^ 14) labels stop) : NamePath message place labels stop
  | label {place stop : Nat} {k : UInt8} {label behind : List UInt8} {labels : List (List UInt8)}
      (found : message.drop place = k :: (label ++ behind)) (length : label.length = k.toNat)
      (mark : k &&& 0xc0 ≠ 0xc0) (some : k ≠ 0)
      (rest : NamePath message (place + (label.length + 1)) labels stop) :
      NamePath message place (label :: labels) stop

/-- A name that is finite and has, with its dots, fewer than 256 bytes; or a part of it has exactly
as many. -/
def NameFits (message : List UInt8) (place : Nat) : Prop :=
  ∃ labels stop, NamePath message place labels stop ∧
    (message[stop]? = some 0 ∧ (dotted labels).length < 256 ∨ (dotted labels).length = 256)

/-- The first byte from a place that is zero or the mark of a pointer, and what follows it. -/
def ZoneEnds (message : List UInt8) (here start : Nat) : Prop :=
  ∃ text byte rest, message.drop here = text ++ byte :: rest ∧
    (∀ other ∈ text, other &&& 0xc0 ≠ 0xc0 ∧ other ≠ 0) ∧
    (byte &&& 0xc0 = 0xc0 ∧ start = here + text.length + 2 ∨
      byte = 0 ∧ start = here + text.length + 1)

/-- Records that lie in the datagram as far as they are looked at. -/
def RecordsFit (message : List UInt8) : (ancount here : Nat) → Prop
  | 0, _ => True
  | ancount + 1, here => ∃ start length, ZoneEnds message here start ∧
      readWord message (start + 8) = .ok length ∧ NameFits message (start + 12) ∧
      RecordsFit message ancount (start + 12 + length - 2)

/-- A datagram that has a header and as many records as the header says. -/
def Fits (message : List UInt8) : Prop :=
  ∃ ancount, readWord message 6 = .ok ancount ∧ (ancount = 0 ∨
    ∃ text rest, message.drop 12 = text ++ 0 :: rest ∧ 0 ∉ text ∧
      RecordsFit message ancount (12 + text.length + 5))

/-! ### The loop of a name -/

theorem readByte_eq_ok {message : List UInt8} {place : Nat} {byte : UInt8} :
    readByte message place = .ok byte ↔ message[place]? = some byte := by
  unfold readByte
  cases message[place]? with
  | none => simp
  | some found => simp

theorem drop_eq_cons {message : List UInt8} {place : Nat} {byte : UInt8}
    (found : message[place]? = some byte) :
    message.drop place = byte :: message.drop (place + 1) := by
  obtain ⟨inside, same⟩ := List.getElem?_eq_some_iff.mp found
  rw [List.drop_eq_getElem_cons inside, same]

/-- What it has copied is what lies there. -/
theorem copyLabel_eq_ok {message : List UInt8} {k : Nat} {state next : NameState}
    (copied : copyLabel message k state = .ok next) :
    ∃ label rest, message.drop state.i = label ++ rest ∧ label.length = k ∧
      (state.rname.length ≤ 256 → state.rname.length + k ≤ 256) ∧
      next = ⟨state.i + k, state.rname ++ label⟩ := by
  induction k generalizing state with
  | zero =>
    cases copied
    exact ⟨[], _, rfl, rfl, id, by rw [List.append_nil]; rfl⟩
  | succ k ih =>
    rw [copyLabel] at copied
    cases read : readByte message state.i with
    | error fault =>
      rw [read] at copied
      cases copied
    | ok byte =>
      by_cases room : state.rname.length < 256
      · simp only [read, writeByte, if_pos room, bind, Except.bind] at copied
        obtain ⟨label, rest, here, length, within, same⟩ := ih copied
        refine ⟨byte :: label, rest, ?_, congrArg (· + 1) length, ?_, ?_⟩
        · rw [drop_eq_cons (readByte_eq_ok.mp read), here]
          rfl
        · intro _
          rw [List.length_append, List.length_singleton] at within
          omega
        · rw [same, List.append_assoc, Nat.add_assoc, Nat.add_comm 1]
          rfl
      · simp only [read, writeByte, if_neg room, bind, Except.bind] at copied
        cases copied

theorem nameTurn_eq_ok {message : List UInt8} {i : Nat} {rname : List UInt8}
    {pass : Pass NameState (List UInt8)} (turned : nameTurn message ⟨i, rname⟩ = .ok pass)
    (room : rname.length < 256) :
    (∃ high word, message[i]? = some high ∧ high &&& 0xc0 = 0xc0 ∧ readWord message i = .ok word ∧
        pass = .again ⟨word % 2 ^ 14, rname⟩) ∨
      (message[i]? = some 0 ∧ pass = .stop rname) ∨
      ∃ k label rest, message.drop i = k :: (label ++ rest) ∧ label.length = k.toNat ∧
        k &&& 0xc0 ≠ 0xc0 ∧ k ≠ 0 ∧ rname.length + label.length < 256 ∧
        pass = nameGoesOn ⟨i + (label.length + 1), rname ++ label ++ [46]⟩ := by
  unfold nameTurn at turned
  cases read : readByte message i with
  | error fault =>
    simp only [read, bind, Except.bind] at turned
    cases turned
  | ok k =>
    have found := readByte_eq_ok.mp read
    simp only [read, bind, Except.bind] at turned
    by_cases mark : k &&& 0xc0 = 0xc0
    · rw [if_pos mark] at turned
      cases target : readWord message i with
      | error fault =>
        rw [target] at turned
        cases turned
      | ok word =>
        rw [target] at turned
        have same := Except.ok.inj turned
        rw [nameGoesOn, if_pos room] at same
        exact .inl ⟨k, word, found, mark, rfl, same.symm⟩
    · rw [if_neg mark] at turned
      by_cases ended : k = 0
      · rw [if_pos ended] at turned
        subst ended
        exact .inr (.inl ⟨found, (Except.ok.inj turned).symm⟩)
      · rw [if_neg ended] at turned
        cases copied : copyLabel message k.toNat ⟨i + 1, rname⟩ with
        | error fault =>
          rw [copied] at turned
          cases turned
        | ok next =>
          obtain ⟨label, rest, here, length, within, rfl⟩ := copyLabel_eq_ok copied
          rw [copied] at turned
          simp only at turned
          by_cases space : (rname ++ label).length < 256
          · rw [writeByte, if_pos space] at turned
            have same := Except.ok.inj turned
            rw [List.length_append] at space
            refine .inr (.inr ⟨k, label, rest, ?_, length, mark, ended, space, ?_⟩)
            · rw [drop_eq_cons found]
              exact congrArg (k :: ·) here
            · rw [← same, length, Nat.add_assoc, Nat.add_comm 1]
          · rw [writeByte, if_neg space] at turned
            cases turned

theorem nameTurn_pointer {message : List UInt8} {i word : Nat} {rname : List UInt8} {high : UInt8}
    (found : message[i]? = some high) (mark : high &&& 0xc0 = 0xc0)
    (target : readWord message i = .ok word) (room : rname.length < 256) :
    nameTurn message ⟨i, rname⟩ = .ok (.again ⟨word % 2 ^ 14, rname⟩) := by
  simp only [nameTurn, readByte_eq_ok.mpr found, target, bind, Except.bind, if_pos mark, nameGoesOn,
    if_pos room]

theorem nameTurn_root {message : List UInt8} {i : Nat} {rname : List UInt8}
    (found : message[i]? = some 0) : nameTurn message ⟨i, rname⟩ = .ok (.stop rname) := by
  rw [nameTurn, readByte_eq_ok.mpr found]
  rfl

theorem dotted_cons (label : List UInt8) (labels : List (List UInt8)) :
    dotted (label :: labels) = label ++ [46] ++ dotted labels := rfl

theorem dotted_nil_of_length {labels : List (List UInt8)} (none : (dotted labels).length = 0) :
    labels = [] := by
  cases labels with
  | nil => rfl
  | cons label labels =>
    rw [dotted_cons, List.length_append, List.length_append, List.length_singleton] at none
    omega

/-- The loop comes to the end of a path that fits behind what is in `rname`. -/
theorem NamePath.run {message : List UInt8} {i stop : Nat} {labels : List (List UInt8)}
    (path : NamePath message i labels stop) {rname : List UInt8} (room : rname.length < 256)
    (fits : message[stop]? = some 0 ∧ rname.length + (dotted labels).length < 256 ∨
      rname.length + (dotted labels).length = 256) :
    ∃ fuel, loop (nameTurn message) .spent fuel ⟨i, rname⟩ = .ok (rname ++ dotted labels) := by
  induction path generalizing rname with
  | done place =>
    have nothing : (dotted []).length = 0 := rfl
    rcases fits with ⟨ended, _⟩ | full
    · refine ⟨1, ?_⟩
      rw [loop, nameTurn_root ended]
      exact congrArg Except.ok (List.append_nil rname).symm
    · omega
  | pointer found mark target rest ih =>
    obtain ⟨fuel, done⟩ := ih room fits
    refine ⟨fuel + 1, ?_⟩
    rw [loop, nameTurn_pointer found mark target room]
    exact done
  | @label place stop k label behind labels found length mark some rest ih =>
    rw [dotted_cons, List.length_append, List.length_append, List.length_singleton] at fits
    have turn := @nameTurn_label _ _ _ _ _ rname found length mark some (by omega)
    have size : (rname ++ label ++ [46]).length = rname.length + label.length + 1 := by
      rw [List.length_append, List.length_append, List.length_singleton]
    by_cases goes : (rname ++ label ++ [46]).length < 256
    · have later := fits.imp
        (fun ended => And.intro ended.1
          (show (rname ++ label ++ [46]).length + (dotted labels).length < 256 by omega))
        (fun full => show (rname ++ label ++ [46]).length + (dotted labels).length = 256 by omega)
      obtain ⟨fuel, done⟩ := ih goes later
      refine ⟨fuel + 1, ?_⟩
      rw [loop, turn, nameGoesOn, if_pos goes]
      simp only [done]
      rw [dotted_cons, ← List.append_assoc, ← List.append_assoc]
    · have last : labels = [] := dotted_nil_of_length (by omega)
      subst last
      refine ⟨1, ?_⟩
      rw [loop, turn, nameGoesOn, if_neg goes]
      exact congrArg Except.ok (by rw [dotted_cons, ← List.append_assoc, ← List.append_assoc]; simp [dotted])

/-- Where the loop ends there was such a path. -/
theorem path_of_run {message : List UInt8} {fuel i : Nat} {rname result : List UInt8}
    (room : rname.length < 256)
    (done : loop (nameTurn message) .spent fuel ⟨i, rname⟩ = .ok result) :
    ∃ labels stop, NamePath message i labels stop ∧
      (message[stop]? = some 0 ∧ rname.length + (dotted labels).length < 256 ∨
        rname.length + (dotted labels).length = 256) := by
  induction fuel generalizing i rname with
  | zero => cases done
  | succ fuel ih =>
    rw [loop] at done
    cases turned : nameTurn message ⟨i, rname⟩ with
    | error fault =>
      rw [turned] at done
      cases done
    | ok pass =>
      rw [turned] at done
      rcases nameTurn_eq_ok turned room with ⟨high, word, found, mark, target, rfl⟩ |
        ⟨found, rfl⟩ | ⟨k, label, rest, found, length, mark, some, within, rfl⟩
      · obtain ⟨labels, stop, path, fits⟩ := ih room done
        exact ⟨labels, stop, .pointer found mark target path, fits⟩
      · exact ⟨[], i, .done i, .inl ⟨found, room⟩⟩
      · have size : (rname ++ label ++ [46]).length = rname.length + label.length + 1 := by
          rw [List.length_append, List.length_append, List.length_singleton]
        by_cases goes : (rname ++ label ++ [46]).length < 256
        · rw [nameGoesOn, if_pos goes] at done
          obtain ⟨labels, stop, path, fits⟩ := ih goes done
          refine ⟨label :: labels, stop, .label found length mark some path, ?_⟩
          rw [dotted_cons, List.length_append, List.length_append, List.length_singleton]
          exact fits.imp (fun ended => ⟨ended.1, by omega⟩) fun full => by omega
        · refine ⟨[label], _, .label found length mark some (.done _), .inr ?_⟩
          rw [dotted_cons, List.length_append, List.length_append, List.length_singleton]
          have nothing : (dotted []).length = 0 := rfl
          omega

theorem decodeName_ok_iff {message : List UInt8} {i : Nat} :
    (∃ fuel rname, decodeName message fuel i = .ok rname) ↔ NameFits message i := by
  constructor
  · rintro ⟨fuel, rname, done⟩
    obtain ⟨result, done, _⟩ := map_eq_ok.mp done
    obtain ⟨labels, stop, path, fits⟩ := @path_of_run message fuel i [] result (by decide) done
    rw [List.length_nil, Nat.zero_add] at fits
    exact ⟨labels, stop, path, fits⟩
  · rintro ⟨labels, stop, path, fits⟩
    obtain ⟨fuel, done⟩ := @NamePath.run _ _ _ _ path [] (by decide) (by simpa using fits)
    exact ⟨fuel, _, map_eq_ok.mpr ⟨_, done, rfl⟩⟩

/-! ### The records -/

theorem skipQuery_eq_ok {bytes : List UInt8} {here stop : Nat} :
    skipQuery bytes here = .ok stop ↔
      ∃ text rest, bytes = text ++ 0 :: rest ∧ 0 ∉ text ∧ stop = here + text.length := by
  have scanned := @scan_eq_ok _ bytes (· = 0) _ skipQuery (fun _ => 0) (fun _ _ => nofun)
    (fun _ _ _ ended => if_pos ended) (fun _ _ _ filled => if_neg filled) here stop
  rw [scanned]
  constructor
  · rintro ⟨text, _, rest, split, clean, rfl, same⟩
    exact ⟨text, rest, split, fun member => clean 0 member rfl, same⟩
  · rintro ⟨text, rest, split, clean, same⟩
    exact ⟨text, 0, rest, split, fun other member zero => clean (zero ▸ member), rfl, same⟩

theorem skipZone_eq_ok {bytes : List UInt8} {here start : Nat} :
    skipZone bytes here = .ok start ↔ ∃ text byte rest, bytes = text ++ byte :: rest ∧
      (∀ other ∈ text, other &&& 0xc0 ≠ 0xc0 ∧ other ≠ 0) ∧
      (byte &&& 0xc0 = 0xc0 ∧ start = here + text.length + 2 ∨
        byte = 0 ∧ start = here + text.length + 1) := by
  have stops (byte : UInt8) (rest : List UInt8) (here : Nat)
      (ended : byte &&& 0xc0 = 0xc0 ∨ byte = 0) : skipZone (byte :: rest) here =
        .ok (here + if byte &&& 0xc0 = 0xc0 then 2 else 1) := by
    rw [skipZone]
    split
    · rfl
    · next unmarked => rw [if_pos (ended.resolve_left unmarked)]
  have goes (byte : UInt8) (rest : List UInt8) (here : Nat)
      (other : ¬ (byte &&& 0xc0 = 0xc0 ∨ byte = 0)) :
      skipZone (byte :: rest) here = skipZone rest (here + 1) := by
    obtain ⟨unmarked, filled⟩ := not_or.mp other
    rw [skipZone, if_neg unmarked, if_neg filled]
  have scanned := @scan_eq_ok _ bytes _ _ skipZone _ (fun _ _ => nofun) stops goes here start
  rw [scanned]
  refine exists_congr fun text => exists_congr fun byte => exists_congr fun rest =>
    and_congr_right fun _ => and_congr (forall₂_congr fun _ _ => not_or) ?_
  by_cases mark : byte &&& 0xc0 = 0xc0
  · have filled : byte ≠ 0 := fun zero => absurd (zero ▸ mark) (by decide)
    simp [mark, filled]
  · simp [mark]

theorem decodeRecord_eq_ok {message : List UInt8} {fuel here next : Nat} {rname : List UInt8} :
    decodeRecord message fuel here = .ok (next, rname) ↔ ∃ start length,
      skipZone (message.drop here) here = .ok start ∧ readWord message (start + 8) = .ok length ∧
      decodeName message fuel (start + 12) = .ok rname ∧ next = start + 12 + length - 2 := by
  unfold decodeRecord
  cases zone : skipZone (message.drop here) here with
  | error fault => simp [bind, Except.bind]
  | ok start =>
    cases word : readWord message (start + 8) with
    | error fault => simp [bind, Except.bind, word]
    | ok length =>
      cases name : decodeName message fuel (start + 12) with
      | error fault => simp [bind, Except.bind, word, name]
      | ok found => simp [bind, Except.bind, word, name, and_comm, eq_comm]

theorem decodeRecords_succ {message : List UInt8} {fuel ancount here : Nat}
    {before targets : List (List UInt8)} :
    decodeRecords message fuel (ancount + 1) here before = .ok targets ↔ ∃ next rname,
      decodeRecord message fuel here = .ok (next, rname) ∧
      decodeRecords message fuel ancount next (rname :: before) = .ok targets := by
  rw [decodeRecords]
  cases decodeRecord message fuel here with
  | error fault => simp [bind, Except.bind]
  | ok found =>
    obtain ⟨next, rname⟩ := found
    simp [bind, Except.bind]

theorem decodeName_more {message : List UInt8} {fuel more i : Nat} {rname : List UInt8}
    (done : decodeName message fuel i = .ok rname) (enough : fuel ≤ more) :
    decodeName message more i = .ok rname := by
  obtain ⟨result, done, same⟩ := map_eq_ok.mp done
  exact map_eq_ok.mpr ⟨result, loop_more done enough, same⟩

theorem decodeRecord_more {message : List UInt8} {fuel more here next : Nat} {rname : List UInt8}
    (done : decodeRecord message fuel here = .ok (next, rname)) (enough : fuel ≤ more) :
    decodeRecord message more here = .ok (next, rname) := by
  obtain ⟨start, length, zone, word, name, same⟩ := decodeRecord_eq_ok.mp done
  exact decodeRecord_eq_ok.mpr ⟨start, length, zone, word, decodeName_more name enough, same⟩

theorem decodeRecords_more {message : List UInt8} {fuel more ancount here : Nat}
    {before targets : List (List UInt8)}
    (done : decodeRecords message fuel ancount here before = .ok targets) (enough : fuel ≤ more) :
    decodeRecords message more ancount here before = .ok targets := by
  induction ancount generalizing here before with
  | zero => exact done
  | succ ancount ih =>
    obtain ⟨next, rname, first, rest⟩ := decodeRecords_succ.mp done
    exact decodeRecords_succ.mpr ⟨next, rname, decodeRecord_more first enough, ih rest⟩

theorem decodeRecords_ok_iff {message : List UInt8} {ancount here : Nat}
    {before : List (List UInt8)} :
    (∃ fuel targets, decodeRecords message fuel ancount here before = .ok targets) ↔
      RecordsFit message ancount here := by
  induction ancount generalizing here before with
  | zero => exact ⟨fun _ => trivial, fun _ => ⟨0, before, rfl⟩⟩
  | succ ancount ih =>
    constructor
    · rintro ⟨fuel, targets, done⟩
      obtain ⟨next, rname, first, rest⟩ := decodeRecords_succ.mp done
      obtain ⟨start, length, zone, word, name, rfl⟩ := decodeRecord_eq_ok.mp first
      exact ⟨start, length, skipZone_eq_ok.mp zone, word, decodeName_ok_iff.mp ⟨fuel, rname, name⟩,
        ih.mp ⟨fuel, targets, rest⟩⟩
    · rintro ⟨start, length, zone, word, name, rest⟩
      obtain ⟨fuel, rname, name⟩ := decodeName_ok_iff.mpr name
      obtain ⟨fuel', targets, rest⟩ : ∃ fuel' targets, decodeRecords message fuel' ancount
          (start + 12 + length - 2) (rname :: before) = .ok targets := ih.mpr rest
      have first : decodeRecord message fuel here = .ok (start + 12 + length - 2, rname) :=
        decodeRecord_eq_ok.mpr ⟨start, length, skipZone_eq_ok.mpr zone, word, name, rfl⟩
      exact ⟨fuel + fuel', targets, decodeRecords_succ.mpr ⟨_, rname,
        decodeRecord_more first (Nat.le_add_right _ _),
        decodeRecords_more rest (Nat.le_add_left _ _)⟩⟩

theorem decodeAnswer_eq_ok {message rcptDomain : List UInt8} {fuel : Nat}
    {targets : List (List UInt8)} :
    decodeAnswer message rcptDomain fuel = .ok targets ↔ ∃ ancount,
      readWord message 6 = .ok ancount ∧ (ancount = 0 ∧ targets = [rcptDomain.drop 1] ∨
        ancount ≠ 0 ∧ ∃ text rest, message.drop 12 = text ++ 0 :: rest ∧ 0 ∉ text ∧
          decodeRecords message fuel ancount (12 + text.length + 5) [] = .ok targets) := by
  unfold decodeAnswer
  cases counted : readWord message 6 with
  | error fault => simp [bind, Except.bind]
  | ok ancount =>
    simp only [bind, Except.bind, Except.ok.injEq, exists_eq_left']
    by_cases none : ancount = 0
    · simp [none, eq_comm]
    · rw [if_neg none]
      simp only [none, false_and, false_or, ne_eq, not_false_eq_true, true_and]
      cases query : skipQuery (message.drop 12) 12 with
      | error fault =>
        constructor
        · nofun
        · rintro ⟨text, rest, same, clean, -⟩
          rw [skipQuery_eq_ok.mpr ⟨text, rest, same, clean, rfl⟩] at query
          cases query
      | ok here =>
        obtain ⟨text, rest, same, clean, rfl⟩ := skipQuery_eq_ok.mp query
        constructor
        · intro done
          exact ⟨text, rest, same, clean, done⟩
        · rintro ⟨text', rest', same', clean', done⟩
          have other : skipQuery (message.drop 12) 12 = .ok (12 + text'.length) :=
            skipQuery_eq_ok.mpr ⟨text', rest', same', clean', rfl⟩
          rw [query] at other
          rw [Except.ok.inj other]
          exact done

theorem decodeAnswer_more {message rcptDomain : List UInt8} {fuel more : Nat}
    {targets : List (List UInt8)} (done : decodeAnswer message rcptDomain fuel = .ok targets)
    (enough : fuel ≤ more) : decodeAnswer message rcptDomain more = .ok targets := by
  obtain ⟨ancount, counted, none | ⟨some, text, rest, same, clean, done⟩⟩ := decodeAnswer_eq_ok.mp done
  · exact decodeAnswer_eq_ok.mpr ⟨ancount, counted, .inl none⟩
  · exact decodeAnswer_eq_ok.mpr ⟨ancount, counted,
      .inr ⟨some, text, rest, same, clean, decodeRecords_more done enough⟩⟩

/-- The decoding ends well for the datagrams that fit. -/
theorem decodeAnswer_ok_iff {message rcptDomain : List UInt8} :
    (∃ fuel targets, decodeAnswer message rcptDomain fuel = .ok targets) ↔ Fits message := by
  constructor
  · rintro ⟨fuel, targets, done⟩
    obtain ⟨ancount, counted, none | ⟨_, text, rest, same, clean, done⟩⟩ := decodeAnswer_eq_ok.mp done
    · exact ⟨ancount, counted, .inl none.1⟩
    · exact ⟨ancount, counted,
        .inr ⟨text, rest, same, clean, decodeRecords_ok_iff.mp ⟨fuel, targets, done⟩⟩⟩
  · rintro ⟨ancount, counted, fits⟩
    by_cases none : ancount = 0
    · exact ⟨0, _, decodeAnswer_eq_ok.mpr ⟨ancount, counted, .inl ⟨none, rfl⟩⟩⟩
    · obtain ⟨text, rest, same, clean, fits⟩ := fits.resolve_left none
      obtain ⟨fuel, targets, done⟩ : ∃ fuel targets, decodeRecords message fuel ancount
          (12 + text.length + 5) [] = .ok targets := decodeRecords_ok_iff.mpr fits
      exact ⟨fuel, targets, decodeAnswer_eq_ok.mpr
        ⟨ancount, counted, .inr ⟨none, text, rest, same, clean, done⟩⟩⟩

/-! ### Well-formed answers -/

/-- A label as mail domains have them. -/
def PlainLabel (label : List UInt8) : Prop :=
  0 < label.length ∧ label.length < 64 ∧ ∀ byte ∈ label, byte ≠ 0 ∧ byte < 128

/-- Labels that lie one behind the other, from one place to another. -/
inductive LabelsAt (message : List UInt8) : Nat → Nat → Prop where
  | done (place : Nat) : LabelsAt message place place
  | label {place stop : Nat} {label behind : List UInt8} (plain : PlainLabel label)
      (found : message.drop place = UInt8.ofNat label.length :: (label ++ behind))
      (rest : LabelsAt message (place + (label.length + 1)) stop) : LabelsAt message place stop

/-- The name of the owner of a record, and where it ends. -/
def OwnerAt (message : List UInt8) (here start : Nat) : Prop :=
  ∃ stop, LabelsAt message here stop ∧ (message[stop]? = some 0 ∧ start = stop + 1 ∨
    ∃ high, message[stop]? = some high ∧ high &&& 0xc0 = 0xc0 ∧ start = stop + 2)

def ExchangeAt (message : List UInt8) (place : Nat) (labels : List (List UInt8)) : Prop :=
  (∀ label ∈ labels, PlainLabel label) ∧ (dotted labels).length < 255 ∧
    ∃ stop, NamePath message place labels stop ∧ message[stop]? = some 0

/-- The answer records from a place: the exchange of each, if it is an MX record. -/
inductive RecordsAt (message : List UInt8) : Nat → List (Option (List (List UInt8))) → Prop where
  | done (here : Nat) : RecordsAt message here []
  | exchange {here start length : Nat} {labels : List (List UInt8)}
      {records : List (Option (List (List UInt8)))} (owner : OwnerAt message here start)
      (type : readWord message start = .ok 15) (size : readWord message (start + 8) = .ok length)
      (inside : start + 10 + length ≤ message.length)
      (name : ExchangeAt message (start + 12) labels)
      (rest : RecordsAt message (start + 10 + length) records) :
      RecordsAt message here (some labels :: records)
  | other {here start length type : Nat} {records : List (Option (List (List UInt8)))}
      (owner : OwnerAt message here start) (typed : readWord message start = .ok type)
      (differs : type ≠ 15) (size : readWord message (start + 8) = .ok length)
      (inside : start + 10 + length ≤ message.length)
      (rest : RecordsAt message (start + 10 + length) records) :
      RecordsAt message here (none :: records)

/-- A well-formed answer to a question: its header, the question, and the records. -/
structure WellFormedAnswer (message : List UInt8) (records : List (Option (List (List UInt8)))) :
    Prop where
  questions : readWord message 4 = .ok 1
  answers : readWord message 6 = .ok records.length
  content : ∃ stop, LabelsAt message 12 stop ∧ message[stop]? = some 0 ∧
    RecordsAt message (stop + 5) records

def exchangeNames (records : List (Option (List (List UInt8)))) : List (List UInt8) :=
  records.filterMap fun record => record.map fun labels => [46].intercalate labels

/-- What is asked of the decoding of a datagram: it ends, without a read behind the datagram or a
write behind `rname`, and the targets of a well-formed answer are its exchanges. -/
structure DecodedWell (message rcptDomain : List UInt8) : Prop where
  ends : ∃ fuel targets, decodeAnswer message rcptDomain fuel = .ok targets
  targets : ∀ records fuel targets, WellFormedAnswer message records →
    decodeAnswer message rcptDomain fuel = .ok targets → targets.Perm (exchangeNames records)

theorem ascii_unmarked {byte : UInt8} (plain : byte < 128) : byte &&& 0xc0 ≠ 0xc0 := by
  have all : ∀ value < 128, UInt8.ofNat value &&& 0xc0 ≠ 0xc0 := by decide +kernel
  have small : byte.toNat < 128 := UInt8.lt_iff_toNat_lt.mp plain
  have this := all byte.toNat small
  rwa [UInt8.ofNat_toNat] at this

/-- Nothing in plain labels stops the loops that skip names. -/
theorem LabelsAt.text {message : List UInt8} {here stop : Nat} (labels : LabelsAt message here stop) :
    ∃ text, message.drop here = text ++ message.drop stop ∧ stop = here + text.length ∧
      ∀ byte ∈ text, byte &&& 0xc0 ≠ 0xc0 ∧ byte ≠ 0 := by
  induction labels with
  | done place => exact ⟨[], rfl, rfl, nofun⟩
  | @label place stop label behind plain found rest ih =>
    obtain ⟨text, same, length, clean⟩ := ih
    obtain ⟨some, short, ascii⟩ := plain
    refine ⟨UInt8.ofNat label.length :: (label ++ text), ?_, ?_, ?_⟩
    · have behind_eq : message.drop (place + (label.length + 1)) = behind := by
        rw [← List.drop_drop, found, List.drop_succ_cons, List.drop_left]
      rw [found, ← behind_eq, same, List.cons_append, List.append_assoc]
    · rw [length, List.length_cons, List.length_append]
      omega
    · intro byte member
      rcases List.mem_cons.mp member with rfl | member
      · exact ⟨(short_label some short).1, (short_label some short).2.1⟩
      · rcases List.mem_append.mp member with inside | later
        · exact ⟨ascii_unmarked (ascii byte inside).2, (ascii byte inside).1⟩
        · exact clean byte later

theorem OwnerAt.zoneEnds {message : List UInt8} {here start : Nat}
    (owner : OwnerAt message here start) : ZoneEnds message here start := by
  obtain ⟨stop, labels, ending⟩ := owner
  obtain ⟨text, same, rfl, clean⟩ := labels.text
  rcases ending with ⟨found, rfl⟩ | ⟨high, found, mark, rfl⟩
  · exact ⟨text, 0, _, by rw [same, drop_eq_cons found], clean, .inr ⟨rfl, rfl⟩⟩
  · exact ⟨text, high, _, by rw [same, drop_eq_cons found], clean, .inl ⟨mark, rfl⟩⟩

theorem dotted_clean {labels : List (List UInt8)} (plain : ∀ label ∈ labels, PlainLabel label) :
    cstr ([46].intercalate labels) = [46].intercalate labels := by
  refine List.takeWhile_eq_self_iff.mpr fun byte member => bne_iff_ne.mpr ?_
  rw [← dotted_dropLast] at member
  obtain ⟨label, here, inside⟩ := List.mem_flatMap.mp (List.dropLast_subset _ member)
  rcases List.mem_append.mp inside with inside | last
  · exact ((plain label here).2.2 byte inside).1
  · rw [List.mem_singleton.mp last]
    decide

theorem ExchangeAt.decoded {message : List UInt8} {place : Nat} {labels : List (List UInt8)}
    (exchange : ExchangeAt message place labels) :
    ∃ fuel, decodeName message fuel place = .ok ([46].intercalate labels) := by
  obtain ⟨plain, short, stop, path, ended⟩ := exchange
  obtain ⟨fuel, done⟩ := @NamePath.run _ _ _ _ path [] (by decide)
    (.inl ⟨ended, by rw [List.length_nil]; omega⟩)
  refine ⟨fuel, map_eq_ok.mpr ⟨_, done, ?_⟩⟩
  rw [List.nil_append, dotted_dropLast, dotted_clean plain]

theorem decodeRecords_length {message : List UInt8} {fuel ancount here : Nat}
    {before targets : List (List UInt8)}
    (done : decodeRecords message fuel ancount here before = .ok targets) :
    targets.length = ancount + before.length := by
  induction ancount generalizing here before with
  | zero =>
    cases done
    exact (Nat.zero_add _).symm
  | succ ancount ih =>
    obtain ⟨next, rname, _, rest⟩ := decodeRecords_succ.mp done
    rw [ih rest, List.length_cons]
    omega

/-- MX records are decoded to their exchanges, the last one first. -/
theorem RecordsAt.decoded {message : List UInt8} {here : Nat}
    {records : List (Option (List (List UInt8)))} (placed : RecordsAt message here records)
    (all : ∀ record ∈ records, record.isSome) (before : List (List UInt8)) :
    ∃ fuel, decodeRecords message fuel records.length here before =
      .ok ((exchangeNames records).reverse ++ before) := by
  induction placed generalizing before with
  | done here => exact ⟨0, rfl⟩
  | @exchange here start length labels records owner type size inside name rest ih =>
    obtain ⟨fuel, found⟩ := name.decoded
    obtain ⟨fuel', later⟩ := ih (fun record member => all record (List.mem_cons_of_mem _ member))
      ([46].intercalate labels :: before)
    have next : start + 10 + length = start + 12 + length - 2 := by omega
    have first : decodeRecord message fuel here =
        .ok (start + 10 + length, [46].intercalate labels) :=
      decodeRecord_eq_ok.mpr ⟨start, length, skipZone_eq_ok.mpr owner.zoneEnds, size, found, next⟩
    have names : (exchangeNames (some labels :: records)).reverse ++ before =
        (exchangeNames records).reverse ++ [46].intercalate labels :: before := by
      simp [exchangeNames]
    rw [names]
    exact ⟨fuel + fuel', decodeRecords_succ.mpr ⟨_, _,
      decodeRecord_more first (Nat.le_add_right _ _), decodeRecords_more later (Nat.le_add_left _ _)⟩⟩
  | other owner typed differs size inside rest ih =>
    exact absurd (all none List.mem_cons_self) (by decide)

theorem exchangeNames_length_le (records : List (Option (List (List UInt8)))) :
    (exchangeNames records).length ≤ records.length := List.length_filterMap_le _ _

/-- As many names as records: every record has one. -/
theorem exchangeNames_all {records : List (Option (List (List UInt8)))}
    (same : (exchangeNames records).length = records.length) : ∀ record ∈ records, record.isSome := by
  induction records with
  | nil => nofun
  | cons record records ih =>
    have bound := exchangeNames_length_le records
    cases record with
    | none =>
      have fewer : (exchangeNames (none :: records)).length = (exchangeNames records).length := rfl
      rw [fewer, List.length_cons] at same
      omega
    | some labels =>
      have more : (exchangeNames (some labels :: records)).length =
          (exchangeNames records).length + 1 := rfl
      rw [more, List.length_cons] at same
      intro record member
      rcases List.mem_cons.mp member with rfl | member
      · rfl
      · exact ih (Nat.succ.inj same) record member

theorem WellFormedAnswer.records_at {message : List UInt8}
    {records : List (Option (List (List UInt8)))} (formed : WellFormedAnswer message records) :
    ∃ text rest, message.drop 12 = text ++ 0 :: rest ∧ 0 ∉ text ∧
      RecordsAt message (12 + text.length + 5) records := by
  obtain ⟨stop, labels, ended, placed⟩ := formed.content
  obtain ⟨text, same, rfl, clean⟩ := labels.text
  exact ⟨text, _, by rw [same, drop_eq_cons ended], fun member => (clean 0 member).2 rfl, placed⟩

/-- A datagram is decoded well if and only if its records lie in it with names that fit, and it is,
if it is a well-formed answer, one of MX records. -/
theorem answer_decoded_well_iff (message rcptDomain : List UInt8) :
    DecodedWell message rcptDomain ↔ Fits message ∧ ∀ records, WellFormedAnswer message records →
      records ≠ [] ∧ ∀ record ∈ records, record.isSome := by
  constructor
  · rintro ⟨ends, names⟩
    refine ⟨decodeAnswer_ok_iff.mp ends, fun records formed => ?_⟩
    obtain ⟨fuel, targets, done⟩ := ends
    have same := (names records fuel targets formed done).length_eq
    obtain ⟨ancount, counted, ⟨none, rfl⟩ | ⟨some, text, rest, _, _, done⟩⟩ :=
      decodeAnswer_eq_ok.mp done
    · have zero : ancount = records.length :=
        Except.ok.inj (counted.symm.trans formed.answers)
      have bound := exchangeNames_length_le records
      rw [List.length_singleton] at same
      omega
    · have count : ancount = records.length :=
        Except.ok.inj (counted.symm.trans formed.answers)
      have size := decodeRecords_length done
      rw [List.length_nil, Nat.add_zero] at size
      refine ⟨fun none => some ?_, exchangeNames_all ?_⟩
      · rw [count, none]
        rfl
      · rw [← same, size, count]
  · rintro ⟨fits, exchanges⟩
    refine ⟨decodeAnswer_ok_iff.mpr fits, fun records fuel targets formed done => ?_⟩
    obtain ⟨some, all⟩ := exchanges records formed
    obtain ⟨text, rest, question, clean, placed⟩ := formed.records_at
    obtain ⟨fuel', expected⟩ := placed.decoded all []
    have filled : records.length ≠ 0 := fun zero => some (List.length_eq_zero_iff.mp zero)
    have other : decodeAnswer message rcptDomain fuel' = .ok ((exchangeNames records).reverse ++ []) :=
      decodeAnswer_eq_ok.mpr ⟨_, formed.answers, .inr ⟨filled, text, rest, question, clean, expected⟩⟩
    have same : targets = (exchangeNames records).reverse ++ [] :=
      Except.ok.inj ((decodeAnswer_more done (Nat.le_add_right fuel fuel')).symm.trans
        (decodeAnswer_more other (Nat.le_add_left fuel' fuel)))
    rw [same, List.append_nil]
    exact List.reverse_perm _

/-- An answer for `a` with one MX record whose exchange is a pointer to itself. -/
def loopingAnswer : List UInt8 :=
  [0, 2, 129, 128, 0, 1, 0, 1, 0, 0, 0, 0, 1, 97, 0, 0, 15, 0, 1, 192, 12, 0, 15, 0, 1, 0, 0, 0, 60,
    0, 4, 0, 10, 192, 33]

theorem loopingAnswer_spends (fuel : Nat) :
    loop (nameTurn loopingAnswer) .spent fuel ⟨33, []⟩ = .error .spent := by
  induction fuel with
  | zero => rfl
  | succ fuel ih =>
    have turn : nameTurn loopingAnswer ⟨33, []⟩ = .ok (.again ⟨33, []⟩) :=
      @nameTurn_pointer loopingAnswer 33 49185 [] 192 (by decide) (by decide) (by decide) (by decide)
    rw [loop, turn]
    exact ih

/-- The pointer is followed for ever. -/
theorem looping_answer_is_not_decoded : ¬ DecodedWell loopingAnswer (ascii "@a") := by
  rintro ⟨⟨fuel, targets, done⟩, -⟩
  have spent : decodeAnswer loopingAnswer (ascii "@a") fuel = .error .spent := by
    have name : decodeName loopingAnswer fuel 33 = .error .spent := by
      rw [decodeName, loopingAnswer_spends]
      rfl
    have record : decodeRecord loopingAnswer fuel 19 = .error .spent := by
      have zone : skipZone (loopingAnswer.drop 19) 19 = .ok 21 := by decide
      have length : readWord loopingAnswer (21 + 8) = .ok 4 := by decide
      rw [decodeRecord, zone]
      simp only [bind, Except.bind, length, name]
    have counted : readWord loopingAnswer 6 = .ok 1 := by decide
    have query : skipQuery (loopingAnswer.drop 12) 12 = .ok 14 := by decide
    rw [decodeAnswer, counted]
    simp only [bind, Except.bind, query, decodeRecords, record]
    rfl
  rw [spent] at done
  cases done

end QNXStuff.QXMail
