import QNXStuff.Library.Fuel
import QNXStuff.Library.Memory
import QNXStuff.QXMail.Text

/-! The names of the master database: how they are stored, compared with the name of a query, and
printed into its packet. -/

namespace QNXStuff.QXDns

open Execution Memory
open QXMail (toupper)

/-- A name does not fit its array, something is written behind the 512 bytes of a packet, or a loop is
not done yet. -/
inductive MasterFault where
  | overflow
  | outside
  | spent
  deriving DecidableEq

/-! ### Storing a name -/

/-- `while(dst[j] != 0)`, over what `dst` has of the name from `j` on: `dst` and `i` and `j` behind the
loop. It writes in front of `j` only. -/
def rcpyLoop : List UInt8 → List UInt8 → (i j : Nat) → List UInt8 × Nat × Nat
  | [], dst, i, j => (dst, i, j)
  | byte :: rest, dst, i, j =>
    if byte = 46 then rcpyLoop rest (dst.set i (UInt8.ofNat (j - i - 1))) j (j + 1)
    else rcpyLoop rest dst i (j + 1)

/-- `rcpy_string`, for an array of that size. The string ends with its zero. -/
def rcpyString (size : Nat) (src : List UInt8) : Except MasterFault (List UInt8) :=
  if src.length + 2 ≤ size then
    let (dst, i, j) := rcpyLoop src (0 :: src ++ [0]) 0 1
    let length := UInt8.ofNat (j - i - 1)
    .ok (dst.set i (if length = 0 then 0xC0 else length))
  else .error .overflow

/-! ### Comparing names -/

/-- `qi`, `ni`, `cstr` and `*zone_ptr` -/
structure Comparing where
  qi : Nat
  ni : Nat
  cstr : List UInt8
  zonePtr : UInt16

/-- One turn of `while(1)`. An array is zero behind its string. -/
def rcmpTurn (qname : Block) (zname : List UInt8) (state : Comparing) :
    Except MasterFault (Pass Comparing (Bool × UInt16)) :=
  let queried := qname state.qi
  let stored := state.cstr.getD state.ni 0
  if toupper queried ≠ toupper stored then
    if stored = 0xC0 then
      .ok (.again { state with zonePtr := UInt16.ofNat (state.qi + 12), ni := 0, cstr := zname })
    else .ok (.stop (false, state.zonePtr))
  else if queried = 0 then .ok (.stop (true, state.zonePtr))
  else .ok (.again { state with ni := state.ni + 1, qi := state.qi + 1 })

/-- `rcmp_names`: whether the names match, and `*zone_ptr`. -/
def rcmpNames (qname : Block) (name zname : List UInt8) (fuel : Nat) :
    Except MasterFault (Bool × UInt16) :=
  loop (rcmpTurn qname zname) .spent fuel { qi := 0, ni := 0, cstr := name, zonePtr := 0 }

/-! ### Printing a name -/

/-- What is written to a packet lies in its array. -/
def pktWrite (pkt : Block) (place : Nat) (bytes : List UInt8) : Except MasterFault Block :=
  if place + bytes.length ≤ 512 then .ok (writeBytes pkt place bytes) else .error .outside

theorem pktWrite_eq_ok {pkt next : Block} {place : Nat} {bytes : List UInt8} :
    pktWrite pkt place bytes = .ok next ↔
      place + bytes.length ≤ 512 ∧ next = writeBytes pkt place bytes := by
  unfold pktWrite
  by_cases room : place + bytes.length ≤ 512
  · rw [if_pos room]
    exact ⟨fun done => ⟨room, (Except.ok.inj done).symm⟩, fun done => congrArg _ done.2.symm⟩
  · rw [if_neg room]
    exact ⟨nofun, fun done => absurd done.1 room⟩

/-- `ENDIAN_RET16`, or `ENDIAN_RET32`: the bytes as they are stored, the highest one first. -/
def endianRet (width number : Nat) : List UInt8 := (bytesOf width number).reverse

/-- `last`, `i`, `cstr` and `*zone_ptr`, and the packet. -/
structure Printing where
  pkt : Block
  last : Nat
  i : Nat
  cstr : List UInt8
  zonePtr : UInt16

/-- `while(last < len)`; `buffer` is where the name begins in the packet. -/
def rprtTurn (buffer : Nat) (zname : List UInt8) (len : Int) (state : Printing) :
    Except MasterFault (Pass Printing (Block × Option Nat)) :=
  let byte := state.cstr.getD state.i 0
  if state.last < len then do
    let pkt ← pktWrite state.pkt (buffer + state.last) [byte]
    if byte = 0 then .ok (.stop (pkt, some (buffer + state.last + 1)))
    else if byte = 0xC0 then
      if state.zonePtr ≠ 0 then
        let pkt ← pktWrite pkt (buffer + state.last)
          (endianRet 2 (0xC000 ||| state.zonePtr).toNat)
        .ok (.stop (pkt, some (buffer + state.last + 2)))
      else
        .ok (.again { state with
          pkt := pkt, zonePtr := UInt16.ofNat state.last, cstr := zname, i := 0 })
    else .ok (.again { state with pkt := pkt, last := state.last + 1, i := state.i + 1 })
  else .ok (.stop (state.pkt, none))

/-- `rprt_name`: the packet, and where the printed name ends in it; `none` is NULL. -/
def rprtName (pkt : Block) (buffer : Nat) (name zname : List UInt8) (zonePtr : UInt16) (len : Int)
    (fuel : Nat) : Except MasterFault (Block × Option Nat) :=
  loop (rprtTurn buffer zname len) .spent fuel
    { pkt := pkt, last := 0, i := 0, cstr := name, zonePtr := zonePtr }

/-! ### What is printed -/

/-- The bytes that are printed for what is left of a name, when so many are printed before it. -/
inductive Printed (zname : List UInt8) :
    (rest : List UInt8) → (last : Nat) → (zonePtr : UInt16) → List UInt8 → Prop where
  | ended {rest last zonePtr} (zero : rest.headD 0 = 0) : Printed zname rest last zonePtr [0]
  | pointed {rest last zonePtr} (mark : rest.headD 0 = 0xC0) (known : zonePtr ≠ 0) :
      Printed zname rest last zonePtr (endianRet 2 (0xC000 ||| zonePtr).toNat)
  | zone {rest last bytes} (mark : rest.headD 0 = 0xC0)
      (printed : Printed zname zname last (UInt16.ofNat last) bytes) :
      Printed zname rest last 0 bytes
  | byte {byte rest last zonePtr bytes} (some : byte ≠ 0) (plain : byte ≠ 0xC0)
      (printed : Printed zname rest (last + 1) zonePtr bytes) :
      Printed zname (byte :: rest) last zonePtr (byte :: bytes)

section Printing

variable {pkt : Block} {buffer : Nat} {zname : List UInt8} {len : Int}

theorem Printed.length_pos {rest bytes : List UInt8} {last : Nat} {zonePtr : UInt16}
    (printed : Printed zname rest last zonePtr bytes) : 0 < bytes.length := by
  induction printed with
  | ended _ => exact Nat.one_pos
  | pointed _ _ => exact Nat.two_pos
  | zone _ _ ih => exact ih
  | byte _ _ _ _ => exact Nat.succ_pos _

theorem writeBytes_cons (place : Nat) (byte : UInt8) (bytes : List UInt8) :
    writeBytes (writeBytes pkt place [byte]) (place + 1) bytes =
      writeBytes pkt place (byte :: bytes) :=
  writeBytes_append pkt place [byte] bytes

theorem getD_eq_headD (name : List UInt8) (i : Nat) :
    name.getD i 0 = (name.drop i).headD 0 := by
  rw [List.getD_eq_getElem?_getD, List.headD_eq_head?_getD, List.head?_drop]

theorem drop_eq_cons {name : List UInt8} {i : Nat} {byte : UInt8} (here : name.getD i 0 = byte)
    (some : byte ≠ 0) : name.drop i = byte :: name.drop (i + 1) := by
  have inside : i < name.length := by
    refine Nat.lt_of_not_le fun beyond => some ?_
    rw [← here, List.getD_eq_default _ _ beyond]
  rw [List.drop_eq_getElem_cons inside, ← here, List.getD_eq_getElem _ _ inside]

theorem Printed.ends {rest bytes name : List UInt8} {last i : Nat} {zonePtr : UInt16}
    (printed : Printed zname rest last zonePtr bytes) (here : name.drop i = rest)
    (room : buffer + last + bytes.length ≤ 512) (short : (last : Int) + bytes.length ≤ len) :
    Ends (rprtTurn buffer zname len) ⟨pkt, last, i, name, zonePtr⟩
      (writeBytes pkt (buffer + last) bytes, some (buffer + last + bytes.length)) := by
  have filled := printed.length_pos
  have goes : (last : Int) < len := by omega
  have first (byte : UInt8) : pktWrite pkt (buffer + last) [byte] =
      .ok (writeBytes pkt (buffer + last) [byte]) :=
    if_pos (by rw [List.length_singleton]; omega)
  have next : name.getD i 0 = rest.headD 0 := by rw [getD_eq_headD, here]
  induction printed generalizing name i pkt with
  | @ended rest last zonePtr zero =>
    refine .stop ?_
    simp only [rprtTurn, next, zero, if_pos goes, first, bind, Except.bind, if_true]
    rfl
  | @pointed rest last zonePtr mark known =>
    have rewritten : pktWrite (writeBytes pkt (buffer + last) [0xC0]) (buffer + last)
        (endianRet 2 (0xC000 ||| zonePtr).toNat) =
        .ok (writeBytes pkt (buffer + last) (endianRet 2 (0xC000 ||| zonePtr).toNat)) := by
      rw [pktWrite, if_pos room, writeBytes_over]
      exact Nat.le_succ 1
    refine .stop ?_
    simp only [rprtTurn, next, mark, if_pos goes, first, bind, Except.bind, if_pos known, rewritten,
      if_true]
    rfl
  | @zone rest last bytes mark printed ih =>
    have rest := @ih (writeBytes pkt (buffer + last) [0xC0]) zname 0 rfl room short filled goes
      (fun byte => if_pos (by rw [List.length_singleton]; omega)) (getD_eq_headD zname 0)
    rw [@writeBytes_over pkt (buffer + last) [0xC0] bytes filled] at rest
    refine .again ?_ rest
    simp only [rprtTurn, next, mark, if_pos goes, first, bind, Except.bind, if_true]
    rfl
  | @byte byte rest last zonePtr bytes some plain printed ih =>
    have later : name.drop (i + 1) = rest := by rw [← List.drop_drop, here, List.drop_one]; rfl
    have behind := printed.length_pos
    rw [List.length_cons] at room short
    have rest := @ih (writeBytes pkt (buffer + last) [byte]) name (i + 1) later (by omega) (by omega)
      behind (by omega) (fun byte => if_pos (by rw [List.length_singleton]; omega))
      (by rw [getD_eq_headD, later])
    rw [← Nat.add_assoc buffer, writeBytes_cons] at rest
    have stop : buffer + last + (byte :: bytes).length = buffer + last + 1 + bytes.length := by
      rw [List.length_cons]
      omega
    rw [stop]
    refine .again ?_ rest
    simp only [rprtTurn, next, List.headD_cons, if_pos goes, first, bind, Except.bind, if_neg some,
      if_neg plain]

/-- What one turn can do. -/
inductive Prints (buffer : Nat) (zname : List UInt8) (len : Int) (state : Printing) :
    Pass Printing (Block × Option Nat) → Prop where
  | full (ends : len ≤ state.last) : Prints buffer zname len state (.stop (state.pkt, none))
  | ended (zero : state.cstr.getD state.i 0 = 0) (room : buffer + state.last + 1 ≤ 512) :
      Prints buffer zname len state
        (.stop (writeBytes state.pkt (buffer + state.last) [0], some (buffer + state.last + 1)))
  | pointed (mark : state.cstr.getD state.i 0 = 0xC0) (known : state.zonePtr ≠ 0)
      (room : buffer + state.last + 2 ≤ 512) :
      Prints buffer zname len state
        (.stop (writeBytes state.pkt (buffer + state.last)
          (endianRet 2 (0xC000 ||| state.zonePtr).toNat), some (buffer + state.last + 2)))
  | zone (mark : state.cstr.getD state.i 0 = 0xC0) (unknown : state.zonePtr = 0) :
      Prints buffer zname len state
        (.again ⟨writeBytes state.pkt (buffer + state.last) [0xC0], state.last, 0, zname,
          UInt16.ofNat state.last⟩)
  | byte {byte : UInt8} (here : state.cstr.getD state.i 0 = byte) (some : byte ≠ 0)
      (plain : byte ≠ 0xC0) :
      Prints buffer zname len state
        (.again ⟨writeBytes state.pkt (buffer + state.last) [byte], state.last + 1, state.i + 1,
          state.cstr, state.zonePtr⟩)

theorem rprtTurn_prints {state : Printing} {pass : Pass Printing (Block × Option Nat)}
    (done : rprtTurn buffer zname len state = .ok pass) : Prints buffer zname len state pass := by
  unfold rprtTurn at done
  by_cases goes : (state.last : Int) < len
  · simp only [if_pos goes] at done
    obtain ⟨pkt, written, done⟩ := bind_eq_ok.mp done
    obtain ⟨room, rfl⟩ := pktWrite_eq_ok.mp written
    rcases ite_eq_iff.mp done with ⟨zero, done⟩ | ⟨some, done⟩
    · cases done
      rw [zero]
      exact .ended zero room
    rcases ite_eq_iff.mp done with ⟨mark, done⟩ | ⟨plain, done⟩
    · rcases ite_eq_iff.mp done with ⟨known, done⟩ | ⟨unknown, done⟩
      · obtain ⟨pkt, written, done⟩ := bind_eq_ok.mp done
        obtain ⟨room, rfl⟩ := pktWrite_eq_ok.mp written
        cases done
        rw [writeBytes_over]
        · exact .pointed mark known room
        · exact Nat.le_succ 1
      · cases done
        rw [mark]
        exact .zone mark (not_not.mp unknown)
    · cases done
      exact .byte rfl some plain
  · rw [if_neg goes] at done
    cases done
    exact .full (Int.not_lt.mp goes)

theorem printed_of_ends {state : Printing} {result : Block × Option Nat}
    (ends : Ends (rprtTurn buffer zname len) state result) :
    result.2 = none ∨ ∃ bytes, Printed zname (state.cstr.drop state.i) state.last state.zonePtr bytes ∧
      buffer + state.last + bytes.length ≤ 512 ∧
      result = (writeBytes state.pkt (buffer + state.last) bytes,
        some (buffer + state.last + bytes.length)) := by
  induction ends with
  | stop done =>
    cases rprtTurn_prints done with
    | full _ => exact .inl rfl
    | ended zero room => exact .inr ⟨[0], .ended (getD_eq_headD _ _ ▸ zero), room, rfl⟩
    | pointed mark known room => exact .inr ⟨_, .pointed (getD_eq_headD _ _ ▸ mark) known, room, rfl⟩
  | @again state next result done rest ih =>
    cases rprtTurn_prints done with
    | zone mark unknown =>
      rcases ih with none | ⟨bytes, printed, room, same⟩
      · exact .inl none
      · refine .inr ⟨bytes, unknown ▸ .zone (getD_eq_headD _ _ ▸ mark) printed, room, ?_⟩
        rw [same, @writeBytes_over _ _ [0xC0] bytes printed.length_pos]
    | @byte byte here some plain =>
      rcases ih with none | ⟨bytes, printed, room, same⟩
      · exact .inl none
      · refine .inr ⟨byte :: bytes, ?_, ?_, ?_⟩
        · rw [drop_eq_cons here some]
          exact .byte some plain printed
        · rw [List.length_cons, Nat.add_comm bytes.length, ← Nat.add_assoc]
          exact room
        · rw [same, List.length_cons, Nat.add_comm bytes.length, ← Nat.add_assoc]
          simp only [← Nat.add_assoc, writeBytes_cons]

end Printing

end QNXStuff.QXDns
