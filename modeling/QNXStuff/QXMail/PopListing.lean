import Mathlib.Algebra.GroupWithZero.Nat
import QNXStuff.QXMail.Pop

/-! When the list of all messages is right and fits into the buffer of the session. -/

namespace QNXStuff.QXMail

/-- A number as it is written. -/
def digits (number : Nat) : List UInt8 :=
  (Nat.toDigits 10 number).map fun char => UInt8.ofNat char.toNat

/-- The messages that are not marked deleted, from a session number on, with their numbers. -/
def numbered (msgs : List MsgEnt) (first : Nat) : List (MsgEnt × Nat) :=
  (msgs.zipIdx first).filter fun entry => !entry.1.del

/-- The line of a message: its number and its size. -/
def scanLine (entry : MsgEnt × Nat) : List UInt8 :=
  digits entry.2 ++ ascii " " ++ digits entry.1.size.toNat ++ ascii "\r\n"

/-- +OK, the lines, and the line with the dot. -/
def scanListing (msgs : List MsgEnt) : List UInt8 :=
  pop3Pos ++ (numbered msgs 1).flatMap scanLine ++ ascii ".\r\n"

/-- The listing is what is sent, and it lies in the buffer. -/
def ListsAll (config : PopConfig) (conn : PopConn) (result : PopResult) : Prop :=
  result = .ok (some conn, ⟨scanListing conn.msgs, none, none, []⟩) ∧
    (scanListing conn.msgs).length ≤ config.bufSize

/-- The buffer has room for +OK, the dot and a zero and for every line, and the sizes are those of
an `int`. -/
structure Listable (config : PopConfig) (msgs : List MsgEnt) : Prop where
  room : 9 + ((numbered msgs 1).map fun entry =>
    (digits entry.2).length + (digits entry.1.size.toNat).length + 3).sum ≤ config.bufSize
  sizes : ∀ entry ∈ numbered msgs 1, entry.1.size.toNat < 2 ^ 31

section Digits

theorem decimalOf_natCast (number : Nat) : decimalOf number = digits number := by
  have text : (toString (number : Int)).toList = Nat.toDigits 10 number := by
    show (Nat.repr number).toList = _
    rw [Nat.repr_eq_ofList_toDigits, String.toList_ofList]
  rw [decimalOf, ascii, text, digits]

theorem digits_head (number : Nat) :
    ∃ digit rest, digits number = digit :: rest ∧ digit ≠ 45 := by
  obtain ⟨char, rest, text⟩ :=
    List.exists_cons_of_ne_nil (Nat.toDigits_ne_nil (n := number) (b := 10))
  have member : char ∈ Nat.toDigits 10 number := by
    rw [text]
    exact List.mem_cons_self
  have digit := Nat.isDigit_of_mem_toDigits (by decide) (by decide) member
  refine ⟨UInt8.ofNat char.toNat, rest.map fun char => UInt8.ofNat char.toNat, ?_, ?_⟩
  · rw [digits, text, List.map_cons]
  · intro minus
    have value : char.toNat % 256 = 45 := congrArg UInt8.toNat minus
    simp only [Char.isDigit, ge_iff_le, Bool.and_eq_true, decide_eq_true_eq,
      UInt32.le_iff_toNat_le] at digit
    have low : 48 ≤ char.toNat := digit.1
    have high : char.toNat ≤ 57 := digit.2
    omega

theorem digits_length_pos (number : Nat) : 0 < (digits number).length := by
  obtain ⟨_, _, text, _⟩ := digits_head number
  rw [text]
  exact Nat.succ_pos _

theorem size_small {size : UInt32} (small : size.toNat < 2 ^ 31) :
    size.toInt32.toInt = size.toNat := by
  have value : size.toInt32.toInt = size.toBitVec.toInt := rfl
  rw [value, BitVec.toInt_eq_toNat_cond]
  exact if_pos (by rw [UInt32.toNat_toBitVec]; omega)

theorem size_large {size : UInt32} (large : 2 ^ 31 ≤ size.toNat) :
    ∃ rest, decimalOf size.toInt32.toInt = 45 :: rest := by
  have value : size.toInt32.toInt = size.toBitVec.toInt := rfl
  have below : size.toInt32.toInt < 0 := by
    have most := size.toNat_lt
    rw [value, BitVec.toInt_eq_toNat_cond, if_neg (by rw [UInt32.toNat_toBitVec]; omega),
      UInt32.toNat_toBitVec]
    omega
  cases read : size.toInt32.toInt with
  | ofNat number =>
    rw [read] at below
    exact absurd below (Int.not_lt.mpr (Int.natCast_nonneg number))
  | negSucc number =>
    refine ⟨(Nat.repr (number + 1)).toList.map fun char => UInt8.ofNat char.toNat, ?_⟩
    have text : (toString (Int.negSucc number)).toList = '-' :: (Nat.repr (number + 1)).toList := by
      show ("-" ++ Nat.repr (number + 1)).toList = _
      rw [String.toList_append]
      rfl
    rw [decimalOf, ascii, text]
    rfl

end Digits

section Lines

variable {msg : MsgEnt} {msgs : List MsgEnt} {first : Nat}

theorem numbered_deleted (del : msg.del = true) :
    numbered (msg :: msgs) first = numbered msgs (first + 1) := by
  rw [numbered, List.zipIdx_cons, List.filter_cons_of_neg]
  · rfl
  · rw [del]
    decide

theorem numbered_listed (del : msg.del = false) :
    numbered (msg :: msgs) first = (msg, first) :: numbered msgs (first + 1) := by
  rw [numbered, List.zipIdx_cons, List.filter_cons_of_pos]
  · rfl
  · rw [del]
    rfl

theorem listingLine_eq (small : msg.size.toNat < 2 ^ 31) :
    listingLine first msg.size = scanLine (msg, first) := by
  rw [listingLine, scanLine, decimalOf_natCast, size_small small, decimalOf_natCast]

/-- The lines that are written are those of the messages if and only if the sizes are not negative. -/
theorem listing_eq_iff : listing first msgs = (numbered msgs first).flatMap scanLine ↔
    ∀ entry ∈ numbered msgs first, entry.1.size.toNat < 2 ^ 31 := by
  induction msgs generalizing first with
  | nil => exact ⟨fun _ => nofun, fun _ => rfl⟩
  | cons msg msgs ih =>
    cases del : msg.del with
    | true =>
      rw [listing, del, if_pos rfl, List.nil_append, numbered_deleted del]
      exact ih
    | false =>
      rw [listing, del, if_neg Bool.false_ne_true, numbered_listed del, List.flatMap_cons,
        List.forall_mem_cons, ← ih]
      by_cases small : msg.size.toNat < 2 ^ 31
      · rw [listingLine_eq small, List.append_cancel_left_eq]
        exact (and_iff_right small).symm
      · refine ⟨fun same => ?_, fun both => absurd both.1 small⟩
        -- behind the number one of them goes on with a sign, the other with a digit
        obtain ⟨rest, sign⟩ := size_large (Nat.le_of_not_lt small)
        obtain ⟨digit, rest', text, unsigned⟩ := digits_head msg.size.toNat
        rw [listingLine, scanLine, decimalOf_natCast, sign, text] at same
        simp only [List.append_assoc, List.append_cancel_left_eq, List.cons_append,
          List.cons.injEq] at same
        exact absurd same.1.symm unsigned

theorem scanListing_length (msgs : List MsgEnt) : (scanListing msgs).length + 1 =
    9 + ((numbered msgs 1).map fun entry =>
      (digits entry.2).length + (digits entry.1.size.toNat).length + 3).sum := by
  have lines : ((numbered msgs 1).flatMap scanLine).length = ((numbered msgs 1).map fun entry =>
      (digits entry.2).length + (digits entry.1.size.toNat).length + 3).sum := by
    rw [List.length_flatMap]
    congr 1
    refine List.map_congr_left fun entry _ => ?_
    simp only [scanLine, List.length_append]
    show _ + 1 + _ + 2 = _
    omega
  rw [scanListing, List.length_append, List.length_append, lines]
  show 5 + _ + 3 + 1 = _
  omega

/-- What is assembled is the listing if and only if the sizes are not negative. -/
theorem listText_eq_iff : listText msgs = scanListing msgs ↔
    ∀ entry ∈ numbered msgs 1, entry.1.size.toNat < 2 ^ 31 := by
  rw [← listing_eq_iff, listText, scanListing, List.append_cancel_right_eq,
    List.append_cancel_left_eq]

theorem listAll_right_iff {config : PopConfig} {conn : PopConn} :
    ListsAll config conn (listAll config conn) ↔ Listable config conn.msgs := by
  unfold ListsAll listAll
  constructor
  · rintro ⟨done, _⟩
    split at done
    · rename_i room
      have same : listText conn.msgs = scanListing conn.msgs := by
        injection done with done
        injection done with _ answer
        injection answer
      rw [same, scanListing_length] at room
      exact ⟨room, listText_eq_iff.mp same⟩
    · cases done
  · rintro ⟨room, sizes⟩
    have same := listText_eq_iff.mpr sizes
    rw [← scanListing_length] at room
    rw [same, if_pos room]
    exact ⟨rfl, Nat.le_of_succ_le room⟩

/-- Every line takes five bytes at least. -/
theorem Listable.few {config : PopConfig} (listable : Listable config msgs) :
    9 + 5 * (numbered msgs 1).length ≤ config.bufSize := by
  have short (entries : List (MsgEnt × Nat)) : 5 * entries.length ≤ (entries.map fun entry =>
      (digits entry.2).length + (digits entry.1.size.toNat).length + 3).sum := by
    induction entries with
    | nil => exact Nat.le_refl 0
    | cons entry entries ih =>
      have number := digits_length_pos entry.2
      have size := digits_length_pos entry.1.size.toNat
      rw [List.length_cons, List.map_cons, List.sum_cons]
      omega
  have lines := short (numbered msgs 1)
  have room := listable.room
  omega

end Lines

section Session

variable {config : PopConfig} {free : Nat → Bool} {conn : PopConn} {read : Received}
  {dir : Option (List DirEntry)} {files : List UInt8 → Option (List UInt8)}

theorem popCommand_listAll (tran : conn.pstate = .tran) (isList : read.command = ascii "LIST")
    (bare : read.buffer[4]? = some 0) :
    popCommand config free conn (.command read dir files) = listAll config conn := by
  simp +decide only [popCommand, isList, if_true, if_false, tran, list, bare]

/-- LIST without a number sends the whole list, within its buffer, if and only if the list has room
there and no size is negative. -/
theorem list_right_iff (tran : conn.pstate = .tran) (isList : read.command = ascii "LIST")
    (bare : read.buffer[4]? = some 0) :
    ListsAll config conn (popCommand config free conn (.command read dir files)) ↔
      Listable config conn.msgs := by
  rw [popCommand_listAll tran isList bare]
  exact listAll_right_iff

end Session

/-! ### A buffer of the default size -/

/-- `alc_buf_size` is `DEF_BUF_SIZE`. -/
def defaultConfig : PopConfig := ⟨[], [], 8192, ⟨fun _ => 0, fun _ _ => none⟩⟩

/-- A session with that many messages without text. -/
def emptyMessages (count : Nat) : PopConn :=
  ⟨none, [], .tran, List.replicate count ⟨false, 0, []⟩, none⟩

def bareList : PopInput := .command ⟨ascii "LIST", []⟩ none fun _ => none

theorem two_messages_are_listed :
    ListsAll defaultConfig (emptyMessages 2)
      (popCommand defaultConfig (fun _ => true) (emptyMessages 2) bareList) ∧
      scanListing (emptyMessages 2).msgs = ascii "+OK\r\n1 0\r\n2 0\r\n.\r\n" :=
  ⟨(list_right_iff rfl (by decide) (by decide)).mpr ⟨by decide, by decide⟩, by decide⟩

theorem many_messages_overflow :
    ¬ ListsAll defaultConfig (emptyMessages 2000)
      (popCommand defaultConfig (fun _ => true) (emptyMessages 2000) bareList) := by
  have read : popCommand defaultConfig (fun _ => true) (emptyMessages 2000) bareList =
      listAll defaultConfig (emptyMessages 2000) := popCommand_listAll rfl (by decide) (by decide)
  rw [read, listAll_right_iff]
  intro listable
  have all : (numbered (emptyMessages 2000).msgs 1).length = 2000 := by
    rw [numbered, List.filter_eq_self.mpr, List.length_zipIdx]
    · exact List.length_replicate
    · intro entry member
      have message := List.fst_mem_of_mem_zipIdx member
      rw [List.eq_of_mem_replicate message]
      rfl
  have few := listable.few
  rw [all] at few
  exact absurd few (by decide)

end QNXStuff.QXMail
