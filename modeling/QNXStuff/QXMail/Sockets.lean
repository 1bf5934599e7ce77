import Mathlib.Data.List.TakeDrop
import Mathlib.Data.List.Basic

/-! What `recv` makes of the segments in which a byte stream arrives. -/

namespace QNXStuff.QXMail

/-- Bytes that arrive together. -/
abbrev Segment := { bytes : List UInt8 // bytes ≠ [] }

/-- What a peer is going to send, cut as it arrives; after it `recv` fails. -/
abbrev Socket := List Segment

namespace Socket

/-- The byte stream. -/
def bytes (socket : Socket) : List UInt8 := (socket.map Subtype.val).flatten

/-- The rest of the stream and of its cut, past as many bytes. -/
def skip : Nat → Socket → Socket
  | _, [] => []
  | count, segment :: rest =>
    if short : segment.1.length ≤ count then skip (count - segment.1.length) rest
    else ⟨segment.1.drop count, by simpa using Nat.lt_of_not_le short⟩ :: rest

/-- `recv` with room for as many bytes: what has arrived, as far as there is room for it. -/
def recv (socket : Socket) (size : Nat) : Option (List UInt8 × Socket) :=
  match socket with
  | [] => none
  | segment :: _ =>
    if size = 0 then none else some (segment.1.take size, socket.skip (min size segment.1.length))

/-- How far into the stream the segments end. -/
def ends : Socket → List Nat
  | [] => []
  | segment :: rest => segment.1.length :: (ends rest).map (segment.1.length + ·)

variable {socket rest : Socket} {segment : Segment} {count : Nat}

@[simp] theorem bytes_nil : bytes [] = [] := rfl

@[simp] theorem bytes_cons (segment : Segment) (rest : Socket) :
    bytes (segment :: rest) = segment.1 ++ bytes rest := by
  simp [bytes]

theorem segment_pos (segment : Segment) : 0 < segment.1.length :=
  List.length_pos_iff.mpr segment.2

theorem bytes_skip (socket : Socket) (count : Nat) :
    (socket.skip count).bytes = socket.bytes.drop count := by
  induction socket generalizing count with
  | nil => simp [skip]
  | cons segment rest ih =>
    unfold skip
    split
    · next short =>
      rw [ih, bytes_cons, List.drop_append, List.drop_eq_nil_of_le short, List.nil_append]
    · next long =>
      rw [bytes_cons, bytes_cons, List.drop_append_of_le_length (Nat.le_of_not_le long)]

/-- Past its first segment a socket goes on with the next. -/
theorem skip_cons (segment : Segment) (rest : Socket) (count : Nat) :
    skip (segment.1.length + count) (segment :: rest) = rest.skip count := by
  rw [skip, dif_pos (Nat.le_add_right ..), Nat.add_sub_cancel_left]

theorem skip_segment (segment : Segment) (rest : Socket) :
    skip segment.1.length (segment :: rest) = rest := by
  have past := skip_cons segment rest 0
  rw [Nat.add_zero] at past
  rw [past]
  cases rest with
  | nil => rfl
  | cons next rest =>
    have long : ¬ next.1.length ≤ 0 := Nat.not_le.mpr (segment_pos next)
    rw [skip, dif_neg long]
    rfl

/-- No segment ends before the first one does. -/
theorem ends_ge {place : Nat} (ended : place ∈ ends (segment :: rest)) :
    segment.1.length ≤ place := by
  rcases List.mem_cons.mp ended with rfl | later
  · exact Nat.le_refl _
  · obtain ⟨further, -, rfl⟩ := List.mem_map.mp later
    exact Nat.le_add_right ..

end Socket

end QNXStuff.QXMail
