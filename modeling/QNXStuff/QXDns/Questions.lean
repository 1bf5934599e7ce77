import QNXStuff.QXMail.MxNames
import QNXStuff.QXDns.Cache

/-! The question of a message: a name in its wire form, a type and a class. -/

namespace QNXStuff.QXDns

open Memory
open QXMail (tolower wireLabels short_label)

/-- A question: the labels of its name, and its type and class as they are sent. -/
structure Question where
  labels : List (List UInt8)
  info : List UInt8
  sizes : ∀ label ∈ labels, 0 < label.length ∧ label.length < 64
  words : info.length = 4

namespace Question

def name (question : Question) : List UInt8 := wireLabels question.labels

def wire (question : Question) : List UInt8 := question.name ++ 0 :: question.info

/-- The name, without regard to case, the type and the class are the same. -/
def Same (first second : Question) : Prop :=
  first.labels.map (List.map tolower) = second.labels.map (List.map tolower) ∧
    first.info = second.info

end Question

/-- The question stands behind the header, within the message. -/
structure HasQuestion (pkt : Block) (datalen : Nat) (question : Question) : Prop where
  inside : 12 + question.wire.length ≤ datalen
  here : readBytes pkt 12 question.wire.length = question.wire

/-- Two messages have questions, and these are the same. -/
def SameQuestion (pkt : Block) (datalen : Nat) (pkt' : Block) (datalen' : Nat) : Prop :=
  ∃ question question', HasQuestion pkt datalen question ∧ HasQuestion pkt' datalen' question' ∧
    question.Same question'

/-! ### Texts -/

theorem tolower_ofNat {size : Nat} (short : size < 64) :
    tolower (UInt8.ofNat size) = UInt8.ofNat size := by
  have all : ∀ size < 64, tolower (UInt8.ofNat size) = UInt8.ofNat size := by decide +kernel
  exact all size short

/-- A change of letters that keeps sizes of labels is one of the labels. -/
theorem wireLabels_map {change : UInt8 → UInt8} {labels : List (List UInt8)}
    (keeps : ∀ size < 64, change (UInt8.ofNat size) = UInt8.ofNat size)
    (sizes : ∀ label ∈ labels, 0 < label.length ∧ label.length < 64) :
    (wireLabels labels).map change = wireLabels (labels.map (List.map change)) := by
  induction labels with
  | nil => rfl
  | cons label labels ih =>
    obtain ⟨short, others⟩ := List.forall_mem_cons.mp sizes
    have rest := ih others
    simp only [wireLabels, List.map_cons, List.flatMap_cons, List.map_append, List.length_map,
      keeps label.length short.2] at rest ⊢
    rw [rest]

/-- Without regard to case, a name in its wire form is that of its labels. -/
theorem wireLabels_tolower {labels : List (List UInt8)}
    (sizes : ∀ label ∈ labels, 0 < label.length ∧ label.length < 64) :
    (wireLabels labels).map tolower = wireLabels (labels.map (List.map tolower)) :=
  wireLabels_map (fun _ => tolower_ofNat) sizes

/-- Texts that are the same without regard to case are found to be. -/
theorem sameText_of_alike {first second : Block} {text text' : List UInt8} {room start : Nat}
    (here : readBytes first start (text.length + 1) = text ++ [0])
    (there : readBytes second start (text'.length + 1) = text' ++ [0])
    (alike : text.map tolower = text'.map tolower) (inside : text.length < room) :
    sameText first second room start = .ok true := by
  induction text generalizing text' room start with
  | nil =>
    have none : text' = [] := List.map_eq_nil_iff.mp alike.symm
    subst none
    obtain ⟨room, rfl⟩ := Nat.exists_eq_succ_of_ne_zero (Nat.ne_of_gt inside)
    have ended : first start = 0 := List.singleton_injective here
    have ended' : second start = 0 := List.singleton_injective there
    rw [sameText, ended, ended', if_neg (not_not.mpr rfl), if_pos rfl]
  | cons byte text ih =>
    cases text' with
    | nil => cases alike
    | cons byte' text' =>
      obtain ⟨room, rfl⟩ := Nat.exists_eq_succ_of_ne_zero (Nat.ne_of_gt (Nat.zero_lt_of_lt inside))
      obtain ⟨head, rest⟩ := List.cons_eq_cons.mp alike
      rw [List.length_cons, readBytes_succ, List.cons_append] at here there
      obtain ⟨this, later⟩ := List.cons_eq_cons.mp here
      obtain ⟨this', later'⟩ := List.cons_eq_cons.mp there
      rw [sameText, this, this', if_neg (not_not.mpr head)]
      by_cases ended : byte = 0
      · rw [if_pos ended]
      · rw [if_neg ended]
        exact ih later later' rest (Nat.lt_of_succ_lt_succ inside)

theorem HasQuestion.name_read {pkt : Block} {datalen : Nat} {question : Question}
    (asks : HasQuestion pkt datalen question) :
    readBytes pkt 12 (question.name.length + 1) = question.name ++ [0] := by
  have whole := asks.here
  have split : question.wire = (question.name ++ [0]) ++ question.info := by
    rw [Question.wire, List.append_assoc]
    rfl
  rw [split] at whole
  have name := (readBytes_eq_append.mp whole).1
  rwa [List.length_append, List.length_singleton] at name

theorem HasQuestion.name_length {pkt : Block} {datalen : Nat} {question : Question}
    (asks : HasQuestion pkt datalen question) : question.name.length + 17 ≤ datalen := by
  have inside := asks.inside
  rw [Question.wire, List.length_append, List.length_cons, question.words] at inside
  omega

/-- The labels can be told from what is sent. -/
theorem wireLabels_unique {labels labels' : List (List UInt8)} {rest rest' : List UInt8}
    (sizes : ∀ label ∈ labels, 0 < label.length ∧ label.length < 64)
    (sizes' : ∀ label ∈ labels', 0 < label.length ∧ label.length < 64)
    (same : wireLabels labels ++ 0 :: rest = wireLabels labels' ++ 0 :: rest') :
    labels = labels' ∧ rest = rest' := by
  induction labels generalizing labels' with
  | nil =>
    cases labels' with
    | nil => exact ⟨rfl, (List.cons_eq_cons.mp same).2⟩
    | cons label' labels' =>
      obtain ⟨some, short⟩ := sizes' label' List.mem_cons_self
      have ended : 0 = UInt8.ofNat label'.length := (List.cons_eq_cons.mp same).1
      exact absurd ended.symm (short_label some short).2.1
  | cons label labels ih =>
    obtain ⟨some, short⟩ := sizes label List.mem_cons_self
    obtain ⟨_, filled, size⟩ := short_label some short
    cases labels' with
    | nil =>
      have ended : UInt8.ofNat label.length = 0 := (List.cons_eq_cons.mp same).1
      exact absurd ended filled
    | cons label' labels' =>
      obtain ⟨some', short'⟩ := sizes' label' List.mem_cons_self
      obtain ⟨_, _, size'⟩ := short_label some' short'
      have split : UInt8.ofNat label.length :: (label ++ (wireLabels labels ++ 0 :: rest)) =
          UInt8.ofNat label'.length :: (label' ++ (wireLabels labels' ++ 0 :: rest')) := by
        simpa [wireLabels] using same
      obtain ⟨head, tail⟩ := List.cons_eq_cons.mp split
      have length : label.length = label'.length := by rw [← size, ← size', head]
      obtain ⟨rfl, behind⟩ := List.append_inj tail length
      obtain ⟨rfl, rfl⟩ := ih (List.forall_mem_cons.mp sizes).2 (List.forall_mem_cons.mp sizes').2
        behind
      exact ⟨rfl, rfl⟩

theorem HasQuestion.unique {pkt : Block} {datalen : Nat} {question question' : Question}
    (asks : HasQuestion pkt datalen question) (asks' : HasQuestion pkt datalen question') :
    question.labels = question'.labels ∧ question.info = question'.info := by
  have whole (question : Question) (asks : HasQuestion pkt datalen question) :
      ∃ more, readBytes pkt 12 datalen =
        wireLabels question.labels ++ 0 :: (question.info ++ more) := by
    have inside := asks.inside
    have size : datalen = question.wire.length + (datalen - question.wire.length) := by omega
    refine ⟨readBytes pkt (12 + question.wire.length) (datalen - question.wire.length), ?_⟩
    rw [size, readBytes_append, asks.here, Nat.add_sub_cancel_left]
    simp [Question.wire, Question.name]
  obtain ⟨more, first⟩ := whole question asks
  obtain ⟨more', second⟩ := whole question' asks'
  obtain ⟨labels, rest⟩ := wireLabels_unique question.sizes question'.sizes (first.symm.trans second)
  exact ⟨labels, (List.append_inj rest (question.words.trans question'.words.symm)).1⟩

theorem SameQuestion.sameText {pkt pkt' : Block} {datalen datalen' : Nat}
    (same : SameQuestion pkt datalen pkt' datalen') (fits : datalen ≤ 512) :
    QXDns.sameText pkt pkt' 500 12 = .ok true := by
  obtain ⟨question, question', asks, asks', labels, _⟩ := same
  have inside := asks.name_length
  refine sameText_of_alike asks.name_read asks'.name_read ?_ (by omega)
  rw [Question.name, Question.name, wireLabels_tolower question.sizes,
    wireLabels_tolower question'.sizes, labels]

end QNXStuff.QXDns
