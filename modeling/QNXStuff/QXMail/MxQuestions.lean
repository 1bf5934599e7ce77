import Mathlib.Data.List.Induction
import QNXStuff.Library.Memory
import QNXStuff.QXMail.MxNames

/-! The question that the spooler asks for the mail exchangers of a domain, built where the text of
the domain lies. -/

namespace QNXStuff.QXMail

open Memory Execution

/-! ### The question -/

/-- `while(netbuf[i] != '@')`: backwards over the text, with the length of every label in front of
it in place of its separator. The text begins with the `'@'`, so that 0 is not passed. -/
def markLengths : (i : Nat) → (netbuf : Block) → (j : UInt8) → Block
  | 0, netbuf, j => if netbuf 0 = 64 then writeBytes netbuf 0 [j] else netbuf
  | i + 1, netbuf, j =>
    if netbuf (i + 1) = 64 then writeBytes netbuf (i + 1) [j]
    else if netbuf (i + 1) = 46 then markLengths i (writeBytes netbuf (i + 1) [j]) 0
    else markLengths i netbuf (j + 1)

/-- "add MX question": the buffer and the length of what is sent of it. -/
def buildQuestion (netbuf : Block) (rcptDomain : List UInt8) : Block × Nat :=
  let header := writeBytes netbuf 0 [0, 2, 1, 0, 0, 1, 0, 0, 0, 0, 0, 0]
  let text := writeBytes header 12 (rcptDomain ++ [0])
  let i := 12 + rcptDomain.length - 1
  let marked := markLengths i text 0
  (writeBytes marked (i + 2) [0, 15, 0, 1], i + 2 + 4)

/-- The bytes of `netbuf` that the question for a domain takes, with the `'@'` and the NUL. -/
def questionLength (rcptDomain : List UInt8) : Nat := 12 + rcptDomain.length + 1 + 4

structure MailDomain where
  labels : List (List UInt8)
  some : labels ≠ []
  sizes : ∀ label ∈ labels, 0 < label.length ∧ label.length < 64
  plain : ∀ label ∈ labels, ∀ byte ∈ label, byte ≠ 46 ∧ byte ≠ 64 ∧ byte ≠ 0
  short : ([46].intercalate labels).length < 255

namespace MailDomain

def text (domain : MailDomain) : List UInt8 := [46].intercalate domain.labels

/-- The form in which a domain is sent. -/
def wire (domain : MailDomain) : List UInt8 := wireLabels domain.labels ++ [0]

end MailDomain

/-! ### Backwards over the text -/

theorem markLengths_outside {i place : Nat} (outside : i < place) (netbuf : Block) (j : UInt8) :
    markLengths i netbuf j place = netbuf place := by
  induction i generalizing netbuf j with
  | zero =>
    unfold markLengths
    split
    · exact writeBytes_outside (.inr outside)
    · rfl
  | succ i ih =>
    unfold markLengths
    have less : i < place := Nat.lt_of_succ_lt outside
    split
    · exact writeBytes_outside (.inr outside)
    · split
      · exact (ih less _ 0).trans (writeBytes_outside (.inr outside))
      · exact ih less netbuf (j + 1)

theorem buildQuestion_outside (netbuf : Block) (rcptDomain : List UInt8) :
    (buildQuestion netbuf rcptDomain).2 = questionLength rcptDomain ∧
      ∀ place, questionLength rcptDomain ≤ place →
        (buildQuestion netbuf rcptDomain).1 place = netbuf place := by
  refine ⟨by simp only [buildQuestion, questionLength]; omega, fun place behind => ?_⟩
  unfold questionLength at behind
  have header : 0 + [0, 2, 1, 0, 0, 1, 0, 0, 0, 0, 0, (0 : UInt8)].length ≤ place := by
    simp only [List.length_cons, List.length_nil]
    omega
  have text : 12 + (rcptDomain ++ [0]).length ≤ place := by
    rw [List.length_append, List.length_singleton]
    omega
  have kinds : 12 + rcptDomain.length - 1 + 2 + [0, 15, 0, (1 : UInt8)].length ≤ place := by
    simp only [List.length_cons, List.length_nil]
    omega
  simp only [buildQuestion]
  rw [writeBytes_outside (.inr kinds), markLengths_outside (by omega),
    writeBytes_outside (.inr text), writeBytes_outside (.inr header)]

theorem markLengths_label {netbuf : Block} {base : Nat} {label : List UInt8} (j : UInt8)
    (here : readBytes netbuf (base + 1) label.length = label)
    (plain : ∀ byte ∈ label, byte ≠ 46 ∧ byte ≠ 64) :
    markLengths (base + label.length) netbuf j =
      markLengths base netbuf (j + UInt8.ofNat label.length) := by
  induction label using List.reverseRecOn generalizing j with
  | nil => simp
  | append_singleton label byte ih =>
    obtain ⟨front, last⟩ := readBytes_eq_append.mp here
    have found : netbuf (base + label.length + 1) = byte := by
      have single : readBytes netbuf (base + 1 + label.length) 1 =
          [netbuf (base + label.length + 1)] := by
        rw [Nat.add_right_comm]
        rfl
      exact List.singleton_injective (single.symm.trans last)
    obtain ⟨dot, monkey⟩ := plain byte (List.mem_append_right label List.mem_cons_self)
    have rest := ih (j + 1) front fun other member => plain other (List.mem_append_left _ member)
    rw [List.length_append, List.length_singleton, ← Nat.add_assoc, markLengths, found,
      if_neg monkey, if_neg dot, rest]
    have count : UInt8.ofNat (label.length + 1) = UInt8.ofNat label.length + 1 := by
      simp
    rw [count, UInt8.add_assoc, UInt8.add_comm 1]

/-- The length of a label in front of it. -/
theorem readBytes_writeLength {netbuf : Block} {start : Nat} {label rest : List UInt8}
    (front : readBytes netbuf (start + 1) label.length = label)
    (behind : readBytes netbuf (start + 1 + label.length) rest.length = rest) :
    readBytes (writeBytes netbuf start [UInt8.ofNat label.length]) start
        (1 + (label.length + rest.length)) = UInt8.ofNat label.length :: (label ++ rest) := by
  have length : readBytes (writeBytes netbuf start [UInt8.ofNat label.length]) start 1 =
      [UInt8.ofNat label.length] := readBytes_writeBytes _ _ [_]
  have keptFront : readBytes (writeBytes netbuf start [UInt8.ofNat label.length]) (start + 1)
      label.length = label :=
    (readBytes_writeBytes_outside (.inr (by simp))).trans front
  have keptRest : readBytes (writeBytes netbuf start [UInt8.ofNat label.length])
      (start + 1 + label.length) rest.length = rest :=
    (readBytes_writeBytes_outside (.inr (by simp))).trans behind
  rw [readBytes_append, readBytes_append, length, keptFront, keptRest]
  rfl

theorem wireLabels_length (labels : List (List UInt8)) :
    (wireLabels labels).length = (dottedBefore labels).length := by
  induction labels with
  | nil => rfl
  | cons label labels ih =>
    simp only [wireLabels, dottedBefore, List.flatMap_cons, List.length_append,
      List.length_cons] at ih ⊢
    rw [ih]

/-- What the loop has done when it has come over some labels. -/
structure Marks (labels : List (List UInt8)) (base : Nat) (netbuf marked : Block) : Prop where
  counts : markLengths (base + (dottedBefore labels).length) netbuf 0 = markLengths base marked 0
  wire : readBytes marked (base + 1) (wireLabels labels).length = wireLabels labels
  kept : ∀ place, place ≤ base ∨ base + (dottedBefore labels).length < place →
    marked place = netbuf place

/-- With a label in front of them it goes on to its separator. -/
theorem Marks.label {label : List UInt8} {labels : List (List UInt8)} {start : Nat}
    {netbuf marked : Block} (marks : Marks labels (start + label.length) netbuf marked)
    (front : readBytes netbuf (start + 1) label.length = label)
    (plain : ∀ byte ∈ label, byte ≠ 46 ∧ byte ≠ 64) :
    markLengths (start + label.length + (dottedBefore labels).length) netbuf 0 =
        markLengths start marked (UInt8.ofNat label.length) ∧
      marked start = netbuf start ∧
      readBytes (writeBytes marked start [UInt8.ofNat label.length]) start
        (wireLabels (label :: labels)).length = wireLabels (label :: labels) := by
  have keptFront : readBytes marked (start + 1) label.length = label := by
    refine Eq.trans (readBytes_congr fun place inside => ?_) front
    exact marks.kept _ (.inl (by omega))
  have counts := markLengths_label 0 keptFront plain
  have behind : readBytes marked (start + 1 + label.length) (wireLabels labels).length =
      wireLabels labels := by
    rw [Nat.add_right_comm]
    exact marks.wire
  have written := readBytes_writeLength keptFront behind
  have size : (wireLabels (label :: labels)).length =
      1 + (label.length + (wireLabels labels).length) := by
    rw [wireLabels, List.flatMap_cons, List.length_append, List.length_cons, ← wireLabels]
    omega
  refine ⟨?_, marks.kept start (.inl (Nat.le_add_right _ _)), ?_⟩
  · rw [marks.counts, counts, UInt8.zero_add]
  · rw [size, written]
    rfl

/-- Over labels it leaves each with its length in front of it, and nothing else changes. -/
theorem markLengths_labels {labels : List (List UInt8)} {netbuf : Block} {base : Nat}
    (here : readBytes netbuf (base + 1) (dottedBefore labels).length = dottedBefore labels)
    (plain : ∀ label ∈ labels, ∀ byte ∈ label, byte ≠ 46 ∧ byte ≠ 64) :
    ∃ marked, Marks labels base netbuf marked := by
  induction labels generalizing netbuf base with
  | nil => exact ⟨netbuf, rfl, rfl, fun _ _ => rfl⟩
  | cons label labels ih =>
    have parts : dottedBefore (label :: labels) = [46] ++ (label ++ dottedBefore labels) := rfl
    have size : (dottedBefore (label :: labels)).length =
        1 + (label.length + (dottedBefore labels).length) := by
      rw [parts, List.length_append, List.length_append, List.length_singleton]
    rw [parts] at here
    obtain ⟨dot, here⟩ := readBytes_eq_append.mp here
    obtain ⟨front, rest⟩ := readBytes_eq_append.mp here
    rw [Nat.add_right_comm (base + 1)] at rest
    obtain ⟨marked, marks⟩ := ih rest
      fun other member => plain other (List.mem_cons_of_mem label member)
    obtain ⟨counts, keptDot, written⟩ := marks.label front (plain label List.mem_cons_self)
    have whole : base + (1 + (label.length + (dottedBefore labels).length)) =
        base + 1 + label.length + (dottedBefore labels).length := by omega
    refine ⟨writeBytes marked (base + 1) [UInt8.ofNat label.length], ?_, written, ?_⟩
    · have dot : netbuf (base + 1) = 46 := List.singleton_injective dot
      rw [size, whole, counts, markLengths, keptDot, dot, if_neg (by decide), if_pos rfl]
    · intro place outside
      rw [size] at outside
      have apart : place < base + 1 ∨ base + 1 + [UInt8.ofNat label.length].length ≤ place := by
        rw [List.length_singleton]
        omega
      rw [writeBytes_outside apart]
      exact marks.kept place (by omega)

/-- The loop leaves the lengths of the labels in the text, up to the `'@'`. -/
theorem markLengths_domain {label : List UInt8} {labels : List (List UInt8)} {netbuf : Block}
    {start : Nat} (monkey : netbuf (start + 1) = 64)
    (here : readBytes netbuf (start + 1 + 1) (label ++ dottedBefore labels).length =
      label ++ dottedBefore labels)
    (plain : ∀ other ∈ label :: labels, ∀ byte ∈ other, byte ≠ 46 ∧ byte ≠ 64) :
    ∃ marked, markLengths (start + 1 + (label ++ dottedBefore labels).length) netbuf 0 = marked ∧
      readBytes marked (start + 1) (wireLabels (label :: labels)).length =
        wireLabels (label :: labels) ∧
      ∀ place, place < start + 1 ∨ start + 1 + (label ++ dottedBefore labels).length < place →
        marked place = netbuf place := by
  obtain ⟨front, rest⟩ := readBytes_eq_append.mp here
  rw [Nat.add_right_comm (start + 1)] at rest
  obtain ⟨marked, marks⟩ := markLengths_labels rest
    fun other member => plain other (List.mem_cons_of_mem label member)
  obtain ⟨counts, kept, written⟩ := marks.label front (plain label List.mem_cons_self)
  refine ⟨writeBytes marked (start + 1) [UInt8.ofNat label.length], ?_, written, ?_⟩
  · rw [List.length_append, ← Nat.add_assoc, counts, markLengths, kept, monkey, if_pos rfl]
  · intro place outside
    rw [List.length_append] at outside
    have apart : place < start + 1 ∨ start + 1 + [UInt8.ofNat label.length].length ≤ place := by
      rw [List.length_singleton]
      omega
    rw [writeBytes_outside apart]
    exact marks.kept place (by omega)

/-! ### The question is the domain -/

/-- What is sent is a header, the domain, the type and the class. -/
theorem buildQuestion_domain (domain : MailDomain) (netbuf : Block) :
    ∃ sent, buildQuestion netbuf (64 :: domain.text) = (sent, 12 + domain.wire.length + 4) ∧
      readBytes sent 12 (domain.wire.length + 4) = domain.wire ++ [0, 15, 0, 1] := by
  obtain ⟨labels, some, sizes, plain, -⟩ := domain
  obtain ⟨label, labels, rfl⟩ := List.exists_cons_of_ne_nil some
  simp only [MailDomain.text, MailDomain.wire]
  rw [intercalate_cons]
  generalize text_eq : label ++ dottedBefore labels = text
  -- the text in the buffer
  let header := writeBytes netbuf 0 [0, 2, 1, 0, 0, 1, 0, 0, 0, 0, 0, 0]
  obtain ⟨monkey, behind⟩ := readBytes_eq_cons.mp
    (readBytes_writeBytes header 12 (64 :: (text ++ [0])))
  obtain ⟨here, nul⟩ := readBytes_eq_append.mp behind
  have here : readBytes (writeBytes header 12 (64 :: text ++ [0])) (11 + 1 + 1)
      (label ++ dottedBefore labels).length = label ++ dottedBefore labels := by
    rw [text_eq]
    exact here
  obtain ⟨marked, counts, written, kept⟩ := @markLengths_domain label labels _ 11
    monkey here fun other member byte inside =>
      ⟨(plain other member byte inside).1, (plain other member byte inside).2.1⟩
  rw [text_eq] at counts kept
  have size : (wireLabels (label :: labels)).length = text.length + 1 := by
    rw [wireLabels, List.flatMap_cons, ← wireLabels, List.length_append, List.length_cons,
      wireLabels_length, ← text_eq, List.length_append]
    omega
  rw [Nat.add_assoc 12, Nat.add_comm 1] at nul
  have nul : readBytes marked (12 + (text.length + 1)) 1 = [0] :=
    (readBytes_congr fun place inside => kept _ (.inr (by omega))).trans nul
  rw [size] at written
  have question : readBytes (writeBytes marked (12 + text.length + 2) [0, 15, 0, 1]) 12
      (text.length + 1 + 1 + 4) = wireLabels (label :: labels) ++ [0] ++ [0, 15, 0, 1] := by
    have front : readBytes (writeBytes marked (12 + text.length + 2) [0, 15, 0, 1]) 12
        (text.length + 1) = wireLabels (label :: labels) :=
      (readBytes_writeBytes_outside (.inl (by omega))).trans written
    have stop : readBytes (writeBytes marked (12 + text.length + 2) [0, 15, 0, 1])
        (12 + (text.length + 1)) 1 = [0] :=
      (readBytes_writeBytes_outside (.inl (by omega))).trans nul
    have behind : 12 + (text.length + 1 + 1) = 12 + text.length + 2 := by omega
    rw [readBytes_append, readBytes_append, front, stop, behind]
    exact congrArg (wireLabels (label :: labels) ++ [0] ++ ·) (readBytes_writeBytes _ _ _)
  have length : (wireLabels (label :: labels) ++ [0]).length = text.length + 1 + 1 := by
    rw [List.length_append, size, List.length_singleton]
  rw [length]
  refine ⟨writeBytes marked (12 + text.length + 2) [0, 15, 0, 1], ?_, question⟩
  have last : 12 + (text.length + 1) - 1 = 11 + 1 + text.length := by omega
  simp only [buildQuestion, List.length_cons]
  rw [last, ← counts]
  refine Prod.ext rfl ?_
  simp only
  omega

theorem MailDomain.text_plain (domain : MailDomain) : cstr domain.text = domain.text := by
  refine List.takeWhile_eq_self_iff.mpr fun byte member => bne_iff_ne.mpr ?_
  obtain ⟨labels, some, _, plain, _⟩ := domain
  obtain ⟨label, labels, rfl⟩ := List.exists_cons_of_ne_nil some
  rw [MailDomain.text, intercalate_cons] at member
  rcases List.mem_append.mp member with first | rest
  · exact (plain label List.mem_cons_self byte first).2.2
  · obtain ⟨other, here, inside⟩ := List.mem_flatMap.mp rest
    rcases List.mem_cons.mp inside with rfl | inside
    · decide
    · exact (plain other (List.mem_cons_of_mem label here) byte inside).2.2

/-- The question is the domain in the form in which domains are sent, with the type and the class
behind it; and the loop that decodes names finds the domain in it. -/
theorem question_is_domain (domain : MailDomain) (netbuf : Block) :
    ∃ sent, buildQuestion netbuf (64 :: domain.text) = (sent, 12 + domain.wire.length + 4) ∧
      readBytes sent 12 (domain.wire.length + 4) = domain.wire ++ [0, 15, 0, 1] ∧
      ∀ fuel, domain.labels.length < fuel →
        decodeName (readBytes sent 0 (12 + domain.wire.length + 4)) fuel 12 = .ok domain.text := by
  obtain ⟨sent, built, question⟩ := buildQuestion_domain domain netbuf
  refine ⟨sent, built, question, fun fuel enough => ?_⟩
  have here : (readBytes sent 0 (12 + domain.wire.length + 4)).drop 12 =
      wireLabels domain.labels ++ 0 :: [0, 15, 0, 1] := by
    have whole := readBytes_append sent 0 12 (domain.wire.length + 4)
    rw [← Nat.add_assoc] at whole
    rw [whole, List.drop_left' (readBytes_length _ _ _), Nat.zero_add, question, MailDomain.wire,
      List.append_assoc]
    rfl
  have dots : dotted domain.labels = domain.text ++ [46] := dotted_eq domain.some
  have room : ([] : List UInt8).length + (dotted domain.labels).length < 256 := by
    have short : domain.text.length < 255 := domain.short
    rw [dots, List.length_append, List.length_singleton, List.length_nil]
    omega
  have found := loop_labels here domain.sizes room enough
  rw [decodeName, found, List.nil_append, dots]
  simp only [Except.map, List.dropLast_concat, domain.text_plain]

def shortDomain : MailDomain where
  labels := [ascii "ab", ascii "c"]
  some := by decide
  sizes := by decide
  plain := by decide +kernel
  short := by decide

/-- The question for `ab.c` has 22 bytes. -/
theorem short_domain_is_asked :
    (buildQuestion (fun _ => 255) (ascii "@ab.c")).2 = 22 ∧
      decodeName (readBytes (buildQuestion (fun _ => 255) (ascii "@ab.c")).1 0 22) 3 12 =
        .ok (ascii "ab.c") := by
  obtain ⟨sent, built, _, decodes⟩ := question_is_domain shortDomain fun _ => 255
  have text : 64 :: shortDomain.text = ascii "@ab.c" := by decide
  have size : 12 + shortDomain.wire.length + 4 = 22 := by decide
  have found := decodes 3 (by decide)
  rw [text, size] at built
  rw [size] at found
  rw [built]
  exact ⟨rfl, found⟩

end QNXStuff.QXMail
