import Mathlib.Data.List.Basic
import Mathlib.Data.List.Infix

/-! Lines between line ends, with a dot alone on a line as the end of them all: a line that begins
with a dot is sent with one more. -/

namespace QNXStuff.DotStuffing

universe u

/-- The items that have a meaning: a line end is `ret` and `feed`. -/
structure LineMarks (Item : Type u) where
  ret : Item
  feed : Item
  dot : Item
  feed_ret : feed ≠ ret
  dot_ret : dot ≠ ret

section

variable {Item : Type u} {item : Item} {stretch front behind : List Item}

/-- A stretch without an item that starts before it ends before it. -/
theorem prefix_before (clean : item ∉ stretch) (part : stretch <+: front ++ item :: behind) :
    stretch <+: front := by
  rcases List.prefix_or_prefix_of_prefix part (List.prefix_append front (item :: behind)) with
    within | ⟨more, rfl⟩
  · exact within
  · rw [List.prefix_append_right_inj] at part
    cases more with
    | nil => simp
    | cons first more =>
      obtain ⟨rfl, -⟩ := List.cons_prefix_cons.mp part
      exact absurd (List.mem_append_right _ List.mem_cons_self) clean

end

variable {Item : Type u} [DecidableEq Item] (marks : LineMarks Item)

namespace LineMarks

def ending : List Item := [marks.ret, marks.feed]

/-- A line as it is sent. -/
def stuff (line : List Item) : List Item :=
  if line.head? = some marks.dot then marks.dot :: line else line

/-- A line as it was before. -/
def unstuff : List Item → List Item
  | [] => []
  | first :: rest => if first = marks.dot then rest else first :: rest

/-- The lines with a line end behind each. -/
def sent (lines : List (List Item)) : List Item :=
  lines.flatMap fun line => marks.stuff line ++ marks.ending

/-- The lines with a line end between each two. -/
def written (lines : List (List Item)) : List Item :=
  marks.ending.intercalate (lines.map marks.stuff)

/-- The lines and the end of them all. -/
def frame (lines : List (List Item)) : List Item := marks.sent lines ++ marks.dot :: marks.ending

/-- What comes before the first line end and what comes behind it. -/
def splitLine : List Item → Option (List Item × List Item)
  | [] => none
  | item :: rest =>
    if item = marks.ret ∧ rest.head? = some marks.feed then some ([], rest.tail)
    else (splitLine rest).map fun found => (item :: found.1, found.2)

/-- The lines up to a dot alone, in as many turns. -/
def readFrame : Nat → List Item → Option (List (List Item) × List Item)
  | 0, _ => none
  | turns + 1, stream =>
    match marks.splitLine stream with
    | none => none
    | some (line, rest) =>
      if line = [marks.dot] then some ([], rest)
      else (readFrame turns rest).map fun found => (marks.unstuff line :: found.1, found.2)

/-- The lines of a stream, and what follows them. -/
def unframe (stream : List Item) : Option (List (List Item) × List Item) :=
  marks.readFrame stream.length stream

section

variable {marks} {line rest before after : List Item}
  {lines : List (List Item)} {item : Item}

/-! ### Lines -/

@[simp] theorem sent_nil : marks.sent [] = [] := rfl

@[simp] theorem sent_cons (line : List Item) (lines : List (List Item)) :
    marks.sent (line :: lines) = marks.stuff line ++ marks.ret :: marks.feed :: marks.sent lines := by
  simp [sent, ending]

theorem unstuff_stuff (line : List Item) : marks.unstuff (marks.stuff line) = line := by
  cases line with
  | nil => rfl
  | cons first rest =>
    by_cases dotted : first = marks.dot
    · subst dotted
      simp [stuff, unstuff]
    · simp [stuff, unstuff, dotted]

theorem stuff_ne_dot (line : List Item) : marks.stuff line ≠ [marks.dot] := by
  unfold stuff
  split
  · next dotted =>
    intro same
    cases same
    cases dotted
  · next plain =>
    rintro rfl
    exact plain rfl

theorem stuff_clean (clean : marks.ret ∉ line) : marks.ret ∉ marks.stuff line := by
  unfold stuff
  split
  · exact List.not_mem_cons_of_ne_of_not_mem marks.dot_ret.symm clean
  · exact clean

/-- A line is sent with its first two items apart from a dot and a line end. -/
theorem stuff_second (clean : marks.ret ∉ line) :
    marks.stuff line ++ marks.ret :: rest ≠ marks.dot :: marks.ret :: after := by
  unfold stuff
  split
  · next dotted =>
    cases line with
    | nil => cases dotted
    | cons first line =>
      intro same
      have second := (List.cons.inj (List.cons.inj same).2).1
      exact clean (second ▸ List.mem_cons_self)
  · next plain =>
    cases line with
    | nil =>
      intro same
      exact marks.dot_ret (List.cons.inj same).1.symm
    | cons first line =>
      intro same
      exact plain (congrArg some (List.cons.inj same).1)

/-! ### Round trip -/

theorem splitLine_line (marks : LineMarks Item) (clean : marks.ret ∉ line) (rest : List Item) :
    marks.splitLine (line ++ marks.ret :: marks.feed :: rest) = some (line, rest) := by
  induction line with
  | nil => simp [splitLine]
  | cons item line ih =>
    obtain ⟨apart, later⟩ := List.ne_and_not_mem_of_not_mem_cons clean
    simp [splitLine, apart.symm, ih later]

theorem readFrame_frame (clean : ∀ line ∈ lines, marks.ret ∉ line) {turns : Nat}
    (enough : lines.length < turns) (rest : List Item) :
    marks.readFrame turns (marks.frame lines ++ rest) = some (lines, rest) := by
  induction lines generalizing turns with
  | nil =>
    obtain ⟨turns, rfl⟩ := Nat.exists_eq_add_one_of_ne_zero (Nat.ne_of_gt enough)
    have alone : marks.ret ∉ [marks.dot] :=
      List.not_mem_cons_of_ne_of_not_mem marks.dot_ret.symm List.not_mem_nil
    have last := splitLine_line marks alone rest
    simp only [frame, sent_nil, ending, List.nil_append, List.cons_append] at last ⊢
    simp [readFrame, last]
  | cons line lines ih =>
    obtain ⟨turns, rfl⟩ := Nat.exists_eq_add_one_of_ne_zero (Nat.ne_zero_of_lt enough)
    have first := splitLine_line marks (stuff_clean (clean line List.mem_cons_self))
      (marks.frame lines ++ rest)
    have stream : marks.frame (line :: lines) ++ rest =
        marks.stuff line ++ marks.ret :: marks.feed :: (marks.frame lines ++ rest) := by
      simp [frame]
    have later := ih (fun line member => clean line (List.mem_cons_of_mem _ member))
      (Nat.lt_of_succ_lt_succ enough)
    simp only [stream, readFrame, first, if_neg (stuff_ne_dot line), later, unstuff_stuff,
      Option.map_some]

theorem length_sent (marks : LineMarks Item) (lines : List (List Item)) :
    lines.length ≤ (marks.sent lines).length := by
  induction lines with
  | nil => exact Nat.le_refl _
  | cons line lines ih =>
    simp only [sent_cons, List.length_append, List.length_cons]
    omega

/-- The lines that are sent are the lines that are read. -/
theorem unframe_frame (clean : ∀ line ∈ lines, marks.ret ∉ line) (rest : List Item) :
    marks.unframe (marks.frame lines ++ rest) = some (lines, rest) := by
  refine readFrame_frame clean ?_ rest
  have many := length_sent marks lines
  simp only [frame, List.length_append, List.length_cons]
  omega

/-! ### Written lines -/

theorem written_sent (marks : LineMarks Item) (line : List Item) (lines : List (List Item)) :
    marks.written (line :: lines) ++ marks.ending = marks.sent (line :: lines) := by
  induction lines generalizing line with
  | nil => simp [written, sent]
  | cons next lines ih =>
    have later := ih next
    simp only [written, List.map_cons, List.intercalate_cons_cons] at later ⊢
    rw [sent_cons line, ← later]
    simp [ending]

/-- The lines are framed by a terminator that begins with a line end. -/
theorem frame_written (some : lines ≠ []) :
    marks.frame lines = marks.written lines ++ marks.ending ++ marks.dot :: marks.ending := by
  obtain ⟨line, lines, rfl⟩ := List.exists_cons_of_ne_nil some
  rw [written_sent]
  rfl

/-- A line that does not begin with a dot, in front of the others. -/
theorem written_cons (plain : line.head? ≠ some marks.dot) (some : lines ≠ []) :
    marks.written (line :: lines) = line ++ marks.ending ++ marks.written lines := by
  obtain ⟨next, lines, rfl⟩ := List.exists_cons_of_ne_nil some
  simp [written, List.intercalate_cons_cons, stuff, plain]

/-! ### What is not in a frame -/

/-- Before the end of a frame nothing follows a line end, a dot and the first item of a line end. -/
theorem unmarked (clean : ∀ line ∈ lines, marks.ret ∉ line) :
    marks.sent lines ++ [marks.dot, marks.ret] ≠
      before ++ marks.ret :: marks.feed :: marks.dot :: marks.ret :: item :: after := by
  induction lines generalizing before with
  | nil =>
    intro same
    have length := congrArg List.length same
    simp only [sent_nil, List.nil_append, List.length_append, List.length_cons,
      List.length_nil] at length
    omega
  | cons line lines ih =>
    intro same
    rw [sent_cons, List.append_assoc, List.cons_append, List.cons_append] at same
    have here := stuff_clean (clean line List.mem_cons_self)
    obtain ⟨more, rfl⟩ := prefix_before here ⟨_, same⟩
    rw [List.append_assoc, List.append_right_inj] at same
    cases more with
    | nil =>
      have behind := (List.cons.inj (List.cons.inj same).2).2
      cases lines with
      | nil =>
        have length := congrArg List.length behind
        simp at length
      | cons next lines =>
        have clean' := clean next (List.mem_cons_of_mem _ List.mem_cons_self)
        rw [sent_cons, List.append_assoc, List.cons_append] at behind
        exact stuff_second clean' behind
    | cons first more =>
      cases more with
      | nil => exact marks.feed_ret (List.cons.inj (List.cons.inj same).2).1
      | cons second more =>
        have behind := (List.cons.inj (List.cons.inj same).2).2
        exact ih (fun line member => clean line (List.mem_cons_of_mem _ member)) behind

end

end LineMarks

end QNXStuff.DotStuffing
