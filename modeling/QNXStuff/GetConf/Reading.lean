import Mathlib.Data.List.TakeWhile
import QNXStuff.GetConf.Tokens

/-! What the tokenizer makes of a line in its buffer. -/

namespace QNXStuff.GetConf

open Execution

/-- The words that the calls of `GetConf_token` take from what stands at `ConfToken`. -/
inductive Yields : List UInt8 → List (List UInt8) → Prop where
  | silent {rest : List UInt8} (silent : quiet rest = true) : Yields rest []
  | word {blanks word behind : List UInt8} {stop : UInt8} {words : List (List UInt8)}
      (blank : blanks.all isBlank = true) (nonempty : word ≠ [])
      (letters : word.all inWord = true) (plain : isComment word = false)
      (stops : inWord stop = false) (later : Yields behind words) :
      Yields (blanks ++ (word ++ stop :: behind)) (word :: words)

theorem Yields.quiet {rest : List UInt8} (yields : Yields rest []) : quiet rest = true := by
  cases yields with
  | silent silent => exact silent

section

variable {text : List UInt8} {behind : List UInt8} {stop : UInt8}

theorem inWord_iff {byte : UInt8} : inWord byte = true ↔ isBlank byte = false ∧ isEnd byte = false := by
  simp [inWord]

theorem takeWhile_append_stop {goes : UInt8 → Bool} {front : List UInt8}
    (all : front.all goes = true) (stops : goes stop = false) :
    (front ++ stop :: behind).takeWhile goes = front := by
  rw [List.takeWhile_append_of_pos (List.all_eq_true.mp all), List.takeWhile_cons_of_neg]
  · rw [List.append_nil]
  · simp [stops]

theorem pieces_blank {byte : UInt8} (blank : isBlank byte = true) :
    pieces (byte :: text) = pieces text := by
  have split : List.splitOnP isBlank (byte :: text) = [] :: text.splitOnP isBlank :=
    List.splitOnP_append_cons [] text blank
  simp [pieces, split]

theorem blanks_of_letters {word : List UInt8} (letters : word.all inWord = true) :
    ∀ byte ∈ word, isBlank byte = false :=
  fun byte member => (inWord_iff.mp (List.all_eq_true.mp letters byte member)).1

theorem pieces_word {word : List UInt8} (nonempty : word ≠ []) (letters : word.all inWord = true) :
    pieces word = [word] := by
  simp [pieces, List.splitOnP_eq_singleton (blanks_of_letters letters), nonempty]

theorem pieces_word_blank {word : List UInt8} {byte : UInt8} (nonempty : word ≠ [])
    (letters : word.all inWord = true) (blank : isBlank byte = true) :
    pieces (word ++ byte :: text) = word :: pieces text := by
  have split := List.splitOnP_append_cons_of_forall_mem (blanks_of_letters letters) byte blank text
  simp [pieces, split, nonempty]

theorem quiet_blank {byte : UInt8} {rest : List UInt8} (blank : isBlank byte = true) :
    quiet (byte :: rest) = quiet rest := by
  rw [quiet, List.dropWhile_cons_of_pos blank, quiet]

theorem Yields.blank {byte : UInt8} {rest : List UInt8} {words : List (List UInt8)}
    (yields : Yields rest words) (blank : isBlank byte = true) : Yields (byte :: rest) words := by
  cases yields with
  | silent silent => exact .silent ((quiet_blank blank).trans silent)
  | @word blanks word behind stop words blanks' nonempty letters plain stops later =>
    have all : (byte :: blanks).all isBlank = true := by simp [blank, blanks']
    exact .word all nonempty letters plain stops later

theorem touchesEnd_append {front : List UInt8} (ends : touchesEnd text = true)
    (rest : (pieces (front ++ text)).all (fun word => !isComment word) = true) :
    touchesEnd (front ++ text) = true := by
  unfold touchesEnd at ends ⊢
  rw [Bool.and_eq_true] at ends ⊢
  refine ⟨?_, rest⟩
  obtain ⟨byte, last, letter⟩ := Option.any_eq_true _ _ |>.mp ends.1
  rw [List.getLast?_append, last]
  exact letter

theorem isBlank_of_isEnd {byte : UInt8} (ends : isEnd byte = true) : isBlank byte = false := by
  unfold isEnd at ends
  rcases Bool.or_eq_true_iff.mp ends with zero | newline
  · rw [beq_iff_eq.mp zero]
    rfl
  · rw [beq_iff_eq.mp newline]
    rfl

theorem inWord_of_isEnd {byte : UInt8} (ends : isEnd byte = true) : inWord byte = false := by
  simp [inWord, ends]

theorem isBlank_of_not_inWord {byte : UInt8} (clean : isEnd byte = false)
    (outside : inWord byte = false) : isBlank byte = true := by
  simpa [inWord, clean] using outside

theorem quiet_comment {word rest : List UInt8} (comment : isComment word = true)
    (stops : inWord stop = false) : quiet (word ++ (rest ++ stop :: behind)) = true := by
  cases word with
  | nil => cases comment
  | cons byte letters =>
    have first : byte = confComment := by simpa [isComment] using comment
    have start : isBlank confComment = false := rfl
    rw [first, quiet, List.cons_append, List.dropWhile_cons_of_neg (by rw [start]; nofun)]
    simp [stops]

/-- A text of words and blanks. -/
inductive Pieced : List UInt8 → Prop where
  | nil : Pieced []
  | blank {byte : UInt8} {rest : List UInt8} (blank : isBlank byte = true) (later : Pieced rest) :
      Pieced (byte :: rest)
  | word {word : List UInt8} (nonempty : word ≠ []) (letters : word.all inWord = true) :
      Pieced word
  | gap {word rest : List UInt8} {gap : UInt8} (nonempty : word ≠ [])
      (letters : word.all inWord = true) (blank : isBlank gap = true) (later : Pieced rest) :
      Pieced (word ++ gap :: rest)

theorem pieced (clean : ∀ byte ∈ text, isEnd byte = false) : Pieced text := by
  induction text with
  | nil => exact .nil
  | cons byte rest ih =>
    have later := ih fun other member => clean other (List.mem_cons_of_mem byte member)
    by_cases letter : inWord byte = true
    · cases later with
      | nil => exact .word (List.cons_ne_nil _ _) (by simp [letter])
      | blank blank later =>
        exact .gap (List.cons_ne_nil byte []) (by simp [letter]) blank later
      | word nonempty letters => exact .word (List.cons_ne_nil _ _) (by simp [letter, letters])
      | @gap word rest gap nonempty letters blank later =>
        exact .gap (List.cons_ne_nil byte word) (by simp [letter, letters]) blank later
    · exact .blank (isBlank_of_not_inWord (clean byte List.mem_cons_self) (by simpa using letter))
        later

theorem touchesEnd_word {word : List UInt8} (nonempty : word ≠ []) (letters : word.all inWord = true)
    (plain : isComment word = false) : touchesEnd word = true := by
  obtain ⟨last, found⟩ := Option.isSome_iff_exists.mp (List.getLast?_isSome.mpr nonempty)
  have inside := List.all_eq_true.mp letters last (List.mem_of_getLast? found)
  simp [touchesEnd, pieces_word nonempty letters, found, inside, plain]

theorem Pieced.yields (pieced : Pieced text) (stops : isEnd stop = true)
    (ending : touchesEnd text = true → quiet behind = true) :
    Yields (text ++ stop :: behind) ((pieces text).takeWhile fun word => !isComment word) := by
  induction pieced with
  | nil => exact .silent (by simp [quiet, isBlank_of_isEnd stops, stops])
  | @blank byte rest blank later ih =>
    rw [pieces_blank blank]
    refine (ih fun touches => ending ?_).blank blank
    have plain := (Bool.and_eq_true_iff.mp touches).2
    rw [← pieces_blank blank] at plain
    exact @touchesEnd_append rest [byte] touches plain
  | @word word nonempty letters =>
    rw [pieces_word nonempty letters]
    cases comment : isComment word with
    | true =>
      rw [List.takeWhile_cons_of_neg (by simp [comment])]
      exact .silent (@quiet_comment behind stop word [] comment (inWord_of_isEnd stops))
    | false =>
      rw [List.takeWhile_cons_of_pos (by simp [comment])]
      have touches := touchesEnd_word nonempty letters comment
      exact @Yields.word [] word behind stop [] rfl nonempty letters comment
        (inWord_of_isEnd stops) (.silent (ending touches))
  | @gap word rest gap nonempty letters blank later ih =>
    rw [pieces_word_blank nonempty letters blank, List.append_assoc]
    cases comment : isComment word with
    | true =>
      rw [List.takeWhile_cons_of_neg (by simp [comment])]
      exact .silent (quiet_comment comment (inWord_of_isEnd stops))
    | false =>
      rw [List.takeWhile_cons_of_pos (by simp [comment])]
      have outside : inWord gap = false := by simp [inWord, blank]
      refine @Yields.word [] word _ gap _ rfl nonempty letters comment outside ?_
      refine ih fun touches => ending ?_
      have plain : (pieces (word ++ [gap] ++ rest)).all (fun word => !isComment word) = true := by
        rw [List.append_assoc, List.singleton_append, pieces_word_blank nonempty letters blank]
        simp only [List.all_cons, comment, Bool.not_false, Bool.true_and]
        exact (Bool.and_eq_true_iff.mp touches).2
      have front := @touchesEnd_append rest (word ++ [gap]) touches plain
      rwa [List.append_assoc] at front

end

/-! ### Lines -/

/-- One line of a file: a newline is its last byte, if there is one. -/
inductive IsLine : List UInt8 → Prop where
  | ended {body : List UInt8} (inner : 10 ∉ body) : IsLine (body ++ [10])
  | last {body : List UInt8} (inner : 10 ∉ body) : IsLine body

section

variable {file line buffer : List UInt8} {lines : List (List UInt8)}

theorem linesOf_eq_nil : linesOf file = [] ↔ file = [] := by
  cases file with
  | nil => simp [linesOf]
  | cons byte file =>
    simp only [linesOf]
    split
    · simp
    · split
      · simp
      · simp

theorem IsLine.cons {byte : UInt8} (isLine : IsLine line) (inner : byte ≠ 10) :
    IsLine (byte :: line) := by
  cases isLine with
  | ended inner' => exact @IsLine.ended (byte :: _) (by simp [Ne.symm inner, inner'])
  | last inner' => exact .last (by simp [Ne.symm inner, inner'])

/-- `fgets` takes a line that fits into the buffer. -/
theorem gets_line {size : Nat} (first : linesOf file = line :: lines) (fits : line.length ≤ size) :
    ∃ rest, gets size file = (line, rest) ∧ linesOf rest = lines ∧ rest.length < file.length ∧
      IsLine line := by
  induction file generalizing size line with
  | nil => cases first
  | cons byte file ih =>
    simp only [linesOf] at first
    cases size with
    | zero =>
      split at first
      · cases first
        cases fits
      · split at first
        · cases first
          cases fits
        · cases first
          cases fits
    | succ size =>
      split at first
      · next newline =>
        cases first
        refine ⟨file, by simp [gets, newline], rfl, Nat.lt_succ_self _, ?_⟩
        exact @IsLine.ended [] (by simp)
      · next other =>
        split at first
        · next none =>
          cases first
          have empty := linesOf_eq_nil.mp none
          subst empty
          refine ⟨[], ?_, rfl, Nat.lt_succ_self _, ?_⟩
          · cases size with
            | zero => simp [gets, other]
            | succ size => simp [gets, other]
          · exact .last (by simpa using Ne.symm other)
        · next head tail some =>
          cases first
          obtain ⟨rest, taken, left, shorter, isLine⟩ := ih some (Nat.le_of_succ_le_succ fits)
          refine ⟨rest, ?_, left, Nat.lt_succ_of_lt shorter, isLine.cons other⟩
          simp [gets, other, taken]

theorem takeWhile_body {body rest : List UInt8} (inner : 10 ∉ body) :
    (body ++ 10 :: rest).takeWhile (· != 10) = body := by
  refine takeWhile_append_stop ?_ rfl
  simp only [List.all_eq_true, bne_iff_ne]
  exact fun byte member same => inner (same ▸ member)

theorem takeWhile_last {body : List UInt8} (inner : 10 ∉ body) :
    body.takeWhile (· != 10) = body := by
  refine List.takeWhile_eq_self_iff.mpr fun byte member => ?_
  simp only [bne_iff_ne]
  exact fun same => inner (same ▸ member)

theorem clean_of_inner {body : List UInt8} (zero : 0 ∉ body) (inner : 10 ∉ body) :
    ∀ byte ∈ body, isEnd byte = false := by
  intro byte member
  have apart : byte ≠ 0 := fun same => zero (same ▸ member)
  have apart' : byte ≠ 10 := fun same => inner (same ▸ member)
  simp [isEnd, apart, apart']

theorem line_yields (isLine : IsLine line) (zero : 0 ∉ line)
    (ending : touchesEnd line = true → quiet (buffer.drop (line.length + 1)) = true) :
    Yields (overlay buffer line) (wordsOf line) := by
  cases isLine with
  | @ended body inner =>
    have clean := clean_of_inner (fun member => zero (List.mem_append_left _ member)) inner
    rw [wordsOf, takeWhile_body inner, overlay, List.append_assoc]
    exact (pieced clean).yields rfl fun _ => rfl
  | last inner =>
    have clean := clean_of_inner zero inner
    rw [wordsOf, takeWhile_last inner, overlay]
    exact (pieced clean).yields rfl ending

/-- A text that ends with a word has one. -/
theorem Pieced.touches {text : List UInt8} (pieced : Pieced text) (touches : touchesEnd text = true) :
    pieces text ≠ [] := by
  induction pieced with
  | nil => cases touches
  | @blank byte rest blank later ih =>
    rw [pieces_blank blank]
    refine ih ?_
    unfold touchesEnd at touches ⊢
    rw [pieces_blank blank, Bool.and_eq_true_iff] at touches
    rw [Bool.and_eq_true_iff]
    refine ⟨?_, touches.2⟩
    cases rest with
    | nil => simp [inWord, blank] at touches
    | cons other rest => simpa using touches.1
  | word nonempty letters =>
    rw [pieces_word nonempty letters]
    nofun
  | gap nonempty letters blank later ih =>
    rw [pieces_word_blank nonempty letters blank]
    nofun

theorem words_of_touchesEnd (isLine : IsLine line) (zero : 0 ∉ line)
    (touches : touchesEnd line = true) : wordsOf line ≠ [] := by
  cases isLine with
  | ended inner => simp [touchesEnd, inWord, isEnd] at touches
  | last inner =>
    have clean := clean_of_inner zero inner
    have some := (pieced clean).touches touches
    have plain := (Bool.and_eq_true_iff.mp touches).2
    rwa [wordsOf, takeWhile_last inner, List.takeWhile_eq_self_iff.mpr (List.all_eq_true.mp plain)]

end

end QNXStuff.GetConf
