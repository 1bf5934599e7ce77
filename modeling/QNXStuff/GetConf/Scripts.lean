import QNXStuff.GetConf.ConfRuns

/-! What the servers do with the words of a configuration: programs that call the tokenizer, and the
lines that they read. -/

namespace QNXStuff.GetConf

open Execution

abbrev Word := List UInt8

/-- The words of a line, the first of which `GetConf_string` returns. -/
abbrev Line := List Word

/-- A program that calls `GetConf_string` and `GetConf_token`, with what it does with the answers. -/
inductive Script (Result : Type) where
  | done (result : Result)
  | string (next : Option Word → Script Result)
  | token (next : Option Word → Script Result)

namespace Script

variable {Result Result' : Type}

def bind : Script Result → (Result → Script Result') → Script Result'
  | .done result, next => next result
  | .string after, next => .string fun word => (after word).bind next
  | .token after, next => .token fun word => (after word).bind next

instance : Monad Script where
  pure := .done
  bind := bind

/-- The program over the tokenizer. -/
def run : Script Result → Conf → Except ConfFault (Conf × Result)
  | .done result, conf => .ok (conf, result)
  | .string next, conf =>
    match conf.getConfString with
    | .error fault => .error fault
    | .ok (conf, word) => (next word).run conf
  | .token next, conf =>
    match conf.getConfToken with
    | .error fault => .error fault
    | .ok (conf, word) => (next word).run conf

end Script

/-- The words to come of the line that was read last, and the words of the lines to come. -/
structure Ahead where
  args : Line
  lines : List Line

namespace Ahead

def nextWords : List Line → Line → Ahead × Option Word
  | [], args => (⟨args, []⟩, none)
  | [] :: lines, _ => nextWords lines []
  | (word :: args) :: lines, _ => (⟨args, lines⟩, some word)

def next (ahead : Ahead) : Ahead × Option Word := nextWords ahead.lines ahead.args

/-- The lines to come that have words. -/
def rest (ahead : Ahead) : List Line := ahead.lines.filter (· ≠ [])

variable {ahead after : Ahead} {word : Word}

theorem next_some (read : ahead.next = (after, some word)) :
    ahead.rest = (word :: after.args) :: after.rest := by
  obtain ⟨args, lines⟩ := ahead
  unfold next at read
  unfold rest
  simp only at read ⊢
  induction lines generalizing args with
  | nil => cases read
  | cons line lines ih =>
    cases line with
    | nil => exact (List.filter_cons_of_neg (by simp)).trans (ih [] read)
    | cons first words =>
      cases read
      exact List.filter_cons_of_pos (by simp)

theorem next_none (read : ahead.next = (after, none)) : ahead.rest = [] ∧ after.rest = [] := by
  obtain ⟨args, lines⟩ := ahead
  unfold next at read
  unfold rest
  simp only at read ⊢
  induction lines generalizing args with
  | nil =>
    cases read
    exact ⟨rfl, rfl⟩
  | cons line lines ih =>
    cases line with
    | nil =>
      obtain ⟨before, behind⟩ := ih [] read
      exact ⟨(List.filter_cons_of_neg (by simp)).trans before, behind⟩
    | cons first words => cases read

theorem reads_next (ahead : Ahead) :
    (∃ after, ahead.next = (after, none)) ∨ ∃ after word, ahead.next = (after, some word) := by
  cases read : ahead.next with
  | mk after word =>
    cases word with
    | none => exact .inl ⟨after, rfl⟩
    | some word => exact .inr ⟨after, word, rfl⟩

theorem next_of_rest {args : Line} {more : List Line} (here : ahead.rest = (word :: args) :: more) :
    ∃ after, ahead.next = (after, some word) ∧ after.args = args ∧ after.rest = more := by
  rcases ahead.reads_next with ⟨after, read⟩ | ⟨after, first, read⟩
  · rw [(next_none read).1] at here
    cases here
  · have same := (next_some read).symm.trans here
    simp only [List.cons.injEq] at same
    obtain ⟨⟨rfl, same⟩, behind⟩ := same
    exact ⟨after, read, same, behind⟩

theorem next_of_nil (here : ahead.rest = []) : ∃ after, ahead.next = (after, none) := by
  rcases ahead.reads_next with read | ⟨after, first, read⟩
  · exact read
  · rw [next_some read] at here
    cases here

end Ahead

namespace Script

variable {Result Result' : Type}

/-- The program over the words of the lines. -/
def read : Script Result → Ahead → Ahead × Result
  | .done result, ahead => (ahead, result)
  | .string next, ahead => (next ahead.next.2).read ahead.next.1
  | .token next, ahead => (next ahead.args.head?).read { ahead with args := ahead.args.tail }

theorem read_bind (script : Script Result) (next : Result → Script Result') (ahead : Ahead) :
    (script >>= next).read ahead = (next (script.read ahead).2).read (script.read ahead).1 := by
  show (script.bind next).read ahead = _
  induction script generalizing ahead with
  | done result => rfl
  | string after ih => exact ih _ _
  | token after ih => exact ih _ _

end Script

/-! ### Over the tokenizer -/

/-- A line that the buffer holds, with its newline and without a NUL. -/
structure Ended (line : List UInt8) : Prop where
  newline : line.getLast? = some 10
  plain : 0 ∉ line
  short : line.length < confStringLen

structure TextFile (file : List UInt8) : Prop where
  nonempty : file ≠ []
  ended : ∀ line ∈ linesOf file, Ended line

instance (line : List UInt8) : Decidable (Ended line) :=
  decidable_of_iff (line.getLast? = some 10 ∧ 0 ∉ line ∧ line.length < confStringLen)
    ⟨fun all => ⟨all.1, all.2.1, all.2.2⟩, fun ended => ⟨ended.newline, ended.plain, ended.short⟩⟩

instance (file : List UInt8) : Decidable (TextFile file) :=
  decidable_of_iff (file ≠ [] ∧ ∀ line ∈ linesOf file, Ended line)
    ⟨fun both => ⟨both.1, both.2⟩, fun text => ⟨text.nonempty, text.ended⟩⟩

def wordLines (file : List UInt8) : List Line := (linesOf file).map wordsOf

section Tokenizer

variable {conf : Conf} {ahead : Ahead} {Result : Type}

theorem Ended.not_touches {line : List UInt8} (ended : Ended line) : touchesEnd line = false := by
  simp [touchesEnd, ended.newline, inWord, isEnd]

theorem lines_sound {lines : List (List UInt8)} (ended : ∀ line ∈ lines, Ended line)
    (buffer : List UInt8) : LinesSound lines buffer := by
  induction lines generalizing buffer with
  | nil => trivial
  | cons line lines ih =>
    have first := ended line List.mem_cons_self
    refine ⟨first.plain, ?_⟩
    split
    · exact ih (fun other member => ended other (List.mem_cons_of_mem _ member)) _
    · rw [first.not_touches]
      exact fun touches => absurd touches Bool.false_ne_true

/-- The tokenizer is behind a line, and its text has these words to come. -/
structure Behind (conf : Conf) (ahead : Ahead) : Prop where
  reads : ∃ lines, Reads conf ⟨lines, some ahead.args⟩ ∧ ahead.lines = lines.map wordsOf ∧
    ∀ line ∈ lines, Ended line

/-- The same of the next line, whatever was read before. -/
theorem nextLine_words (lines : List (List UInt8)) (args : Line) :
    (nextLine lines (some args)).2 = (Ahead.nextWords (lines.map wordsOf) args).2 ∧
      ∃ left, (nextLine lines (some args)).1 =
          ⟨left, some (Ahead.nextWords (lines.map wordsOf) args).1.args⟩ ∧
        (Ahead.nextWords (lines.map wordsOf) args).1.lines = left.map wordsOf ∧
        ∀ line ∈ left, line ∈ lines := by
  induction lines generalizing args with
  | nil => exact ⟨rfl, [], rfl, rfl, fun _ member => member⟩
  | cons line lines ih =>
    cases words : wordsOf line with
    | nil =>
      obtain ⟨same, left, text, behind, inside⟩ := ih []
      simp only [nextLine, words, List.map_cons, Ahead.nextWords]
      exact ⟨same, left, text, behind, fun other member => List.mem_cons_of_mem _ (inside other member)⟩
    | cons word words' =>
      simp only [nextLine, words, List.map_cons, Ahead.nextWords]
      exact ⟨trivial, lines, rfl, rfl, fun other member => List.mem_cons_of_mem _ member⟩

theorem string_behind {lines : List (List UInt8)} {pending : Option Line}
    (reads : Reads conf ⟨lines, pending⟩) (ended : ∀ line ∈ lines, Ended line) :
    ∃ after, conf.getConfString = .ok (after, (nextLine lines pending).2) ∧
      Reads after (nextLine lines pending).1 := by
  have sound : LinesSound lines conf.confString := lines_sound ended _
  exact string_loop reads sound (Nat.lt_succ_self _)

/-- What a program reads of the lines, it reads of the tokenizer. -/
theorem run_read (script : Script Result) (behind : Behind conf ahead) :
    ∃ after, script.run conf = .ok (after, (script.read ahead).2) := by
  induction script generalizing conf ahead with
  | done result => exact ⟨conf, rfl⟩
  | string next ih =>
    obtain ⟨lines, reads, same, ended⟩ := behind.reads
    obtain ⟨after, done, reads'⟩ := string_behind reads ended
    obtain ⟨word, left, text, behind', inside⟩ := nextLine_words lines ahead.args
    have further : Behind after ahead.next.1 := by
      refine ⟨left, ?_, ?_, fun line member => ended line (inside line member)⟩
      · rw [Ahead.next, same, ← text]
        exact reads'
      · rw [Ahead.next, same, behind']
    obtain ⟨final, ran⟩ := ih ahead.next.2 further
    refine ⟨final, ?_⟩
    have answer : (nextLine lines (some ahead.args)).2 = ahead.next.2 := by
      rw [Ahead.next, same, word]
    simp only [Script.run, done, answer]
    exact ran
  | token next ih =>
    obtain ⟨lines, reads, same, ended⟩ := behind.reads
    obtain ⟨after, done, file, length, later⟩ := token_spec reads.length (reads.pending _ rfl)
    have further : Behind after { ahead with args := ahead.args.tail } := by
      refine ⟨lines, ⟨length, file ▸ reads.lines, reads.fit, ?_⟩, same, ended⟩
      intro words pending
      cases pending
      exact later
    obtain ⟨final, ran⟩ := ih ahead.args.head? further
    refine ⟨final, ?_⟩
    simp only [Script.run, done]
    exact ran

/-- A program that begins with `GetConf_string`, over a text file. -/
theorem run_file {file : List UInt8} (next : Option Word → Script Result) (opened : conf.Opened file)
    (text : TextFile file) : ∃ after, (Script.string next).run conf =
      .ok (after, ((Script.string next).read ⟨[], wordLines file⟩).2) := by
  have start : Reads conf ⟨linesOf file, none⟩ :=
    ⟨opened.length, congrArg linesOf opened.file, fun line member => (text.ended line member).short,
      fun _ pending => by cases pending⟩
  obtain ⟨after, done, reads⟩ := string_behind start text.ended
  have known : nextLine (linesOf file) none = nextLine (linesOf file) (some []) := by
    cases lines : linesOf file with
    | nil => exact absurd (linesOf_eq_nil.mp lines) text.nonempty
    | cons line lines => rfl
  rw [known] at done reads
  obtain ⟨word, left, here, behind, inside⟩ := nextLine_words (linesOf file) []
  have further : Behind after (Ahead.next ⟨[], wordLines file⟩).1 :=
    ⟨left, here ▸ reads, behind, fun line member => text.ended line (inside line member)⟩
  obtain ⟨final, ran⟩ := run_read (next (Ahead.next ⟨[], wordLines file⟩).2) further
  refine ⟨final, ?_⟩
  have answer : (nextLine (linesOf file) (some [])).2 = (Ahead.next ⟨[], wordLines file⟩).2 := word
  simp only [Script.run, done, answer]
  exact ran

end Tokenizer

end QNXStuff.GetConf
