import QNXStuff.GetConf.Reading
import QNXStuff.QXMail.Text

/-! Runs of the tokenizer over a configuration file. -/

namespace QNXStuff.GetConf

open Execution
open QXMail (ascii)

section

variable {conf : Conf} {behind : List UInt8} {stop : UInt8}

/-- A loop over the buffer that meets a byte to stop at. -/
theorem runLength_eq {goes : UInt8 → Bool} {place : Nat} {front : List UInt8}
    (length : conf.confString.length = confStringLen)
    (here : conf.confString.drop place = front ++ stop :: behind) (all : front.all goes = true)
    (stops : goes stop = false) : conf.runLength place goes = front.length := by
  have whole := congrArg List.length here
  simp only [List.length_drop, List.length_append, List.length_cons, length] at whole
  have inside : front.length ≤ confStringLen - 1 - place := by omega
  have nothing : (List.take (confStringLen - 1 - place - front.length) (stop :: behind)).takeWhile
      goes = [] := by
    cases confStringLen - 1 - place - front.length with
    | zero => rfl
    | succ more => simp [stops]
  rw [Conf.runLength, List.drop_take, here, List.take_append, List.take_of_length_le inside,
    List.takeWhile_append_of_pos (List.all_eq_true.mp all), nothing, List.append_nil]

theorem quiet_split {rest : List UInt8} (silent : quiet rest = true) :
    ∃ blanks byte behind, rest = blanks ++ byte :: behind ∧ blanks.all isBlank = true ∧
      isBlank byte = false ∧
      (isEnd byte = true ∨ byte = confComment ∧ behind.all inWord = false) := by
  unfold quiet at silent
  split at silent
  · cases silent
  · next byte behind left =>
    refine ⟨rest.takeWhile isBlank, byte, behind, ?_, List.all_takeWhile, ?_, ?_⟩
    · rw [← left, List.takeWhile_append_dropWhile]
    · have first := List.head?_dropWhile_not isBlank rest
      rw [left] at first
      simpa using first
    · simpa using silent

/-- What `ConfToken` points to. -/
def Conf.ahead (conf : Conf) : List UInt8 := conf.confString.drop conf.confToken

theorem drop_ahead {start : List UInt8} {rest : List UInt8} (here : conf.ahead = start ++ rest) :
    conf.confString.drop (conf.confToken + start.length) = rest := by
  have further := congrArg (List.drop start.length) here
  rwa [Conf.ahead, List.drop_drop, List.drop_left] at further

/-- Without a word `ConfToken` stays in front of what is no word. -/
theorem token_silent (length : conf.confString.length = confStringLen)
    (silent : quiet conf.ahead = true) : ∃ next, conf.getConfToken = .ok (next, none) ∧
      next.confFile = conf.confFile ∧ next.confString = conf.confString ∧
      quiet next.ahead = true := by
  obtain ⟨blanks, byte, behind, here, blank, apart, stops⟩ := quiet_split silent
  have run := runLength_eq length here blank apart
  have left := drop_ahead here
  have ends : (byte :: behind).all inWord = false := by
    rcases stops with ends | ⟨-, later⟩
    · simp [inWord_of_isEnd ends]
    · simp [later]
  have none : (byte :: behind).takeWhile inWord = [] ∨
      (byte :: behind).head? = some confComment := by
    rcases stops with ends | ⟨comment, -⟩
    · exact .inl (List.takeWhile_cons_of_neg (by simp [inWord_of_isEnd ends]))
    · exact .inr (congrArg some comment)
  refine ⟨{ conf with confToken := conf.confToken + blanks.length }, ?_, rfl, rfl, ?_⟩
  · simp only [Conf.getConfToken, run, left, ends, Bool.false_eq_true, if_false, if_pos none]
  · rw [Conf.ahead, left, quiet, List.dropWhile_cons_of_neg (by simp [apart])]
    rcases stops with ends | ⟨comment, later⟩
    · simp [ends]
    · simp [comment, later]

/-- A word is cut off at its end, and `ConfToken` goes past that. -/
theorem token_word {blanks word : List UInt8} (length : conf.confString.length = confStringLen)
    (here : conf.ahead = blanks ++ (word ++ stop :: behind)) (blank : blanks.all isBlank = true)
    (nonempty : word ≠ []) (letters : word.all inWord = true) (plain : isComment word = false)
    (stops : inWord stop = false) : ∃ next, conf.getConfToken = .ok (next, some word) ∧
      next.confFile = conf.confFile ∧ next.confString.length = confStringLen ∧
      next.ahead = behind := by
  have left := drop_ahead here
  obtain ⟨first, letters', whole⟩ := List.exists_cons_of_ne_nil nonempty
  have apart : isBlank first = false := blanks_of_letters letters first (by simp [whole])
  have run : conf.runLength conf.confToken isBlank = blanks.length := by
    refine @runLength_eq conf (letters' ++ stop :: behind) first _ _ _ length ?_ blank apart
    rw [← List.cons_append, ← whole]
    exact here
  have run' := runLength_eq length left letters stops
  have ends : (word ++ stop :: behind).all inWord = false := by simp [stops]
  have some' : ¬ ((word ++ stop :: behind).takeWhile inWord = [] ∨
      (word ++ stop :: behind).head? = some confComment) := by
    rw [takeWhile_append_stop letters stops]
    refine not_or.mpr ⟨nonempty, ?_⟩
    rw [whole] at plain ⊢
    simpa [isComment] using plain
  have cut : ((conf.confString.set (conf.confToken + blanks.length + word.length) 0).drop
      (conf.confToken + blanks.length)).takeWhile (· != 0) = word := by
    rw [List.drop_set, if_neg (by omega), left, Nat.add_sub_cancel_left, List.set_append_right _ _
      (Nat.le_refl _), Nat.sub_self, List.set_cons_zero]
    refine takeWhile_append_stop ?_ rfl
    refine List.all_eq_true.mpr fun byte member => ?_
    have inside := (inWord_iff.mp (List.all_eq_true.mp letters byte member)).2
    simp only [isEnd, Bool.or_eq_false_iff] at inside
    simp [bne, inside.1]
  refine ⟨{ conf with
    confString := conf.confString.set (conf.confToken + blanks.length + word.length) 0
    confToken := conf.confToken + blanks.length + word.length + 1 }, ?_, rfl, ?_, ?_⟩
  · simp only [Conf.getConfToken, run, left, ends, Bool.false_eq_true, if_false, if_neg some', run',
      cut]
  · rw [List.length_set, length]
  · have further := congrArg (List.drop (word.length + 1)) left
    rw [Conf.ahead, List.drop_set_of_lt (Nat.lt_succ_self _)]
    rw [List.drop_drop] at further
    exact further.trans (by simp [List.drop_append])

/-- A call of `GetConf_token` takes the first of the words, or none. -/
theorem token_spec {words : List (List UInt8)} (length : conf.confString.length = confStringLen)
    (yields : Yields conf.ahead words) :
    ∃ next, conf.getConfToken = .ok (next, words.head?) ∧ next.confFile = conf.confFile ∧
      next.confString.length = confStringLen ∧ Yields next.ahead words.tail := by
  generalize here : conf.ahead = rest at yields
  cases yields with
  | silent silent =>
    obtain ⟨next, done, file, same, left⟩ := token_silent length (here ▸ silent)
    exact ⟨next, done, file, same ▸ length, .silent left⟩
  | word blank nonempty letters plain stops later =>
    obtain ⟨next, done, file, length, left⟩ :=
      token_word length here blank nonempty letters plain stops
    exact ⟨next, done, file, length, left ▸ later⟩

/-- The tokenizer is where its text says. -/
structure Reads (conf : Conf) (text : ConfText) : Prop where
  length : conf.confString.length = confStringLen
  lines : linesOf conf.confFile = text.lines
  fit : ∀ line ∈ text.lines, line.length < confStringLen
  pending : ∀ words ∈ text.pending, Yields conf.ahead words

theorem overlay_length {buffer line : List UInt8} (fits : line.length < buffer.length) :
    (overlay buffer line).length = buffer.length := by
  simp only [overlay, List.length_append, List.length_cons, List.length_drop]
  omega

/-- A call of `GetConf_string` goes to the next line with a word. -/
theorem string_loop {lines : List (List UInt8)} {pending : Option (List (List UInt8))} {turns : Nat}
    (reads : Reads conf ⟨lines, pending⟩) (sound : LinesSound lines conf.confString)
    (enough : conf.confFile.length < turns) :
    ∃ next, loop Conf.stringTurn .endless turns conf = .ok (next, (nextLine lines pending).2) ∧
      Reads next (nextLine lines pending).1 := by
  induction lines generalizing conf pending turns with
  | nil =>
    obtain ⟨turns, rfl⟩ := Nat.exists_eq_add_one_of_ne_zero (Nat.ne_of_gt (Nat.zero_lt_of_lt enough))
    have empty := linesOf_eq_nil.mp reads.lines
    refine ⟨{ conf with getConfLn := conf.getConfLn + 1 }, ?_, reads.length, reads.lines, reads.fit,
      reads.pending⟩
    simp [loop, Conf.stringTurn, Conf.fgets, empty, nextLine]
  | cons line lines ih =>
    obtain ⟨turns, rfl⟩ := Nat.exists_eq_add_one_of_ne_zero (Nat.ne_of_gt (Nat.zero_lt_of_lt enough))
    have fits := reads.fit line List.mem_cons_self
    obtain ⟨rest, taken, left, shorter, isLine⟩ :=
      gets_line reads.lines (Nat.le_sub_one_of_lt fits)
    have nonempty : conf.confFile ≠ [] := List.ne_nil_of_length_pos (Nat.zero_lt_of_lt shorter)
    obtain ⟨zero, ending⟩ := sound
    have length : (overlay conf.confString line).length = confStringLen := by
      rw [overlay_length (by rwa [reads.length]), reads.length]
    have yields : Yields (overlay conf.confString line) (wordsOf line) := by
      refine line_yields isLine zero fun touches => ?_
      rw [if_neg (words_of_touchesEnd isLine zero touches)] at ending
      exact ending touches
    have fit : ∀ line ∈ lines, line.length < confStringLen :=
      fun other member => reads.fit other (List.mem_cons_of_mem line member)
    have fetched : ({ conf with getConfLn := conf.getConfLn + 1 } : Conf).fgets =
        some ⟨rest, overlay conf.confString line, conf.confToken, conf.getConfLn + 1⟩ := by
      simp [Conf.fgets, nonempty, taken]
    cases words : wordsOf line with
    | nil =>
      rw [words] at yields
      obtain ⟨next, done, file, same, silent⟩ := @token_silent
        ⟨rest, overlay conf.confString line, 0, conf.getConfLn + 1⟩ length yields.quiet
      have file : next.confFile = rest := file
      have same : next.confString = overlay conf.confString line := same
      rw [if_pos words, ← same] at ending
      obtain ⟨final, ended, reads'⟩ := @ih next (some []) turns
        ⟨same ▸ length, file ▸ left, fit, by simpa using .silent silent⟩ ending
        (Nat.lt_of_lt_of_le (file ▸ shorter) (Nat.le_of_lt_succ enough))
      refine ⟨final, ?_, ?_⟩
      · simp only [loop, Conf.stringTurn, fetched, done, Except.map, nextLine, words]
        exact ended
      · simpa only [nextLine, words] using reads'
    | cons word words' =>
      rw [words] at yields
      obtain ⟨next, done, file, length', later⟩ := @token_spec
        ⟨rest, overlay conf.confString line, 0, conf.getConfLn + 1⟩ _ length yields
      have file : next.confFile = rest := file
      refine ⟨next, ?_, ?_⟩
      · simp only [loop, Conf.stringTurn, fetched, done, Except.map, nextLine, words]
        rfl
      · simp only [nextLine, words]
        exact ⟨length', file ▸ left, fit, by simpa using later⟩

/-- Every call of `GetConf_token` leaves the file alone. -/
theorem token_frame {next : Conf} {token : Option (List UInt8)}
    (done : conf.getConfToken = .ok (next, token)) :
    next.confFile = conf.confFile ∧ next.confString.length = conf.confString.length := by
  simp only [Conf.getConfToken] at done
  split at done
  · cases done
  · split at done
    · cases done
      exact ⟨rfl, rfl⟩
    · cases done
      exact ⟨rfl, List.length_set⟩

theorem reads_step {text : ConfText} {label : ConfLabel} {next : Conf} (reads : Reads conf text)
    (sound : conf.LineSound label.1) (step : ConfStep conf label next) :
    ∃ text', TextStep text label text' ∧ Reads next text' := by
  obtain ⟨lines, pending⟩ := text
  obtain ⟨call, answer⟩ := label
  cases call with
  | string =>
    have sound : LinesSound (linesOf conf.confFile) conf.confString := sound
    rw [reads.lines] at sound
    obtain ⟨final, done, reads'⟩ := string_loop reads sound (Nat.lt_succ_self _)
    have same : Except.ok (next, answer) = Except.ok (final, (nextLine lines pending).2) :=
      Eq.trans (Eq.symm step) done
    cases same
    exact ⟨_, .string, reads'⟩
  | token =>
    have done : conf.getConfToken = .ok (next, answer) := step
    obtain ⟨file, length⟩ := token_frame done
    cases pending with
    | none =>
      refine ⟨_, .unread, ?_⟩
      exact ⟨length.trans reads.length, file ▸ reads.lines, reads.fit, nofun⟩
    | some words =>
      obtain ⟨final, done', -, -, later⟩ := token_spec reads.length (reads.pending words rfl)
      rw [done] at done'
      cases done'
      have reads' : Reads next ⟨lines, some words.tail⟩ :=
        ⟨length.trans reads.length, file ▸ reads.lines, reads.fit, by simpa using later⟩
      cases words with
      | nil => exact ⟨_, .null, reads'⟩
      | cons word words => exact ⟨_, .word, reads'⟩

theorem call_answered {text : ConfText} {call : ConfCall} (reads : Reads conf text)
    (sound : conf.LineSound call) (known : call = .string ∨ text.pending ≠ none) :
    ∃ answer, conf.handle call = .ok answer := by
  cases call with
  | string =>
    have sound : LinesSound (linesOf conf.confFile) conf.confString := sound
    rw [reads.lines] at sound
    obtain ⟨final, done, -⟩ := string_loop reads sound (Nat.lt_succ_self _)
    exact ⟨_, done⟩
  | token =>
    obtain ⟨words, pending⟩ := Option.ne_none_iff_exists'.mp (known.resolve_left nofun)
    obtain ⟨final, done, -⟩ := token_spec reads.length (reads.pending words pending)
    exact ⟨_, done⟩

end

/-- The calls read the words of the file, line by line. -/
theorem tokens_are_words {file : List UInt8} {conf final : Conf} {labels : List ConfLabel}
    (opened : conf.Opened file) (short : ∀ line ∈ linesOf file, line.length < confStringLen)
    (run : Run (Under ConfStep fun conf label => conf.LineSound label.1) conf labels final) :
    ∃ text, Run TextStep ⟨linesOf file, none⟩ labels text ∧
      ∀ call, final.LineSound call → call = .string ∨ text.pending ≠ none →
        ∃ answer, final.handle call = .ok answer := by
  have start : Reads conf ⟨linesOf file, none⟩ :=
    ⟨opened.length, congrArg linesOf opened.file, short, nofun⟩
  obtain ⟨text, reads, ended⟩ := run.simulate start fun conf label next text reads step =>
    reads_step reads step.2 step.1
  exact ⟨text, reads, fun call sound known => call_answered ended sound known⟩

/-- A file is opened, with a buffer of zeros. -/
def opensText (text : String) : Conf := ⟨ascii text, List.replicate confStringLen 0, 0, 0⟩

theorem opensText_opened (text : String) : (opensText text).Opened (ascii text) :=
  ⟨rfl, List.length_replicate, rfl⟩

/-- Two lines, the first with a comment, and nothing behind the end of the file. -/
theorem two_lines_are_read : ∃ final text,
    Run ConfStep (opensText "Pool\t 2 # two\n\nBind\n")
      [(.string, some (ascii "Pool")), (.token, some (ascii "2")), (.token, none), (.token, none),
        (.string, some (ascii "Bind")), (.token, none), (.string, none)] final ∧
      Run TextStep ⟨linesOf (ascii "Pool\t 2 # two\n\nBind\n"), none⟩
        [(.string, some (ascii "Pool")), (.token, some (ascii "2")), (.token, none), (.token, none),
          (.string, some (ascii "Bind")), (.token, none), (.string, none)] text := by
  obtain ⟨final, run, -⟩ := replay_run (guarded Conf.handle Conf.LineSound)
    (opensText "Pool\t 2 # two\n\nBind\n")
    [.string, .token, .token, .token, .string, .token, .string]
    [some (ascii "Pool"), some (ascii "2"), none, none, some (ascii "Bind"), none, none]
    (fun _ => (none : Option (List UInt8))) none (by decide +kernel)
  have under := run_guarded run
  obtain ⟨text, reads, -⟩ := tokens_are_words (opensText_opened _) (by decide +kernel) under
  exact ⟨final, text, under.mono fun _ _ _ step => step.1, reads⟩

theorem TextStep.string_eq {text next : ConfText} {answer : Option (List UInt8)}
    (step : TextStep text (.string, answer) next) :
    answer = (nextLine text.lines text.pending).2 ∧ next = (nextLine text.lines text.pending).1 := by
  cases step
  exact ⟨rfl, rfl⟩

theorem TextStep.token_eq {next : ConfText} {lines words : List (List UInt8)}
    {answer : Option (List UInt8)} (step : TextStep ⟨lines, some words⟩ (.token, answer) next) :
    answer = words.head? ∧ next = ⟨lines, some words.tail⟩ := by
  cases step
  · exact ⟨rfl, rfl⟩
  · exact ⟨rfl, rfl⟩

/-- Bytes of the first line are a token of the last one, which has no newline. -/
theorem stale_bytes_are_token : ∃ final,
    Run ConfStep (opensText "PoolLoWater 2\nBind")
      [(.string, some (ascii "PoolLoWater")), (.string, some (ascii "Bind")),
        (.token, some (ascii "oWater"))] final ∧
      ¬ ∃ text, Run TextStep ⟨linesOf (ascii "PoolLoWater 2\nBind"), none⟩
        [(.string, some (ascii "PoolLoWater")), (.string, some (ascii "Bind")),
          (.token, some (ascii "oWater"))] text := by
  obtain ⟨final, run, -⟩ := replay_run Conf.handle (opensText "PoolLoWater 2\nBind")
    [.string, .string, .token]
    [some (ascii "PoolLoWater"), some (ascii "Bind"), some (ascii "oWater")]
    (fun _ => (none : Option (List UInt8))) none (by decide +kernel)
  refine ⟨final, run, ?_⟩
  rintro ⟨text, _ | ⟨first, _ | ⟨second, _ | ⟨third, -⟩⟩⟩⟩
  obtain ⟨-, rfl⟩ := first.string_eq
  obtain ⟨-, rfl⟩ := second.string_eq
  have lines : (nextLine (nextLine (linesOf (ascii "PoolLoWater 2\nBind")) none).1.lines
      (nextLine (linesOf (ascii "PoolLoWater 2\nBind")) none).1.pending).1 = ⟨[], some []⟩ := by
    rfl
  rw [lines] at third
  exact absurd third.token_eq.1 nofun

end QNXStuff.GetConf
