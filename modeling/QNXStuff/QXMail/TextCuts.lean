import QNXStuff.QXMail.MailText

/-! The text of a mail however the network cuts it: which texts the loop behind DATA receives from
every sequence of pieces that leaves the line ends whole. -/

namespace QNXStuff.QXMail

/-- No piece ends between the two bytes of a line end. -/
def Unsplit (pieces : List Segment) : Prop := ∀ piece ∈ pieces, piece.1.getLast? ≠ some cr

instance {pieces : List Segment} : Decidable (Unsplit pieces) :=
  inferInstanceAs (Decidable (∀ piece ∈ pieces, _))

/-- Somewhere before its terminator the text has CRLF.CR and goes on with another byte. -/
def Marked (text : List UInt8) : Prop :=
  ∃ byte, byte ≠ cr ∧ [cr, lf, dot, cr, byte] <:+: text ++ [cr, lf, dot, cr]

/-- Every stretch between carriage returns leaves room for four more bytes in the buffer. -/
def Roomy (size : Nat) (text : List UInt8) : Prop :=
  ∀ stretch, cr ∉ stretch → stretch <:+: text ++ eom → stretch.length + 4 ≤ size

section

variable {size : Nat} {text received held spool buffer : List UInt8} {piece : Segment}
  {pieces : List Segment}

/-! ### What is kept -/

/-- A stretch without a carriage return behind at most three bytes. -/
def Short (held : List UInt8) : Prop :=
  ∃ front behind, held = front ++ behind ∧ front.length ≤ 3 ∧ cr ∉ behind

theorem short_nil : Short [] := ⟨[], [], rfl, Nat.zero_le 3, List.not_mem_nil⟩

/-- A pass over bytes that do not end in a carriage return keeps little before the last stretch. -/
theorem dataPass_short (whole : buffer.getLast? ≠ some cr) (ended : (dataPass buffer).ended = false) :
    Short (dataPass buffer).kept := by
  have passed := dataPass_cases buffer
  revert ended
  generalize dataPass buffer = pass at passed
  intro ended
  cases passed with
  | ends => cases ended
  | @writes behind front some clean => exact ⟨[cr], behind, rfl, by simp, clean⟩
  | waits early =>
    cases found : lastCr buffer with
    | none => exact ⟨[], buffer, rfl, Nat.zero_le 3, lastCr_none found⟩
    | some rpos =>
      obtain ⟨behind, split, clean⟩ := lastCr_some found
      have more : behind ≠ [] := by
        rintro rfl
        rw [split] at whole
        simp at whole
      have few := (early _ behind split clean).resolve_right more
      refine ⟨buffer.take rpos ++ [cr], behind, ?_, ?_, clean⟩
      · rw [List.append_assoc]
        exact split
      · rw [List.length_append]
        exact few

/-- What a pass writes and keeps is what it had. -/
theorem dataPass_whole (buffer : List UInt8) :
    (dataPass buffer).spooled ++ (dataPass buffer).kept = buffer := by
  have passed := ((dataPass_cases buffer).passed (.inl rfl)).whole
  simpa using passed

theorem getLast?_piece (piece : Segment) (held : List UInt8) :
    (held ++ piece.1).getLast? = piece.1.getLast? := by
  rw [List.getLast?_append, List.getLast?_eq_some_getLast piece.2]
  rfl

/-- As long as the bytes received do not look like the end of a text, what is kept is short and the
last part of them. -/
theorem heldBehind_short (kept : Kept spool held) (short : Short held) (unsplit : Unsplit pieces)
    (unlike : ∀ count ≤ pieces.length, 0 < count →
      ¬ EndsLike (spool ++ held ++ Socket.bytes (pieces.take count))) :
    Short (heldBehind held pieces) ∧
      heldBehind held pieces <:+ spool ++ held ++ Socket.bytes pieces := by
  induction pieces generalizing spool held with
  | nil =>
    refine ⟨short, ?_⟩
    rw [Socket.bytes_nil, List.append_nil]
    exact List.suffix_append spool held
  | cons piece rest ih =>
    have passed := (dataPass_cases (held ++ piece.1)).passed (kept.append piece.1)
    have first := unlike 1 (Nat.succ_le_succ (Nat.zero_le _)) Nat.one_pos
    have ended : (dataPass (held ++ piece.1)).ended = false := by
      refine Bool.eq_false_iff.mpr fun ended => first ?_
      simpa using passed.ends_iff.mp ended
    have whole : (held ++ piece.1).getLast? ≠ some cr := by
      rw [getLast?_piece]
      exact unsplit piece List.mem_cons_self
    have onward : spool ++ (dataPass (held ++ piece.1)).spooled ++ (dataPass (held ++ piece.1)).kept =
        spool ++ held ++ piece.1 := by
      rw [List.append_assoc, dataPass_whole, List.append_assoc]
    have later := ih (passed.kept ended) (dataPass_short whole ended)
      (fun piece member => unsplit piece (List.mem_cons_of_mem _ member)) ?_
    · rw [onward] at later
      simpa [heldBehind] using later
    · intro count within positive
      rw [onward]
      have apart := unlike (count + 1) (Nat.succ_le_succ within) (Nat.succ_pos _)
      simpa using apart

/-! ### What looks like the end -/

/-- What looks like the end of a text has CRLF.CR and another byte in it. -/
theorem EndsLike.mark (like : EndsLike received) :
    ∃ byte, byte ≠ cr ∧ [cr, lf, dot, cr, byte] <:+: received := by
  obtain ⟨front, behind, rfl, clean, more, before, rfl⟩ := like
  obtain ⟨byte, rest, rfl⟩ := List.exists_cons_of_ne_nil more
  refine ⟨byte, ?_, before, rest, by simp⟩
  rintro rfl
  exact clean List.mem_cons_self

theorem endsLike_mark {byte : UInt8} (apart : byte ≠ cr) (before : List UInt8) :
    EndsLike (before ++ [cr, lf, dot, cr, byte]) :=
  ⟨before ++ [cr, lf, dot], [byte], by simp, by simpa using apart.symm, by simp,
    List.suffix_append ..⟩

theorem eom_eq (text : List UInt8) : text ++ eom = text ++ [cr, lf, dot, cr] ++ [lf] := by
  simp [eom]

/-- A part of the stream that stops before its end looks like the end only in a marked text. -/
theorem unlike_of_unmarked (unmarked : ¬ Marked text) {after : List UInt8} (more : after ≠ [])
    (split : text ++ eom = received ++ after) : ¬ EndsLike received := by
  have early : received <+: text ++ [cr, lf, dot, cr] := by
    have part : received <+: text ++ [cr, lf, dot, cr] ++ [lf] := ⟨after, by rw [← split, eom_eq]⟩
    refine (List.prefix_concat_iff.mp part).resolve_left ?_
    rintro rfl
    rw [eom_eq] at split
    exact more (List.append_right_eq_self.mp split.symm)
  intro like
  obtain ⟨byte, apart, mark⟩ := like.mark
  exact unmarked ⟨byte, apart, mark.trans early.isInfix⟩

theorem bytes_ne_nil (more : pieces ≠ []) : Socket.bytes pieces ≠ [] := by
  cases pieces with
  | nil => exact absurd rfl more
  | cons piece rest =>
    rw [Socket.bytes_cons]
    exact List.append_ne_nil_of_left_ne_nil piece.2 _

theorem bytes_take_drop (pieces : List Segment) (count : Nat) :
    Socket.bytes (pieces.take count) ++ Socket.bytes (pieces.drop count) = Socket.bytes pieces := by
  simp only [Socket.bytes, ← List.flatten_append, ← List.map_append, List.take_append_drop]

theorem unlike_before (unmarked : ¬ Marked text) (stream : Socket.bytes pieces = text ++ eom)
    {count : Nat} (before : count < pieces.length) :
    ¬ EndsLike (Socket.bytes (pieces.take count)) := by
  have more : pieces.drop count ≠ [] := by
    rw [Ne, List.drop_eq_nil_iff]
    exact Nat.not_le.mpr before
  exact unlike_of_unmarked unmarked (bytes_ne_nil more) (by rw [← stream, bytes_take_drop])

theorem endsAfter_all (fits : Roomy size text) (unmarked : ¬ Marked text) (unsplit : Unsplit pieces)
    (stream : Socket.bytes pieces = text ++ eom) :
    EndsAfter size text [] [] pieces pieces.length := by
  refine ⟨by simpa using stream, ?_, Nat.le_refl _, ?_, fun count before _ => ?_⟩
  · refine List.length_pos_iff.mpr ?_
    rintro rfl
    simp [eom] at stream
  · intro count before
    have few : Unsplit (pieces.take count) :=
      fun piece member => unsplit piece (List.mem_of_mem_take member)
    have kept : Kept [] [] := .inl rfl
    obtain ⟨⟨front, behind, held, three, clean⟩, last⟩ :=
      heldBehind_short kept short_nil few fun earlier within _ => by
        rw [List.length_take] at within
        rw [List.take_take, Nat.min_eq_left (Nat.le_trans within (Nat.min_le_left ..))]
        exact unlike_before unmarked stream (by omega)
    have part : behind <:+: text ++ eom := by
      rw [held] at last
      refine ((List.suffix_append front behind).trans last).isInfix.trans ?_
      rw [← stream]
      exact ⟨[], Socket.bytes (pieces.drop count), by simpa using bytes_take_drop pieces count⟩
    have room := fits behind clean part
    rw [held, List.length_append]
    omega
  · exact unlike_before unmarked stream before

theorem dataLoop_all_iff (stream : Socket.bytes pieces = text ++ eom) :
    dataLoop size [] [] pieces = some (text, []) ↔ ∃ count, EndsAfter size text [] [] pieces count := by
  have whole : [] ++ [] ++ Socket.bytes pieces = text ++ eom ++ [] := by simpa using stream
  have ends : (∃ left, dataLoop size [] [] pieces = some (text, left) ∧ Socket.bytes left = []) ↔
      ∃ count, EndsAfter size text [] [] pieces count := dataLoop_iff (.inl rfl) whole
  rw [← ends]
  constructor
  · exact fun received => ⟨[], received, rfl⟩
  · rintro ⟨left, received, none⟩
    obtain rfl : left = [] := by
      by_contra more
      exact bytes_ne_nil more none
    exact received

/-- A text that is not marked and whose lines fit is received from all pieces that leave its line
ends whole. -/
theorem dataLoop_unsplit (fits : Roomy size text) (unmarked : ¬ Marked text)
    (unsplit : Unsplit pieces) (stream : Socket.bytes pieces = text ++ eom) :
    dataLoop size [] [] pieces = some (text, []) :=
  (dataLoop_all_iff stream).mpr ⟨pieces.length, endsAfter_all fits unmarked unsplit stream⟩

/-- What the loop takes of the stream of an unmarked text, however it is cut, is the text. -/
theorem dataLoop_unmarked {found : List UInt8} {left : List Segment} (kept : Kept spool held)
    (unmarked : ¬ Marked text) (stream : spool ++ held ++ Socket.bytes pieces = text ++ eom)
    (received : dataLoop size spool held pieces = some (found, left)) :
    found = text ∧ left = [] := by
  induction pieces generalizing spool held with
  | nil => cases received
  | cons piece rest ih =>
    have passed := (dataPass_cases (held ++ piece.1)).passed (kept.append piece.1)
    have onward : spool ++ (held ++ piece.1) ++ Socket.bytes rest = text ++ eom := by
      simpa using stream
    simp only [dataLoop] at received
    split at received
    · cases received
    · split at received
      · next ended =>
        obtain ⟨text', left'⟩ := Prod.mk.inj (Option.some.inj received)
        have like := passed.ends_iff.mp ended
        have last : rest = [] := by
          by_contra more
          exact unlike_of_unmarked unmarked (bytes_ne_nil more) onward.symm like
        rw [last, Socket.bytes_nil, List.append_nil] at onward
        have whole : spool ++ (held ++ piece.1) ++ [] = text ++ eom ++ [] := by rw [onward]
        rw [← text', ← left']
        exact ⟨((passed.text_iff ended whole).mpr onward).1, last⟩
      · next going =>
        refine ih (passed.kept (Bool.eq_false_iff.mpr going)) ?_ received
        rw [passed.whole]
        exact onward

theorem marked_pieces (marked : Marked text) :
    ∃ first second : Segment, Unsplit [first, second] ∧
      Socket.bytes [first, second] = text ++ eom ∧ EndsLike first.1 := by
  obtain ⟨byte, apart, before, after, split⟩ := marked
  refine ⟨⟨before ++ [cr, lf, dot, cr, byte], by simp⟩, ⟨after ++ [lf], by simp⟩, ?_, ?_,
    endsLike_mark apart before⟩
  · simp [Unsplit, apart]
    decide
  · rw [eom_eq, ← split]
    simp

theorem roomy_of_length (short : text.length + 9 ≤ size) : Roomy size text := by
  intro stretch _ part
  have length := part.length_le
  simp only [eom, List.length_append, List.length_cons, List.length_nil] at length
  omega

theorem unmarked_of_clean (clean : cr ∉ text) : ¬ Marked text := by
  rintro ⟨byte, apart, before, after, split⟩
  have counts := congrArg (List.count cr) split
  have none : cr ∉ after := by
    rw [← List.count_eq_zero]
    simp only [List.count_append, List.count_cons, List.count_nil, List.count_eq_zero.mpr clean,
      beq_self_eq_true, if_true] at counts
    omega
  have ends : (before ++ [cr, lf, dot]) ++ cr :: byte :: after =
      (text ++ [cr, lf, dot]) ++ cr :: [] := by simpa using split
  have clean' : cr ∉ byte :: after := by simp [apart.symm, none]
  cases (last_cr_unique ends clean' List.not_mem_nil).2

end

end QNXStuff.QXMail
