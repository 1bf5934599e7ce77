import QNXStuff.QXMail.Lines

/-! The loop that receives a mail behind DATA, and when it finds the end of the text. -/

namespace QNXStuff.QXMail

def dot : UInt8 := 46

/-- CRLF.CRLF -/
def eom : List UInt8 := [cr, lf, dot, cr, lf]

/-- "find the last ocurance of '\r' character in received data" -/
def lastCr : List UInt8 → Option Nat
  | [] => none
  | byte :: rest =>
    match lastCr rest with
    | some index => some (index + 1)
    | none => if byte = cr then some 0 else none

/-- What one pass makes of the buffer: what it writes, what it keeps, and `f_eom`. -/
structure DataPass where
  spooled : List UInt8
  kept : List UInt8
  ended : Bool

def dataPass (buffer : List UInt8) : DataPass :=
  match lastCr buffer with
  | none => ⟨[], buffer, false⟩
  | some rpos =>
    if rpos < 3 ∨ rpos = buffer.length - 1 then ⟨[], buffer, false⟩
    else if buffer[rpos - 1]? = some dot ∧ buffer[rpos - 2]? = some lf ∧
        buffer[rpos - 3]? = some cr then
      ⟨buffer.take (rpos - 3), buffer.drop (rpos - 3), true⟩
    else ⟨buffer.take rpos, buffer.drop rpos, false⟩

/-- The loop; `pieces` is what the calls of `recv` return one after the other, of any lengths, also
beyond the room that is left. What is kept when the loop ends is lost. `none` is a failure of `recv`,
or a call without room in the buffer. -/
def dataLoop (size : Nat) : List UInt8 → List UInt8 → List Segment →
    Option (List UInt8 × List Segment)
  | _, _, [] => none
  | spool, held, piece :: rest =>
    if size ≤ held.length then none
    else
      let pass := dataPass (held ++ piece.1)
      if pass.ended then some (spool ++ pass.spooled, rest)
      else dataLoop size (spool ++ pass.spooled) pass.kept rest

/-- The bytes in the buffer behind the pieces received. -/
def heldBehind (held : List UInt8) (pieces : List Segment) : List UInt8 :=
  pieces.foldl (fun held piece => (dataPass (held ++ piece.1)).kept) held

/-- The last carriage return is followed by something and comes behind CRLF and a dot. -/
def EndsLike (bytes : List UInt8) : Prop :=
  ∃ front behind, bytes = front ++ cr :: behind ∧ cr ∉ behind ∧ behind ≠ [] ∧
    [cr, lf, dot] <:+ front

/-! ### The last carriage return -/

theorem lastCr_none {buffer : List UInt8} (none : lastCr buffer = none) : cr ∉ buffer := by
  induction buffer with
  | nil => nofun
  | cons byte rest ih =>
    unfold lastCr at none
    split at none
    · cases none
    · next none' =>
      split at none
      · cases none
      · next apart =>
        intro member
        rcases List.mem_cons.mp member with same | later
        · exact apart same.symm
        · exact ih none' later

theorem lastCr_some {buffer : List UInt8} {rpos : Nat} (found : lastCr buffer = some rpos) :
    ∃ behind, buffer = buffer.take rpos ++ cr :: behind ∧ cr ∉ behind := by
  induction buffer generalizing rpos with
  | nil => cases found
  | cons byte rest ih =>
    unfold lastCr at found
    split at found
    · next index later =>
      cases found
      obtain ⟨behind, split, clean⟩ := ih later
      refine ⟨behind, ?_, clean⟩
      rw [List.take_succ_cons, List.cons_append, ← split]
    · next none =>
      split at found
      · next here =>
        cases found
        exact ⟨rest, by rw [here]; rfl, lastCr_none none⟩
      · cases found

theorem lastCr_of_split {front behind : List UInt8} (clean : cr ∉ behind) :
    lastCr (front ++ cr :: behind) = some front.length := by
  induction front with
  | nil =>
    have none : lastCr behind = none := by
      cases found : lastCr behind with
      | none => rfl
      | some rpos =>
        obtain ⟨later, split, -⟩ := lastCr_some found
        exact absurd (split ▸ List.mem_append_right _ List.mem_cons_self) clean
    simp [lastCr, none]
  | cons byte front ih => simp [lastCr, ih]

theorem last_cr_unique {front front' behind behind' : List UInt8}
    (same : front ++ cr :: behind = front' ++ cr :: behind') (clean : cr ∉ behind)
    (clean' : cr ∉ behind') : front = front' ∧ behind = behind' := by
  have place : lastCr (front ++ cr :: behind) = some front.length := lastCr_of_split clean
  rw [same, lastCr_of_split clean', Option.some.injEq] at place
  obtain ⟨fronts, tails⟩ := List.append_inj same place.symm
  exact ⟨fronts, List.tail_eq_of_cons_eq tails⟩

/-! ### One pass -/

theorem split_three {front : List UInt8} (long : 3 ≤ front.length) :
    ∃ before first second third, front = before ++ [first, second, third] := by
  refine ⟨front.take (front.length - 3), ?_⟩
  have three : (front.drop (front.length - 3)).length = 3 := by
    rw [List.length_drop]
    omega
  obtain ⟨first, second, third, last⟩ := List.length_eq_three.mp three
  refine ⟨first, second, third, ?_⟩
  rw [← last, List.take_append_drop]

/-- The three ways a pass can go. -/
inductive PassCase : List UInt8 → DataPass → Prop where
  | ends (some : behind ≠ []) (clean : cr ∉ behind) :
      PassCase (front ++ cr :: lf :: dot :: cr :: behind)
        ⟨front, cr :: lf :: dot :: cr :: behind, true⟩
  | writes (some : behind ≠ []) (clean : cr ∉ behind) (long : 3 ≤ front.length)
      (text : ¬ [cr, lf, dot] <:+ front) :
      PassCase (front ++ cr :: behind) ⟨front, cr :: behind, false⟩
  | waits (early : ∀ front behind, buffer = front ++ cr :: behind → cr ∉ behind →
      front.length < 3 ∨ behind = []) : PassCase buffer ⟨[], buffer, false⟩

theorem dataPass_behind {front behind : List UInt8} {first second third : UInt8}
    (some : behind ≠ []) (clean : cr ∉ behind) :
    dataPass (front ++ first :: second :: third :: cr :: behind) =
      if third = dot ∧ second = lf ∧ first = cr then
        ⟨front, first :: second :: third :: cr :: behind, true⟩
      else ⟨front ++ [first, second, third], cr :: behind, false⟩ := by
  have split : front ++ first :: second :: third :: cr :: behind =
      (front ++ [first, second, third]) ++ cr :: behind := by simp
  have last : lastCr (front ++ first :: second :: third :: cr :: behind) =
      Option.some (front.length + 3) := by
    rw [split, lastCr_of_split clean]
    simp
  have positive := List.length_pos_iff.mpr some
  unfold dataPass
  rw [last]
  have inside : ¬ (front.length + 3 < 3 ∨
      front.length + 3 = (front ++ first :: second :: third :: cr :: behind).length - 1) := by
    simp only [List.length_append, List.length_cons]
    omega
  simp only [if_neg inside]
  have at1 : (front ++ first :: second :: third :: cr :: behind)[front.length + 3 - 1]? =
      Option.some third := by simp
  have at2 : (front ++ first :: second :: third :: cr :: behind)[front.length + 3 - 2]? =
      Option.some second := by simp
  have at3 : (front ++ first :: second :: third :: cr :: behind)[front.length + 3 - 3]? =
      Option.some first := by simp
  rw [at1, at2, at3]
  simp only [Option.some.injEq]
  split
  · simp
  · have length : front.length + 3 = (front ++ [first, second, third]).length := by simp
    rw [split, length, List.take_left, List.drop_left]

theorem dataPass_cases (buffer : List UInt8) : PassCase buffer (dataPass buffer) := by
  cases found : lastCr buffer with
  | none =>
    have waits : dataPass buffer = ⟨[], buffer, false⟩ := by simp [dataPass, found]
    rw [waits]
    refine .waits fun front behind split _ => absurd ?_ (lastCr_none found)
    rw [split]
    exact List.mem_append_right _ List.mem_cons_self
  | some rpos =>
    obtain ⟨behind, split, clean⟩ := lastCr_some found
    generalize buffer.take rpos = front at split
    subst split
    rw [lastCr_of_split clean] at found
    cases found
    by_cases early : front.length < 3 ∨ behind = []
    · have waits : dataPass (front ++ cr :: behind) = ⟨[], front ++ cr :: behind, false⟩ := by
        simp only [dataPass, lastCr_of_split clean]
        refine if_pos (early.imp_right ?_)
        rintro rfl
        simp
      rw [waits]
      refine .waits fun front' behind' same clean' => ?_
      obtain ⟨rfl, rfl⟩ := last_cr_unique same clean clean'
      exact early
    · rw [not_or] at early
      obtain ⟨before, first, second, third, rfl⟩ := split_three (Nat.le_of_not_lt early.1)
      have joined : (before ++ [first, second, third]) ++ cr :: behind =
          before ++ first :: second :: third :: cr :: behind := by simp
      by_cases text : third = dot ∧ second = lf ∧ first = cr
      · obtain ⟨rfl, rfl, rfl⟩ := text
        rw [joined, dataPass_behind early.2 clean, if_pos ⟨rfl, rfl, rfl⟩]
        exact .ends early.2 clean
      · rw [joined, dataPass_behind early.2 clean, if_neg text, ← joined]
        refine .writes early.2 clean (Nat.le_of_not_lt early.1) ?_
        rintro ⟨earlier, same⟩
        have tail := List.append_inj_right' same rfl
        simp only [List.cons.injEq, and_true] at tail
        exact text ⟨tail.2.2.symm, tail.2.1.symm, tail.1.symm⟩

/-- What is kept begins with a carriage return that does not end the text, unless everything is. -/
def Kept (spool held : List UInt8) : Prop :=
  spool = [] ∨ (∃ rest, held = cr :: rest) ∧ ¬ [cr, lf, dot] <:+ spool

section

variable {spool held buffer front behind : List UInt8}

theorem Kept.append (kept : Kept spool held) (piece : List UInt8) : Kept spool (held ++ piece) := by
  refine kept.imp_right ?_
  rintro ⟨⟨rest, rfl⟩, text⟩
  exact ⟨⟨rest ++ piece, rfl⟩, text⟩

theorem mark_of_long (long : 3 ≤ front.length) (mark : [cr, lf, dot] <:+ spool ++ front) :
    [cr, lf, dot] <:+ front :=
  List.suffix_of_suffix_length_le mark (List.suffix_append spool front) long

theorem endsLike_iff (clean : cr ∉ behind) :
    EndsLike (front ++ cr :: behind) ↔ behind ≠ [] ∧ [cr, lf, dot] <:+ front := by
  constructor
  · rintro ⟨front', behind', same, clean', ends⟩
    obtain ⟨rfl, rfl⟩ := last_cr_unique same clean clean'
    exact ends
  · exact fun ends => ⟨front, behind, rfl, clean, ends⟩

/-- The last carriage return is among what is kept. -/
theorem Kept.last (kept : Kept spool buffer) {text : List UInt8}
    (split : spool ++ buffer = text ++ cr :: behind) (clean : cr ∉ behind) :
    ∃ front, buffer = front ++ cr :: behind ∧ text = spool ++ front := by
  rcases kept with rfl | ⟨⟨rest, rfl⟩, -⟩
  · exact ⟨text, split, rfl⟩
  · cases found : lastCr (cr :: rest) with
    | none => exact absurd List.mem_cons_self (lastCr_none found)
    | some rpos =>
      obtain ⟨behind', here, clean'⟩ := lastCr_some found
      rw [here, ← List.append_assoc] at split
      obtain ⟨fronts, rfl⟩ := last_cr_unique split clean' clean
      exact ⟨_, here, fronts.symm⟩

/-- Behind a carriage return that is kept, the mark has no room before the third byte. -/
theorem Kept.no_mark (kept : Kept spool (front ++ cr :: behind)) (short : front.length < 3) :
    ¬ [cr, lf, dot] <:+ spool ++ front := by
  intro mark
  rcases kept with rfl | ⟨⟨rest, starts⟩, text⟩
  · have long := mark.length_le
    simp only [List.nil_append, List.length_cons, List.length_nil] at long
    omega
  · obtain ⟨before, same⟩ := mark
    match front, short with
    | [], _ => exact text ⟨before, by simpa using same⟩
    | [first], _ =>
      have head : first = cr := (List.cons.inj starts).1
      have same : (before ++ [cr, lf]) ++ [dot] = spool ++ [first] := by simpa using same
      have last := List.append_inj_right' same rfl
      rw [head] at last
      exact absurd last (by decide)
    | [first, second], _ =>
      have head : first = cr := (List.cons.inj starts).1
      have same : (before ++ [cr]) ++ [lf, dot] = spool ++ [first, second] := by simpa using same
      have last := List.append_inj_right' same rfl
      rw [head] at last
      exact absurd (List.cons.inj last).1 (by decide)

end

/-- What a pass does to a text of which `spool` is written already. -/
structure Passed (spool buffer : List UInt8) (pass : DataPass) : Prop where
  whole : spool ++ pass.spooled ++ pass.kept = spool ++ buffer
  ends_iff : pass.ended = true ↔ EndsLike (spool ++ buffer)
  mark : pass.ended = true → ∃ behind, pass.kept = cr :: lf :: dot :: cr :: behind ∧ cr ∉ behind
  kept : pass.ended = false → Kept (spool ++ pass.spooled) pass.kept

theorem PassCase.passed {spool buffer : List UInt8} {pass : DataPass} (case : PassCase buffer pass)
    (kept : Kept spool buffer) : Passed spool buffer pass := by
  cases case with
  | @ends behind front some clean =>
    refine ⟨List.append_assoc .., ?_, fun _ => ⟨behind, rfl, clean⟩, nofun⟩
    refine iff_of_true rfl ⟨spool ++ front ++ [cr, lf, dot], behind, by simp, clean, some, ?_⟩
    exact List.suffix_append ..
  | @writes behind front some clean long text =>
    have text : ¬ [cr, lf, dot] <:+ spool ++ front := fun mark => text (mark_of_long long mark)
    refine ⟨List.append_assoc .., ?_, nofun, fun _ => .inr ⟨⟨behind, rfl⟩, text⟩⟩
    rw [← List.append_assoc, endsLike_iff clean]
    exact iff_of_false Bool.false_ne_true fun ends => text ends.2
  | waits early =>
    refine ⟨by simp, ?_, nofun, fun _ => by simpa using kept⟩
    refine iff_of_false Bool.false_ne_true ?_
    rintro ⟨front, behind, split, clean, some, mark⟩
    obtain ⟨front, rfl, rfl⟩ := kept.last split clean
    rcases early front behind rfl clean with short | none
    · exact kept.no_mark short mark
    · exact some none

/-! ### The loop -/

/-- After the first `count` pieces the text has just ended, and before that every call had room and
what was received did not end like a text. -/
structure EndsAfter (size : Nat) (text received held : List UInt8) (pieces : List Segment)
    (count : Nat) : Prop where
  exact : received ++ Socket.bytes (pieces.take count) = text ++ eom
  started : 0 < count
  within : count ≤ pieces.length
  room : ∀ earlier < count, (heldBehind held (pieces.take earlier)).length < size
  unlike : ∀ earlier < count, 0 < earlier →
    ¬ EndsLike (received ++ Socket.bytes (pieces.take earlier))

section

variable {size : Nat} {text after received held spool : List UInt8} {piece : Segment}
  {rest : List Segment}

theorem endsLike_eom (text : List UInt8) : EndsLike (text ++ eom) :=
  ⟨text ++ [cr, lf, dot], [lf], by simp [eom], by decide, by simp, List.suffix_append ..⟩

/-- The first piece ends the text, or it does not look like it and later ones do. -/
theorem endsAfter_cons :
    (∃ count, EndsAfter size text received held (piece :: rest) count) ↔
      held.length < size ∧ (received ++ piece.1 = text ++ eom ∨
        ¬ EndsLike (received ++ piece.1) ∧
          ∃ count, EndsAfter size text (received ++ piece.1)
            (dataPass (held ++ piece.1)).kept rest count) := by
  constructor
  · rintro ⟨count, ends⟩
    refine ⟨ends.room 0 ends.started, ?_⟩
    cases count with
    | zero => exact absurd ends.started (Nat.lt_irrefl 0)
    | succ more =>
      by_cases last : more = 0
      · subst last
        exact .inl (by simpa using ends.exact)
      · have positive := Nat.pos_of_ne_zero last
        refine .inr ⟨by simpa using ends.unlike 1 (by omega) Nat.one_pos, more, ?_⟩
        constructor
        · simpa using ends.exact
        · exact positive
        · exact Nat.le_of_succ_le_succ ends.within
        · intro earlier before
          exact ends.room (earlier + 1) (Nat.succ_lt_succ before)
        · intro earlier before _
          simpa using ends.unlike (earlier + 1) (Nat.succ_lt_succ before) (Nat.succ_pos _)
  · rintro ⟨room, here | ⟨unlike, count, ends⟩⟩
    · refine ⟨1, by simpa using here, Nat.one_pos, by simp, ?_, ?_⟩
      · intro earlier before
        obtain rfl := Nat.lt_one_iff.mp before
        exact room
      · intro earlier before after
        omega
    · refine ⟨count + 1, by simpa using ends.exact, Nat.succ_pos _, ?_, ?_, ?_⟩
      · exact Nat.succ_le_succ ends.within
      · intro earlier before
        cases earlier with
        | zero => exact room
        | succ earlier => exact ends.room earlier (Nat.lt_of_succ_lt_succ before)
      · intro earlier before after
        cases earlier with
        | zero => exact absurd after (Nat.lt_irrefl 0)
        | succ earlier =>
          by_cases first : earlier = 0
          · subst first
            simpa using unlike
          · simpa using ends.unlike earlier (Nat.lt_of_succ_lt_succ before)
              (Nat.pos_of_ne_zero first)

/-- Where the loop ends, it has the text exactly if the stream has ended in its terminator. -/
theorem Passed.text_iff {buffer : List UInt8} {pass : DataPass} (passed : Passed spool buffer pass)
    (ended : pass.ended = true) {left : List UInt8}
    (stream : spool ++ buffer ++ left = text ++ eom ++ after) :
    spool ++ pass.spooled = text ∧ left = after ↔ spool ++ buffer = text ++ eom := by
  constructor
  · rintro ⟨-, rfl⟩
    exact List.append_cancel_right stream
  · intro same
    rw [same] at stream
    refine ⟨?_, List.append_cancel_left stream⟩
    obtain ⟨behind, kept, clean⟩ := passed.mark ended
    have whole := passed.whole
    rw [kept, same] at whole
    have split : (spool ++ pass.spooled ++ [cr, lf, dot]) ++ cr :: behind =
        (text ++ [cr, lf, dot]) ++ cr :: [lf] := by simpa [eom] using whole
    exact List.append_cancel_right (last_cr_unique split clean (by decide)).1

/-- The loop ends where the text does, with the text in the file and what follows left over,
exactly if a piece ends there and none before looks like it. -/
theorem dataLoop_iff {pieces : List Segment} (kept : Kept spool held)
    (stream : spool ++ held ++ Socket.bytes pieces = text ++ eom ++ after) :
    (∃ left, dataLoop size spool held pieces = some (text, left) ∧ Socket.bytes left = after) ↔
      ∃ count, EndsAfter size text (spool ++ held) held pieces count := by
  induction pieces generalizing spool held with
  | nil =>
    constructor
    · rintro ⟨left, none, -⟩
      cases none
    · rintro ⟨count, ends⟩
      exact absurd ends.within (Nat.not_le.mpr ends.started)
  | cons piece rest ih =>
    rw [endsAfter_cons, List.append_assoc]
    by_cases room : held.length < size
    · have passed := (dataPass_cases (held ++ piece.1)).passed (kept.append piece.1)
      have stream : spool ++ (held ++ piece.1) ++ Socket.bytes rest = text ++ eom ++ after := by
        simpa using stream
      simp only [dataLoop, if_neg (Nat.not_le.mpr room), room, true_and]
      cases ended : (dataPass (held ++ piece.1)).ended with
      | true =>
        have like := passed.ends_iff.mp ended
        rw [← passed.text_iff ended stream]
        simp [like]
      | false =>
        have unlike : ¬ EndsLike (spool ++ (held ++ piece.1)) := by
          rw [← passed.ends_iff, ended]
          exact Bool.false_ne_true
        have apart : spool ++ (held ++ piece.1) ≠ text ++ eom :=
          fun same => unlike (same ▸ endsLike_eom text)
        have later := ih (passed.kept ended) (by rw [passed.whole]; exact stream)
        rw [passed.whole] at later
        simp only [Bool.false_eq_true, if_false, unlike, apart, not_false_eq_true, true_and,
          false_or]
        exact later
    · simp [dataLoop, Nat.le_of_not_lt room, room]

end

/-- What the DATA command makes of a stream: the text is in the file and the bytes behind its
terminator are left exactly if a call of `recv` ends right behind the terminator, no call before it
ends with bytes that look like a terminator, and the buffer is never full before. -/
theorem mail_text_received_iff (size : Nat) {text after : List UInt8} {pieces : List Segment}
    (stream : Socket.bytes pieces = text ++ eom ++ after) :
    (∃ left, dataLoop size [] [] pieces = some (text, left) ∧ Socket.bytes left = after) ↔
      ∃ count, EndsAfter size text [] [] pieces count :=
  dataLoop_iff (.inl rfl) stream

theorem quit_ne_nil : [81, 85, 73, 84, cr, lf] ≠ [] := List.cons_ne_nil _ _

/-- The next command. -/
def quitLine : Segment := ⟨_, quit_ne_nil⟩

/-- "Hi", its terminator and the next command, each in a piece of its own. -/
def hiThenQuit : List Segment :=
  [⟨[72, 105, cr, lf], by decide⟩, ⟨[dot, cr, lf], by decide⟩, quitLine]

theorem hi_is_received : dataLoop 8192 [] [] hiThenQuit = some ([72, 105], [quitLine]) ∧
    ∃ count, EndsAfter 8192 [72, 105] [] [] hiThenQuit count := by
  have stream : Socket.bytes hiThenQuit = [72, 105] ++ eom ++ quitLine.1 := by decide
  have received : dataLoop 8192 [] [] hiThenQuit = some ([72, 105], [quitLine]) := by
    decide +kernel
  exact ⟨received, (mail_text_received_iff 8192 stream).mp ⟨[quitLine], received, by decide⟩⟩

/-- The same in one piece: the last carriage return is that of the command, so the loop goes on,
and when the client waits for its answer `recv` fails. -/
theorem pipelined_mail_is_dropped : ∃ (text after : List UInt8) (pieces : List Segment),
    Socket.bytes pieces = text ++ eom ++ after ∧ ¬ eom <:+: text ∧
      dataLoop 8192 [] [] pieces = none :=
  ⟨[72, 105], quitLine.1,
    [⟨[72, 105, cr, lf, dot, cr, lf, 81, 85, 73, 84, cr, lf], by decide⟩],
    by decide, by decide, by decide +kernel⟩

end QNXStuff.QXMail
