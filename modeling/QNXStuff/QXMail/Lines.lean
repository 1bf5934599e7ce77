import Mathlib.Data.List.TakeWhile
import QNXStuff.Library.Execution
import QNXStuff.QXMail.Sockets

/-! `ReadString` and the lines that a session sees: they depend on how the stream is cut. -/

namespace QNXStuff.QXMail

open Execution

def cr : UInt8 := 13
def lf : UInt8 := 10

/-- The loop of `ReadString`; `line` is what the buffer holds below `index`. -/
def readOn (bufsize : Nat) : Nat → List UInt8 → Socket → Option (List UInt8 × Socket)
  | 0, _, _ => none
  | fuel + 1, line, socket =>
    match socket.recv (bufsize - line.length) with
    | none => none
    | some (received, socket) =>
      -- "scan line for CRLF"
      let scanned := received.takeWhile (· != cr)
      if scanned.length < received.length then some (line ++ scanned, socket)
      else readOn bufsize fuel (line ++ received) socket

/-- `ReadString`; `none` is the return of -1. -/
def readString (bufsize : Nat) (socket : Socket) : Option (List UInt8 × Socket) :=
  readOn bufsize (bufsize + 1) [] socket

/-- The lines that repeated calls return, and what each call leaves in the socket. -/
def readLines (bufsize : Nat) (socket : Socket) : List (List UInt8 × Socket) :=
  collectAll (readString bufsize) (fun socket => socket.bytes.length) socket

/-! ### The lines of a stream -/

/-- What comes before the first CRLF and what comes behind it. -/
def firstLine : List UInt8 → Option (List UInt8 × List UInt8)
  | [] => none
  | byte :: rest =>
    if byte = cr ∧ rest.head? = some lf then some ([], rest.tail)
    else (firstLine rest).map fun found => (byte :: found.1, found.2)

def crlfLines (stream : List UInt8) : List (List UInt8 × List UInt8) :=
  collectAll firstLine List.length stream

theorem firstLine_sound {stream line rest : List UInt8} (found : firstLine stream = some (line, rest)) :
    stream = line ++ cr :: lf :: rest := by
  induction stream generalizing line with
  | nil => cases found
  | cons byte stream ih =>
    unfold firstLine at found
    split at found
    · next ended =>
      obtain ⟨rfl, feed⟩ := ended
      cases found
      cases stream with
      | nil => cases feed
      | cons next rest =>
        cases feed
        rfl
    · obtain ⟨earlier, before, same⟩ := Option.map_eq_some_iff.mp found
      cases same
      rw [ih before, List.cons_append]

theorem firstLine_shrinks (stream line rest : List UInt8)
    (found : firstLine stream = some (line, rest)) : rest.length < stream.length := by
  rw [firstLine_sound found]
  simp
  omega

/-! ### One call -/

/-- Where the chunk with the first carriage return ends: at the end of a segment, or where the
buffer is full. -/
structure ChunkEnd (socket : Socket) (room : Nat) (place stop : Nat) : Prop where
  behind : place < stop
  within : stop ≤ room
  inside : stop ≤ socket.bytes.length
  ended : stop ∈ socket.ends ∨ stop = room
  first : ∀ earlier ∈ socket.ends, place < earlier → stop ≤ earlier

theorem takeWhile_of_clean {head rest : List UInt8} (clean : cr ∉ head) :
    (head ++ cr :: rest).takeWhile (· != cr) = head := by
  induction head with
  | nil => simp
  | cons byte head ih =>
    have apart : byte ≠ cr := fun same => clean (same ▸ List.mem_cons_self)
    simp [apart, ih fun member => clean (List.mem_cons_of_mem _ member)]

theorem takeWhile_all {bytes : List UInt8} (clean : cr ∉ bytes) :
    bytes.takeWhile (· != cr) = bytes := by
  refine List.takeWhile_eq_self_iff.mpr fun byte member => bne_iff_ne.mpr ?_
  rintro rfl
  exact clean member

/-- A chunk that the first carriage return is in. -/
theorem take_with_cr {segment rest head after : List UInt8} {room : Nat}
    (split : segment ++ rest = head ++ cr :: after) (inside : head.length < segment.length)
    (reach : head.length < room) : ∃ behind, segment.take room = head ++ cr :: behind := by
  have chunk : segment.take room = (head ++ cr :: after).take (min room segment.length) := by
    rw [← split, List.take_append_of_le_length (Nat.min_le_right ..)]
    exact List.take_eq_take_iff.mpr (by omega)
  have past : head.length < min room segment.length := Nat.lt_min.mpr ⟨reach, inside⟩
  obtain ⟨more, count⟩ := Nat.exists_eq_add_of_lt past
  refine ⟨after.take more, ?_⟩
  rw [chunk, count, List.take_append, List.take_of_length_le (by omega)]
  have left : head.length + more + 1 - head.length = more + 1 := by omega
  rw [left, List.take_succ_cons]

/-- What the loop does with the first segment. -/
theorem readOn_segment {bufsize fuel : Nat} {line received : List UInt8} {segment : Segment}
    {rest : Socket} (room : line.length < bufsize)
    (taken : received = segment.1.take (bufsize - line.length)) :
    readOn bufsize (fuel + 1) line (segment :: rest) =
      if (received.takeWhile (· != cr)).length < received.length then
        some (line ++ received.takeWhile (· != cr), Socket.skip received.length (segment :: rest))
      else readOn bufsize fuel (line ++ received)
        (Socket.skip received.length (segment :: rest)) := by
  subst taken
  have open' : bufsize - line.length ≠ 0 := Nat.sub_ne_zero_of_lt room
  simp only [readOn, Socket.recv, if_neg open', List.length_take]

/-- A call without a carriage return in reach fails. -/
theorem readOn_fails {bufsize fuel : Nat} {line : List UInt8} {socket : Socket}
    (clean : cr ∉ socket.bytes.take (bufsize - line.length)) :
    readOn bufsize fuel line socket = none := by
  induction fuel generalizing line socket with
  | zero => rfl
  | succ fuel ih =>
    cases socket with
    | nil => rfl
    | cons segment rest =>
      by_cases room : line.length < bufsize
      · have seen : cr ∉ segment.1.take (bufsize - line.length) := by
          intro member
          refine clean ?_
          rw [Socket.bytes_cons, List.take_append]
          exact List.mem_append_left _ member
        rw [readOn_segment room rfl, takeWhile_all seen, if_neg (Nat.lt_irrefl _)]
        apply ih
        intro member
        apply clean
        have reach : (segment.1.take (bufsize - line.length)).length ≤ bufsize - line.length :=
          List.length_take_le ..
        rw [Socket.bytes_skip, List.length_append, ← Nat.sub_sub, List.take_drop,
          Nat.add_sub_cancel' reach] at member
        exact List.mem_of_mem_drop member
      · have full : bufsize - line.length = 0 := Nat.sub_eq_zero_of_le (Nat.le_of_not_lt room)
        simp [readOn, Socket.recv, full]

/-- A call with one in reach takes the line and the chunk that it is in. -/
theorem readOn_takes {bufsize fuel : Nat} {line head after : List UInt8} {socket : Socket}
    (enough : bufsize - line.length < fuel) (split : socket.bytes = head ++ cr :: after)
    (clean : cr ∉ head) (reach : head.length < bufsize - line.length) :
    ∃ stop, ChunkEnd socket (bufsize - line.length) head.length stop ∧
      readOn bufsize fuel line socket = some (line ++ head, socket.skip stop) := by
  induction fuel generalizing line head socket with
  | zero => exact absurd enough (Nat.not_lt_zero _)
  | succ fuel ih =>
    cases socket with
    | nil => simp at split
    | cons segment rest =>
      have room : line.length < bufsize := by omega
      rw [Socket.bytes_cons] at split
      by_cases inside : head.length < segment.1.length
      · -- the carriage return is among the bytes received
        obtain ⟨behind, received⟩ := take_with_cr split inside reach
        have length : (head ++ cr :: behind).length = min (bufsize - line.length) segment.1.length := by
          rw [← received, List.length_take]
        refine ⟨min (bufsize - line.length) segment.1.length, ⟨?_, Nat.min_le_left .., ?_, ?_, ?_⟩, ?_⟩
        · exact Nat.lt_min.mpr ⟨reach, inside⟩
        · rw [Socket.bytes_cons, List.length_append]
          omega
        · rcases Nat.le_total (bufsize - line.length) segment.1.length with long | short
          · exact .inr (Nat.min_eq_left long)
          · refine .inl ?_
            rw [Nat.min_eq_right short]
            exact List.mem_cons_self
        · intro earlier ended _
          exact Nat.le_trans (Nat.min_le_right ..) (Socket.ends_ge ended)
        · rw [readOn_segment room received.symm, takeWhile_of_clean clean, if_pos (by simp), length]
      · -- the segment is read to its end, and the next one after it
        have short : segment.1.length ≤ head.length := Nat.le_of_not_lt inside
        obtain ⟨later, rfl, onward⟩ :
            ∃ later, head = segment.1 ++ later ∧ Socket.bytes rest = later ++ cr :: after := by
          rcases List.append_eq_append_iff.mp split with ⟨later, same, onward⟩ | ⟨none, same, onward⟩
          · exact ⟨later, same, onward⟩
          · obtain rfl : none = [] := by
              refine List.length_eq_zero_iff.mp ?_
              have length := congrArg List.length same
              rw [List.length_append] at length
              omega
            exact ⟨[], by simpa using same.symm, by simpa using onward.symm⟩
        rw [List.length_append] at reach
        have positive := Socket.segment_pos segment
        have clean' : cr ∉ segment.1 := fun member => clean (List.mem_append_left _ member)
        obtain ⟨stop, ⟨behind, within, inside, ended, first⟩, taken⟩ :=
          ih (show bufsize - (line ++ segment.1).length < fuel by simp; omega) onward
            (fun member => clean (List.mem_append_right _ member)) (by simp; omega)
        rw [List.length_append] at within ended
        refine ⟨segment.1.length + stop, ⟨?_, ?_, ?_, ?_, ?_⟩, ?_⟩
        · simpa using behind
        · omega
        · rw [Socket.bytes_cons, List.length_append]
          omega
        · rcases ended with ended | full
          · exact .inl (List.mem_cons_of_mem _ (List.mem_map_of_mem ended))
          · exact .inr (by omega)
        · intro earlier ended past
          rw [List.length_append] at past
          rcases List.mem_cons.mp ended with rfl | later
          · omega
          · obtain ⟨further, among, rfl⟩ := List.mem_map.mp later
            exact Nat.add_le_add_left (first further among (by omega)) _
        · rw [readOn_segment room (List.take_of_length_le (by omega)).symm, takeWhile_all clean',
            if_neg (Nat.lt_irrefl _), Socket.skip_segment, taken, Socket.skip_cons,
            List.append_assoc]

/-- The first carriage return of those in reach. -/
theorem first_cr {stream : List UInt8} {reach : Nat} (present : cr ∈ stream.take reach) :
    ∃ line after, stream = line ++ cr :: after ∧ cr ∉ line ∧ line.length < reach := by
  obtain ⟨line, behind, split, clean⟩ := List.eq_append_cons_of_mem present
  refine ⟨line, behind ++ stream.drop reach, ?_, clean, ?_⟩
  · calc stream = stream.take reach ++ stream.drop reach := (List.take_append_drop ..).symm
      _ = line ++ cr :: (behind ++ stream.drop reach) := by
          rw [split, List.append_assoc, List.cons_append]
  · have length := congrArg List.length split
    rw [List.length_take, List.length_append, List.length_cons] at length
    omega

section

variable {bufsize : Nat} {socket left : Socket} {line rest after : List UInt8}

theorem readString_reaches (split : socket.bytes = line ++ cr :: after) (clean : cr ∉ line)
    (reach : line.length < bufsize) :
    ∃ stop, ChunkEnd socket bufsize line.length stop ∧
      readString bufsize socket = some (line, socket.skip stop) := by
  have within : bufsize - ([] : List UInt8).length < bufsize + 1 := Nat.lt_succ_self bufsize
  exact readOn_takes within split clean reach

theorem readString_eq_none :
    readString bufsize socket = none ↔ cr ∉ socket.bytes.take bufsize := by
  constructor
  · intro failed present
    obtain ⟨line, after, split, clean, reach⟩ := first_cr present
    obtain ⟨stop, -, taken⟩ := readString_reaches split clean reach
    rw [failed] at taken
    cases taken
  · intro clean
    apply readOn_fails
    rwa [List.length_nil, Nat.sub_zero]

/-- A call takes what is before the first carriage return, and a chunk behind it. -/
theorem readString_takes (taken : readString bufsize socket = some (line, left)) :
    ∃ after stop, socket.bytes = line ++ cr :: after ∧ cr ∉ line ∧
      ChunkEnd socket bufsize line.length stop ∧ left = socket.skip stop := by
  have present : cr ∈ socket.bytes.take bufsize := by
    by_contra clean
    rw [readString_eq_none.mpr clean] at taken
    cases taken
  obtain ⟨line, after, split, clean, reach⟩ := first_cr present
  obtain ⟨stop, ended, same⟩ := readString_reaches split clean reach
  rw [taken] at same
  cases same
  exact ⟨after, stop, split, clean, ended, rfl⟩

theorem readString_shrinks (socket : Socket) (line : List UInt8) (left : Socket)
    (taken : readString bufsize socket = some (line, left)) :
    left.bytes.length < socket.bytes.length := by
  obtain ⟨after, stop, split, -, ended, rfl⟩ := readString_takes taken
  have behind := ended.behind
  have inside := ended.inside
  rw [Socket.bytes_skip, List.length_drop]
  omega

/-- When a line can be read as it stands in the stream. -/
structure LineFits (bufsize : Nat) (socket : Socket) (line : List UInt8) : Prop where
  clean : cr ∉ line
  fits : line.length + 2 ≤ bufsize
  whole : line.length + 1 ∉ socket.ends
  ended : line.length + 2 ∈ socket.ends ∨ line.length + 2 = bufsize

/-- The chunk ends behind the line feed exactly if a segment, or the room, does. -/
theorem chunkEnd_iff {stop : Nat} (ended : ChunkEnd socket bufsize line.length stop)
    (clean : cr ∉ line) :
    stop = line.length + 2 ↔ LineFits bufsize socket line := by
  obtain ⟨behind, within, inside, place, first⟩ := ended
  constructor
  · rintro rfl
    refine ⟨clean, within, ?_, place⟩
    intro early
    have late := first _ early (Nat.lt_succ_self _)
    omega
  · intro fits
    have fit := fits.fits
    have apart : stop ≠ line.length + 1 := by
      rintro rfl
      rcases place with early | full
      · exact fits.whole early
      · omega
    rcases fits.ended with ended | full
    · have late := first _ ended (by omega)
      omega
    · omega

/-- A call takes one line with its CRLF, neither more nor less, exactly if the line fits. -/
theorem readString_line_iff (found : firstLine socket.bytes = some (line, rest)) :
    (∃ left, readString bufsize socket = some (line, left) ∧ left.bytes = rest) ↔
      LineFits bufsize socket line := by
  have split := firstLine_sound found
  have total := congrArg List.length split
  simp only [List.length_append, List.length_cons] at total
  constructor
  · rintro ⟨left, taken, remains⟩
    obtain ⟨after, stop, -, clean, ended, rfl⟩ := readString_takes taken
    refine (chunkEnd_iff ended clean).mp ?_
    have inside := ended.inside
    have length := congrArg List.length remains
    rw [Socket.bytes_skip, List.length_drop] at length
    omega
  · intro fits
    have reach : line.length < bufsize := Nat.lt_of_lt_of_le (by omega) fits.fits
    obtain ⟨stop, ended, taken⟩ := readString_reaches split fits.clean reach
    refine ⟨socket.skip stop, taken, ?_⟩
    rw [(chunkEnd_iff ended fits.clean).mpr fits, Socket.bytes_skip, split]
    simp [List.drop_append]

theorem readString_line (found : firstLine socket.bytes = some (line, rest))
    (fits : LineFits bufsize socket line) :
    readString bufsize socket = some (line, socket.skip (line.length + 2)) := by
  have split := firstLine_sound found
  have reach : line.length < bufsize := Nat.lt_of_lt_of_le (by omega) fits.fits
  obtain ⟨stop, ended, taken⟩ := readString_reaches split fits.clean reach
  rwa [(chunkEnd_iff ended fits.clean).mpr fits] at taken

end

/-! ### All calls -/

/-- Each call takes the next line of the stream with its CRLF, and the last one fails. -/
def ReadsLines (bufsize : Nat) (socket : Socket) : Prop :=
  (readLines bufsize socket).map (fun taken => (taken.1, taken.2.bytes)) = crlfLines socket.bytes

/-- Every line fits, and there is no carriage return in reach behind the last one. -/
inductive LineByLine (bufsize : Nat) : Socket → Prop where
  | tail (none : firstLine socket.bytes = none) (clean : cr ∉ socket.bytes.take bufsize) :
      LineByLine bufsize socket
  | line (found : firstLine socket.bytes = some (line, rest)) (fits : LineFits bufsize socket line)
      (later : LineByLine bufsize (socket.skip (line.length + 2))) : LineByLine bufsize socket

theorem readLines_some {bufsize : Nat} {socket left : Socket} {line : List UInt8}
    (taken : readString bufsize socket = some (line, left)) :
    readLines bufsize socket = (line, left) :: readLines bufsize left :=
  collectAll_some readString_shrinks taken

theorem crlfLines_some {stream line rest : List UInt8}
    (found : firstLine stream = some (line, rest)) :
    crlfLines stream = (line, rest) :: crlfLines rest :=
  collectAll_some firstLine_shrinks found

theorem readsLines_iff (bufsize : Nat) (socket : Socket) :
    ReadsLines bufsize socket ↔ LineByLine bufsize socket := by
  induction length : socket.bytes.length using Nat.strong_induction_on generalizing socket with
  | _ total ih =>
    unfold ReadsLines
    cases found : firstLine socket.bytes with
    | none =>
      have empty : crlfLines socket.bytes = [] := collectAll_none found
      rw [empty, List.map_eq_nil_iff]
      constructor
      · intro nothing
        refine .tail found ?_
        rw [← readString_eq_none]
        cases taken : readString bufsize socket with
        | none => rfl
        | some result =>
          rw [readLines_some taken] at nothing
          cases nothing
      · intro steps
        cases steps with
        | tail _ clean => exact collectAll_none (readString_eq_none.mpr clean)
        | line found' => rw [found] at found'; cases found'
    | some first =>
      obtain ⟨line, rest⟩ := first
      rw [crlfLines_some found]
      constructor
      · intro same
        cases taken : readString bufsize socket with
        | none =>
          rw [readLines, collectAll_none taken] at same
          cases same
        | some result =>
          obtain ⟨line', left⟩ := result
          rw [readLines_some taken, List.map_cons, List.cons.injEq, Prod.mk.injEq] at same
          obtain ⟨⟨here, remains⟩, later⟩ := same
          obtain rfl : line' = line := here
          have remains : left.bytes = rest := remains
          have fits := (readString_line_iff found).mp ⟨left, taken, remains⟩
          have skipped := (readString_line found fits).symm.trans taken
          have skipped : socket.skip (line'.length + 2) = left :=
            (Prod.mk.inj (Option.some.inj skipped)).2
          refine .line found fits ?_
          rw [skipped]
          refine (ih _ (length ▸ readString_shrinks _ _ _ taken) left rfl).mp ?_
          rw [ReadsLines, remains]
          exact later
      · intro steps
        cases steps with
        | tail none => rw [found] at none; cases none
        | line found' fits later =>
          rw [found] at found'
          cases found'
          obtain ⟨left, taken, remains⟩ := (readString_line_iff found).mpr fits
          have shrinks := readString_shrinks _ _ _ taken
          rw [readLines_some taken, List.map_cons, remains]
          rw [readString_line found fits] at taken
          cases taken
          have rest_lines := (ih _ (length ▸ shrinks) _ rfl).mpr later
          rw [ReadsLines, remains] at rest_lines
          rw [rest_lines]

def linesOf (bufsize : Nat) (socket : Socket) : List (List UInt8) :=
  (readLines bufsize socket).map Prod.fst

/-- Two cuts of a stream give the same lines, those of the stream, with nothing lost or left over
between two calls, exactly if in both of them every line fits. -/
theorem cuts_give_same_lines_iff (bufsize : Nat) {first second : Socket}
    (same : first.bytes = second.bytes) :
    (linesOf bufsize first = linesOf bufsize second ∧
      ReadsLines bufsize first ∧ ReadsLines bufsize second) ↔
    LineByLine bufsize first ∧ LineByLine bufsize second := by
  rw [readsLines_iff, readsLines_iff]
  constructor
  · exact And.right
  · intro fit
    refine ⟨?_, fit⟩
    have lines (socket : Socket) (fit : LineByLine bufsize socket) :
        linesOf bufsize socket = (crlfLines socket.bytes).map Prod.fst := by
      have reads : ReadsLines bufsize socket := (readsLines_iff bufsize socket).mpr fit
      rw [← reads, List.map_map]
      rfl
    rw [lines first fit.1, lines second fit.2, same]

def noopQuit : Socket :=
  [⟨[78, 79, 79, 80, cr, lf], by decide⟩, ⟨[81, 85, 73, 84, cr, lf], by decide⟩]

/-- NOOP in two segments. -/
def noOpQuit : Socket :=
  [⟨[78, 79], by decide⟩, ⟨[79, 80, cr, lf], by decide⟩, ⟨[81, 85, 73, 84, cr, lf], by decide⟩]

theorem noop_quit_read_alike :
    linesOf 8191 noopQuit = [[78, 79, 79, 80], [81, 85, 73, 84]] ∧
      LineByLine 8191 noopQuit ∧ LineByLine 8191 noOpQuit := by
  refine ⟨by decide +kernel, ?_⟩
  refine (cuts_give_same_lines_iff 8191 (by decide)).mp ⟨by decide +kernel, ?_, ?_⟩
  · unfold ReadsLines
    decide +kernel
  · unfold ReadsLines
    decide +kernel

/-- Two commands that arrive together: the second one is lost. -/
theorem pipelined_command_is_lost : ∃ first second : Socket, first.bytes = second.bytes ∧
    linesOf 8191 first = [[78, 79, 79, 80], [81, 85, 73, 84]] ∧
    linesOf 8191 second = [[78, 79, 79, 80]] ∧ ¬ ReadsLines 8191 second := by
  refine ⟨noopQuit, [⟨[78, 79, 79, 80, cr, lf, 81, 85, 73, 84, cr, lf], by decide⟩],
    by decide, by decide +kernel, by decide +kernel, ?_⟩
  unfold ReadsLines
  decide +kernel

end QNXStuff.QXMail
