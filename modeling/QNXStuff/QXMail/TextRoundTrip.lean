import QNXStuff.Library.DotStuffing
import QNXStuff.QXMail.PopMessages
import QNXStuff.QXMail.TextCuts

/-! The lines of a mail from the client that submits it, through any number of servers, to the one
that reads it. -/

namespace QNXStuff.QXMail

open DotStuffing

/-- The bytes that frame a text in SMTP and in POP3. -/
def textMarks : LineMarks UInt8 where
  ret := cr
  feed := lf
  dot := dot
  feed_ret := by decide
  dot_ret := by decide

/-- A server on the way, with the name that it was greeted by and the size of its buffer. -/
structure Hop where
  server : MailServer
  user : List UInt8
  bufSize : Nat

/-- The line that it writes in front of a text. -/
def Hop.line (hop : Hop) : List UInt8 :=
  ascii "Received: from " ++ hop.user ++ ascii "(" ++ hop.server.peer ++ ascii ") by " ++
    hop.server.fqdn

/-- What is in the file of a message behind the servers of a path, the last one first; each of them
has received the text to its end, in whatever pieces. -/
inductive Stored (lines : List (List UInt8)) : List Hop → List UInt8 → Prop where
  | submitted {hop : Hop} (stream : Socket.bytes pieces = textMarks.frame lines)
      (received : dataLoop hop.bufSize [] [] pieces = some (text, left)) :
      Stored lines [hop] (receivedLine hop.server hop.user ++ text)
  | relayed {hop : Hop} (before : Stored lines path file)
      (stream : Socket.bytes pieces = file ++ eom)
      (received : dataLoop hop.bufSize [] [] pieces = some (text, left)) :
      Stored lines (hop :: path) (receivedLine hop.server hop.user ++ text)

section

variable {lines : List (List UInt8)} {path : List Hop} {file text : List UInt8}
  {pieces left : List Segment}

theorem frame_eom (some : lines ≠ []) : textMarks.frame lines = textMarks.written lines ++ eom := by
  rw [LineMarks.frame_written some, List.append_assoc]
  rfl

/-- The text of lines has no mark before its end. -/
theorem written_unmarked (some : lines ≠ []) (clean : ∀ line ∈ lines, cr ∉ line) :
    ¬ Marked (textMarks.written lines) := by
  rintro ⟨byte, -, before, after, split⟩
  obtain ⟨line, lines, rfl⟩ := List.exists_cons_of_ne_nil some
  have sent := textMarks.written_sent line lines
  have whole : textMarks.written (line :: lines) ++ [cr, lf, dot, cr] =
      textMarks.sent (line :: lines) ++ [textMarks.dot, textMarks.ret] := by
    rw [← sent, List.append_assoc]
    rfl
  rw [whole, List.append_assoc] at split
  exact LineMarks.unmarked clean split.symm

theorem written_received {hop : Hop} (some : lines ≠ []) :
    receivedLine hop.server hop.user ++ textMarks.written lines =
      textMarks.written (hop.line :: lines) := by
  have plain : hop.line.head? ≠ Option.some textMarks.dot := by
    have first : hop.line.head? = Option.some 82 := rfl
    rw [first]
    decide
  rw [LineMarks.written_cons plain some]
  rfl

/-- The lines of a mail and those of the servers of a path are lines. -/
structure Passable (path : List Hop) (lines : List (List UInt8)) : Prop where
  present : lines ≠ []
  clean : ∀ line ∈ path.map Hop.line ++ lines, cr ∉ line

theorem Passable.tail {hop : Hop} (passable : Passable (hop :: path) lines) : Passable path lines where
  present := passable.present
  clean line member := passable.clean line (List.mem_cons_of_mem _ member)

/-- What a server takes of the lines that a path has made of a mail are these lines. -/
theorem Passable.taken {hop : Hop} (passable : Passable path lines)
    (stream : Socket.bytes pieces = textMarks.written (path.map Hop.line ++ lines) ++ eom)
    (received : dataLoop hop.bufSize [] [] pieces = some (text, left)) :
    text = textMarks.written (path.map Hop.line ++ lines) := by
  have more : path.map Hop.line ++ lines ≠ [] := List.append_ne_nil_of_right_ne_nil _ passable.present
  have kept : Kept [] [] := .inl rfl
  exact (dataLoop_unmarked kept (written_unmarked more passable.clean) stream received).1

/-- The file of a message has the lines that were submitted, behind one of each server. -/
theorem Stored.eq_written (stored : Stored lines path file) (passable : Passable path lines) :
    file = textMarks.written (path.map Hop.line ++ lines) := by
  induction stored with
  | @submitted pieces text left hop stream received =>
    rw [frame_eom passable.present] at stream
    rw [passable.tail.taken stream received, List.map_nil, List.nil_append,
      written_received passable.present]
    rfl
  | @relayed path file pieces text left hop before stream received ih =>
    rw [ih passable.tail] at stream
    have more : path.map Hop.line ++ lines ≠ [] := List.append_ne_nil_of_right_ne_nil _ passable.present
    rw [passable.tail.taken stream received, written_received more]
    rfl

end

/-- Two servers with small buffers, and lines with a dot alone among them. -/
def firstHop : Hop := ⟨⟨[], ascii "mx", ascii "10.0.0.1"⟩, ascii "home", 64⟩

def secondHop : Hop := ⟨⟨[], ascii "pop", ascii "10.0.0.2"⟩, ascii "mx", 64⟩

def dottedLines : List (List UInt8) := [ascii "Hi", ascii ".", ascii "Bye"]

def relayedPieces : List Segment :=
  [⟨receivedLine firstHop.server firstHop.user ++ textMarks.written dottedLines ++ eom, by decide⟩]

theorem dottedLines_stored : Stored dottedLines [secondHop, firstHop]
    (textMarks.written ([secondHop, firstHop].map Hop.line ++ dottedLines)) := by
  have submitted : dataLoop 64 [] [] [⟨textMarks.frame dottedLines, by decide⟩] =
      some (textMarks.written dottedLines, []) := by
    decide +kernel
  have relayed : dataLoop 64 [] [] relayedPieces =
      some (receivedLine firstHop.server firstHop.user ++ textMarks.written dottedLines, []) := by
    decide +kernel
  exact .relayed (.submitted (by simp) submitted) (by simp [relayedPieces]) relayed

def oneMessage : PopConn := ⟨some (ascii "ann"), [], .tran, [⟨false, 99, ascii "ann/1"⟩], some 0⟩

end QNXStuff.QXMail
