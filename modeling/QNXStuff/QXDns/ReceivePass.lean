import QNXStuff.Library.Splitting
import QNXStuff.QXDns.Moves
import QNXStuff.QXDns.Queue

/-! One pass of the main loop over the connectors: which sockets it reads, how long it takes, and
what becomes of the buffers. -/

namespace QNXStuff.QXDns

open Execution Splitting

/-- The server, and the datagrams that wait in each socket. -/
structure Receiving where
  server : Server
  waiting : Nat → List Datagram

inductive PassEvent where
  | looked
  | took (ref : BufRef)
  | received (sock : Nat)
  | freed (ref : BufRef)
  | readied (ref : BufRef)

/-- The next turn of the main loop. `recvfrom` waits for a datagram if the socket has none. -/
def Receiving.turn (state : Receiving) : Except Fault (Receiving × PassEvent) :=
  let server := state.server
  match server.main with
  | .scan fds tmpConn =>
    let next := scanStep server fds tmpConn
    match next.main with
    | .receive _ _ _ ref => .ok ({ state with server := next }, .took ref)
    | _ => .ok ({ state with server := next }, .looked)
  | .receive fds conn rest tmpQ =>
    match state.waiting conn.sock with
    | [] => .error .blocked
    | message :: more =>
      .ok ({ server := (receiveStep server fds conn rest tmpQ message).1
             waiting := Function.update state.waiting conn.sock more }, .received conn.sock)
  | .giveBack fds tmpConn tmpQ =>
    .ok ({ state with server := { server with
      lists := server.lists.push .freeBuf tmpQ, main := .scan fds tmpConn } }, .freed tmpQ)
  | .ready fds rest tmpQ =>
    .ok ({ state with server := { server with
      lists := server.lists.push .readyBuf tmpQ, main := .scan fds rest } }, .readied tmpQ)
  | _ => .error .blocked

/-- The steps of the pool threads and of the clock. -/
def Action.OfOthers : Action → Prop
  | .worker _ _ | .tick _ => True
  | _ => False

/-- A turn of the pass; between two of them the other threads go on, and datagrams arrive. -/
inductive PassStep : Receiving → Option PassEvent → Receiving → Prop where
  | turn {state next event} (done : state.turn = .ok (next, event)) :
      PassStep state (some event) next
  | other {state server action events} (others : action.OfOthers)
      (step : Step state.server (action, events) server) :
      PassStep state none { state with server := server }
  | arrive {state} (sock : Nat) (message : Datagram) :
      PassStep state none { state with
        waiting := Function.update state.waiting sock (state.waiting sock ++ [message]) }

def socksRead (labels : List (Option PassEvent)) : List Nat :=
  labels.filterMap fun label =>
    match label with
    | some (.received sock) => some sock
    | _ => none

/-- The buffers that were taken from the free list or allocated. -/
def taken (labels : List (Option PassEvent)) : List BufRef :=
  labels.filterMap fun label =>
    match label with
    | some (.took ref) => some ref
    | _ => none

/-- The buffers that were put into the free list or the ready list. -/
def given (labels : List (Option PassEvent)) : List BufRef :=
  labels.filterMap fun label =>
    match label with
    | some (.freed ref) | some (.readied ref) => some ref
    | _ => none

def turnsOf (labels : List (Option PassEvent)) : Nat := labels.countP Option.isSome

/-- What one pass is to do, whatever the other threads do meanwhile: no socket is read twice, the
number of turns is bounded, a turn is possible until the pass is over, and then every buffer it has
taken has been put into one of the lists. -/
structure PassesWell (start : Receiving) : Prop where
  once : ∀ labels final, Run PassStep start labels final → (socksRead labels).Nodup
  bounded : ∃ bound, ∀ labels final, Run PassStep start labels final → turnsOf labels ≤ bound
  goesOn : ∀ labels final, Run PassStep start labels final → final.server.main ≠ .expire →
    ∃ next, final.turn = .ok next
  buffers : ∀ labels final, Run PassStep start labels final → final.server.main = .expire →
    taken labels = given labels

theorem turn_step {state next : Receiving} {event : PassEvent}
    (done : state.turn = .ok (next, event)) :
    ∃ action events, Step state.server (action, events) next.server := by
  unfold Receiving.turn at done
  dsimp only at done
  split at done
  · rename_i fds tmpConn here
    have step : Step state.server (.main, []) (scanStep state.server fds tmpConn) := by
      simp only [Step, Answers, Server.handle, mainStep, here]
    split at done <;> cases done <;> exact ⟨_, _, step⟩
  · rename_i fds conn rest tmpQ here
    split at done
    · cases done
    · rename_i message more waits
      cases done
      refine ⟨.recvfrom message, (receiveStep state.server fds conn rest tmpQ message).2, ?_⟩
      simp only [Step, Answers, Server.handle, mainStep, here]
  · rename_i here
    cases done
    refine ⟨.main, [], ?_⟩
    simp only [Step, Answers, Server.handle, mainStep, here]
  · rename_i fds rest tmpQ here
    cases done
    refine ⟨.main, [.filled tmpQ], ?_⟩
    simp only [Step, Answers, Server.handle, mainStep, here]
  · cases done

/-- A pass is a run of the server, whatever the other threads do meanwhile. -/
theorem pass_run {state final : Receiving} {labels : List (Option PassEvent)}
    (run : Run PassStep state labels final) :
    ∃ actions, Run Step state.server actions final.server := by
  induction run with
  | nil => exact ⟨[], .nil⟩
  | cons first _ ih =>
    obtain ⟨actions, rest⟩ := ih
    cases first with
    | turn done =>
      obtain ⟨action, events, step⟩ := turn_step done
      exact ⟨_, .cons step rest⟩
    | other others step => exact ⟨_, .cons step rest⟩
    | arrive sock message => exact ⟨actions, rest⟩

/-- The other threads leave the main loop where it is. -/
theorem Move.main_other {server next : Server} {action : Action} {events : List Event}
    (move : Move server action events next) (others : action.OfOthers) :
    next.main = server.main := by
  cases move with
  | select _ | scan _ | receive _ | giveBack _ | ready _ | expire _ _ => cases others
  | _ => rfl

/-! ### Datagrams that are long enough -/

/-- The connectors that the pass has yet to read. -/
def MainLoop.toRead : MainLoop → List Connector
  | .scan _ rest | .ready _ rest _ => rest
  | .receive _ conn rest _ => conn :: rest
  | _ => []

/-- How many turns are left, when no datagram is short. -/
def MainLoop.left : MainLoop → Nat
  | .scan _ rest => 3 * rest.length + 1
  | .receive _ _ rest _ => 3 * rest.length + 3
  | .ready _ rest _ => 3 * rest.length + 2
  | _ => 0

def MainLoop.InPass (fds : List Nat) : MainLoop → Prop
  | .scan marked _ | .ready marked _ _ => marked = fds
  | .receive marked conn _ _ => marked = fds ∧ conn.sock ∈ fds
  | .expire => True
  | _ => False

def WholeFirst (datagrams : List Datagram) : Prop :=
  ∃ message more, datagrams = message :: more ∧ 17 ≤ message.datalen

/-- What a pass keeps whose first datagrams are whole ones. -/
structure Reads (fds : List Nat) (bound : Nat) (labels : List (Option PassEvent))
    (main : MainLoop) (waiting : Nat → List Datagram) : Prop where
  phase : main.InPass fds
  ahead : ∀ conn ∈ main.toRead, conn.sock ∈ fds → WholeFirst (waiting conn.sock)
  distinct : (main.toRead.map Connector.sock).Nodup
  apart : ∀ conn ∈ main.toRead, conn.sock ∉ socksRead labels
  once : (socksRead labels).Nodup
  turns : turnsOf labels + main.left ≤ bound
  buffers : taken labels = given labels ++ main.held

section Reads

variable {fds : List Nat} {bound : Nat} {labels : List (Option PassEvent)}

@[simp] theorem socksRead_append (labels labels' : List (Option PassEvent)) :
    socksRead (labels ++ labels') = socksRead labels ++ socksRead labels' := List.filterMap_append

@[simp] theorem taken_append (labels labels' : List (Option PassEvent)) :
    taken (labels ++ labels') = taken labels ++ taken labels' := List.filterMap_append

@[simp] theorem given_append (labels labels' : List (Option PassEvent)) :
    given (labels ++ labels') = given labels ++ given labels' := List.filterMap_append

@[simp] theorem turnsOf_append (labels labels' : List (Option PassEvent)) :
    turnsOf (labels ++ labels') = turnsOf labels + turnsOf labels' := List.countP_append

/-- Nothing of this is changed by the other threads, nor by a datagram that arrives. -/
theorem Reads.silent {main : MainLoop} {waiting waiting' : Nat → List Datagram}
    (reads : Reads fds bound labels main waiting)
    (later : ∀ sock, WholeFirst (waiting sock) → WholeFirst (waiting' sock)) :
    Reads fds bound (labels ++ [none]) main waiting' where
  phase := reads.phase
  ahead := fun conn member marked => later _ (reads.ahead conn member marked)
  distinct := reads.distinct
  apart := by simpa [socksRead] using reads.apart
  once := by simpa [socksRead] using reads.once
  turns := by simpa [turnsOf] using reads.turns
  buffers := by simpa [taken, given] using reads.buffers

theorem wholeFirst_arrive {waiting : Nat → List Datagram} {sock other : Nat} {message : Datagram}
    (whole : WholeFirst (waiting other)) :
    WholeFirst (Function.update waiting sock (waiting sock ++ [message]) other) := by
  by_cases same : other = sock
  · subst same
    obtain ⟨first, more, split, long⟩ := whole
    rw [Function.update_self, split]
    exact ⟨first, more ++ [message], rfl, long⟩
  · rw [Function.update_of_ne same]
    exact whole

theorem Reads.quiet {main main' : MainLoop} {waiting : Nat → List Datagram} {event : PassEvent}
    (reads : Reads fds bound labels main waiting) (phase : main'.InPass fds)
    (toRead : main'.toRead <:+ main.toRead) (silent : socksRead [some event] = [])
    (fewer : main'.left < main.left)
    (moved : main.held ++ taken [some event] = given [some event] ++ main'.held) :
    Reads fds bound (labels ++ [some event]) main' waiting where
  phase := phase
  ahead := fun conn member => reads.ahead conn (toRead.mem member)
  distinct := reads.distinct.sublist (toRead.sublist.map _)
  apart := by
    rw [socksRead_append, silent, List.append_nil]
    exact fun conn member => reads.apart conn (toRead.mem member)
  once := by
    rw [socksRead_append, silent, List.append_nil]
    exact reads.once
  turns := by
    have turns := reads.turns
    have one : turnsOf [some event] = 1 := rfl
    rw [turnsOf_append, one]
    omega
  buffers := by
    rw [taken_append, given_append, reads.buffers, List.append_assoc, moved, List.append_assoc]

/-- The turn that reads a whole datagram. -/
theorem Reads.receive {conn : Connector} {rest : List Connector} {ref : BufRef}
    {waiting : Nat → List Datagram} {more : List Datagram}
    (reads : Reads fds bound labels (.receive fds conn rest ref) waiting) :
    Reads fds bound (labels ++ [some (.received conn.sock)]) (.ready fds rest ref)
      (Function.update waiting conn.sock more) := by
  obtain ⟨fresh, distinct⟩ := List.nodup_cons.mp reads.distinct
  have unread : conn.sock ∉ socksRead labels := reads.apart conn List.mem_cons_self
  have other : ∀ later ∈ rest, later.sock ≠ conn.sock := by
    intro later member same
    exact fresh (same ▸ List.mem_map_of_mem member)
  have read : socksRead [some (.received conn.sock)] = [conn.sock] := rfl
  refine ⟨rfl, ?_, distinct, ?_, ?_, ?_, ?_⟩
  · intro later member marked
    rw [Function.update_of_ne (other later member)]
    exact reads.ahead later (List.mem_cons_of_mem conn member) marked
  · intro later member
    rw [socksRead_append, read, List.mem_append, List.mem_singleton]
    rintro (before | same)
    · exact reads.apart later (List.mem_cons_of_mem conn member) before
    · exact other later member same
  · rw [socksRead_append, read]
    refine List.nodup_append.mpr ⟨reads.once, List.nodup_singleton _, ?_⟩
    intro sock before sock' same
    rw [List.mem_singleton.mp same]
    rintro rfl
    exact unread before
  · have turns := reads.turns
    have one : turnsOf [some (.received conn.sock)] = 1 := rfl
    simp only [turnsOf_append, one, MainLoop.left] at turns ⊢
    omega
  · have none : taken [some (.received conn.sock)] = [] := rfl
    have none' : given [some (.received conn.sock)] = [] := rfl
    rw [taken_append, given_append, none, none', List.append_nil, List.append_nil]
    exact reads.buffers

/-- A turn is possible unless the pass is over, and keeps what the pass keeps. -/
theorem Reads.turn {state : Receiving}
    (reads : Reads fds bound labels state.server.main state.waiting) :
    state.server.main = .expire ∨ ∃ next event, state.turn = .ok (next, event) ∧
      Reads fds bound (labels ++ [some event]) next.server.main next.waiting := by
  have phase := reads.phase
  cases here : state.server.main with
  | expire => exact .inl rfl
  | select | giveBack _ _ _ =>
    rw [here] at phase
    cases phase
  | scan marked conns =>
    rw [here] at reads phase
    cases phase
    cases conns with
    | nil =>
      refine .inr ⟨{ state with server := scanStep state.server fds [] }, .looked, ?_, ?_⟩
      · simp only [Receiving.turn, here, scanStep]
      · exact reads.quiet trivial List.suffix_rfl rfl (Nat.succ_pos _) rfl
    | cons conn rest =>
      by_cases isMarked : conn.sock ∈ fds
      · have main : (scanStep state.server fds (conn :: rest)).main =
            .receive fds conn rest (takeBuffer state.server).1 := by
          simp only [scanStep, if_pos isMarked]
        refine .inr ⟨{ state with server := scanStep state.server fds (conn :: rest) },
          .took (takeBuffer state.server).1, ?_, ?_⟩
        · simp only [Receiving.turn, here, main]
        · rw [main]
          refine reads.quiet ⟨rfl, isMarked⟩ List.suffix_rfl rfl ?_ rfl
          simp only [MainLoop.left, List.length_cons]
          omega
      · have main : (scanStep state.server fds (conn :: rest)).main = .scan fds rest := by
          simp only [scanStep, if_neg isMarked]
        refine .inr ⟨{ state with server := scanStep state.server fds (conn :: rest) },
          .looked, ?_, ?_⟩
        · simp only [Receiving.turn, here, main]
        · rw [main]
          refine reads.quiet rfl (List.suffix_cons _ _) rfl ?_ rfl
          simp only [MainLoop.left, List.length_cons]
          omega
  | receive marked conn rest ref =>
    rw [here] at reads phase
    obtain ⟨rfl, isMarked⟩ := phase
    obtain ⟨message, more, waits, long⟩ := reads.ahead conn List.mem_cons_self isMarked
    have main : (receiveStep state.server marked conn rest ref message).1.main =
        .ready marked rest ref := by
      simp only [receiveStep, if_neg (Int.not_lt.mpr long)]
    refine .inr ⟨⟨(receiveStep state.server marked conn rest ref message).1,
      Function.update state.waiting conn.sock more⟩, .received conn.sock, ?_, ?_⟩
    · simp only [Receiving.turn, here, waits]
    · rw [main]
      exact reads.receive
  | ready marked rest ref =>
    rw [here] at reads phase
    cases phase
    refine .inr ⟨{ state with server := { state.server with
      lists := state.server.lists.push .readyBuf ref, main := .scan fds rest } },
      .readied ref, ?_, ?_⟩
    · simp only [Receiving.turn, here]
    · exact reads.quiet rfl List.suffix_rfl rfl (Nat.lt_succ_self _) rfl

theorem Reads.run {start final : Receiving} {labels' : List (Option PassEvent)}
    (reads : Reads fds bound labels start.server.main start.waiting)
    (run : Run PassStep start labels' final) :
    Reads fds bound (labels ++ labels') final.server.main final.waiting := by
  refine run.history (motive := fun labels state =>
    Reads fds bound labels state.server.main state.waiting) reads ?_
  intro labels state label next reads step
  cases step with
  | turn done =>
    rcases reads.turn with atEnd | ⟨next', event', same, kept⟩
    · simp only [Receiving.turn, atEnd] at done
      cases done
    · rw [same] at done
      cases done
      exact kept
  | other others step =>
    have main := (step_moves step).main_other others
    refine reads.silent (fun _ whole => whole) |> fun kept => ?_
    rw [← main] at kept
    exact kept
  | arrive sock message => exact reads.silent fun _ => wholeFirst_arrive

end Reads

/-! ### A short datagram -/

section Short

variable {fds : List Nat} {conn : Connector} {rest : List Connector} {state : Receiving}

/-- The turn that takes a buffer for a marked socket. -/
theorem turn_took (here : state.server.main = .scan fds (conn :: rest)) (marked : conn.sock ∈ fds) :
    ∃ next ref, state.turn = .ok (next, .took ref) ∧
      next.server.main = .receive fds conn rest ref ∧ next.waiting = state.waiting := by
  have main : (scanStep state.server fds (conn :: rest)).main =
      .receive fds conn rest (takeBuffer state.server).1 := by
    simp only [scanStep, if_pos marked]
  refine ⟨{ state with server := scanStep state.server fds (conn :: rest) }, _, ?_, main, rfl⟩
  simp only [Receiving.turn, here, main]

/-- The three turns for a marked socket with a datagram: the loop comes to the same connector again
behind a short one. -/
theorem run_marked (here : state.server.main = .scan fds (conn :: rest)) (marked : conn.sock ∈ fds)
    {message : Datagram} {more : List Datagram} (waits : state.waiting conn.sock = message :: more) :
    ∃ labels next, Run PassStep state labels next ∧ conn.sock ∈ socksRead labels ∧
      next.server.main = .scan fds (if message.datalen < 17 then conn :: rest else rest) ∧
      next.waiting = Function.update state.waiting conn.sock more := by
  obtain ⟨first, ref, took, main, waiting⟩ := turn_took here marked
  have received : first.turn = .ok (⟨(receiveStep first.server fds conn rest ref message).1,
      Function.update state.waiting conn.sock more⟩, .received conn.sock) := by
    simp only [Receiving.turn, main, waiting, waits]
  by_cases short : message.datalen < 17
  · refine ⟨[some (.took ref), some (.received conn.sock), some (.freed ref)],
      ⟨{ (receiveStep first.server fds conn rest ref message).1 with
        lists := (receiveStep first.server fds conn rest ref message).1.lists.push .freeBuf ref
        main := .scan fds (conn :: rest) }, Function.update state.waiting conn.sock more⟩,
      .cons (.turn took) (.cons (.turn received) (.cons (.turn ?_) .nil)), ?_, ?_, rfl⟩
    · simp only [Receiving.turn, receiveStep, if_pos short]
    · simp [socksRead]
    · rw [if_pos short]
  · refine ⟨[some (.took ref), some (.received conn.sock), some (.readied ref)],
      ⟨{ (receiveStep first.server fds conn rest ref message).1 with
        lists := (receiveStep first.server fds conn rest ref message).1.lists.push .readyBuf ref
        main := .scan fds rest }, Function.update state.waiting conn.sock more⟩,
      .cons (.turn took) (.cons (.turn received) (.cons (.turn ?_) .nil)), ?_, ?_, rfl⟩
    · simp only [Receiving.turn, receiveStep, if_neg short]
    · simp [socksRead]
    · rw [if_neg short]

/-- The pass comes to a connector when the datagrams before it are whole ones. -/
theorem run_to {before tail : List Connector}
    (here : state.server.main = .scan fds (before ++ tail))
    (distinct : (before.map Connector.sock).Nodup)
    (whole : ∀ other ∈ before, other.sock ∈ fds → WholeFirst (state.waiting other.sock)) :
    ∃ labels final, Run PassStep state labels final ∧ final.server.main = .scan fds tail ∧
      ∀ sock ∉ before.map Connector.sock, final.waiting sock = state.waiting sock := by
  induction before generalizing state with
  | nil => exact ⟨[], state, .nil, here, fun _ _ => rfl⟩
  | cons first before ih =>
    obtain ⟨fresh, distinct'⟩ := List.nodup_cons.mp distinct
    by_cases marked : first.sock ∈ fds
    · obtain ⟨message, more, waits, long⟩ := whole first List.mem_cons_self marked
      obtain ⟨labels, next, run, _, main, waiting⟩ := run_marked here marked waits
      rw [if_neg (Int.not_lt.mpr long)] at main
      obtain ⟨labels', final, run', there, rest⟩ := ih main distinct' fun other member marked' => by
        have apart : other.sock ≠ first.sock := fun same =>
          fresh (same ▸ List.mem_map_of_mem member)
        rw [waiting, Function.update_of_ne apart]
        exact whole other (List.mem_cons_of_mem first member) marked'
      refine ⟨labels ++ labels', final, run.append run', there, fun sock outside => ?_⟩
      obtain ⟨apart, outside'⟩ := not_or.mp (mt List.mem_cons.mpr outside)
      rw [rest sock outside', waiting, Function.update_of_ne apart]
    · have main : (scanStep state.server fds (first :: (before ++ tail))).main =
          .scan fds (before ++ tail) := by
        simp only [scanStep, if_neg marked]
      have looked : state.turn =
          .ok ({ state with server := scanStep state.server fds (first :: (before ++ tail)) },
            .looked) := by
        rw [List.cons_append] at here
        simp only [Receiving.turn, here, main]
      obtain ⟨labels', final, run', there, rest⟩ := @ih { state with
        server := scanStep state.server fds (first :: (before ++ tail)) } main distinct'
        fun other member => whole other (List.mem_cons_of_mem first member)
      exact ⟨_, final, .cons (.turn looked) run', there, fun sock outside =>
        rest sock fun inside => outside (List.mem_cons_of_mem _ inside)⟩

/-- Behind a short datagram the pass reads the same socket again, or waits on it. -/
theorem short_datagram_breaks {before : List Connector}
    (here : state.server.main = .scan fds (before ++ conn :: rest))
    (distinct : ((before ++ conn :: rest).map Connector.sock).Nodup)
    (whole : ∀ other ∈ before, other.sock ∈ fds → WholeFirst (state.waiting other.sock))
    (marked : conn.sock ∈ fds) {message : Datagram} {more : List Datagram}
    (waits : state.waiting conn.sock = message :: more) (short : message.datalen < 17) :
    ¬ PassesWell state := by
  intro well
  rw [List.map_append] at distinct
  obtain ⟨distinct', _, apart⟩ := List.nodup_append.mp distinct
  have outside : conn.sock ∉ before.map Connector.sock := fun member =>
    apart _ member _ List.mem_cons_self rfl
  obtain ⟨labels₁, state₁, run₁, main₁, waiting₁⟩ := run_to here distinct' whole
  rw [← waiting₁ _ outside] at waits
  obtain ⟨labels₂, state₂, run₂, read, main₂, _⟩ := run_marked main₁ marked waits
  rw [if_pos short] at main₂
  obtain ⟨state₃, ref, took, main₃, _⟩ := turn_took main₂ marked
  have run := (run₁.append run₂).append (.cons (.turn took) .nil)
  obtain ⟨⟨state₄, event⟩, done⟩ := well.goesOn _ _ run (by rw [main₃]; nofun)
  have again : event = .received conn.sock := by
    simp only [Receiving.turn, main₃] at done
    split at done
    · cases done
    · cases done
      rfl
  subst again
  have once := well.once _ _ (run.append (.cons (.turn done) .nil))
  have twice : conn.sock ∈ socksRead (labels₁ ++ labels₂ ++ [some (.took ref)]) := by
    simp [read]
  rw [socksRead_append] at once
  exact (List.nodup_append.mp once).2.2 _ twice _ List.mem_cons_self rfl

/-- A pass over the connectors, of which those that `select` has marked have a datagram each, does
what it is to do if the first datagrams of the marked sockets are whole ones, and only then. -/
theorem pass_ends_well_iff {conns : List Connector} (here : state.server.main = .scan fds conns)
    (distinct : (conns.map Connector.sock).Nodup)
    (readable : ∀ conn ∈ conns, conn.sock ∈ fds → state.waiting conn.sock ≠ []) :
    PassesWell state ↔ ∀ conn ∈ conns, conn.sock ∈ fds → ∀ message more,
      state.waiting conn.sock = message :: more → 17 ≤ message.datalen := by
  constructor
  · intro well
    by_contra short
    have some : ∃ conn ∈ conns, conn.sock ∈ fds ∧ ¬ WholeFirst (state.waiting conn.sock) := by
      simp only [not_forall] at short
      obtain ⟨conn, member, marked, message, more, waits, short⟩ := short
      refine ⟨conn, member, marked, ?_⟩
      rintro ⟨message', more', waits', long⟩
      cases waits.symm.trans waits'
      exact short long
    obtain ⟨before, conn, rest, rfl, whole, ⟨marked, short⟩⟩ := first_split some
    have member : conn ∈ before ++ conn :: rest := List.mem_append_right _ List.mem_cons_self
    obtain ⟨message, more, waits⟩ := List.exists_cons_of_ne_nil (readable conn member marked)
    refine short_datagram_breaks here distinct (fun other inside marked => ?_) marked waits ?_ well
    · exact not_not.mp fun short => whole other inside ⟨marked, short⟩
    · exact Int.not_le.mp fun long => short ⟨message, more, waits, long⟩
  · intro long
    have start : Reads fds (3 * conns.length + 1) [] state.server.main state.waiting := by
      rw [here]
      refine ⟨rfl, fun conn member marked => ?_, distinct, nofun, .nil, Nat.le_of_eq ?_, rfl⟩
      · obtain ⟨message, more, waits⟩ := List.exists_cons_of_ne_nil (readable conn member marked)
        exact ⟨message, more, waits, long conn member marked message more waits⟩
      · exact Nat.zero_add _
    refine ⟨fun labels final run => (start.run run).once,
      ⟨3 * conns.length + 1, fun labels final run => ?_⟩,
      fun labels final run goesOn => ?_, fun labels final run atEnd => ?_⟩
    · exact Nat.le_trans (Nat.le_add_right _ _) (start.run run).turns
    · rcases (start.run run).turn with atEnd | ⟨next, event, done, _⟩
      · exact absurd atEnd goesOn
      · exact ⟨_, done⟩
    · have buffers := (start.run run).buffers
      rw [atEnd] at buffers
      simpa [MainLoop.held] using buffers

end Short

/-- The pass after `select` has marked the socket that the clients use, in which one datagram of
that length waits. -/
def oneDatagram (datalen : Int) : Receiving where
  server := selectStep (twoServers 4) (some [3])
  waiting := fun sock => if sock = 3 then [⟨7, datalen, ⟨11, 0, 0x0100, []⟩⟩] else []

/-- A pass in which a query of 30 bytes waits. -/
theorem whole_datagram_passes : PassesWell (oneDatagram 30) := by
  have here : (oneDatagram 30).server.main = .scan [3] (twoServers 4).bindConnectors := rfl
  refine (pass_ends_well_iff here (by decide) ?_).mpr ?_
  · intro conn _ marked
    rw [List.mem_singleton.mp marked]
    nofun
  · intro conn _ marked message more waits
    rw [List.mem_singleton.mp marked] at waits
    cases waits
    decide

/-- A pass in which a datagram of five bytes waits. -/
theorem short_datagram_is_read_again : ¬ PassesWell (oneDatagram 5) :=
  have here : (oneDatagram 5).server.main =
      .scan [3] ([] ++ ⟨3, 0⟩ :: (twoServers 4).bindConnectors.tail) := rfl
  short_datagram_breaks here (by decide) nofun List.mem_cons_self rfl (by decide)

end QNXStuff.QXDns
