import QNXStuff.QXDns.Moves

/-! The queue of outstanding queries in runs in which a query is sent to its next server
only from the end of the queue. -/

namespace QNXStuff.QXDns

open Execution LinkedList Ownership

/-! ### Who has which buffer -/

/-- The buffers a worker is done with when it has sent its message. -/
def Worker.held : Worker → List BufRef
  | .handler request => [request]
  | .send request tmpQ saveRq _ => (if saveRq then [] else [request]) ++ tmpQ.toList
  | _ => []

/-- The query a worker is going to put into the queue. -/
def Worker.pending : Worker → List BufRef
  | .number request => [request]
  | .send request _ true _ => [request]
  | .queue request => [request]
  | _ => []

def MainLoop.held : MainLoop → List BufRef
  | .receive _ _ _ tmpQ => [tmpQ]
  | .giveBack _ _ tmpQ => [tmpQ]
  | .ready _ _ tmpQ => [tmpQ]
  | _ => []

def regionsOf (workers : Nat → Worker) (mine queue : List BufRef)
    (stackRefs : Stack → List BufRef) : Owner → List BufRef
  | .queue => queue
  | .stack stack => stackRefs stack
  | .main => mine
  | .worker thread => (workers thread).held
  | .pending thread => (workers thread).pending

section Regions

variable {workers : Nat → Worker} {thread : Nat} {worker : Worker} {mine mine' queue queue' : List BufRef}
  {stackRefs stackRefs' : Stack → List BufRef} {giver taker : Owner} {ref : BufRef}

/-- A worker goes on with the buffers it has. -/
theorem regionsOf_same (held : worker.held = (workers thread).held)
    (pending : worker.pending = (workers thread).pending) :
    regionsOf (Function.update workers thread worker) mine queue stackRefs =
      regionsOf workers mine queue stackRefs := by
  funext owner
  cases owner with
  | worker other =>
    by_cases here : other = thread
    · subst here
      simpa [regionsOf] using held
    · simp [regionsOf, here]
  | pending other =>
    by_cases here : other = thread
    · subst here
      simpa [regionsOf] using pending
    · simp [regionsOf, here]
  | _ => rfl

theorem passes_worker (giver : Owner) (taker : Owner) (apart : giver ≠ taker)
    (given : (regionsOf workers mine queue stackRefs giver).Perm
      (ref :: regionsOf (Function.update workers thread worker) mine queue' stackRefs' giver))
    (taken : (regionsOf (Function.update workers thread worker) mine queue' stackRefs' taker).Perm
      (ref :: regionsOf workers mine queue stackRefs taker))
    (queueKept : giver ≠ .queue → taker ≠ .queue → queue' = queue)
    (stackRefsKept : ∀ stack, giver ≠ .stack stack → taker ≠ .stack stack →
      stackRefs' stack = stackRefs stack)
    (heldKept : giver ≠ .worker thread → taker ≠ .worker thread →
      worker.held = (workers thread).held)
    (pendingKept : giver ≠ .pending thread → taker ≠ .pending thread →
      worker.pending = (workers thread).pending) :
    Passes giver taker ref (regionsOf workers mine queue stackRefs)
      (regionsOf (Function.update workers thread worker) mine queue' stackRefs') := by
  refine ⟨apart, given, taken, fun owner notGiver notTaker => ?_⟩
  cases owner with
  | queue => exact queueKept notGiver.symm notTaker.symm
  | stack stack => exact stackRefsKept stack notGiver.symm notTaker.symm
  | main => rfl
  | worker other =>
    by_cases here : other = thread
    · subst here
      simpa [regionsOf] using heldKept notGiver.symm notTaker.symm
    · simp [regionsOf, here]
  | pending other =>
    by_cases here : other = thread
    · subst here
      simpa [regionsOf] using pendingKept notGiver.symm notTaker.symm
    · simp [regionsOf, here]

/-- A buffer passes between the main loop and a list. -/
theorem passes_main (giver : Owner) (taker : Owner) (apart : giver ≠ taker)
    (given : (regionsOf workers mine queue stackRefs giver).Perm
      (ref :: regionsOf workers mine' queue' stackRefs' giver))
    (taken : (regionsOf workers mine' queue' stackRefs' taker).Perm
      (ref :: regionsOf workers mine queue stackRefs taker))
    (queueKept : giver ≠ .queue → taker ≠ .queue → queue' = queue)
    (stackRefsKept : ∀ stack, giver ≠ .stack stack → taker ≠ .stack stack →
      stackRefs' stack = stackRefs stack)
    (mineKept : giver ≠ .main → taker ≠ .main → mine' = mine) :
    Passes giver taker ref (regionsOf workers mine queue stackRefs)
      (regionsOf workers mine' queue' stackRefs') := by
  refine ⟨apart, given, taken, fun owner notGiver notTaker => ?_⟩
  cases owner with
  | queue => exact queueKept notGiver.symm notTaker.symm
  | stack stack => exact stackRefsKept stack notGiver.symm notTaker.symm
  | main => exact mineKept notGiver.symm notTaker.symm
  | worker other => rfl
  | pending other => rfl

theorem stackRefs_kept {stack : Stack} {refs : List BufRef} (other : Stack)
    (apart : Owner.stack stack ≠ .stack other) :
    Function.update stackRefs stack refs other = stackRefs other :=
  Function.update_of_ne (fun same => apart (congrArg Owner.stack same.symm)) ..

end Regions

/-- The lists are well formed and every buffer is where the threads think it is. -/
def Inv (server : Server) (queue ready : List BufRef) : Prop :=
  ∃ stackRefs, server.lists.Sound (regionsOf server.workers server.main.held queue stackRefs) ∧
    stackRefs .readyBuf = ready

section Steps

variable {server : Server} {queue ready : List BufRef} {thread : Nat} {request query : BufRef}

/-- A worker goes on without touching a list. -/
theorem Inv.stay (inv : Inv server queue ready) {next : Server} {worker : Worker}
    (lists : next.lists = server.lists) (main : next.main = server.main)
    (workers : next.workers = Function.update server.workers thread worker)
    (held : worker.held = (server.workers thread).held)
    (pending : worker.pending = (server.workers thread).pending) : Inv next queue ready := by
  obtain ⟨stackRefs, sound, filled⟩ := inv
  refine ⟨stackRefs, ?_, filled⟩
  rw [lists, main, workers, regionsOf_same held pending]
  exact sound

theorem Inv.represents (inv : Inv server queue ready) : server.lists.links.Represents queue := by
  obtain ⟨stackRefs, sound, filled⟩ := inv
  exact sound.queue

theorem Inv.length_le (inv : Inv server queue ready) : queue.length ≤ server.lists.fresh + 1 := by
  obtain ⟨stackRefs, sound, filled⟩ := inv
  have bounded : queue ⊆ List.range server.lists.fresh := fun ref member =>
    List.mem_range.mpr (sound.allocated .queue ref member)
  have short : queue.length ≤ (List.range server.lists.fresh).length :=
    (List.subperm_of_subset sound.queue.nodup bounded).length_le
  rw [List.length_range] at short
  omega

/-- The search for a query comes to its end, at the first query with the ID. -/
theorem Inv.findQuery_eq (inv : Inv server queue ready) (request : BufRef) :
    findQuery server request =
      some (queue.find? fun ref => (server.buffer ref).refID = (server.buffer request).pkt.id) :=
  findFrom_chain inv.represents.forward _ inv.length_le

theorem Inv.mem_of_found (inv : Inv server queue ready)
    (search : findQuery server request = some (some query)) : query ∈ queue := by
  rw [inv.findQuery_eq] at search
  exact List.mem_of_find?_eq_some (Option.some.inj search)

/-- The top of the filled buffers is the first of them. -/
theorem Inv.ready_eq (inv : Inv server queue ready)
    (top : server.lists.top .readyBuf = some request) : ∃ rest, ready = request :: rest := by
  obtain ⟨stackRefs, sound, filled⟩ := inv
  have first : server.lists.top .readyBuf = (stackRefs .readyBuf).head? := sound.top_eq .readyBuf
  rw [top, filled] at first
  exact List.head?_eq_some_iff.mp first.symm

/-- `thread_block` takes the first filled buffer. -/
theorem Inv.take (inv : Inv server queue ready) (here : server.workers thread = .block)
    (top : server.lists.top .readyBuf = some request) :
    Inv ({ server with lists :=
      server.lists.setTop .readyBuf (server.lists.links.next request) }.setWorker thread
        (.handler request)) queue (ready.erase request) := by
  obtain ⟨rest, rfl⟩ := inv.ready_eq top
  obtain ⟨stackRefs, sound, front⟩ := inv
  refine ⟨Function.update stackRefs .readyBuf rest, sound.pop
    (passes_worker _ (.worker thread) nofun ?_ ?_ ?_ ?_ ?_ ?_)
    trivial nofun ?_, ?_⟩
  · simp [regionsOf, front]
  · simp [regionsOf, here, Worker.held]
  · intro _ _
    rfl
  · intro stack apart _
    exact stackRefs_kept stack apart
  · intro _ apart
    exact absurd rfl apart
  · intro _ _
    simp [here, Worker.pending]
  · simp [regionsOf, front]
  · simp

/-- A worker takes a query out of the queue to answer its client. -/
theorem Inv.answer (inv : Inv server queue ready) (here : server.workers thread = .handler request)
    (member : query ∈ queue) :
    Inv (answerClient { server with lists := server.lists.unlinkQuery query } thread request query)
      (queue.erase query) ready := by
  obtain ⟨stackRefs, sound, filled⟩ := inv
  obtain ⟨front, back, -, split, erased⟩ := List.exists_erase_eq member
  refine ⟨stackRefs, sound.unlinkQuery
    (passes_worker _ (.worker thread) nofun ?_ ?_ ?_ ?_ ?_ ?_)
    trivial nofun split erased, filled⟩
  · exact List.perm_cons_erase member
  · simpa [regionsOf, here, Worker.held] using List.Perm.swap query request []
  · intro apart
    exact absurd rfl apart
  · intro _ _ _
    rfl
  · intro _ apart
    exact absurd rfl apart
  · intro _ _
    simp [here, Worker.pending]

/-- A worker takes the last query out of the queue to send it to its next server. -/
theorem Inv.retry (inv : Inv server queue ready) (here : server.workers thread = .handler request)
    (member : query ∈ queue) (last : server.lists.links.next query = none) (next : Connector)
    (further : List Connector) :
    Inv (retryQuery { server with lists := server.lists.unlinkQuery query } thread request query
      next further) (queue.erase query) ready := by
  obtain ⟨stackRefs, sound, filled⟩ := inv
  obtain ⟨front, back, -, split, erased⟩ := List.exists_erase_eq member
  refine ⟨stackRefs, sound.unlinkQuery
    (passes_worker _ (.pending thread) nofun ?_ ?_ ?_ ?_ ?_ ?_)
    trivial (fun _ _ => last) split erased, filled⟩
  · exact List.perm_cons_erase member
  · simp [regionsOf, here, Worker.pending]
  · intro apart
    exact absurd rfl apart
  · intro _ _ _
    rfl
  · intro _ _
    simp [here, Worker.held]
  · intro _ apart
    exact absurd rfl apart

/-- A worker ends the list behind a new query and will put it into the queue. -/
theorem Inv.accept (inv : Inv server queue ready) (here : server.workers thread = .handler request)
    (buffer : BufRef → Buffer) :
    Inv ({ server with
      buffer := buffer, lists := server.lists.setNext request none }.setWorker thread
        (.number request)) queue ready := by
  obtain ⟨stackRefs, sound, filled⟩ := inv
  have member : request ∈ regionsOf server.workers server.main.held queue stackRefs
      (.worker thread) := by
    simp [regionsOf, here, Worker.held]
  refine ⟨stackRefs, (sound.endNext (show (Owner.worker thread).Local from trivial) member).hand
    (passes_worker (.worker thread) (.pending thread) nofun ?_ ?_ ?_ ?_ ?_ ?_)
    trivial trivial (fun _ _ => Function.update_self ..), filled⟩
  · simp [regionsOf, here, Worker.held]
  · simp [regionsOf, here, Worker.pending]
  · intro _ _
    rfl
  · intro _ _ _
    rfl
  · intro apart
    exact absurd rfl apart
  · intro _ apart
    exact absurd rfl apart

/-- A worker puts a buffer on the free list and goes on with the others. -/
theorem Inv.release (inv : Inv server queue ready) {worker : Worker} {ref : BufRef}
    (held : (server.workers thread).held.Perm (ref :: worker.held))
    (pending : worker.pending = (server.workers thread).pending) :
    Inv ({ server with lists := server.lists.push .freeBuf ref }.setWorker thread worker) queue ready := by
  obtain ⟨stackRefs, sound, filled⟩ := inv
  refine ⟨Function.update stackRefs .freeBuf (ref :: stackRefs .freeBuf), sound.push
    (passes_worker (.worker thread) _ nofun ?_ ?_ ?_ ?_ ?_ ?_)
    trivial ?_, by simpa using filled⟩
  · simpa [regionsOf] using held
  · simp [regionsOf]
  · intro _ _
    rfl
  · intro stack _ apart
    exact stackRefs_kept stack apart
  · intro apart
    exact absurd rfl apart
  · intro _ _
    exact pending
  · simp [regionsOf]

/-- The end of the handler, up to the queue. -/
theorem Inv.send (inv : Inv server queue ready) {tmpQ : Option BufRef} {saveRq : Bool}
    {dest : Option Connector} (here : server.workers thread = .send request tmpQ saveRq dest) :
    Inv (sendAndFree server thread request tmpQ saveRq dest).1 queue ready := by
  -- first the second buffer is given back, then the first
  have second : Inv ({ server with lists := freeTmp server.lists tmpQ }.setWorker thread
      (.send request none saveRq dest)) queue ready := by
    cases tmpQ with
    | none => exact inv.stay rfl rfl rfl (by rw [here]) (by rw [here])
    | some query =>
      refine inv.release ?_ (by rw [here]; cases saveRq <;> rfl)
      rw [here]
      cases saveRq with
      | true => exact List.Perm.refl _
      | false => exact List.Perm.swap query request []
  cases saveRq with
  | true =>
    refine @Inv.stay _ _ _ thread second _ (.queue request) rfl rfl ?_ ?_ ?_
    · simp [sendAndFree, Server.setWorker]
    · simp [Server.setWorker, Worker.held]
    · simp [Server.setWorker, Worker.pending]
  | false =>
    have both := @Inv.release _ _ _ thread second .block request
      (by simp [Server.setWorker, Worker.held]) (by simp [Server.setWorker, Worker.pending])
    simpa [sendAndFree, Server.setWorker] using both

/-- A worker puts its query at the end of the queue. -/
theorem Inv.enqueue (inv : Inv server queue ready) (here : server.workers thread = .queue request) :
    Inv (queueRequest server thread request).1 (queue ++ [request]) ready := by
  obtain ⟨stackRefs, sound, filled⟩ := inv
  refine ⟨stackRefs, sound.appendQuery
    (passes_worker (.pending thread) _ nofun ?_ ?_ ?_ ?_ ?_ ?_) rfl,
    filled⟩
  · simp [regionsOf, here, Worker.pending]
  · exact List.perm_append_comm
  · intro _ apart
    exact absurd rfl apart
  · intro _ _ _
    rfl
  · intro _ _
    simp [here, Worker.held]
  · intro apart
    exact absurd rfl apart

/-- The main loop goes on without touching a list. -/
theorem Inv.pass (inv : Inv server queue ready) {next : Server} (lists : next.lists = server.lists)
    (workers : next.workers = server.workers) (held : next.main.held = server.main.held) :
    Inv next queue ready := by
  obtain ⟨stackRefs, sound, filled⟩ := inv
  refine ⟨stackRefs, ?_, filled⟩
  rw [lists, workers, held]
  exact sound

/-- The main loop gets a free buffer or a new one. -/
theorem Inv.takeBuffer (inv : Inv server queue ready) (empty : server.main.held = []) {main : MainLoop}
    (held : main.held = [(takeBuffer server).1]) :
    Inv { (takeBuffer server).2 with main := main } queue ready := by
  obtain ⟨stackRefs, sound, filled⟩ := inv
  simp only [QXDns.takeBuffer, BufferLists.pop] at held ⊢
  cases top : server.lists.top .freeBuf with
  | none =>
    simp only [top] at held
    refine ⟨stackRefs, sound.malloc (show Joins Owner.main _ _ _ from ⟨?_, ?_⟩) trivial (by simp), filled⟩
    · simp [regionsOf, held, empty, BufferLists.malloc]
    · intro owner apart
      cases owner with
      | main => exact absurd rfl apart
      | _ => rfl
  | some ref =>
    simp only [top] at held
    obtain ⟨rest, front⟩ : ∃ rest, stackRefs .freeBuf = ref :: rest := by
      have first := sound.top_eq .freeBuf
      rw [top] at first
      exact List.head?_eq_some_iff.mp first.symm
    refine ⟨Function.update stackRefs .freeBuf rest, sound.pop
      (passes_main _ .main (by simp) ?_ ?_ ?_ ?_ ?_)
      trivial (by simp) ?_, by simpa using filled⟩
    · simp [regionsOf, front]
    · simp [regionsOf, held, empty]
    · intro _ _
      rfl
    · intro stack apart _
      exact stackRefs_kept stack apart
    · intro _ apart
      exact absurd rfl apart
    · simp [regionsOf, front]

/-- The main loop clears the buffer it is going to fill. -/
theorem Inv.clear (inv : Inv server queue ready) {ref : BufRef} (held : server.main.held = [ref]) :
    Inv { server with lists := server.lists.clear ref } queue ready := by
  obtain ⟨stackRefs, sound, filled⟩ := inv
  exact ⟨stackRefs, sound.clear (show Owner.main.Local from trivial) (by simp [regionsOf, held]), filled⟩

/-- The main loop puts its buffer on one of the stackRefs. -/
theorem Inv.push (inv : Inv server queue ready) {ref : BufRef} {stack : Stack} {main : MainLoop}
    (held : server.main.held = [ref]) (empty : main.held = []) :
    Inv { server with lists := server.lists.push stack ref, main := main } queue
      (if stack = .readyBuf then ref :: ready else ready) := by
  obtain ⟨stackRefs, sound, filled⟩ := inv
  refine ⟨Function.update stackRefs stack (ref :: stackRefs stack), sound.push
    (passes_main .main _ nofun ?_ ?_ ?_ ?_ ?_) trivial ?_, ?_⟩
  · simp [regionsOf, held, empty]
  · simp [regionsOf]
  · intro _ _
    rfl
  · intro other _ apart
    exact stackRefs_kept other apart
  · intro apart
    exact absurd rfl apart
  · simp [regionsOf]
  · cases stack <;> simp [filled]

/-- The expiry pass takes a query out of the queue and frees it. -/
theorem Inv.expire (inv : Inv server queue ready) (empty : server.main.held = [])
    (member : query ∈ queue) :
    Inv { server with lists := (server.lists.unlinkQuery query).push .freeBuf query }
      (queue.erase query) ready := by
  obtain ⟨stackRefs, sound, filled⟩ := inv
  obtain ⟨front, back, -, split, erased⟩ := List.exists_erase_eq member
  -- for a moment the main loop alone has the query
  have handed : Passes .queue .main query (regionsOf server.workers server.main.held queue stackRefs)
      (regionsOf server.workers [query] (queue.erase query) stackRefs) :=
    passes_main .queue .main nofun
      (List.perm_cons_erase member) (by simp [regionsOf, empty])
      (fun apart => absurd rfl apart) (fun _ _ _ => rfl) (fun _ apart => absurd rfl apart)
  have unlinked := sound.unlinkQuery handed trivial nofun split erased
  refine ⟨Function.update stackRefs .freeBuf (query :: stackRefs .freeBuf), unlinked.push
    (passes_main .main _ nofun ?_ ?_ ?_ ?_ ?_) trivial ?_,
    by simpa using filled⟩
  · simp [regionsOf, empty]
  · simp [regionsOf]
  · intro _ _
    rfl
  · intro other _ apart
    exact stackRefs_kept other apart
  · intro apart
    exact absurd rfl apart
  · simp [regionsOf]

/-- Where the cursor of the expiry pass stands in the queue. -/
def At (queue : List BufRef) (tmpQ : Option BufRef) : Prop :=
  ∃ front back, queue = front ++ back ∧ tmpQ = back.head?

/-- The cursor stands at a query: the ones before it and the ones behind it. -/
theorem At.split {tmpQ : BufRef} (cursor : At queue (some tmpQ)) :
    ∃ front back, queue = front ++ tmpQ :: back := by
  obtain ⟨front, back, rfl, first⟩ := cursor
  obtain ⟨rest, rfl⟩ := List.head?_eq_some_iff.mp first.symm
  exact ⟨front, rest, rfl⟩

theorem outstanding_append (queue : List BufRef) (events events' : List Event) :
    outstanding queue (events ++ events') = outstanding (outstanding queue events) events' :=
  List.foldl_append

theorem unread_append (ready : List BufRef) (events events' : List Event) :
    unread ready (events ++ events') = unread (unread ready events) events' :=
  List.foldl_append

/-- The main loop is in the expiry pass, its cursor in the queue. -/
structure Passing (server : Server) (queue ready : List BufRef) (tmpQ : Option BufRef) : Prop where
  here : server.main = .expire
  inv : Inv server queue ready
  cursor : At queue tmpQ

theorem Passing.mem {tmpQ : BufRef} (passing : Passing server queue ready (some tmpQ)) :
    tmpQ ∈ queue := by
  obtain ⟨front, back, split⟩ := passing.cursor.split
  rw [split]
  exact List.mem_append_right front List.mem_cons_self

theorem Passing.resent {tmpQ : BufRef} (passing : Passing server queue ready (some tmpQ))
    (buffer : Buffer) : Passing (server.setBuffer tmpQ buffer) queue ready (some tmpQ) :=
  ⟨passing.here, passing.inv.pass rfl rfl rfl, passing.cursor⟩

theorem Passing.removed {tmpQ : BufRef} (passing : Passing server queue ready (some tmpQ)) :
    Passing { server with lists := (server.lists.unlinkQuery tmpQ).push .freeBuf tmpQ }
      (queue.erase tmpQ) ready (server.lists.links.next tmpQ) := by
  obtain ⟨front, back, split⟩ := passing.cursor.split
  have represents := passing.inv.represents
  rw [split] at represents
  have outside : tmpQ ∉ front := fun earlier =>
    List.disjoint_of_nodup_append represents.nodup earlier List.mem_cons_self
  refine ⟨passing.here, passing.inv.expire (by rw [passing.here]; rfl) passing.mem,
    front, back, ?_, represents.next_eq⟩
  rw [split, List.erase_append_right _ outside, List.erase_cons_head]

theorem Passing.passed {tmpQ : BufRef} (passing : Passing server queue ready (some tmpQ)) :
    Passing server queue ready (server.lists.links.next tmpQ) := by
  obtain ⟨front, back, split⟩ := passing.cursor.split
  have represents := passing.inv.represents
  rw [split] at represents
  exact ⟨passing.here, passing.inv, front ++ [tmpQ], back, by simpa using split,
    represents.next_eq⟩

/-- The rule of the expiry pass on a well-formed queue. -/
theorem passing_rule {motive : Server → List Event → Prop} {turns : Nat} {tmpQ : Option BufRef}
    {final : Server} {events : List Event}
    (resent : ∀ server tmpQ past asked next further,
      Passing server (outstanding queue past) ready (some tmpQ) → motive server past →
      (server.buffer tmpQ).qserver = asked :: next :: further →
      motive (server.setBuffer tmpQ { server.buffer tmpQ with qserver := next :: further })
        (past ++ [server.forward tmpQ next]))
    (removed : ∀ server tmpQ past, Passing server (outstanding queue past) ready (some tmpQ) →
      motive server past →
      motive { server with lists := (server.lists.unlinkQuery tmpQ).push .freeBuf tmpQ }
        (past ++ [.left tmpQ .expired]))
    (passing : Passing server queue ready tmpQ) (start : motive server [])
    (done : expirePass turns server tmpQ = .ok (final, events)) :
    Passing final (outstanding queue events) ready none ∧ motive final events := by
  refine expirePass_rule (motive := fun server tmpQ past =>
    Passing server (outstanding queue past) ready tmpQ ∧ motive server past) ?_ ?_ ?_
    ⟨passing, start⟩ done
  · rintro server tmpQ past asked next further ⟨passing, kept⟩ - servers
    rw [outstanding_append]
    exact ⟨passing.resent _, resent server tmpQ past asked next further passing kept servers⟩
  · rintro server tmpQ past asked ⟨passing, kept⟩ - -
    rw [outstanding_append]
    exact ⟨passing.removed, removed server tmpQ past passing kept⟩
  · rintro server tmpQ past ⟨passing, kept⟩ -
    exact ⟨passing.passed, kept⟩

theorem Inv.passing (inv : Inv server queue ready) (here : server.main = .expire) :
    Passing server queue ready server.lists.links.head :=
  ⟨here, inv, [], queue, rfl, inv.represents.head_eq⟩

/-- The expiry pass keeps the lists, and takes no buffer from the filled ones. -/
theorem Inv.expired (inv : Inv server queue ready) (here : server.main = .expire) {turns : Nat}
    {final : Server} {events : List Event}
    (pass : expirePass turns server server.lists.links.head = .ok (final, events)) :
    Passing final (outstanding queue events) ready none ∧ unread ready events = ready :=
  passing_rule (motive := fun _ past => unread ready past = ready)
    (fun _ _ _ _ _ _ _ kept _ => by rw [unread_append, kept]; rfl)
    (fun _ _ _ _ kept => by rw [unread_append, kept]; rfl) (inv.passing here) rfl pass

section Silent

variable {tmpQ : Option BufRef} {saveRq : Bool} {dest : Option Connector} {fds : List Nat}
  {conn : Connector} {rest : List Connector} {ref : BufRef} {message : Datagram}

theorem sendAndFree_outstanding :
    outstanding queue (sendAndFree server thread request tmpQ saveRq dest).2 = queue := by
  cases dest with
  | none => rfl
  | some dest => cases saveRq <;> cases tmpQ <;> rfl

theorem sendAndFree_unread :
    unread ready (sendAndFree server thread request tmpQ saveRq dest).2 = ready := by
  cases dest with
  | none => rfl
  | some dest => cases saveRq <;> cases tmpQ <;> rfl

theorem receiveStep_outstanding :
    outstanding queue (receiveStep server fds conn rest ref message).2 = queue := by
  simp only [receiveStep]
  split <;> rfl

theorem receiveStep_unread :
    unread ready (receiveStep server fds conn rest ref message).2 = ready := by
  simp only [receiveStep]
  split <;> rfl

end Silent

/-- Every step keeps the lists if it puts no query back that was not the last one. -/
theorem Inv.move (inv : Inv server queue ready) {action : Action} {events : List Event} {next : Server}
    (last : RetriesLast server action) (move : Move server action events next) :
    Inv next (outstanding queue events) (unread ready events) := by
  cases move with
  | take here top => exact inv.take here top
  | lose here _ _ => exact inv.stay rfl rfl rfl (by rw [here]; rfl) (by rw [here]; rfl)
  | answer here _ search => exact inv.answer here (inv.mem_of_found search)
  | @retry _ _ request query asked next further here response search failed servers =>
    simp only [RetriesLast, here, search] at last
    have retries : Retries server request query := ⟨response, failed, by simp [servers]⟩
    exact inv.retry here (inv.mem_of_found search) (last retries) _ _
  | reply _ _ here _ _ => exact inv.stay rfl rfl rfl (by rw [here]; rfl) (by rw [here]; rfl)
  | accept here _ _ => exact inv.accept here _
  | number here => exact inv.stay rfl rfl rfl (by rw [here]; rfl) (by rw [here]; rfl)
  | send here =>
    rw [sendAndFree_outstanding, sendAndFree_unread]
    exact inv.send here
  | enqueue here => exact inv.enqueue here
  | @select ready here => cases ready <;> exact inv.pass rfl rfl (by rw [here]; rfl)
  | @scan fds tmpConn here =>
    cases tmpConn with
    | nil => exact inv.pass rfl rfl (by rw [here]; rfl)
    | cons conn rest =>
      simp only [scanStep]
      split
      · exact inv.takeBuffer (by rw [here]; rfl) rfl
      · exact inv.pass rfl rfl (by rw [here]; rfl)
  | @receive message fds conn rest tmpQ here =>
    rw [receiveStep_outstanding, receiveStep_unread]
    have cleared := inv.clear (by rw [here]; rfl)
    refine cleared.pass rfl rfl ?_
    simp only [receiveStep, here]
    split <;> rfl
  | giveBack here => exact inv.push (by rw [here]; rfl) rfl
  | ready here => exact inv.push (by rw [here]; rfl) rfl
  | expire here pass =>
    obtain ⟨ending, silent⟩ := inv.expired here pass
    rw [silent]
    exact ending.inv.pass rfl rfl (by rw [ending.here]; rfl)
  | tick => exact inv.pass rfl rfl rfl

end Steps

/-! ### Runs -/

/-- A step that puts no query back into the queue that was not the last one of it. -/
def LastRetried (server : Server) (label : Action × List Event) : Prop :=
  RetriesLast server label.1

theorem prepareBuffers_sound {count : Nat} {lists : BufferLists} {stackRefs : Stack → List BufRef}
    (sound : lists.Sound (regionsOf (fun _ => .block) [] [] stackRefs)) :
    ∃ stackRefs', (prepareBuffers count lists).Sound (regionsOf (fun _ => .block) [] [] stackRefs') ∧
      stackRefs' .readyBuf = stackRefs .readyBuf := by
  induction count generalizing lists stackRefs with
  | zero => exact ⟨stackRefs, sound, rfl⟩
  | succ count ih =>
    have taken : lists.malloc.2.Sound (regionsOf (fun _ => .block) [lists.fresh] [] stackRefs) := by
      refine sound.malloc (show Joins Owner.main _ _ _ from ⟨List.Perm.refl _, fun owner apart => ?_⟩)
        trivial nofun
      cases owner with
      | main => exact absurd rfl apart
      | _ => rfl
    have handed : Passes .main (.stack .freeBuf) lists.fresh
        (regionsOf (fun _ => .block) [lists.fresh] [] stackRefs)
        (regionsOf (fun _ => .block) [] []
          (Function.update stackRefs .freeBuf (lists.fresh :: stackRefs .freeBuf))) :=
      passes_main .main _ nofun (List.Perm.refl _)
        (by simp [regionsOf]) (fun _ _ => rfl) (fun other _ apart => stackRefs_kept other apart)
        (fun apart => absurd rfl apart)
    obtain ⟨stackRefs', prepared, filled⟩ := ih (taken.push handed trivial (by simp [regionsOf]))
    exact ⟨stackRefs', prepared, by simpa using filled⟩

theorem Server.Started.inv {server : Server} (started : server.Started) : Inv server [] [] := by
  obtain ⟨⟨blank, count, lists, head, tail, top⟩, -, workers, main⟩ := started
  have sound : blank.Sound (regionsOf (fun _ => .block) [] [] fun _ => []) := by
    have empty : ∀ owner, regionsOf (fun _ => .block) [] [] (fun _ => []) owner = [] := by
      intro owner
      cases owner <;> rfl
    refine ⟨⟨fun owner => ?_, fun {owner} _ _ member => ?_⟩, fun owner ref member => ?_,
      ⟨List.nodup_nil, head, tail⟩, fun stack => ?_, fun thread ref member => ?_⟩
    · rw [empty]
      exact List.nodup_nil
    · rw [empty] at member
      cases member
    · rw [empty] at member
      cases member
    · rw [top]
      rfl
    · cases member
  obtain ⟨stackRefs, prepared, filled⟩ := prepareBuffers_sound sound
  refine ⟨stackRefs, ?_, filled⟩
  rw [lists, workers, main]
  exact prepared

section Runs

variable {start final : Server} {labels : List (Action × List Event)}

/-- What the steps of a run keep, next to the lists, from state to state. -/
theorem run_rule {condition : Server → Action × List Event → Prop}
    {motive : Server → List Event → Prop}
    (ordered : ∀ server label, condition server label → LastRetried server label)
    (keeps : ∀ server action events next past,
      Inv server (outstanding [] past) (unread [] past) → motive server past →
      condition server (action, events) → Move server action events next →
      motive next (past ++ events))
    (started : start.Started) (begins : motive start [])
    (run : Run (Under Step condition) start labels final) :
    Inv final (outstanding [] (eventsOf labels)) (unread [] (eventsOf labels)) ∧
      motive final (eventsOf labels) := by
  have kept : ∀ {server : Server} {past : List Event},
      Inv server (outstanding [] past) (unread [] past) → motive server past →
      ∀ {labels : List (Action × List Event)} {final : Server},
        Run (Under Step condition) server labels final →
        Inv final (outstanding [] (past ++ eventsOf labels)) (unread [] (past ++ eventsOf labels)) ∧
          motive final (past ++ eventsOf labels) := by
    intro server past inv holds labels final run
    induction run generalizing past with
    | nil => simpa [eventsOf] using And.intro inv holds
    | @cons server label next labels final first rest ih =>
      have move := step_moves first.1
      have moved := inv.move (ordered server label first.2) move
      rw [← outstanding_append, ← unread_append] at moved
      have later := ih moved (keeps server label.1 label.2 next past inv holds first.2 move)
      rwa [List.append_assoc] at later
  simpa using kept started.inv begins run

/-- A run keeps the lists, and its events tell the queue. -/
theorem run_inv (started : start.Started) (run : Run (Under Step LastRetried) start labels final) :
    Inv final (queueOf labels) (unread [] (eventsOf labels)) :=
  (run_rule (motive := fun _ _ => True) (fun _ _ same => same) (fun _ _ _ _ _ _ _ _ _ => trivial)
    started trivial run).1

theorem Inv.wellFormed {server : Server} {queue ready : List BufRef}
    (inv : Inv server queue ready) : server.WellFormed queue := by
  obtain ⟨stackRefs, sound, -⟩ := inv
  have list : server.lists.links.Represents queue := sound.queue
  refine ⟨list.nodup, list.forward, list.tail_eq,
    fun first member second member' => list.prev_iff_next member member', ?_, ?_⟩
  · intro query first
    obtain ⟨rest, split⟩ := List.head?_eq_some_iff.mp (list.head_eq.symm.trans first)
    rw [split] at list
    exact @Links.Represents.prev_eq _ _ [] _ _ list
  · intro ref queued free
    have queued := list.forward.reachable_iff.mp queued
    have free := (sound.stackRefs .freeBuf).reachable_iff.mp free
    cases @Separate.single _ _ _ sound.separate .queue _ _ queued free

/-- In every run in which only the last query of the queue is sent to its next server, the
queue is a well-formed doubly linked list of the outstanding queries. -/
theorem queue_stays_well_formed (started : start.Started)
    (run : Run (Under Step LastRetried) start labels final) :
    final.WellFormed (queueOf labels) := (run_inv started run).wellFormed

end Runs

/-! ### Two servers and two queries -/

/-- A server on socket 3 with external servers on the sockets 4 and 5, and zeroed memory. -/
def twoServers (count : Nat) : Server where
  lists := prepareBuffers count
    { links := { head := none, tail := none, next := fun _ => none, prev := fun _ => none }
      top := fun _ => none
      fresh := 0 }
  buffer := fun _ =>
    { sender := 0, qclient := ⟨0, 0⟩, qserver := [], refID := 0, srcID := 0, rcvtime := 0
      datalen := 0, pkt := ⟨0, 0, 0, []⟩ }
  intReqNum := 1
  workers := fun _ => .block
  main := .select
  clock := 0
  curTime := 0
  bindConnectors := [⟨3, 0⟩, ⟨4, 1⟩, ⟨5, 2⟩]
  srvrConnectors := [⟨4, 1⟩, ⟨5, 2⟩]

theorem twoServers_started (count : Nat) : (twoServers count).Started where
  lists := ⟨_, count, rfl, rfl, rfl, rfl⟩
  number := rfl
  workers := rfl
  main := rfl

/-- The main loop receives one message: `skipped` connectors stand before the one it comes
on and `behind` are left. -/
def receives (skipped sock behind : Nat) (message : Datagram) : List Action :=
  [.select (some [sock])] ++ List.replicate (skipped + 1) .main ++ [.recvfrom message, .main] ++
    List.replicate (behind + 1) .main ++ [.expire 9]

/-- A worker takes `count` steps, and nothing is in the databases. -/
def works (thread count : Nat) : List Action := List.replicate count (.worker thread none)

def question (id : UInt16) (data : List UInt8) : Datagram :=
  { sender := 7, datalen := 30, pkt := ⟨id, 0, 0x0100, data⟩ }

def response (sender : Nat) (id rcode : UInt16) (data : List UInt8) : Datagram :=
  { sender := sender, datalen := 30, pkt := ⟨id, dnsOptQR ||| rcode, 0x0100, data⟩ }

/-- Two queries go to the first server, which cannot answer the second of them; the second
server can. -/
theorem queue_of_two_queries : ∃ labels final,
    Run (Under Step LastRetried) (twoServers 4) labels final ∧ queueOf labels = [2] ∧
      final.WellFormed (queueOf labels) := by
  obtain ⟨labels, final, run, seen⟩ := replay_reaches
    (guarded Server.handle RetriesLast) (twoServers 4)
    (receives 0 3 2 (question 11 [1]) ++ works 0 5 ++
      receives 0 3 2 (question 12 [2]) ++ works 1 5 ++
      receives 1 4 1 (response 1 2 dnsOptRcodeSF [2]) ++ works 0 4 ++
      receives 1 4 1 (response 1 1 0 [1]) ++ works 0 3)
    (fun _ labels => queueOf labels) [2] (by decide +kernel)
  have run := run_guarded run
  exact ⟨labels, final, run, seen, queue_stays_well_formed (twoServers_started 4) run⟩

/-- A query that is not the last one goes to its next server, and the queue has no end. -/
theorem inner_retry_breaks_queue : ∃ labels final,
    (twoServers 4).Started ∧ Run Step (twoServers 4) labels final ∧
      ¬ final.WellFormed (queueOf labels) := by
  obtain ⟨labels, final, run, seen⟩ := replay_reaches
    Server.handle (twoServers 4)
    (receives 0 3 2 (question 11 [1]) ++ works 0 5 ++
      receives 0 3 2 (question 12 [2]) ++ works 1 5 ++
      receives 1 4 1 (response 1 1 dnsOptRcodeSF [1]) ++ works 0 4)
    (fun final labels => (queueOf labels, final.lists.links.next 3))
    ([2, 3], some 2) (by decide +kernel)
  obtain ⟨queue, next⟩ := Prod.mk.inj seen
  refine ⟨labels, final, twoServers_started 4, run, fun wellFormed => ?_⟩
  have forward := wellFormed.forward
  rw [queue] at forward
  obtain ⟨-, -, ending⟩ := forward
  have ending : final.lists.links.next 3 = none := ending
  rw [next] at ending
  cases ending

end QNXStuff.QXDns
