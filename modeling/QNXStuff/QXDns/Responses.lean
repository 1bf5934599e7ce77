import QNXStuff.QXDns.Queue

/-! Responses and the queries they belong to: which query a worker finds, and when a response
is lost although its query is still waited for. -/

namespace QNXStuff.QXDns

open Execution LinkedList

/-- The queries that have been sent to a server and have neither been answered nor expired. -/
def awaiting (queries : List BufRef) (events : List Event) : List BufRef :=
  events.foldl after queries
where
  after (queries : List BufRef) : Event → List BufRef
    | .forwarded query _ _ _ => queries.insert query
    | .left query .answered => queries.erase query
    | .left query .expired => queries.erase query
    | _ => queries

/-- The query a worker has sent, or taken back from the queue to send it again, and not yet
put into the queue. -/
def Worker.unqueued : Worker → List BufRef
  | .send request (some _) true _ => [request]
  | .queue request => [request]
  | _ => []

/-- The query that a response asks for is in the hands of no worker. -/
def InQueue (server : Server) (response : BufRef) : Prop :=
  ∀ thread, ∀ query ∈ (server.workers thread).unqueued,
    (server.buffer query).refID ≠ (server.buffer response).pkt.id

/-- No two queries of the queue have the ID of the response. -/
def SingleID (server : Server) (response : BufRef) : Prop :=
  ∀ query query', Reachable server.lists.links.next server.lists.links.head query →
    Reachable server.lists.links.next server.lists.links.head query' →
    (server.buffer query).refID = (server.buffer response).pkt.id →
    (server.buffer query').refID = (server.buffer response).pkt.id → query = query'

/-- A worker looks for the query of a response only when it can be in one place. -/
def SearchesClear (server : Server) (action : Action) : Prop :=
  match action with
  | .worker thread _ =>
    match server.workers thread with
    | .handler response => (server.buffer response).pkt.opt &&& dnsOptQR ≠ 0 →
        InQueue server response ∧ SingleID server response
    | _ => True
  | _ => True

/-- A step that neither puts a query back in front of others nor looks for one too early. -/
def Orderly (server : Server) (label : Action × List Event) : Prop :=
  LastRetried server label ∧ SearchesClear server label.1

/-- What becomes of a response whose query is found: it is sent to the client, or the query
goes to its next server. -/
def Served (server next : Server) (thread : Nat) (response query : BufRef) (events : List Event) :
    Prop :=
  (events = [.left query .answered] ∧ next.workers thread =
    .send response (some query) false (some (server.buffer query).client)) ∨
  (events = [.left query .retried] ∧ ∃ asked following further,
    (server.buffer query).qserver = asked :: following :: further ∧
    next.workers thread = .send query (some response) true (some following))

/-- Every query that is waited for is in the queue or in the hands of a worker. -/
structure Covered (server : Server) (queue queries : List BufRef) : Prop where
  nodup : queries.Nodup
  placed : ∀ query ∈ queries, query ∈ queue ∨ ∃ thread, query ∈ (server.workers thread).unqueued

section Steps

variable {server next : Server} {queue ready queries : List BufRef} {thread : Nat}

/-- A step of one worker that takes no query out of its hands. -/
theorem Covered.step (covered : Covered server queue queries) {worker : Worker}
    {queue' queries' : List BufRef}
    (workers : next.workers = Function.update server.workers thread worker)
    (nodup : queries'.Nodup)
    (placed : ∀ query ∈ queries', query ∈ queries ∨ query ∈ queue' ∨ query ∈ worker.unqueued)
    (kept : ∀ query ∈ queries', query ∈ queue → query ∈ queue' ∨ query ∈ worker.unqueued)
    (handed : ∀ query ∈ (server.workers thread).unqueued,
      query ∈ queue' ∨ query ∈ worker.unqueued) : Covered next queue' queries' := by
  have own : ∀ {query}, query ∈ worker.unqueued → ∃ other, query ∈ (next.workers other).unqueued := by
    intro query member
    refine ⟨thread, ?_⟩
    rw [workers, Function.update_self]
    exact member
  refine ⟨nodup, fun query member => ?_⟩
  rcases placed query member with earlier | queued | unqueued
  · rcases covered.placed query earlier with queued | ⟨other, unqueued⟩
    · exact (kept query member queued).imp_right own
    · by_cases here : other = thread
      · subst here
        exact (handed query unqueued).imp_right own
      · refine .inr ⟨other, ?_⟩
        rw [workers, Function.update_of_ne here]
        exact unqueued
  · exact .inl queued
  · exact .inr (own unqueued)

/-- A step of a worker that has no query in its hands and gets none. -/
theorem Covered.stay (covered : Covered server queue queries) {worker : Worker}
    (workers : next.workers = Function.update server.workers thread worker)
    (handed : ∀ query ∈ (server.workers thread).unqueued, query ∈ worker.unqueued) :
    Covered next queue queries :=
  covered.step workers covered.nodup (fun _ member => .inl member) (fun _ _ queued => .inl queued)
    fun query member => .inr (handed query member)

/-- A step of the main loop that leaves the queue alone. -/
theorem Covered.pass (covered : Covered server queue queries)
    (workers : next.workers = server.workers) : Covered next queue queries := by
  refine ⟨covered.nodup, fun query member => ?_⟩
  rw [workers]
  exact covered.placed query member

theorem awaiting_append (queries : List BufRef) (events events' : List Event) :
    awaiting queries (events ++ events') = awaiting (awaiting queries events) events' :=
  List.foldl_append

/-- The expiry pass gives up only queries it takes out of the queue. -/
theorem Covered.expirePass (covered : Covered server queue queries) (inv : Inv server queue ready)
    (here : server.main = .expire) {turns : Nat} {final : Server} {events : List Event}
    (pass : expirePass turns server server.lists.links.head = .ok (final, events)) :
    Covered final (outstanding queue events) (awaiting queries events) := by
  refine (passing_rule (motive := fun server past =>
    Covered server (outstanding queue past) (awaiting queries past)) ?_ ?_ (inv.passing here)
    covered pass).2
  · intro server tmpQ past asked next further passing covered _
    rw [outstanding_append, awaiting_append]
    refine ⟨covered.nodup.insert, fun query member => ?_⟩
    rcases List.mem_insert_iff.mp member with rfl | earlier
    · exact .inl passing.mem
    · exact covered.placed query earlier
  · intro server tmpQ past passing covered
    rw [outstanding_append, awaiting_append]
    refine ⟨covered.nodup.erase tmpQ, fun query member => ?_⟩
    have remains := (covered.nodup.mem_erase_iff).mp member
    refine (covered.placed query remains.2).imp_left fun queued => ?_
    exact (List.mem_erase_of_ne remains.1).mpr queued

theorem Covered.move (covered : Covered server queue queries) (inv : Inv server queue ready)
    {action : Action} {events : List Event} (move : Move server action events next) :
    Covered next (outstanding queue events) (awaiting queries events) := by
  cases move with
  | take here _ => exact covered.stay rfl (by simp [here, Worker.unqueued])
  | lose here _ _ => exact covered.stay rfl (by simp [here, Worker.unqueued])
  | @answer _ _ request query here _ _ =>
    refine covered.step rfl (covered.nodup.erase query) (fun other member => ?_)
      (fun other member queued => ?_) (by simp [here, Worker.unqueued])
    · exact .inl ((covered.nodup.mem_erase_iff).mp member).2
    · exact .inl ((List.mem_erase_of_ne ((covered.nodup.mem_erase_iff).mp member).1).mpr queued)
  | @retry _ _ request query asked next further here _ _ _ _ =>
    refine covered.step rfl covered.nodup (fun other member => .inl member)
      (fun other member queued => ?_) (by simp [here, Worker.unqueued])
    by_cases same : other = query
    · exact .inr (by simp [same, Worker.unqueued])
    · exact .inl ((List.mem_erase_of_ne same).mpr queued)
  | reply _ _ here _ _ => exact covered.stay rfl (by simp [here, Worker.unqueued])
  | accept here _ _ => exact covered.stay rfl (by simp [here, Worker.unqueued])
  | number here => exact covered.stay rfl (by simp [here, Worker.unqueued])
  | @send _ _ request tmpQ saveRq dest here =>
    cases saveRq with
    | false =>
      have silent : ∀ dest, outstanding queue ((Option.map
          (sendto server request tmpQ false) dest).toList) = queue ∧
          awaiting queries ((Option.map (sendto server request tmpQ false) dest).toList) =
            queries := by
        intro dest
        cases dest with
        | none => exact ⟨rfl, rfl⟩
        | some dest => cases tmpQ <;> exact ⟨rfl, rfl⟩
      simp only [sendAndFree]
      rw [(silent dest).1, (silent dest).2]
      exact covered.stay rfl (by simp [here, Worker.unqueued])
    | true =>
      cases dest with
      | none =>
        refine covered.stay rfl ?_
        cases tmpQ <;> simp [here, Worker.unqueued]
      | some dest =>
        refine covered.step rfl covered.nodup.insert (fun other member => ?_)
          (fun other _ queued => .inl queued) ?_
        · rcases List.mem_insert_iff.mp member with rfl | earlier
          · exact .inr (.inr (by simp [Worker.unqueued]))
          · exact .inl earlier
        · cases tmpQ <;> simp [here, Worker.unqueued]
  | @enqueue _ _ request here =>
    refine covered.step rfl covered.nodup (fun other member => .inl member)
      (fun other _ queued => .inl (List.mem_append_left _ queued)) ?_
    intro other member
    rw [here] at member
    exact .inl (List.mem_append_right queue member)
  | @select ready here => cases ready <;> exact covered.pass rfl
  | @scan fds tmpConn here =>
    refine covered.pass ?_
    cases tmpConn with
    | nil => rfl
    | cons conn rest =>
      simp only [scanStep]
      split
      · simp only [takeBuffer]
        split <;> rfl
      · rfl
  | @receive message fds conn rest tmpQ here =>
    have silent : awaiting queries (receiveStep server fds conn rest tmpQ message).2 =
        queries := by
      simp only [receiveStep]
      split <;> rfl
    rw [receiveStep_outstanding, silent]
    exact covered.pass rfl
  | giveBack here => exact covered.pass rfl
  | ready here => exact covered.pass rfl
  | expire here pass => exact (covered.expirePass inv here pass).pass rfl
  | tick => exact covered.pass rfl

end Steps

section Runs

variable {start server next : Server} {labels : List (Action × List Event)} {thread : Nat}
  {lookup : Option Answer} {response query : BufRef} {events : List Event}

/-- In a run, the queries that are waited for are in the queue or in the hands of a worker. -/
theorem run_covered (started : start.Started)
    (run : Run (Under Step Orderly) start labels server) :
    Inv server (queueOf labels) (unread [] (eventsOf labels)) ∧
      Covered server (queueOf labels) (awaiting [] (eventsOf labels)) := by
  refine run_rule (motive := fun server past =>
    Covered server (outstanding [] past) (awaiting [] past)) (fun _ _ orderly => orderly.1) ?_
    started ⟨List.nodup_nil, nofun⟩ run
  intro server action events next past inv covered _ move
  rw [outstanding_append, awaiting_append]
  exact covered.move inv move

/-- In every run in which responses are looked up only while their query is in the queue,
under an ID of its own, every response to a query that is waited for finds it: it is relayed
to the client, or the query goes to the next server. -/
theorem response_finds_query (started : start.Started)
    (run : Run (Under Step Orderly) start labels server)
    (step : Under Step Orderly server (.worker thread lookup, events) next)
    (here : server.workers thread = .handler response)
    (isResponse : (server.buffer response).pkt.opt &&& dnsOptQR ≠ 0)
    (awaited : query ∈ awaiting [] (eventsOf labels))
    (same : (server.buffer query).refID = (server.buffer response).pkt.id) :
    Served server next thread response query events := by
  obtain ⟨inv, covered⟩ := run_covered started run
  have clear := step.2.2
  simp only [SearchesClear, here] at clear
  obtain ⟨inQueue, single⟩ := clear isResponse
  have queued : query ∈ queueOf labels := by
    rcases covered.placed query awaited with queued | ⟨other, unqueued⟩
    · exact queued
    · exact absurd same (inQueue other query unqueued)
  have forward := inv.represents.forward
  -- the search ends at the only query with the ID
  have search : findQuery server response = some (some query) := by
    rw [inv.findQuery_eq]
    cases found : (queueOf labels).find? fun ref =>
        (server.buffer ref).refID = (server.buffer response).pkt.id with
    | none => exact absurd (decide_eq_true same) (List.find?_eq_none.mp found query queued)
    | some other =>
      have fits : (server.buffer other).refID = (server.buffer response).pkt.id := by
        simpa using List.find?_some found
      have member := List.mem_of_find?_eq_some found
      rw [single other query (forward.reachable_iff.mpr member)
        (forward.reachable_iff.mpr queued) fits same]
  have move := step_moves step.1
  cases move with
  | take busy _ =>
    cases here.symm.trans busy
  | lose busy _ lost =>
    cases here.symm.trans busy
    rw [search] at lost
    cases lost
  | answer busy _ found =>
    cases here.symm.trans busy
    rw [search] at found
    cases found
    exact .inl ⟨rfl, Function.update_self ..⟩
  | retry busy _ found _ servers =>
    cases here.symm.trans busy
    rw [search] at found
    cases found
    exact .inr ⟨rfl, _, _, _, servers, Function.update_self ..⟩
  | reply _ _ busy isQuery _ =>
    cases here.symm.trans busy
    exact absurd isQuery isResponse
  | accept busy isQuery _ =>
    cases here.symm.trans busy
    exact absurd isQuery isResponse
  | number busy =>
    cases here.symm.trans busy
  | send busy =>
    cases here.symm.trans busy
  | enqueue busy =>
    cases here.symm.trans busy

end Runs

section Alone

variable {server next final : Server} {action : Action} {events : List Event} {thread : Nat}

/-- A step leaves the other workers alone. -/
theorem Move.workers_other (move : Move server action events next)
    (other : ∀ lookup, action ≠ .worker thread lookup) :
    next.workers thread = server.workers thread := by
  have apart : ∀ {actor lookup}, action = .worker actor lookup → thread ≠ actor := by
    rintro actor lookup rfl rfl
    exact other lookup rfl
  cases move with
  | @select ready here => cases ready <;> rfl
  | @scan fds tmpConn here =>
    cases tmpConn with
    | nil => rfl
    | cons conn rest =>
      simp only [scanStep]
      split
      · simp only [takeBuffer]
        split <;> rfl
      · rfl
  | receive here => rfl
  | giveBack here => rfl
  | ready here => rfl
  | @expire turns _ final here pass =>
    show final.workers thread = server.workers thread
    exact @expirePass_rule (fun now _ _ => now.workers thread = server.workers thread)
      (fun _ _ _ _ _ _ kept _ _ => kept) (fun _ _ _ _ kept _ _ => kept)
      (fun _ _ _ kept _ => kept) turns server final _ [] events rfl pass
  | tick => rfl
  | _ => exact Function.update_of_ne (apart rfl) ..

/-- The label of a step that is not a worker's, but the first one's. -/
def OnlyFirst (label : Action × List Event) : Bool :=
  match label.1 with
  | .worker thread _ => thread == 0
  | _ => true

theorem run_workers_other {labels : List (Action × List Event)} (run : Run Step server labels final)
    (alone : labels.all OnlyFirst = true) (other : thread ≠ 0) :
    final.workers thread = server.workers thread := by
  induction run with
  | nil => rfl
  | @cons server label next labels final first rest ih =>
    rw [List.all_cons, Bool.and_eq_true] at alone
    rw [ih alone.2]
    refine (step_moves first).workers_other fun lookup same => ?_
    have first := alone.1
    rw [OnlyFirst, same] at first
    exact other (beq_iff_eq.mp first)

end Alone

/-- A step that looks for no query. -/
def NoSearch (server : Server) (action : Action) : Prop :=
  match action with
  | .worker thread _ =>
    match server.workers thread with
    | .handler request => (server.buffer request).pkt.opt &&& dnsOptQR = 0
    | _ => True
  | _ => True

instance (server : Server) (action : Action) : Decidable (NoSearch server action) :=
  match action with
  | .worker thread _ =>
    match here : server.workers thread with
    | .handler request =>
      decidable_of_iff ((server.buffer request).pkt.opt &&& dnsOptQR = 0)
        (by simp only [NoSearch, here])
    | .block => .isTrue (by simp only [NoSearch, here])
    | .number _ => .isTrue (by simp only [NoSearch, here])
    | .send .. => .isTrue (by simp only [NoSearch, here])
    | .queue _ => .isTrue (by simp only [NoSearch, here])
  | .select _ => .isTrue trivial
  | .recvfrom _ => .isTrue trivial
  | .main => .isTrue trivial
  | .expire _ => .isTrue trivial
  | .tick _ => .isTrue trivial

theorem NoSearch.orderly {server : Server} {label : Action × List Event}
    (quiet : NoSearch server label.1) : Orderly server label := by
  obtain ⟨action, events⟩ := label
  cases action with
  | worker thread lookup =>
    simp only [NoSearch] at quiet
    constructor
    · simp only [LastRetried, RetriesLast]
      split
      · split
        · rename_i here _ _ _
          rw [here] at quiet
          exact fun retries => absurd quiet retries.1
        · trivial
      · trivial
    · simp only [SearchesClear]
      split
      · rename_i here
        rw [here] at quiet
        exact fun isResponse => absurd quiet isResponse
      · trivial
  | _ => exact ⟨trivial, trivial⟩

/-- One worker forwards a query and then handles its response. -/
theorem response_finds_its_query : ∃ labels server next,
    Run (Under Step Orderly) (twoServers 4) labels server ∧
      Under Step Orderly server (.worker 0 none, [.left 3 .answered]) next ∧
      Served server next 0 2 3 [.left 3 .answered] := by
  obtain ⟨labels, server, run, seen⟩ := replay_reaches
    (guarded Server.handle NoSearch) (twoServers 4)
    (receives 0 3 2 (question 11 [1]) ++ works 0 5 ++
      receives 1 4 1 (response 1 1 0 [1]) ++ works 0 1)
    (fun server labels => decide (labels.all OnlyFirst = true ∧
      server.workers 0 = .handler 2 ∧ queueOf labels = [3] ∧
      awaiting [] (eventsOf labels) = [3] ∧ (server.buffer 3).refID = 1 ∧
      (server.buffer 2).pkt = ⟨1, 0x80, 0x0100, [1]⟩ ∧
      ((server.handle (.worker 0 none)).map Prod.snd).toOption = some [.left 3 .answered]))
    true (by decide +kernel)
  obtain ⟨alone, here, queue, awaited, refID, pkt, done⟩ := of_decide_eq_true seen
  obtain ⟨next, step⟩ := handle_answers.mp done
  have run := run_guarded run
  have plain := run.mono fun _ _ _ step => step.1
  have run : Run (Under Step Orderly) _ _ _ :=
    run.mono fun _ _ _ step => ⟨step.1, NoSearch.orderly step.2⟩
  have isResponse : (server.buffer 2).pkt.opt &&& dnsOptQR ≠ 0 := by
    rw [pkt]
    decide
  have orderly : Orderly server (.worker 0 none, [.left 3 .answered]) := by
    constructor
    · simp only [LastRetried, RetriesLast, here]
      split
      · rintro ⟨-, failed, -⟩
        rw [pkt] at failed
        exact absurd failed (by decide)
      · trivial
    · simp only [SearchesClear, here]
      refine fun _ => ⟨fun thread query member => ?_, fun query query' first second _ _ => ?_⟩
      · by_cases zero : thread = 0
        · rw [zero, here] at member
          cases member
        · rw [run_workers_other plain alone zero] at member
          cases member
      · have forward := (run_covered (twoServers_started 4) run).1.represents.forward
        rw [queue] at forward
        have first := List.mem_singleton.mp (forward.reachable_iff.mp first)
        exact first.trans (List.mem_singleton.mp (forward.reachable_iff.mp second)).symm
  refine ⟨labels, server, next, run, ⟨step, orderly⟩, ?_⟩
  exact response_finds_query (twoServers_started 4) run ⟨step, orderly⟩ here isResponse
    (by simp [awaited]) (by rw [refID, pkt])

/-- A worker has sent a query and not yet put it into the queue, and another worker handles
the response. -/
theorem early_response_is_lost : ∃ labels server next pkt datalen,
    (twoServers 4).Started ∧ Run Step (twoServers 4) labels server ∧
      .forwarded 3 ⟨4, 1⟩ pkt datalen ∈ eventsOf labels ∧ (server.buffer 2).client = ⟨4, 1⟩ ∧
      (server.buffer 3).refID = (server.buffer 2).pkt.id ∧ 3 ∈ awaiting [] (eventsOf labels) ∧
      Step server (.worker 1 none, [.lost 2]) next := by
  obtain ⟨labels, server, run, seen⟩ := replay_reaches Server.handle
    (twoServers 4)
    (receives 0 3 2 (question 11 [1]) ++ works 0 4 ++
      receives 1 4 1 (response 1 1 0 [1]) ++ works 1 1)
    (fun server labels => decide (
      Event.forwarded 3 ⟨4, 1⟩ ⟨1, 0, 0x0100, [1]⟩ 30 ∈ eventsOf labels ∧
      (server.buffer 2).client = ⟨4, 1⟩ ∧ (server.buffer 3).refID = (server.buffer 2).pkt.id ∧
      awaiting [] (eventsOf labels) = [3] ∧
      ((server.handle (.worker 1 none)).map Prod.snd).toOption = some [.lost 2]))
    true (by decide +kernel)
  obtain ⟨forwarded, client, same, awaited, done⟩ := of_decide_eq_true seen
  obtain ⟨next, step⟩ := handle_answers.mp done
  exact ⟨labels, server, next, _, _, twoServers_started 4, run, forwarded, client, same,
    by simp [awaited], step⟩

end QNXStuff.QXDns
