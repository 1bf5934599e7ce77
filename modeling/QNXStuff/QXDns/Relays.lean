import QNXStuff.QXDns.Queue

/-! Where the answers come from: what every buffer was last filled with, and what a client is
sent as the answer to a query that was forwarded. -/

namespace QNXStuff.QXDns

open Execution LinkedList

/-- The message that last filled a buffer, the connector it came on, and the events since. -/
structure Story where
  conn : Connector
  message : Datagram
  after : List Event

def tell (ref : BufRef) (story : Option Story) (event : Event) : Option Story :=
  match event with
  | .received other conn message =>
    if other = ref then some { conn := conn, message := message, after := [] }
    else story.map fun story => { story with after := story.after ++ [event] }
  | _ => story.map fun story => { story with after := story.after ++ [event] }

/-- The story of a buffer after the events of a run. -/
def storyOf (ref : BufRef) (events : List Event) : Option Story := events.foldl (tell ref) none

/-- The event fills the buffer, or answers the query in it. -/
def Event.Touches (ref : BufRef) : Event → Prop
  | .received other _ _ => other = ref
  | .relayed _ query _ _ _ => query = ref
  | _ => False

/-- The events neither fill the buffer nor answer the query in it. -/
def Quiet (ref : BufRef) (events : List Event) : Prop := ∀ event ∈ events, ¬ event.Touches ref

theorem quiet_nil (ref : BufRef) : Quiet ref [] := List.forall_mem_nil _

theorem storyOf_append {ref : BufRef} {past events : List Event} {story : Story}
    (told : storyOf ref past = some story) (quiet : Quiet ref events) :
    storyOf ref (past ++ events) = some { story with after := story.after ++ events } := by
  rw [storyOf, List.foldl_append, ← storyOf, told]
  induction events generalizing story past with
  | nil => simp
  | cons event rest ih =>
    have next : tell ref (some story) event =
        some { story with after := story.after ++ [event] } := by
      cases event with
      | received other conn message =>
        have apart : other ≠ ref := quiet _ List.mem_cons_self
        simp [tell, apart]
      | _ => rfl
    have later := @ih (past ++ [event]) _
      (by rw [storyOf, List.foldl_append, ← storyOf, told, List.foldl_cons, next]; rfl)
      (fun other member => quiet other (List.mem_cons_of_mem event member))
    rw [List.foldl_cons, next, later]
    simp

/-- Nobody has been sent an answer to what the buffer was filled with. -/
def Unanswered (ref : BufRef) (story : Story) : Prop :=
  ∀ response dest pkt datalen, .relayed response ref dest pkt datalen ∉ story.after

/-- A buffer holds the message it was filled with. -/
structure Filled (ref : BufRef) (buffer : Buffer) (story : Story) : Prop where
  unanswered : Unanswered ref story
  client : buffer.client = ⟨story.conn.sock, story.message.sender⟩
  pkt : buffer.pkt = story.message.pkt
  datalen : buffer.datalen = story.message.datalen

/-- A buffer holds a query that was accepted and has not been answered. -/
structure Asks (ref : BufRef) (buffer : Buffer) (story : Story) : Prop where
  isQuery : story.message.pkt.opt &&& dnsOptQR = 0
  client : buffer.client = ⟨story.conn.sock, story.message.sender⟩
  srcID : buffer.srcID = story.message.pkt.id
  data : buffer.pkt.data = story.message.pkt.data
  servers : buffer.qserver ≠ []
  unanswered : Unanswered ref story

/-- The query has been sent to a server under the ID. -/
def SentUnder (ref : BufRef) (id : UInt16) (story : Story) : Prop :=
  ∃ dest pkt datalen, .forwarded ref dest pkt datalen ∈ story.after ∧ pkt.id = id ∧
    pkt.data = story.message.pkt.data

/-- A query that has got its number and been sent to a server. -/
structure Waits (ref : BufRef) (buffer : Buffer) (story : Story) : Prop where
  asks : Asks ref buffer story
  numbered : buffer.pkt.id = buffer.refID
  sent : SentUnder ref buffer.refID story

/-- A message for a client: a response under the ID of the client's query. -/
structure Relays (request query : BufRef) (response asking : Buffer) (dest : Connector)
    (answer asked : Story) : Prop where
  waits : Waits query asking asked
  isResponse : answer.message.pkt.opt &&& dnsOptQR ≠ 0
  pkt : response.pkt = { answer.message.pkt with id := asking.srcID }
  datalen : response.datalen = answer.message.datalen
  id : answer.message.pkt.id = asking.refID
  dest : dest = asking.client

/-- What a worker has in hand is what the story of its buffers says. -/
def Worker.Fits (server : Server) (past : List Event) : Worker → Prop
  | .block => True
  | .handler request =>
    ∃ story, storyOf request past = some story ∧ Filled request (server.buffer request) story
  | .number request =>
    server.srvrConnectors ≠ [] ∧
      ∃ story, storyOf request past = some story ∧ Asks request (server.buffer request) story
  | .send request _ true dest =>
    (server.buffer request).pkt.id = (server.buffer request).refID ∧
      ∃ story, storyOf request past = some story ∧ Asks request (server.buffer request) story ∧
        (SentUnder request (server.buffer request).refID story ∨ dest ≠ none)
  | .send request (some query) false dest =>
    ∃ answer asked target, storyOf request past = some answer ∧ storyOf query past = some asked ∧
      dest = some target ∧
      Relays request query (server.buffer request) (server.buffer query) target answer asked
  | .send _ none false _ => True
  | .queue request =>
    ∃ story, storyOf request past = some story ∧ Waits request (server.buffer request) story

def MainLoop.Fits (server : Server) (past : List Event) : MainLoop → Prop
  | .ready _ _ tmpQ => ∃ story, storyOf tmpQ past = some story ∧ Filled tmpQ (server.buffer tmpQ) story
  | _ => True

/-- The contents of all buffers fit their stories. -/
structure Fits (server : Server) (queue ready : List BufRef) (past : List Event) : Prop where
  queue : ∀ ref ∈ queue, ∃ story, storyOf ref past = some story ∧
    Waits ref (server.buffer ref) story
  ready : ∀ ref ∈ ready, ∃ story, storyOf ref past = some story ∧ Filled ref (server.buffer ref) story
  workers : ∀ thread, (server.workers thread).Fits server past
  main : server.main.Fits server past

section Later

variable {server next : Server} {past events : List Event} {ref : BufRef}

structure Alone (server next : Server) (events : List Event) (ref : BufRef) : Prop where
  buffer : next.buffer ref = server.buffer ref
  quiet : Quiet ref events

theorem Unanswered.later {story : Story} (unanswered : Unanswered ref story)
    (quiet : Quiet ref events) :
    Unanswered ref { story with after := story.after ++ events } := by
  intro response dest pkt datalen member
  rcases List.mem_append.mp member with earlier | now
  · exact unanswered response dest pkt datalen earlier
  · exact quiet _ now rfl

theorem Filled.later (alone : Alone server next events ref)
    (fits : ∃ story, storyOf ref past = some story ∧ Filled ref (server.buffer ref) story) :
    ∃ story, storyOf ref (past ++ events) = some story ∧ Filled ref (next.buffer ref) story := by
  obtain ⟨story, told, filled⟩ := fits
  refine ⟨_, storyOf_append told alone.quiet, ?_⟩
  rw [alone.buffer]
  exact ⟨filled.unanswered.later alone.quiet, filled.client, filled.pkt, filled.datalen⟩

theorem Asks.later {buffer : Buffer} {story : Story} (asks : Asks ref buffer story)
    (quiet : Quiet ref events) :
    Asks ref buffer { story with after := story.after ++ events } where
  isQuery := asks.isQuery
  client := asks.client
  srcID := asks.srcID
  data := asks.data
  servers := asks.servers
  unanswered := asks.unanswered.later quiet

theorem SentUnder.later {id : UInt16} {story : Story} (sent : SentUnder ref id story) :
    SentUnder ref id { story with after := story.after ++ events } := by
  obtain ⟨dest, pkt, datalen, member, rest⟩ := sent
  exact ⟨dest, pkt, datalen, List.mem_append_left events member, rest⟩

theorem Waits.later (alone : Alone server next events ref)
    (fits : ∃ story, storyOf ref past = some story ∧ Waits ref (server.buffer ref) story) :
    ∃ story, storyOf ref (past ++ events) = some story ∧ Waits ref (next.buffer ref) story := by
  obtain ⟨story, told, waits⟩ := fits
  refine ⟨_, storyOf_append told alone.quiet, ?_⟩
  rw [alone.buffer]
  exact ⟨waits.asks.later alone.quiet, waits.numbered, waits.sent.later⟩

/-- A worker whose buffers are left alone. -/
theorem Worker.Fits.later {worker : Worker} (fits : worker.Fits server past)
    (alone : ∀ ref, ref ∈ worker.held ∨ ref ∈ worker.pending → Alone server next events ref)
    (servers : next.srvrConnectors = server.srvrConnectors) :
    worker.Fits next (past ++ events) := by
  cases worker with
  | block => trivial
  | handler request => exact Filled.later (alone request (.inl List.mem_cons_self)) fits
  | number request =>
    obtain ⟨known, story, told, asks⟩ := fits
    have kept := alone request (.inr List.mem_cons_self)
    refine ⟨servers ▸ known, _, storyOf_append told kept.quiet, ?_⟩
    rw [kept.buffer]
    exact asks.later kept.quiet
  | queue request => exact Waits.later (alone request (.inr List.mem_cons_self)) fits
  | send request tmpQ saveRq dest =>
    cases saveRq with
    | true =>
      obtain ⟨numbered, story, told, asks, sent⟩ := fits
      have kept := alone request (.inr List.mem_cons_self)
      have fits : (server.buffer request).pkt.id = (server.buffer request).refID ∧
          ∃ story, storyOf request (past ++ events) = some story ∧
            Asks request (server.buffer request) story ∧
            (SentUnder request (server.buffer request).refID story ∨ dest ≠ none) :=
        ⟨numbered, _, storyOf_append told kept.quiet, asks.later kept.quiet,
          sent.imp_left SentUnder.later⟩
      rw [← kept.buffer] at fits
      exact fits
    | false =>
      cases tmpQ with
      | none => trivial
      | some query =>
        obtain ⟨answer, asked, target, told, told', same, relays⟩ := fits
        have first := alone request (.inl List.mem_cons_self)
        have second := alone query (.inl (List.mem_cons_of_mem _ List.mem_cons_self))
        refine ⟨_, _, target, storyOf_append told first.quiet, storyOf_append told' second.quiet,
          same, ?_⟩
        rw [first.buffer, second.buffer]
        exact ⟨⟨relays.waits.asks.later second.quiet, relays.waits.numbered,
          relays.waits.sent.later⟩, relays.isResponse, relays.pkt, relays.datalen, relays.id,
          relays.dest⟩

theorem MainLoop.Fits.later {main : MainLoop} (fits : main.Fits server past)
    (alone : ∀ ref ∈ main.held, Alone server next events ref) :
    main.Fits next (past ++ events) := by
  cases main with
  | ready fds rest tmpQ => exact Filled.later (alone tmpQ List.mem_cons_self) fits
  | _ => trivial

end Later

section Steps

variable {server next : Server} {queue queue' ready ready' : List BufRef} {past events : List Event}
  {thread : Nat} {request query : BufRef}

/-- The buffers outside of the free list, by the place they are in. -/
def places (server : Server) (queue ready : List BufRef) : Owner → List BufRef :=
  regionsOf server.workers server.main.held queue fun
    | .freeBuf => []
    | .readyBuf => ready

theorem Inv.single (inv : Inv server queue ready) (owner other : Owner) {ref : BufRef}
    (member : ref ∈ places server queue ready owner)
    (member' : ref ∈ places server queue ready other) : owner = other := by
  obtain ⟨stackRefs, sound, rfl⟩ := inv
  have known : ∀ owner, ref ∈ places server queue (stackRefs .readyBuf) owner →
      ref ∈ regionsOf server.workers server.main.held queue stackRefs owner := by
    intro owner here
    cases owner with
    | stack stack =>
      cases stack with
      | freeBuf => cases here
      | readyBuf => exact here
    | _ => exact here
  exact sound.separate.single (known owner member) (known other member')

/-- A step of a worker that touches only buffers in its hands, or one of the queue. -/
theorem Fits.worker_step (fits : Fits server queue ready past) (inv : Inv server queue ready)
    {worker : Worker} (touched : List BufRef)
    (workers : next.workers = Function.update server.workers thread worker)
    (main : next.main = server.main) (servers : next.srvrConnectors = server.srvrConnectors)
    (own : ∀ ref ∈ touched, ref ∈ (server.workers thread).held ∨
      ref ∈ (server.workers thread).pending ∨ ref ∈ queue)
    (alone : ∀ ref, ref ∉ touched → Alone server next events ref)
    (queueFits : ∀ ref ∈ queue', (ref ∈ queue ∧ ref ∉ touched) ∨
      ∃ story, storyOf ref (past ++ events) = some story ∧ Waits ref (next.buffer ref) story)
    (readyKept : ∀ ref ∈ ready', ref ∈ ready)
    (ownFits : worker.Fits next (past ++ events)) : Fits next queue' ready' (past ++ events) := by
  -- a buffer in another place is not touched
  have untouched : ∀ owner ref, ref ∈ places server queue ready owner → owner ≠ .worker thread →
      owner ≠ .pending thread → owner ≠ .queue → ref ∉ touched := by
    intro owner ref member notWorker notPending notQueue there
    rcases own ref there with held | pending | queued
    · exact notWorker (inv.single owner (.worker thread) member held)
    · exact notPending (inv.single owner (.pending thread) member pending)
    · exact notQueue (inv.single owner .queue member queued)
  refine ⟨fun ref member => ?_, fun ref member => ?_, fun other => ?_, ?_⟩
  · rcases queueFits ref member with ⟨queued, outside⟩ | waits
    · exact Waits.later (alone ref outside) (fits.queue ref queued)
    · exact waits
  · have filled := readyKept ref member
    exact Filled.later (alone ref (untouched (.stack .readyBuf) ref filled nofun nofun nofun))
      (fits.ready ref filled)
  · rw [workers]
    by_cases here : other = thread
    · subst here
      rw [Function.update_self]
      exact ownFits
    · rw [Function.update_of_ne here]
      refine (fits.workers other).later (fun ref member => alone ref ?_) servers
      have elsewhere : Owner.worker other ≠ .worker thread ∧
          Owner.pending other ≠ .pending thread := by simpa using here
      rcases member with held | pending
      · exact untouched (.worker other) ref held elsewhere.1 nofun nofun
      · exact untouched (.pending other) ref pending nofun elsewhere.2 nofun
  · rw [main]
    exact fits.main.later fun ref member =>
      alone ref (untouched .main ref member nofun nofun nofun)

/-- A step of the main loop that touches only the buffer in its hands, or one of the queue. -/
theorem Fits.main_step (fits : Fits server queue ready past) (inv : Inv server queue ready)
    (touched : List BufRef) (workers : next.workers = server.workers)
    (servers : next.srvrConnectors = server.srvrConnectors)
    (own : ∀ ref ∈ touched, ref ∈ server.main.held ∨ ref ∈ queue)
    (alone : ∀ ref, ref ∉ touched → Alone server next events ref)
    (queueFits : ∀ ref ∈ queue', (ref ∈ queue ∧ ref ∉ touched) ∨
      ∃ story, storyOf ref (past ++ events) = some story ∧ Waits ref (next.buffer ref) story)
    (readyFits : ∀ ref ∈ ready', ref ∈ ready ∨
      ∃ story, storyOf ref (past ++ events) = some story ∧ Filled ref (next.buffer ref) story)
    (ownFits : next.main.Fits next (past ++ events)) :
    Fits next queue' ready' (past ++ events) := by
  have untouched : ∀ owner ref, ref ∈ places server queue ready owner → owner ≠ .main →
      owner ≠ .queue → ref ∉ touched := by
    intro owner ref member notMain notQueue there
    rcases own ref there with held | queued
    · exact notMain (inv.single owner .main member held)
    · exact notQueue (inv.single owner .queue member queued)
  refine ⟨fun ref member => ?_, fun ref member => ?_, fun thread => ?_, ownFits⟩
  · rcases queueFits ref member with ⟨queued, outside⟩ | waits
    · exact Waits.later (alone ref outside) (fits.queue ref queued)
    · exact waits
  · rcases readyFits ref member with filled | filled
    · exact Filled.later (alone ref (untouched (.stack .readyBuf) ref filled nofun nofun))
        (fits.ready ref filled)
    · exact filled
  · rw [workers]
    refine (fits.workers thread).later (fun ref member => alone ref ?_) servers
    rcases member with held | pending
    · exact untouched (.worker thread) ref held nofun nofun
    · exact untouched (.pending thread) ref pending nofun nofun

/-- A buffer that is not written, in a step that is silent about it. -/
theorem alone_of_ne {ref other : BufRef} {buffer : Buffer} (apart : ref ≠ other)
    (quiet : Quiet ref events) (written : next.buffer = Function.update server.buffer other buffer) :
    Alone server next events ref := by
  refine ⟨?_, quiet⟩
  rw [written]
  exact Function.update_of_ne apart ..

theorem Fits.answer (fits : Fits server queue ready past) (inv : Inv server queue ready)
    (here : server.workers thread = .handler request)
    (isResponse : (server.buffer request).pkt.opt &&& dnsOptQR ≠ 0)
    (search : findQuery server request = some (some query)) :
    Fits (answerClient { server with lists := server.lists.unlinkQuery query } thread request query)
      (queue.erase query) ready (past ++ [.left query .answered]) := by
  have member := inv.mem_of_found search
  have held : request ∈ places server queue ready (.worker thread) := by
    simp [places, regionsOf, here, Worker.held]
  have apart : ∀ ref ∈ queue, ref ≠ request := by
    rintro ref queued rfl
    cases inv.single .queue (.worker thread) queued held
  have quiet : ∀ ref, Quiet ref [.left query .answered] := by simp [Quiet, Event.Touches]
  have alone : ∀ ref, ref ∉ [request] → Alone server (answerClient
      { server with lists := server.lists.unlinkQuery query } thread request query)
      [.left query .answered] ref := fun ref outside =>
    alone_of_ne (List.ne_of_not_mem_cons outside) (quiet ref) rfl
  have same : (server.buffer query).refID = (server.buffer request).pkt.id := by
    rw [inv.findQuery_eq] at search
    simpa using List.find?_some (Option.some.inj search)
  refine fits.worker_step inv [request] rfl rfl rfl (by simp [here, Worker.held]) alone
    (fun ref queued => .inl ⟨List.mem_of_mem_erase queued, ?_⟩) (fun _ filled => filled) ?_
  · simpa using apart ref (List.mem_of_mem_erase queued)
  · have filled := fits.workers thread
    rw [here] at filled
    obtain ⟨answer, told, filled⟩ := filled
    obtain ⟨asked, told', waits⟩ := Waits.later (alone query (by simpa using apart query member))
      (fits.queue query member)
    refine ⟨_, asked, (server.buffer query).client, storyOf_append told (quiet request), told', rfl,
      waits, ?_, ?_, ?_, ?_, ?_⟩
    · rw [← filled.pkt]
      exact isResponse
    · simp [answerClient, Server.setWorker, Server.setBuffer, Function.update_of_ne (apart query member),
        filled.pkt]
    · simpa [answerClient, Server.setWorker, Server.setBuffer] using filled.datalen
    · simpa [answerClient, Server.setWorker, Server.setBuffer, Function.update_of_ne (apart query member),
        filled.pkt] using same.symm
    · simp [answerClient, Server.setWorker, Server.setBuffer, Function.update_of_ne (apart query member)]

theorem Fits.retry (fits : Fits server queue ready past) (inv : Inv server queue ready)
    (search : findQuery server request = some (some query)) (following : Connector)
    (further : List Connector) :
    Fits (retryQuery { server with lists := server.lists.unlinkQuery query } thread request query
      following further) (queue.erase query) ready (past ++ [.left query .retried]) := by
  have member := inv.mem_of_found search
  have quiet : ∀ ref, Quiet ref [.left query .retried] := by simp [Quiet, Event.Touches]
  refine fits.worker_step inv [query] rfl rfl rfl (by simp [member])
    (fun ref outside => alone_of_ne (List.ne_of_not_mem_cons outside) (quiet ref) rfl)
    (fun ref queued => .inl ⟨List.mem_of_mem_erase queued, ?_⟩) (fun _ filled => filled) ?_
  · rintro there
    cases List.mem_singleton.mp there
    exact ((inv.represents.nodup.mem_erase_iff).mp queued).1 rfl
  · obtain ⟨story, told, waits⟩ := fits.queue query member
    have asks := waits.asks.later (quiet query)
    refine ⟨?_, _, storyOf_append told (quiet query), ?_, .inl ?_⟩
    · simpa [retryQuery, Server.setWorker, Server.setBuffer] using waits.numbered
    · refine ⟨asks.isQuery, ?_, ?_, ?_, ?_, asks.unanswered⟩
      · simpa [retryQuery, Server.setWorker, Server.setBuffer, Buffer.client] using asks.client
      · simpa [retryQuery, Server.setWorker, Server.setBuffer] using asks.srcID
      · simpa [retryQuery, Server.setWorker, Server.setBuffer] using asks.data
      · simp [retryQuery, Server.setWorker, Server.setBuffer]
    · simpa [retryQuery, Server.setWorker, Server.setBuffer] using waits.sent.later

/-- A step of a worker that writes no buffer and answers nobody. -/
theorem Fits.silent (fits : Fits server queue ready past) (inv : Inv server queue ready)
    {worker : Worker} (buffer : next.buffer = server.buffer)
    (workers : next.workers = Function.update server.workers thread worker)
    (main : next.main = server.main) (servers : next.srvrConnectors = server.srvrConnectors)
    (quiet : ∀ ref, Quiet ref events) (readyKept : ∀ ref ∈ ready', ref ∈ ready)
    (queueFits : ∀ ref ∈ queue', ref ∈ queue ∨
      ∃ story, storyOf ref (past ++ events) = some story ∧ Waits ref (next.buffer ref) story)
    (ownFits : worker.Fits next (past ++ events)) : Fits next queue' ready' (past ++ events) :=
  fits.worker_step inv [] workers main servers (List.forall_mem_nil _)
    (fun ref _ => ⟨congrFun buffer ref, quiet ref⟩)
    (fun ref member => (queueFits ref member).imp_left fun queued => ⟨queued, List.not_mem_nil⟩)
    readyKept ownFits

theorem Fits.take (fits : Fits server queue ready past) (inv : Inv server queue ready)
    (lists : BufferLists) (member : request ∈ ready) :
    Fits ({ server with lists := lists }.setWorker thread (.handler request)) queue
      (ready.erase request) (past ++ [.taken request]) :=
  fits.silent inv rfl rfl rfl rfl (by simp [Quiet, Event.Touches])
    (fun _ filled => List.mem_of_mem_erase filled) (fun _ queued => .inl queued)
    (Filled.later ⟨rfl, by simp [Quiet, Event.Touches]⟩ (fits.ready request member))

theorem Fits.accept (fits : Fits server queue ready past) (inv : Inv server queue ready)
    (here : server.workers thread = .handler request)
    (isQuery : (server.buffer request).pkt.opt &&& dnsOptQR = 0) {first : Connector}
    {further : List Connector} (servers : server.srvrConnectors = first :: further)
    (lists : BufferLists) :
    Fits ({ server.setBuffer request { server.buffer request with
        srcID := (server.buffer request).pkt.id, qserver := first :: further } with
      lists := lists }.setWorker thread (.number request)) queue ready (past ++ []) := by
  have filled := fits.workers thread
  rw [here] at filled
  obtain ⟨story, told, filled⟩ := filled
  have held : request ∈ places server queue ready (.worker thread) := by
    simp [places, regionsOf, here, Worker.held]
  refine fits.worker_step inv [request] rfl rfl rfl (by simp [here, Worker.held])
    (fun ref outside => alone_of_ne (List.ne_of_not_mem_cons outside) (quiet_nil _) rfl)
    (fun ref queued => .inl ⟨queued, ?_⟩) (fun _ filled => filled) ?_
  · rintro there
    cases List.mem_singleton.mp there
    cases inv.single .queue (.worker thread) queued held
  · refine ⟨?_, _, storyOf_append told (quiet_nil _), ?_⟩
    · show server.srvrConnectors ≠ []
      simp [servers]
    · have written : (({ server.setBuffer request { server.buffer request with
            srcID := (server.buffer request).pkt.id, qserver := first :: further } with
          lists := lists }.setWorker thread (.number request)).buffer request) =
          { server.buffer request with
            srcID := (server.buffer request).pkt.id, qserver := first :: further } :=
        Function.update_self ..
      rw [written]
      exact ⟨by rw [← filled.pkt]; exact isQuery, filled.client, by rw [← filled.pkt],
        by rw [← filled.pkt], by simp, filled.unanswered.later (quiet_nil _)⟩

theorem Fits.number (fits : Fits server queue ready past) (inv : Inv server queue ready)
    (here : server.workers thread = .number request) :
    Fits (numberQuery server thread request) queue ready (past ++ []) := by
  have asking := fits.workers thread
  rw [here] at asking
  obtain ⟨known, story, told, asks⟩ := asking
  have pending : request ∈ places server queue ready (.pending thread) := by
    simp [places, regionsOf, here, Worker.pending]
  refine fits.worker_step inv [request] rfl rfl rfl (by simp [here, Worker.pending])
    (fun ref outside => alone_of_ne (List.ne_of_not_mem_cons outside) (quiet_nil _) rfl)
    (fun ref queued => .inl ⟨queued, ?_⟩) (fun _ filled => filled) ?_
  · rintro there
    cases List.mem_singleton.mp there
    cases inv.single .queue (.pending thread) queued pending
  · have written : (numberQuery server thread request).buffer request =
        { server.buffer request with
          refID := server.intReqNum
          pkt := { (server.buffer request).pkt with id := server.intReqNum } } :=
      Function.update_self ..
    refine ⟨by rw [written], _, storyOf_append told (quiet_nil _), ?_, .inr ?_⟩
    · rw [written]
      exact ⟨asks.isQuery, asks.client, asks.srcID, asks.data, asks.servers,
        asks.unanswered.later (quiet_nil _)⟩
    · show server.srvrConnectors.head? ≠ none
      exact fun empty => known (List.head?_eq_none_iff.mp empty)

/-- The messages a worker sends. A relayed one is the last that is heard of its query. -/
theorem Fits.send (fits : Fits server queue ready past) (inv : Inv server queue ready)
    {tmpQ : Option BufRef} {saveRq : Bool} {dest : Option Connector}
    (here : server.workers thread = .send request tmpQ saveRq dest) :
    Fits (sendAndFree server thread request tmpQ saveRq dest).1 queue ready
      (past ++ (sendAndFree server thread request tmpQ saveRq dest).2) := by
  have before := fits.workers thread
  rw [here] at before
  cases saveRq with
  | true =>
    obtain ⟨numbered, story, told, asks, sent⟩ := before
    have quiet : ∀ ref, Quiet ref (sendAndFree server thread request tmpQ true dest).2 := by
      cases dest <;> simp [sendAndFree, sendto, Server.forward, Quiet, Event.Touches]
    refine fits.silent inv rfl rfl rfl rfl quiet (fun _ filled => filled)
      (fun _ queued => .inl queued) ⟨_, storyOf_append told (quiet request),
        asks.later (quiet request), numbered, ?_⟩
    rcases sent with sent | known
    · exact sent.later
    · obtain ⟨dest, rfl⟩ := Option.ne_none_iff_exists'.mp known
      refine ⟨dest, (server.buffer request).pkt, (server.buffer request).datalen, ?_, numbered,
        asks.data⟩
      exact List.mem_append_right _ List.mem_cons_self
  | false =>
    cases tmpQ with
    | none =>
      have quiet : ∀ ref, Quiet ref (sendAndFree server thread request none false dest).2 := by
        cases dest <;> simp [sendAndFree, sendto, Quiet, Event.Touches]
      exact fits.silent inv rfl rfl rfl rfl quiet (fun _ filled => filled)
        (fun _ queued => .inl queued) trivial
    | some query =>
      have held : query ∈ places server queue ready (.worker thread) := by
        simp [places, regionsOf, here, Worker.held]
      refine fits.worker_step inv [query] rfl rfl rfl (by simp [here, Worker.held])
        (fun ref outside => ⟨rfl, ?_⟩) (fun ref queued => .inl ⟨queued, ?_⟩)
        (fun _ filled => filled) trivial
      · have apart := (List.ne_of_not_mem_cons outside).symm
        cases dest <;> simp [sendAndFree, sendto, Quiet, Event.Touches, apart]
      · rintro there
        cases List.mem_singleton.mp there
        cases inv.single .queue (.worker thread) queued held

theorem Fits.enqueue (fits : Fits server queue ready past) (inv : Inv server queue ready)
    (here : server.workers thread = .queue request) :
    Fits (queueRequest server thread request).1 (queue ++ [request]) ready
      (past ++ [.entered request]) := by
  have waiting := fits.workers thread
  rw [here] at waiting
  have quiet : ∀ ref, Quiet ref [.entered request] := by simp [Quiet, Event.Touches]
  refine fits.silent inv rfl rfl rfl rfl quiet (fun _ filled => filled) (fun ref queued => ?_) trivial
  rcases List.mem_append.mp queued with earlier | last
  · exact .inl earlier
  · cases List.mem_singleton.mp last
    exact .inr (Waits.later ⟨rfl, quiet request⟩ waiting)

/-- A step of the main loop that fills no buffer. -/
theorem Fits.pass (fits : Fits server queue ready past) (inv : Inv server queue ready)
    (buffer : next.buffer = server.buffer) (workers : next.workers = server.workers)
    (servers : next.srvrConnectors = server.srvrConnectors)
    (main : next.main.Fits next past) : Fits next queue ready (past ++ []) :=
  fits.main_step inv [] workers servers (List.forall_mem_nil _)
    (fun ref _ => ⟨congrFun buffer ref, quiet_nil ref⟩)
    (fun _ queued => .inl ⟨queued, List.not_mem_nil⟩) (fun _ filled => .inl filled)
    (by simpa using main)

theorem Fits.receive (fits : Fits server queue ready past) (inv : Inv server queue ready)
    {fds : List Nat} {conn : Connector} {rest : List Connector} {tmpQ : BufRef}
    (here : server.main = .receive fds conn rest tmpQ) (message : Datagram) :
    Fits (receiveStep server fds conn rest tmpQ message).1 queue ready
      (past ++ (receiveStep server fds conn rest tmpQ message).2) := by
  have held : tmpQ ∈ places server queue ready .main := by
    simp [places, regionsOf, here, MainLoop.held]
  refine fits.main_step inv [tmpQ] rfl rfl (by simp [here, MainLoop.held]) (fun ref outside => ?_)
    (fun ref queued => .inl ⟨queued, ?_⟩) (fun _ filled => .inl filled) ?_
  · have apart := List.ne_of_not_mem_cons outside
    refine alone_of_ne apart ?_ rfl
    by_cases short : message.datalen < 17
    · simp [receiveStep, short, Quiet]
    · simp [receiveStep, short, Quiet, Event.Touches, apart.symm]
  · rintro there
    cases List.mem_singleton.mp there
    cases inv.single .queue .main queued held
  · by_cases short : message.datalen < 17
    · simp [receiveStep, short, MainLoop.Fits]
    · have written : (receiveStep server fds conn rest tmpQ message).1.buffer tmpQ =
          { sender := message.sender, qclient := conn, qserver := [], refID := 0, srcID := 0
            rcvtime := if message.datalen < 17 then 0 else server.curTime
            datalen := message.datalen, pkt := message.pkt } := Function.update_self ..
      have main : (receiveStep server fds conn rest tmpQ message).1.main =
          .ready fds rest tmpQ := by simp [receiveStep, short]
      have told : (receiveStep server fds conn rest tmpQ message).2 =
          [.received tmpQ conn message] := by simp [receiveStep, short]
      rw [main, told]
      refine ⟨{ conn := conn, message := message, after := [] }, ?_, fun _ _ _ _ => List.not_mem_nil, ?_, ?_, ?_⟩
      · simp [storyOf, tell]
      · rw [written]
        rfl
      · rw [written]
      · rw [written]

/-- The expiry pass sends queries to further servers and takes them out of the queue. -/
theorem Fits.expirePass (fits : Fits server queue ready past) (inv : Inv server queue ready)
    (here : server.main = .expire) {turns : Nat} {final : Server} {events : List Event}
    (pass : expirePass turns server server.lists.links.head = .ok (final, events)) :
    Fits { final with main := .select } (outstanding queue events) ready (past ++ events) := by
  have kept := passing_rule (motive := fun server now =>
    Fits server (outstanding queue now) ready (past ++ now)) ?_ ?_ (inv.passing here)
    (by rw [List.append_nil]; exact fits) pass
  · refine ⟨kept.2.queue, kept.2.ready, fun thread => ?_, trivial⟩
    have held := @Worker.Fits.later _ { final with main := .select } _ [] _ (kept.2.workers thread)
      (fun ref _ => ⟨rfl, quiet_nil ref⟩) rfl
    rwa [List.append_nil] at held
  · intro server tmpQ now asked following further passing fits servers
    have quiet : ∀ ref, Quiet ref [server.forward tmpQ following] := by
      simp [Server.forward, Quiet, Event.Touches]
    rw [outstanding_append, ← List.append_assoc]
    refine fits.main_step passing.inv [tmpQ] rfl rfl (by simp [passing.mem])
      (fun ref outside => alone_of_ne (List.ne_of_not_mem_cons outside) (quiet ref) rfl)
      (fun ref queued => ?_) (fun _ filled => .inl filled) ?_
    · by_cases there : ref = tmpQ
      · subst there
        obtain ⟨story, told, waits⟩ := fits.queue ref passing.mem
        have asks := waits.asks.later (quiet ref)
        have written : (server.setBuffer ref { server.buffer ref with
            qserver := following :: further }).buffer ref =
            { server.buffer ref with qserver := following :: further } := Function.update_self ..
        refine .inr ⟨_, storyOf_append told (quiet ref), ?_, ?_, ?_⟩
        · rw [written]
          exact ⟨asks.isQuery, asks.client, asks.srcID, asks.data, by simp, asks.unanswered⟩
        · rw [written]
          exact waits.numbered
        · rw [written]
          exact waits.sent.later
      · exact .inl ⟨queued, by simpa using there⟩
    · rw [show (server.setBuffer tmpQ { server.buffer tmpQ with
        qserver := following :: further }).main = .expire from passing.here]
      trivial
  · intro server tmpQ now passing fits
    have quiet : ∀ ref, Quiet ref [.left tmpQ .expired] := by simp [Quiet, Event.Touches]
    rw [outstanding_append, ← List.append_assoc]
    refine fits.main_step passing.inv [] rfl rfl (List.forall_mem_nil _) (fun ref _ => ⟨rfl, quiet ref⟩)
      (fun ref queued => .inl ⟨List.mem_of_mem_erase queued, List.not_mem_nil⟩)
      (fun _ filled => .inl filled) ?_
    rw [show ({ server with
      lists := (server.lists.unlinkQuery tmpQ).push .freeBuf tmpQ } : Server).main = .expire from
        passing.here]
    trivial

/-- Every step keeps the contents of the buffers in line with their stories. -/
theorem Fits.move (fits : Fits server queue ready past) (inv : Inv server queue ready)
    {action : Action} (move : Move server action events next) :
    Fits next (outstanding queue events) (unread ready events) (past ++ events) := by
  cases move with
  | take here top =>
    obtain ⟨rest, split⟩ := inv.ready_eq top
    exact fits.take inv _ (by rw [split]; exact List.mem_cons_self)
  | lose here _ _ =>
    exact fits.silent inv rfl rfl rfl rfl (by simp [Quiet, Event.Touches]) (fun _ filled => filled)
      (fun _ queued => .inl queued) trivial
  | answer here isResponse search => exact fits.answer inv here isResponse search
  | retry here _ search _ _ => exact fits.retry inv search _ _
  | @reply thread _ request pkt datalen here _ _ =>
    have held : request ∈ places server queue ready (.worker thread) := by
      simp [places, regionsOf, here, Worker.held]
    refine fits.worker_step inv [request] rfl rfl rfl (by simp [here, Worker.held])
      (fun ref outside => alone_of_ne (List.ne_of_not_mem_cons outside) (quiet_nil _) rfl)
      (fun ref queued => .inl ⟨queued, ?_⟩) (fun _ filled => filled) trivial
    rintro there
    cases List.mem_singleton.mp there
    cases inv.single .queue (.worker thread) queued held
  | accept here isQuery servers => exact fits.accept inv here isQuery servers _
  | number here => exact fits.number inv here
  | send here =>
    rw [sendAndFree_outstanding, sendAndFree_unread]
    exact fits.send inv here
  | enqueue here => exact fits.enqueue inv here
  | @select ready here => cases ready <;> exact fits.pass inv rfl rfl rfl trivial
  | @scan fds tmpConn here =>
    cases tmpConn with
    | nil => exact fits.pass inv rfl rfl rfl trivial
    | cons conn rest =>
      simp only [scanStep]
      split
      · have same : (takeBuffer server).2.buffer = server.buffer ∧
            (takeBuffer server).2.workers = server.workers ∧
            (takeBuffer server).2.srvrConnectors = server.srvrConnectors := by
          simp only [takeBuffer]
          split <;> exact ⟨rfl, rfl, rfl⟩
        exact fits.pass inv same.1 same.2.1 same.2.2 trivial
      · exact fits.pass inv rfl rfl rfl trivial
  | @receive message fds conn rest tmpQ here =>
    rw [receiveStep_outstanding, receiveStep_unread]
    exact fits.receive inv here message
  | giveBack here => exact fits.pass inv rfl rfl rfl trivial
  | @ready fds rest tmpQ here =>
    have main := fits.main
    rw [here] at main
    have quiet : ∀ ref, Quiet ref [.filled tmpQ] := by simp [Quiet, Event.Touches]
    refine fits.main_step inv [] rfl rfl (List.forall_mem_nil _) (fun ref _ => ⟨rfl, quiet ref⟩)
      (fun _ queued => .inl ⟨queued, List.not_mem_nil⟩) (fun ref filled => ?_) trivial
    rcases List.mem_cons.mp filled with rfl | earlier
    · exact .inr (Filled.later ⟨rfl, quiet ref⟩ main)
    · exact .inl earlier
  | expire here pass =>
    rw [(inv.expired here pass).2]
    exact fits.expirePass inv here pass
  | @tick seconds =>
    refine fits.pass inv rfl rfl rfl ?_
    have main := @MainLoop.Fits.later _ { server with clock := server.clock + seconds } _ [] _ fits.main
      (fun ref _ => ⟨rfl, quiet_nil ref⟩)
    rwa [List.append_nil] at main

end Steps

section Runs

variable {start final next : Server} {labels : List (Action × List Event)}

theorem run_fits (started : start.Started)
    (run : Run (Under Step LastRetried) start labels final) :
    Inv final (queueOf labels) (unread [] (eventsOf labels)) ∧
      Fits final (queueOf labels) (unread [] (eventsOf labels)) (eventsOf labels) := by
  refine run_rule (motive := fun server past =>
    Fits server (outstanding [] past) (unread [] past) past) (fun _ _ same => same) ?_
    started ⟨nofun, nofun, fun thread => ?_, ?_⟩ run
  · intro server action events next past inv fits _ move
    rw [outstanding_append, unread_append]
    exact fits.move inv move
  · rw [started.workers]
    trivial
  · rw [started.main]
    trivial

/-- What is relayed, seen from the stories of its two buffers: it is a response under a number
that the query was sent under, it goes to the client of the query under the ID this client has
used, and the query has not been answered before. -/
structure Relayed (past : List Event) (response query : BufRef) (dest : Connector) (pkt : Packet)
    (datalen : Int) (answer asked : Story) : Prop where
  told : storyOf response past = some answer
  told' : storyOf query past = some asked
  isResponse : answer.message.pkt.opt &&& dnsOptQR ≠ 0
  isQuery : asked.message.pkt.opt &&& dnsOptQR = 0
  dest : dest = ⟨asked.conn.sock, asked.message.sender⟩
  pkt : pkt = { answer.message.pkt with id := asked.message.pkt.id }
  datalen : datalen = answer.message.datalen
  number : SentUnder query answer.message.pkt.id asked
  once : Unanswered query asked

/-- In every run in which only the last query of the queue is sent to its next server, an
answer goes to the client that asked under its number. -/
theorem relayed_under_its_number (started : start.Started)
    (run : Run (Under Step LastRetried) start labels final) {action : Action} {events : List Event}
    (step : Under Step LastRetried final (action, events) next) {response query : BufRef}
    {dest : Connector} {pkt : Packet} {datalen : Int}
    (relayed : .relayed response query dest pkt datalen ∈ events) :
    ∃ answer asked, Relayed (eventsOf labels) response query dest pkt datalen answer asked := by
  obtain ⟨inv, fits⟩ := run_fits started run
  have move := step_moves step.1
  cases move with
  | @send thread _ request tmpQ saveRq target here =>
    have own := fits.workers thread
    rw [here] at own
    cases target with
    | none => cases relayed
    | some target =>
      cases saveRq with
      | true => cases List.mem_singleton.mp relayed
      | false =>
        cases tmpQ with
        | none => cases List.mem_singleton.mp relayed
        | some query =>
          cases List.mem_singleton.mp relayed
          obtain ⟨answer, asked, client, told, told', same, relays⟩ := own
          cases same
          have asks := relays.waits.asks
          refine ⟨answer, asked, told, told', relays.isResponse, asks.isQuery, ?_, ?_,
            relays.datalen, ?_, asks.unanswered⟩
          · rw [relays.dest, asks.client]
          · rw [relays.pkt, asks.srcID]
          · rw [relays.id]
            exact relays.waits.sent
  | @receive message fds conn rest tmpQ here =>
    simp only [receiveStep] at relayed
    split at relayed
    · cases relayed
    · cases List.mem_singleton.mp relayed
  | expire here pass =>
    have silent := (passing_rule (motive := fun _ past =>
      .relayed response query dest pkt datalen ∉ past)
      (fun _ _ _ _ _ _ _ none _ member => by simp [none, Server.forward] at member)
      (fun _ _ _ _ none member => by simp [none] at member) (inv.passing here) List.not_mem_nil pass).2
    exact absurd relayed silent
  | take here _ => cases List.mem_singleton.mp relayed
  | lose here _ _ => cases List.mem_singleton.mp relayed
  | answer here _ _ => cases List.mem_singleton.mp relayed
  | retry here _ _ _ _ => cases List.mem_singleton.mp relayed
  | enqueue here => cases List.mem_singleton.mp relayed
  | ready here => cases List.mem_singleton.mp relayed
  | _ => cases relayed

end Runs

/-- The first server answers a query under its number. -/
theorem answer_under_its_number : ∃ labels final answer asked,
    Run (Under Step LastRetried) (twoServers 4) labels final ∧
      Relayed (eventsOf labels) 2 3 ⟨3, 7⟩ ⟨11, 0x80, 0x0100, [1, 2]⟩ 30 answer asked := by
  obtain ⟨labels, final, run, seen⟩ := replay_reaches
    (guarded Server.handle RetriesLast) (twoServers 4)
    (receives 0 3 2 (question 11 [1]) ++ works 0 5 ++
      receives 1 4 1 (response 1 1 0 [1, 2]) ++ works 1 2)
    (fun final _ => decide (RetriesLast final (.worker 1 none) ∧
      ((final.handle (.worker 1 none)).map Prod.snd).toOption =
        some [.relayed 2 3 ⟨3, 7⟩ ⟨11, 0x80, 0x0100, [1, 2]⟩ 30]))
    true (by decide +kernel)
  obtain ⟨last, done⟩ := of_decide_eq_true seen
  obtain ⟨next, step⟩ := handle_answers.mp done
  have run := run_guarded run
  obtain ⟨answer, asked, relayed⟩ := relayed_under_its_number (twoServers_started 4) run
    ⟨step, last⟩ List.mem_cons_self
  exact ⟨labels, final, answer, asked, run, relayed⟩

/-- A message from an address that is no server's, about another question, is relayed. -/
theorem forged_answer_is_relayed : ∃ labels final next answer,
    (twoServers 4).Started ∧ Run Step (twoServers 4) labels final ∧
      Step final (.worker 1 none, [.relayed 2 3 ⟨3, 7⟩ ⟨11, 0x80, 0x0100, [9]⟩ 30]) next ∧
      storyOf 2 (eventsOf labels) = some answer ∧
      ∀ dest pkt datalen, .forwarded 3 dest pkt datalen ∈ eventsOf labels →
        dest.addr ≠ answer.message.sender ∧ ¬ pkt.data <+: answer.message.pkt.data := by
  obtain ⟨labels, final, run, seen⟩ := replay_reaches Server.handle
    (twoServers 4)
    (receives 0 3 2 (question 11 [1]) ++ works 0 5 ++
      receives 0 3 2 (response 9 1 0 [9]) ++ works 1 2)
    (fun final labels => decide (eventsOf labels =
        [.received 3 ⟨3, 0⟩ (question 11 [1]), .filled 3, .taken 3,
          .forwarded 3 ⟨4, 1⟩ ⟨1, 0, 0x0100, [1]⟩ 30, .entered 3,
          .received 2 ⟨3, 0⟩ (response 9 1 0 [9]), .filled 2, .taken 2, .left 3 .answered] ∧
      ((final.handle (.worker 1 none)).map Prod.snd).toOption =
        some [.relayed 2 3 ⟨3, 7⟩ ⟨11, 0x80, 0x0100, [9]⟩ 30]))
    true (by decide +kernel)
  obtain ⟨events, done⟩ := of_decide_eq_true seen
  obtain ⟨next, step⟩ := handle_answers.mp done
  refine ⟨labels, final, next,
    { conn := ⟨3, 0⟩, message := response 9 1 0 [9]
      after := [.filled 2, .taken 2, .left 3 .answered] },
    twoServers_started 4, run, step, ?_, ?_⟩
  · rw [events]
    rfl
  · intro dest pkt datalen member
    rw [events] at member
    simp only [List.mem_cons, List.not_mem_nil, reduceCtorEq, false_or, or_false,
      Event.forwarded.injEq, true_and] at member
    obtain ⟨rfl, rfl, rfl⟩ := member
    decide

end QNXStuff.QXDns
