import QNXStuff.QXDns.Cache
import QNXStuff.QXDns.MasterReplies
import QNXStuff.QXDns.Relays
import QNXStuff.QXDns.Responses

/-! What a client is sent: the lookups turn its query into a response under the same ID, and the
handler sends it what they have left, or what an external server has answered. -/

namespace QNXStuff.QXDns

open Execution LinkedList Memory

/-! ### Messages in memory -/

def headerWord (pkt : Block) (position : Nat) : UInt16 :=
  UInt16.ofNat (wordOf (readBytes pkt position 2))

/-- What the server reads of a message in memory. -/
def packetOf (pkt : Block) (datalen : Nat) : Packet where
  id := headerWord pkt 0
  opt := headerWord pkt 2
  qdcount := headerWord pkt 4
  data := readBytes pkt 12 (datalen - 12)

theorem headerWord_congr {pkt pkt' : Block} {position : Nat} (first : pkt position = pkt' position)
    (second : pkt (position + 1) = pkt' (position + 1)) :
    headerWord pkt position = headerWord pkt' position := by
  have same : readBytes pkt position 2 = readBytes pkt' position 2 := by
    rw [readBytes_succ, readBytes_succ, readBytes_succ, readBytes_succ, first, second]
    rfl
  rw [headerWord, same, headerWord]

/-- The bit for a response, in the first byte of the options. -/
theorem isResponse_of_byte {pkt : Block} (high : 128 ≤ (pkt 2).toNat) :
    headerWord pkt 2 &&& dnsOptQR ≠ 0 := by
  intro none
  have number : (headerWord pkt 2).toNat &&& 2 ^ 7 = 0 := by
    have same := congrArg UInt16.toNat none
    rwa [UInt16.toNat_and] at same
  have word : (headerWord pkt 2).toNat = (pkt 2).toNat + 256 * (pkt 3).toNat := by
    have short := (pkt 2).toNat_lt
    have short' := (pkt 3).toNat_lt
    have read : readBytes pkt 2 2 = [pkt 2, pkt 3] := rfl
    rw [headerWord, read, wordOf, wordOf, wordOf, UInt16.toNat_ofNat']
    omega
  have bit : (headerWord pkt 2).toNat.testBit 7 = true := by
    have short := (pkt 2).toNat_lt
    rw [word, Nat.testBit_eq_decide_div_mod_eq, decide_eq_true_iff]
    omega
  have kept := congrArg (Nat.testBit · 7) number
  simp only [Nat.testBit_and, bit] at kept
  cases kept

/-! ### The master database -/

/-- A response under the ID of the query. -/
structure ResponseTo (pkt reply : Block) : Prop where
  first : reply 0 = pkt 0
  second : reply 1 = pkt 1
  high : 128 ≤ (reply 2).toNat

section Master

variable {pkt final : Block} {datalen fuel : Nat} {zone : MasterZone} {host : MasterRecord}
  {zonePtr : UInt16} {reply : MasterReply}

theorem printing_front {buffer : Nat} {zname : List UInt8} {len : Int} {state : Printing}
    {result : Block × Option Nat} (ends : Ends (rprtTurn buffer zname len) state result) :
    ∀ position < buffer, result.1 position = state.pkt position := by
  induction ends with
  | stop done =>
    intro position front
    cases rprtTurn_prints done with
    | full _ => rfl
    | ended _ _ => exact writeBytes_outside (.inl (Nat.lt_add_right _ front))
    | pointed _ _ _ => exact writeBytes_outside (.inl (Nat.lt_add_right _ front))
  | again done _ ih =>
    intro position front
    rw [ih position front]
    cases rprtTurn_prints done with
    | zone _ _ => exact writeBytes_outside (.inl (Nat.lt_add_right _ front))
    | byte _ _ _ => exact writeBytes_outside (.inl (Nat.lt_add_right _ front))

theorem addName_front {type : List UInt8} {anPtr : Option Nat}
    (done : addName pkt datalen type zone host zonePtr fuel = .ok (final, anPtr)) :
    ∀ position < datalen, final position = pkt position := by
  intro position front
  obtain ⟨begun, written, done⟩ := bind_eq_ok.mp done
  obtain ⟨_, rfl⟩ := pktWrite_eq_ok.mp written
  obtain ⟨⟨named, ended⟩, printing, done⟩ := bind_eq_ok.mp done
  have kept : named position = pkt position :=
    (printing_front (reaches_loop.mp ⟨fuel, printing⟩) position (by omega)).trans
      (writeBytes_outside (.inl front))
  cases ended with
  | none =>
    cases done
    exact kept
  | some ended =>
    obtain ⟨whole, written, done⟩ := bind_eq_ok.mp done
    obtain ⟨_, rfl⟩ := pktWrite_eq_ok.mp written
    cases done
    rw [writeBytes_outside (.inl (by omega))]
    exact kept

theorem addAddresses_front {ansPtr : List UInt8} {inaddrs : List MasterInAddr}
    {state ended : Answering} (done : addAddresses ansPtr inaddrs state = .ok ended) :
    ∀ position < state.datalen, ended.pkt position = state.pkt position := by
  induction inaddrs generalizing state with
  | nil =>
    cases done
    intro position _
    rfl
  | cons inaddr rest ih =>
    intro position front
    rw [addAddresses] at done
    rcases ite_eq_iff.mp done with ⟨_, done⟩ | ⟨_, done⟩
    · cases done
      rfl
    · obtain ⟨written, writes, done⟩ := bind_eq_ok.mp done
      obtain ⟨_, rfl⟩ := pktWrite_eq_ok.mp writes
      rw [ih done position (Nat.lt_add_right _ front)]
      exact writeBytes_outside (.inl front)

theorem setOpt_response {header : Block} {bits : UInt8} (first : header 0 = pkt 0)
    (second : header 1 = pkt 1) (response : bits = optQR ∨ bits = optQR ||| optAA ∨
      bits = optAA ||| optTC ||| optQR) : ResponseTo pkt (setOpt header bits) := by
  refine ⟨first, second, ?_⟩
  have all : ∀ number < 256, ∀ bits ∈ [optQR, optQR ||| optAA, optAA ||| optTC ||| optQR],
      128 ≤ (UInt8.ofNat number ||| bits).toNat := by decide +kernel
  have this := all (header 2).toNat (header 2).toNat_lt bits (by simpa using response)
  rwa [UInt8.ofNat_toNat] at this

theorem finishA_response {ansPtr : List UInt8} {state : Answering} (behind : 12 ≤ state.datalen)
    (first : state.pkt 0 = pkt 0) (second : state.pkt 1 = pkt 1)
    (done : finishA ansPtr host state = .ok reply) : ResponseTo pkt reply.pkt := by
  obtain ⟨ended, added, done⟩ := bind_eq_ok.mp done
  cases done
  have kept := addAddresses_front added
  exact setOpt_response ((kept 0 (by omega)).trans first) ((kept 1 (by omega)).trans second) (.inl rfl)

theorem answerA_response (behind : 12 ≤ datalen) {addCname : Bool}
    (done : answerA pkt datalen zone host addCname zonePtr fuel = .ok reply) :
    ResponseTo pkt reply.pkt := by
  cases addCname with
  | false => exact finishA_response behind rfl rfl done
  | true =>
    obtain ⟨⟨named, ended⟩, adding, done⟩ := bind_eq_ok.mp done
    have kept := addName_front adding
    cases ended with
    | none =>
      cases done
      exact setOpt_response (kept 0 (by omega)) (kept 1 (by omega)) (.inr (.inr rfl))
    | some ended =>
      obtain ⟨printed, _, _, rfl⟩ := (addName_some rfl).mp ⟨fuel, adding⟩
      exact finishA_response (Nat.le_trans behind (by simp only; omega)) (kept 0 (by omega))
        (kept 1 (by omega)) done

theorem answerPtr_response (behind : 12 ≤ datalen)
    (done : answerPtr pkt datalen zone host zonePtr fuel = .ok reply) : ResponseTo pkt reply.pkt := by
  obtain ⟨⟨named, ended⟩, adding, done⟩ := bind_eq_ok.mp done
  have kept := addName_front adding
  cases ended with
  | none =>
    cases done
    exact setOpt_response (kept 0 (by omega)) (kept 1 (by omega)) (.inr (.inr rfl))
  | some ended =>
    cases done
    exact setOpt_response (kept 0 (by omega)) (kept 1 (by omega)) (.inr (.inl rfl))

/-- An answer of the master database is a response to the query. -/
theorem qxdnsMasterLookup_response {rootZone : List MasterZone} (behind : 12 ≤ datalen)
    (done : qxdnsMasterLookup rootZone pkt datalen fuel = .ok reply) (found : reply.found = true) :
    ResponseTo pkt reply.pkt := by
  unfold qxdnsMasterLookup at done
  rcases ite_eq_iff.mp done with ⟨_, done⟩ | ⟨_, done⟩
  · cases done
    cases found
  rcases ite_eq_iff.mp done with ⟨_, done⟩ | ⟨_, done⟩
  · obtain ⟨host, _, done⟩ := bind_eq_ok.mp done
    cases host with
    | none =>
      cases done
      cases found
    | some host => exact answerA_response behind done
  rcases ite_eq_iff.mp done with ⟨_, done⟩ | ⟨_, done⟩
  · obtain ⟨host, _, done⟩ := bind_eq_ok.mp done
    cases host with
    | none =>
      cases done
      cases found
    | some host => exact answerPtr_response behind done
  · cases done
    cases found

end Master

/-! ### The cache -/

def Cache.Responses (cache : Cache) : Prop :=
  ∀ record, some record ∈ cache.root → headerWord record.pkt 2 &&& dnsOptQR ≠ 0

namespace Cache.Responses

variable {cache next : Cache} {msg answered : Message} {record : CacheRecord} {i : Nat}

theorem slot (responses : cache.Responses) (here : cache.slot i = .ok record) :
    headerWord record.pkt 2 &&& dnsOptQR ≠ 0 := by
  refine responses record ?_
  unfold Cache.slot at here
  cases stored : cache.root[i]? with
  | none =>
    rw [stored] at here
    cases here
  | some filled =>
    rw [stored] at here
    cases filled with
    | none => cases here
    | some found =>
      cases here
      exact List.mem_of_getElem? stored

theorem setSlot (responses : cache.Responses) (response : headerWord record.pkt 2 &&& dnsOptQR ≠ 0)
    (done : cache.setSlot i record = .ok next) : next.Responses := by
  rcases ite_eq_iff.mp done with ⟨_, done⟩ | ⟨_, done⟩
  · cases done
    intro other member
    rcases List.mem_or_eq_of_mem_set member with kept | same
    · exact responses other kept
    · rw [Option.some.inj same]
      exact response
  · cases done

theorem add (responses : cache.Responses) (response : headerWord msg.pkt 2 &&& dnsOptQR ≠ 0)
    {fresh : Option Block} {added : Bool} (done : qxdnsCacheAdd cache msg fresh = .ok (next, added)) :
    next.Responses := by
  cases fresh with
  | none =>
    cases done
    exact responses
  | some fresh =>
    have stored : headerWord (msg.record cache.ttl fresh).pkt 2 &&& dnsOptQR ≠ 0 := by
      have whole := msg.whole
      have first : (msg.record cache.ttl fresh).pkt 2 = msg.pkt 2 := if_pos (by omega)
      have second : (msg.record cache.ttl fresh).pkt 3 = msg.pkt 3 := if_pos (by omega)
      rwa [headerWord_congr first second]
    obtain ⟨⟨stop, index⟩, _, done⟩ := bind_eq_ok.mp done
    rcases ite_eq_iff.mp done with ⟨_, done⟩ | ⟨_, done⟩
    · obtain ⟨changed, written, done⟩ := bind_eq_ok.mp done
      cases done
      have kept := responses.setSlot stored written
      exact kept
    · cases index with
      | none => cases done
      | some index =>
        obtain ⟨changed, written, done⟩ := bind_eq_ok.mp done
        cases done
        exact responses.setSlot stored written

/-- An answer of the cache is a response under the ID of the query. -/
theorem lookup (responses : cache.Responses) {found : Bool}
    (done : qxdnsCacheLookup cache msg = .ok (next, answered, found)) :
    next.Responses ∧ (found = true → headerWord answered.pkt 0 = headerWord msg.pkt 0 ∧
      headerWord answered.pkt 2 &&& dnsOptQR ≠ 0) := by
  obtain ⟨index, _, done⟩ := bind_eq_ok.mp done
  cases index with
  | none =>
    cases done
    exact ⟨responses, nofun⟩
  | some i =>
    obtain ⟨record, here, done⟩ := bind_eq_ok.mp done
    obtain ⟨changed, written, done⟩ := bind_eq_ok.mp done
    cases done
    have response := responses.slot here
    have whole := record.whole
    refine ⟨responses.setSlot (show headerWord ({ record with hits := record.hits + 1 } :
      CacheRecord).pkt 2 &&& dnsOptQR ≠ 0 from response) written,
      fun _ => ⟨headerWord_congr rfl rfl, ?_⟩⟩
    have first : (msg.answered record).pkt 2 = record.pkt 2 := if_pos (by omega)
    have second : (msg.answered record).pkt 3 = record.pkt 3 := if_pos (by omega)
    rwa [headerWord_congr first second]

end Cache.Responses

/-! ### The lookups of the handler -/

/-- The message of a buffer, as it lies in memory. -/
structure Buffer.Holds (buffer : Buffer) (msg : Message) : Prop where
  pkt : packetOf msg.pkt msg.datalen = buffer.pkt
  datalen : (msg.datalen : Int) = buffer.datalen
  rcvtime : msg.rcvtime = buffer.rcvtime

/-- "look into master database", and then into the cache: what they find, and the cache behind. -/
inductive Looks (rootZone : List MasterZone) (cache : Cache) (buffer : Buffer) :
    Option Answer → Cache → Prop where
  | master {msg : Message} {reply : MasterReply} (holds : buffer.Holds msg)
      (done : Reaches (qxdnsMasterLookup rootZone msg.pkt msg.datalen) reply)
      (found : reply.found = true) :
      Looks rootZone cache buffer (some ⟨packetOf reply.pkt reply.datalen, reply.datalen⟩) cache
  | cached {msg answered : Message} {reply : MasterReply} {next : Cache} (holds : buffer.Holds msg)
      (done : Reaches (qxdnsMasterLookup rootZone msg.pkt msg.datalen) reply)
      (missed : reply.found = false) (looked : qxdnsCacheLookup cache msg = .ok (next, answered, true)) :
      Looks rootZone cache buffer (some ⟨packetOf answered.pkt answered.datalen, answered.datalen⟩) next
  | unknown {msg answered : Message} {reply : MasterReply} {next : Cache} (holds : buffer.Holds msg)
      (done : Reaches (qxdnsMasterLookup rootZone msg.pkt msg.datalen) reply)
      (missed : reply.found = false)
      (looked : qxdnsCacheLookup cache msg = .ok (next, answered, false)) :
      Looks rootZone cache buffer none next

theorem Looks.responses {rootZone : List MasterZone} {cache next : Cache} {buffer : Buffer}
    {lookup : Option Answer} (looks : Looks rootZone cache buffer lookup next)
    (responses : cache.Responses) : next.Responses := by
  cases looks with
  | master _ _ _ => exact responses
  | cached _ _ _ looked => exact (responses.lookup looked).1
  | unknown _ _ _ looked => exact (responses.lookup looked).1

/-- What is found is a response under the ID of the query. -/
theorem Looks.response {rootZone : List MasterZone} {cache next : Cache} {buffer : Buffer}
    {answer : Answer} (looks : Looks rootZone cache buffer (some answer) next)
    (responses : cache.Responses) :
    answer.pkt.id = buffer.pkt.id ∧ answer.pkt.opt &&& dnsOptQR ≠ 0 := by
  cases looks with
  | @master msg reply holds done found =>
    obtain ⟨fuel, done⟩ := done
    have response := qxdnsMasterLookup_response (Nat.le_trans (by decide) msg.whole) done found
    rw [← holds.pkt]
    exact ⟨headerWord_congr response.first response.second, isResponse_of_byte response.high⟩
  | @cached msg answered reply _ holds _ _ looked =>
    rw [← holds.pkt]
    exact (responses.lookup looked).2 rfl

/-- The response of a worker is "added to cache". -/
def Cached (server : Server) (request : BufRef) : Prop :=
  (∃ query, findQuery server request = some (some query)) ∧
    ((server.buffer request).pkt.opt &&& dnsOptRcodeMask = 0 ∨
      (server.buffer request).pkt.opt &&& dnsOptRcodeMask = dnsOptRcodeNE)

/-- What the handler finds in the master database and in the cache, and what it puts there. -/
def Consults (rootZone : List MasterZone) (server : Server) (cache : Cache) (action : Action)
    (next : Cache) : Prop :=
  match action with
  | .worker thread lookup =>
    match server.workers thread with
    | .handler request =>
      if (server.buffer request).pkt.opt &&& dnsOptQR ≠ 0 then
        (Cached server request → ∃ msg fresh added, (server.buffer request).Holds msg ∧
          qxdnsCacheAdd cache msg fresh = .ok (next, added)) ∧
        (¬ Cached server request → next = cache)
      else if (server.buffer request).pkt.qdcount ≠ 0x0100 then next = cache
      else Looks rootZone cache (server.buffer request) lookup next
    | _ => next = cache
  | _ => next = cache

/-- A handler looks for the answer to a query that has one question. -/
theorem consults_query {rootZone : List MasterZone} {server : Server} {cache next : Cache}
    {thread : Nat} {lookup : Option Answer} {request : BufRef}
    (here : server.workers thread = .handler request)
    (query : (server.buffer request).pkt.opt &&& dnsOptQR = 0) :
    Consults rootZone server cache (.worker thread lookup) next ↔
      if (server.buffer request).pkt.qdcount ≠ 0x0100 then next = cache
      else Looks rootZone cache (server.buffer request) lookup next := by
  simp only [Consults]
  rw [here]
  exact iff_of_eq (if_neg (not_not.mpr query))

theorem Consults.responses {rootZone : List MasterZone} {server : Server} {cache next : Cache}
    {action : Action} (consults : Consults rootZone server cache action next)
    (responses : cache.Responses) : next.Responses := by
  cases action with
  | worker thread lookup =>
    simp only [Consults] at consults
    cases here : server.workers thread with
    | handler request =>
      simp only [here] at consults
      by_cases response : (server.buffer request).pkt.opt &&& dnsOptQR = 0
      · rw [if_neg (not_not.mpr response)] at consults
        by_cases single : (server.buffer request).pkt.qdcount = 0x0100
        · rw [if_neg (not_not.mpr single)] at consults
          exact consults.responses responses
        · rw [if_pos single] at consults
          rw [consults]
          exact responses
      · rw [if_pos response] at consults
        by_cases cached : Cached server request
        · obtain ⟨msg, fresh, added, holds, done⟩ := consults.1 cached
          refine responses.add ?_ done
          rw [← holds.pkt] at response
          exact response
        · rw [consults.2 cached]
          exact responses
    | _ =>
      simp only [here] at consults
      rw [consults]
      exact responses
  | _ =>
    cases consults
    exact responses

/-! ### The replies -/

/-- The server and its cache. -/
structure Proxy where
  server : Server
  cache : Cache

/-- The steps of a server with a master database and a cache. -/
def ProxyStep (rootZone : List MasterZone) (proxy : Proxy) (label : Action × List Event)
    (next : Proxy) : Prop :=
  Step proxy.server label next.server ∧
    Consults rootZone proxy.server proxy.cache label.1 next.cache

/-- A query that a worker handles asks one question, and what it asks for is found or can be asked
of a server. -/
def Answerable (server : Server) (action : Action) : Prop :=
  match action with
  | .worker thread lookup =>
    match server.workers thread with
    | .handler request => (server.buffer request).pkt.opt &&& dnsOptQR = 0 →
        (server.buffer request).pkt.qdcount = 0x0100 ∧ (lookup ≠ none ∨ server.srvrConnectors ≠ [])
    | _ => True
  | _ => True

/-- A step that sends a query to its next server only from the end of the queue, and handles only
queries that can be answered. -/
def KeepsReplies (proxy : Proxy) (label : Action × List Event) : Prop :=
  LastRetried proxy.server label ∧ Answerable proxy.server label.1

structure RepliesTo (asked : Story) (dest : Connector) (pkt : Packet) : Prop where
  isQuery : asked.message.pkt.opt &&& dnsOptQR = 0
  dest : dest = ⟨asked.conn.sock, asked.message.sender⟩
  id : pkt.id = asked.message.pkt.id
  isResponse : pkt.opt &&& dnsOptQR ≠ 0

/-- What the workers are about to send to clients are replies. -/
def Replying (server : Server) (past : List Event) : Prop :=
  ∀ thread request dest, server.workers thread = .send request none false (some dest) →
    ∃ asked, storyOf request past = some asked ∧
      RepliesTo asked dest (server.buffer request).pkt

section Steps

variable {rootZone : List MasterZone} {server next : Server} {queue ready : List BufRef}
  {past events : List Event} {thread : Nat} {request : BufRef} {action : Action}
  {lookup : Option Answer} {dest : Connector}

/-- A step of the others leaves the buffers in the hands of a worker alone. -/
theorem Move.held_alone (inv : Inv server queue ready) (move : Move server action events next)
    (other : ∀ lookup, action ≠ .worker thread lookup) {ref : BufRef}
    (held : ref ∈ (server.workers thread).held) : Alone server next events ref := by
  have apart : ∀ owner, owner ≠ Owner.worker thread → ref ∉ places server queue ready owner :=
    fun owner elsewhere member => elsewhere (inv.single owner (.worker thread) member held)
  have actor : ∀ {acting lookup}, action = .worker acting lookup → acting ≠ thread := by
    rintro acting lookup rfl rfl
    exact other lookup rfl
  -- what the acting worker has, and what is in the queue, is not in the hands of this one
  have notHeld : ∀ {acting lookup other}, action = .worker acting lookup →
      other ∈ (server.workers acting).held → ref ≠ other := by
    rintro acting lookup other acts member rfl
    exact apart (.worker acting) (by simpa using actor acts) member
  have notPending : ∀ {acting other}, other ∈ (server.workers acting).pending → ref ≠ other := by
    rintro acting other member rfl
    exact apart (.pending acting) nofun member
  have notQueued : ∀ {other}, other ∈ queue → ref ≠ other := by
    rintro other member rfl
    exact apart .queue nofun member
  have notMine : ∀ {other}, other ∈ server.main.held → ref ≠ other := by
    rintro other member rfl
    exact apart .main nofun member
  cases move with
  | take here _ => exact ⟨rfl, by simp [Quiet, Event.Touches]⟩
  | lose here _ _ => exact ⟨rfl, by simp [Quiet, Event.Touches]⟩
  | answer here _ _ =>
    exact alone_of_ne (notHeld rfl (by rw [here]; exact List.mem_cons_self))
      (by simp [Quiet, Event.Touches]) rfl
  | retry here _ search _ _ =>
    exact alone_of_ne (notQueued (inv.mem_of_found search)) (by simp [Quiet, Event.Touches]) rfl
  | reply _ _ here _ _ =>
    exact alone_of_ne (notHeld rfl (by rw [here]; exact List.mem_cons_self)) (quiet_nil ref) rfl
  | accept here _ _ =>
    exact alone_of_ne (notHeld rfl (by rw [here]; exact List.mem_cons_self)) (quiet_nil ref) rfl
  | number here =>
    exact alone_of_ne (notPending (by rw [here]; exact List.mem_cons_self)) (quiet_nil ref) rfl
  | @send acting _ request tmpQ saveRq dest here =>
    refine ⟨rfl, ?_⟩
    cases dest with
    | none => exact quiet_nil ref
    | some dest =>
      intro event member
      rw [List.mem_singleton.mp member]
      cases saveRq with
      | true => exact not_false
      | false =>
        cases tmpQ with
        | none => exact not_false
        | some query =>
          exact (notHeld rfl (show query ∈ (server.workers acting).held by
            rw [here]; simp [Worker.held])).symm
  | enqueue here => exact ⟨rfl, by simp [Quiet, Event.Touches]⟩
  | @select ready here => cases ready <;> exact ⟨rfl, quiet_nil ref⟩
  | @scan fds tmpConn here =>
    refine ⟨?_, quiet_nil ref⟩
    cases tmpConn with
    | nil => rfl
    | cons conn rest =>
      simp only [scanStep]
      split
      · simp only [takeBuffer]
        split <;> rfl
      · rfl
  | @receive message fds conn rest tmpQ here =>
    have distinct : ref ≠ tmpQ := notMine (by rw [here]; exact List.mem_cons_self)
    refine alone_of_ne distinct ?_ rfl
    by_cases short : message.datalen < 17
    · simp [receiveStep, short, Quiet]
    · simp [receiveStep, short, Quiet, Event.Touches, distinct.symm]
  | giveBack here => exact ⟨rfl, quiet_nil ref⟩
  | ready here => exact ⟨rfl, by simp [Quiet, Event.Touches]⟩
  | expire here pass =>
    have passed := passing_rule (motive := fun now past =>
      now.workers = server.workers ∧ now.buffer ref = server.buffer ref ∧ Quiet ref past) ?_ ?_
      (inv.passing here) ⟨rfl, rfl, quiet_nil ref⟩ pass
    · exact ⟨passed.2.2.1, passed.2.2.2⟩
    · rintro now tmpQ past asked following further passing ⟨workers, buffer, quiet⟩ servers
      have distinct : ref ≠ tmpQ := by
        rintro rfl
        have held' : ref ∈ places now (outstanding queue past) ready (.worker thread) := by
          simpa [places, regionsOf, workers] using held
        cases passing.inv.single .queue (.worker thread) passing.mem held'
      refine ⟨workers, (Function.update_of_ne distinct ..).trans buffer, ?_⟩
      exact List.forall_mem_append.mpr ⟨quiet, by simp [Server.forward, Event.Touches]⟩
    · rintro now tmpQ past passing ⟨workers, buffer, quiet⟩
      exact ⟨workers, buffer, List.forall_mem_append.mpr ⟨quiet, by simp [Event.Touches]⟩⟩
  | tick => exact ⟨rfl, quiet_nil ref⟩

/-- Who is about to reply has handled a query. -/
theorem Move.replies (move : Move server (.worker thread lookup) events next)
    (worker : next.workers thread = .send request none false (some dest)) :
    server.workers thread = .handler request ∧
      (server.buffer request).pkt.opt &&& dnsOptQR = 0 ∧
      dest = (server.buffer request).client := by
  have updated : ∀ {worker : Worker}, Function.update server.workers thread worker thread = worker :=
    Function.update_self ..
  cases move with
  | reply _ _ here query _ =>
    cases updated.symm.trans worker
    exact ⟨here, query, rfl⟩
  | @send _ _ _ _ saveRq _ _ => cases saveRq <;> cases updated.symm.trans worker
  | _ => cases updated.symm.trans worker

/-- What is done with a query that can be answered: what is sent to its client is a response. -/
theorem handleQuery_reply (single : (server.buffer request).pkt.qdcount = 0x0100)
    (known : lookup ≠ none ∨ server.srvrConnectors ≠ [])
    (response : ∀ answer, lookup = some answer → answer.pkt.opt &&& dnsOptQR ≠ 0)
    (worker : (handleQuery server thread request lookup).workers thread =
      .send request none false (some dest)) :
    ((handleQuery server thread request lookup).buffer request).pkt.id =
        (server.buffer request).pkt.id ∧
      ((handleQuery server thread request lookup).buffer request).pkt.opt &&& dnsOptQR ≠ 0 := by
  unfold handleQuery at worker ⊢
  dsimp only at worker ⊢
  rw [if_neg (not_not.mpr single)] at worker ⊢
  cases lookup with
  | some answer =>
    simp only [Server.setWorker, Server.setBuffer, Function.update_self]
    exact ⟨trivial, response answer rfl⟩
  | none =>
    cases servers : server.srvrConnectors with
    | nil => exact absurd servers (known.resolve_left (not_not.mpr rfl))
    | cons first further =>
      simp only [servers, Server.setWorker, Function.update_self] at worker
      cases worker

/-- One step of the server with its cache. -/
theorem Replying.step (replying : Replying server past) (inv : Inv server queue ready)
    (fits : Fits server queue ready past) {cache cache' : Cache} (responses : cache.Responses)
    (step : ProxyStep rootZone ⟨server, cache⟩ (action, events) ⟨next, cache'⟩)
    (keeps : KeepsReplies ⟨server, cache⟩ (action, events)) : Replying next (past ++ events) := by
  intro thread request dest worker
  have move := step_moves step.1
  by_cases acts : ∃ lookup, action = .worker thread lookup
  · obtain ⟨lookup, rfl⟩ := acts
    obtain ⟨here, query, rfl⟩ := move.replies worker
    have handled : next = handleQuery server thread request lookup ∧ events = [] := by
      have done : workerStep server thread lookup = .ok (next, events) := step.1
      rw [workerStep, here] at done
      simp only [query] at done
      cases done
      exact ⟨rfl, rfl⟩
    obtain ⟨rfl, rfl⟩ := handled
    have answerable : Answerable server (.worker thread lookup) := keeps.2
    simp only [Answerable] at answerable
    rw [here] at answerable
    obtain ⟨single, known⟩ := answerable query
    have looks : Looks rootZone cache (server.buffer request) lookup cache' := by
      have consults := (consults_query here query).mp step.2
      rwa [if_neg (not_not.mpr single)] at consults
    obtain ⟨id, isResponse⟩ := handleQuery_reply single known
      (fun answer same => (same ▸ looks).response responses |>.2) worker
    have filled := fits.workers thread
    rw [here] at filled
    obtain ⟨story, told, filled⟩ := filled
    rw [List.append_nil]
    refine ⟨story, told, ?_, filled.client, ?_, isResponse⟩
    · rw [← filled.pkt]
      exact query
    · rw [id, filled.pkt]
  · have other : ∀ lookup, action ≠ .worker thread lookup := fun lookup same => acts ⟨lookup, same⟩
    rw [move.workers_other other] at worker
    obtain ⟨asked, told, replies⟩ := replying thread request dest worker
    have kept := move.held_alone inv other (show request ∈ (server.workers thread).held by
      rw [worker]
      exact List.mem_cons_self)
    refine ⟨_, storyOf_append told kept.quiet, replies.isQuery, replies.dest, ?_, ?_⟩
    · rw [kept.buffer]
      exact replies.id
    · rw [kept.buffer]
      exact replies.isResponse

/-- A client is sent an answer to its query. -/
def Event.Answers (query : BufRef) (dest : Connector) (pkt : Packet) : Event → Prop
  | .answered other target sent _ => other = query ∧ target = dest ∧ sent = pkt
  | .relayed _ other target sent _ => other = query ∧ target = dest ∧ sent = pkt
  | _ => False

theorem Replying.answers (replying : Replying server past) (inv : Inv server queue ready)
    (fits : Fits server queue ready past) (move : Move server action events next) {event : Event}
    (member : event ∈ events) {query : BufRef} {pkt : Packet} (answers : event.Answers query dest pkt) :
    ∃ asked, storyOf query past = some asked ∧ RepliesTo asked dest pkt := by
  have quiet : ∀ {single : Event}, event ∈ [single] → ¬ single.Answers query dest pkt →
      ∃ asked, storyOf query past = some asked ∧ RepliesTo asked dest pkt := by
    intro single sent silent
    rw [List.mem_singleton.mp sent] at answers
    exact absurd answers silent
  cases move with
  | @send thread _ request tmpQ saveRq target here =>
    cases target with
    | none => cases member
    | some target =>
      have sent := List.mem_singleton.mp member
      have own := fits.workers thread
      rw [here] at own
      cases saveRq with
      | true =>
        rw [sent] at answers
        cases answers
      | false =>
        cases tmpQ with
        | none =>
          rw [sent] at answers
          obtain ⟨rfl, rfl, rfl⟩ := answers
          exact replying thread request target here
        | some asking =>
          rw [sent] at answers
          obtain ⟨rfl, rfl, rfl⟩ := answers
          obtain ⟨answer, asked, client, told, told', same, relays⟩ := own
          cases same
          have asks := relays.waits.asks
          refine ⟨asked, told', asks.isQuery, ?_, ?_, ?_⟩
          · rw [relays.dest, asks.client]
          · rw [relays.pkt, asks.srcID]
          · rw [relays.pkt]
            exact relays.isResponse
  | @receive message fds conn rest tmpQ here =>
    simp only [receiveStep] at member
    split at member
    · cases member
    · exact quiet member not_false
  | expire here pass =>
    have silent := (passing_rule (motive := fun _ past => ∀ event ∈ past, ¬ event.Answers query dest pkt)
      (fun _ _ _ _ _ _ _ none _ => List.forall_mem_append.mpr ⟨none, by simp [Server.forward, Event.Answers]⟩)
      (fun _ _ _ _ none => List.forall_mem_append.mpr ⟨none, by simp [Event.Answers]⟩)
      (inv.passing here) (List.forall_mem_nil _) pass).2
    exact absurd answers (silent event member)
  | take here _ => exact quiet member not_false
  | lose here _ _ => exact quiet member not_false
  | answer here _ _ => exact quiet member not_false
  | retry here _ _ _ _ => exact quiet member not_false
  | enqueue here => exact quiet member not_false
  | ready here => exact quiet member not_false
  | _ => cases member

end Steps

section Runs

variable {rootZone : List MasterZone} {start final next : Proxy}
  {labels : List (Action × List Event)}

theorem run_replying (started : start.server.Started) (responses : start.cache.Responses)
    (run : Run (Under (ProxyStep rootZone) KeepsReplies) start labels final) :
    Inv final.server (queueOf labels) (unread [] (eventsOf labels)) ∧
      Fits final.server (queueOf labels) (unread [] (eventsOf labels)) (eventsOf labels) ∧
      Replying final.server (eventsOf labels) ∧ final.cache.Responses := by
  refine @Run.history _ _ _ (fun past proxy =>
    Inv proxy.server (queueOf past) (unread [] (eventsOf past)) ∧
      Fits proxy.server (queueOf past) (unread [] (eventsOf past)) (eventsOf past) ∧
      Replying proxy.server (eventsOf past) ∧ proxy.cache.Responses) _ _ [] _ run ?_ ?_
  · refine ⟨started.inv, ⟨nofun, nofun, fun thread => ?_, ?_⟩, fun thread request dest worker => ?_,
      responses⟩
    · rw [started.workers]
      trivial
    · rw [started.main]
      trivial
    · rw [started.workers] at worker
      cases worker
  · rintro past proxy ⟨action, events⟩ next ⟨inv, fits, replying, responses⟩ ⟨step, keeps⟩
    have move := step_moves step.1
    have story : eventsOf (past ++ [(action, events)]) = eventsOf past ++ events := by
      simp [eventsOf]
    rw [queueOf, story, outstanding_append, unread_append]
    exact ⟨inv.move keeps.1 move, fits.move inv move, replying.step inv fits responses step keeps,
      step.2.responses responses⟩

/-- In every run whose steps keep the queue and handle only queries that can be answered, what a
client is sent is a response under the ID of its query. -/
theorem replies_are_responses (started : start.server.Started) (responses : start.cache.Responses)
    (run : Run (Under (ProxyStep rootZone) KeepsReplies) start labels final) {action : Action}
    {events : List Event} (step : Under (ProxyStep rootZone) KeepsReplies final (action, events) next)
    {event : Event} (member : event ∈ events) {query : BufRef} {dest : Connector} {pkt : Packet}
    (answers : event.Answers query dest pkt) :
    ∃ asked, storyOf query (eventsOf labels) = some asked ∧ RepliesTo asked dest pkt := by
  obtain ⟨inv, fits, replying, _⟩ := run_replying started responses run
  exact replying.answers inv fits (step_moves step.1.1) member answers

end Runs

theorem qxdnsCacheInit_responses (max : Nat) (ttl : Int) : (qxdnsCacheInit max ttl).Responses := by
  intro record member
  cases List.eq_of_mem_replicate member

/-- The query that a step handles, and what the lookups find. -/
def handled (server : Server) : Action → Option (Buffer × Option Answer)
  | .worker thread lookup =>
    match server.workers thread with
    | .handler request => some (server.buffer request, lookup)
    | _ => none
  | _ => none

theorem handled_eq_some {server : Server} {action : Action} {query : Buffer × Option Answer}
    (asked : handled server action = some query) :
    ∃ thread request, action = .worker thread query.2 ∧
      server.workers thread = .handler request ∧ query.1 = server.buffer request := by
  cases action with
  | worker thread lookup =>
    simp only [handled] at asked
    split at asked
    · rename_i request here
      cases asked
      exact ⟨thread, request, rfl, here, rfl⟩
    · cases asked
  | _ => cases asked

theorem consults_nothing {rootZone : List MasterZone} {server : Server} {cache : Cache}
    {action : Action} (none : handled server action = none) :
    Consults rootZone server cache action cache := by
  cases action with
  | worker thread lookup =>
    simp only [handled] at none
    simp only [Consults]
    split at none
    · cases none
    · trivial
  | _ => rfl

/-- A run in which the cache stays as it is. -/
theorem run_proxy {rootZone : List MasterZone} {cache : Cache} {condition : Server → Action → Prop}
    (consults : ∀ server action, condition server action →
      Consults rootZone server cache action cache) {start final : Server}
    {labels : List (Action × List Event)}
    (run : Run (Under Step fun server label => condition server label.1) start labels final) :
    Run (Under (ProxyStep rootZone) fun proxy label => condition proxy.server label.1)
      ⟨start, cache⟩ labels ⟨final, cache⟩ := by
  induction run with
  | nil => exact .nil
  | @cons server label next labels final first _ ih =>
    exact .cons ⟨⟨first.1, consults server label.1 first.2⟩, first.2⟩ ih

def TwoQuestions (server : Server) (action : Action) : Prop :=
  ∀ query ∈ handled server action,
    query.1.pkt.opt &&& dnsOptQR = 0 ∧ query.1.pkt.qdcount = 0x0200

instance (server : Server) (action : Action) : Decidable (TwoQuestions server action) :=
  inferInstanceAs (Decidable (∀ query ∈ handled server action, _))

theorem two_questions_consult {rootZone : List MasterZone} {cache : Cache} (server : Server)
    (action : Action) (two : TwoQuestions server action) :
    Consults rootZone server cache action cache := by
  cases asked : handled server action with
  | none => exact consults_nothing asked
  | some query =>
    obtain ⟨isQuery, count⟩ := two query asked
    obtain ⟨thread, request, rfl, here, same⟩ := handled_eq_some asked
    rw [same] at isQuery count
    rw [consults_query here isQuery, if_pos (by rw [count]; decide)]

/-- The reply to a query with two questions is no response. -/
theorem format_error_is_no_response : ∃ labels final dest pkt datalen,
    (twoServers 4).Started ∧ Cache.Responses (qxdnsCacheInit 1 10) ∧
      Run (ProxyStep []) ⟨twoServers 4, qxdnsCacheInit 1 10⟩ labels final ∧
      .answered 3 dest pkt datalen ∈ eventsOf labels ∧ dest = ⟨3, 7⟩ ∧ pkt.id = 11 ∧
      pkt.opt &&& dnsOptQR = 0 := by
  obtain ⟨labels, final, run, seen⟩ := replay_reaches
    (guarded Server.handle TwoQuestions) (twoServers 4)
    (receives 0 3 2 ⟨7, 30, ⟨11, 0, 0x0200, [1]⟩⟩ ++ works 0 3)
    (fun _ labels => decide (.answered 3 ⟨3, 7⟩ ⟨11, dnsOptRcodeFE, 0x0200, [1]⟩ 30 ∈ eventsOf labels))
    true (by decide +kernel)
  have run := @run_proxy [] (qxdnsCacheInit 1 10) _ two_questions_consult _ _ _ (run_guarded run)
  exact ⟨labels, _, _, _, _, twoServers_started 4, qxdnsCacheInit_responses 1 10,
    run.mono fun _ _ _ step => step.1, of_decide_eq_true seen, rfl, rfl, rfl⟩

def aliasMessage : Message := ⟨aliasQuery, 21, 0, by decide, by decide⟩

def aliasAnswer : Option Answer :=
  (qxdnsMasterLookup [aliasZone] aliasMessage.pkt 21 60).toOption.map fun reply =>
    ⟨packetOf reply.pkt reply.datalen, reply.datalen⟩

def AsksAlias (server : Server) (action : Action) : Prop :=
  RetriesLast server action ∧ ∀ query ∈ handled server action,
    query.1.pkt = packetOf aliasQuery 21 ∧ query.1.datalen = 21 ∧ query.1.rcvtime = 0 ∧
      query.2 = aliasAnswer

instance (server : Server) (action : Action) : Decidable (AsksAlias server action) :=
  inferInstanceAs (Decidable (_ ∧ ∀ query ∈ handled server action, _))

theorem alias_looked_up (cache : Cache) {buffer : Buffer} (pkt : buffer.pkt = packetOf aliasQuery 21)
    (datalen : buffer.datalen = 21) (rcvtime : buffer.rcvtime = 0) :
    Looks [aliasZone] cache buffer aliasAnswer cache := by
  have holds : buffer.Holds aliasMessage := ⟨pkt.symm, datalen.symm, rcvtime.symm⟩
  obtain ⟨reply, done, found⟩ := map_eq_ok.mp (show (qxdnsMasterLookup [aliasZone] aliasMessage.pkt
    21 60).map MasterReply.found = .ok true by decide +kernel)
  rw [aliasAnswer, done]
  exact .master holds ⟨60, done⟩ found

theorem alias_consults (cache : Cache) (server : Server) (action : Action)
    (asks : AsksAlias server action) : Consults [aliasZone] server cache action cache := by
  cases asked : handled server action with
  | none => exact consults_nothing asked
  | some query =>
    obtain ⟨pkt, datalen, rcvtime, found⟩ := asks.2 query asked
    obtain ⟨thread, request, rfl, here, same⟩ := handled_eq_some asked
    rw [same] at pkt datalen rcvtime
    have isQuery : (server.buffer request).pkt.opt &&& dnsOptQR = 0 := by
      rw [pkt]
      decide
    rw [consults_query here isQuery, if_neg (by rw [pkt]; decide), found]
    exact alias_looked_up cache pkt datalen rcvtime

theorem alias_keeps (cache : Cache) (server : Server) (label : Action × List Event)
    (asks : AsksAlias server label.1) : KeepsReplies ⟨server, cache⟩ label := by
  obtain ⟨action, events⟩ := label
  refine ⟨asks.1, ?_⟩
  cases action with
  | worker thread lookup =>
    simp only [Answerable]
    split
    · rename_i request here
      obtain ⟨pkt, _, _, found⟩ := asks.2 (server.buffer request, lookup) (by simp [handled, here])
      intro _
      refine ⟨congrArg Packet.qdcount pkt, .inl ?_⟩
      rw [show lookup = aliasAnswer from found]
      decide +kernel
    · trivial
  | _ => trivial

theorem alias_reply_is_response : ∃ labels final dest pkt asked,
    Run (Under (ProxyStep [aliasZone]) KeepsReplies) ⟨twoServers 4, qxdnsCacheInit 1 10⟩ labels final ∧
      storyOf 3 (eventsOf labels) = some asked ∧ RepliesTo asked dest pkt := by
  obtain ⟨labels, final, run, seen⟩ := replay_reaches
    (guarded Server.handle AsksAlias) (twoServers 4)
    (receives 0 3 2 ⟨7, 21, packetOf aliasQuery 21⟩ ++ [.worker 0 none, .worker 0 aliasAnswer])
    (fun final _ => decide (AsksAlias final (.worker 0 none) ∧
      ((final.handle (.worker 0 none)).map Prod.snd).toOption =
        aliasAnswer.map fun answer => [.answered 3 ⟨3, 7⟩ answer.pkt answer.datalen]))
    true (by decide +kernel)
  obtain ⟨asks, done⟩ := of_decide_eq_true seen
  obtain ⟨answer, found⟩ := Option.ne_none_iff_exists'.mp (show aliasAnswer ≠ none by decide +kernel)
  rw [found] at done
  obtain ⟨next, step⟩ := handle_answers.mp done
  have run := @run_proxy [aliasZone] (qxdnsCacheInit 1 10) _ (alias_consults _) _ _ _
    (run_guarded run)
  have run := run.mono fun proxy label next step =>
    (⟨step.1, alias_keeps proxy.cache proxy.server label step.2⟩ :
      Under (ProxyStep [aliasZone]) KeepsReplies proxy label next)
  have step' : ProxyStep [aliasZone] ⟨final, qxdnsCacheInit 1 10⟩ (.worker 0 none, _)
      ⟨next, qxdnsCacheInit 1 10⟩ := ⟨step, alias_consults _ final _ asks⟩
  obtain ⟨asked, told, replies⟩ := replies_are_responses (twoServers_started 4)
    (qxdnsCacheInit_responses 1 10) run ⟨step', alias_keeps _ final _ asks⟩ List.mem_cons_self
    ⟨rfl, rfl, rfl⟩
  exact ⟨labels, _, _, _, asked, run, told, replies⟩

end QNXStuff.QXDns
