import QNXStuff.Library.Execution
import QNXStuff.QXDns.Buffers

/-! The proxy of the DNS server: the worker threads of the pool and the main loop, each of
their critical sections taken as one step. -/

namespace QNXStuff.QXDns

open Execution LinkedList

/-- `dns_connector_t`: a socket and the address it talks to. -/
structure Connector where
  sock : Nat
  addr : Nat
  deriving DecidableEq

/-- A message: the words of `dns_msg_header_t` that the server reads, as they lie in memory,
and the bytes from `DNS_DATA_BEGIN` on, with the question in front. -/
structure Packet where
  id : UInt16
  opt : UInt16
  qdcount : UInt16
  data : List UInt8
  deriving DecidableEq

def dnsOptQR : UInt16 := 0x0080
def dnsOptRcodeMask : UInt16 := 0x0F00
def dnsOptRcodeFE : UInt16 := 0x0100
def dnsOptRcodeSF : UInt16 := 0x0200
def dnsOptRcodeNE : UInt16 := 0x0300

/-- `dns_buffer_t` without its links. `sender` is the field `from`; `qserver` is the queried
server with the servers behind it, so `[]` is NULL. -/
structure Buffer where
  sender : Nat
  qclient : Connector
  qserver : List Connector
  refID : UInt16
  srcID : UInt16
  rcvtime : Int
  datalen : Int
  pkt : Packet

def Buffer.client (buffer : Buffer) : Connector := { sock := buffer.qclient.sock, addr := buffer.sender }

/-- What `recvfrom` brings. -/
structure Datagram where
  sender : Nat
  datalen : Int
  pkt : Packet
  deriving DecidableEq

/-- The answer that the master database or the cache has left in a query. The ID of the
query stays in front of it. -/
structure Answer where
  pkt : Packet
  datalen : Int
  deriving DecidableEq

/-- Where a pool thread is: in `thread_block`, or in `thread_handler` before the next
critical section. -/
inductive Worker where
  | block
  | handler (request : BufRef)
  | number (request : BufRef)
  | send (request : BufRef) (tmpQ : Option BufRef) (saveRq : Bool) (dest : Option Connector)
  | queue (request : BufRef)
  deriving DecidableEq

/-- Where the main loop is. `tmpConn` are the connectors it has yet to look at, the current
one first, and `fds` are the sockets `select` has marked. -/
inductive MainLoop where
  | select
  | scan (fds : List Nat) (tmpConn : List Connector)
  | receive (fds : List Nat) (conn : Connector) (rest : List Connector) (tmpQ : BufRef)
  | giveBack (fds : List Nat) (tmpConn : List Connector) (tmpQ : BufRef)
  | ready (fds : List Nat) (rest : List Connector) (tmpQ : BufRef)
  | expire
  deriving DecidableEq

/-- The globals, the buffers, the threads and `cur_time` of the main loop. `clock` is what
`time` returns. -/
structure Server where
  lists : BufferLists
  buffer : BufRef → Buffer
  intReqNum : UInt16
  workers : Nat → Worker
  main : MainLoop
  clock : Int
  curTime : Int
  bindConnectors : List Connector
  srvrConnectors : List Connector

/-- Why a step does not come about: the thread waits for something else, a loop has not come
to its end, or NULL is followed. -/
inductive Fault where
  | blocked
  | hang
  | wild
  deriving DecidableEq

/-- Why a query leaves the queue. -/
inductive Leaving where
  | answered
  | retried
  | expired
  deriving DecidableEq

/-- What a step receives and sends (`forwarded` to an external server, `relayed` and `answered`
to a client), what it does to the list of filled buffers and to the queue of outstanding
queries, and the warning about a lost query. -/
inductive Event where
  | received (ref : BufRef) (conn : Connector) (message : Datagram)
  | filled (ref : BufRef)
  | taken (ref : BufRef)
  | entered (query : BufRef)
  | left (query : BufRef) (why : Leaving)
  | forwarded (query : BufRef) (dest : Connector) (pkt : Packet) (datalen : Int)
  | relayed (response query : BufRef) (dest : Connector) (pkt : Packet) (datalen : Int)
  | answered (query : BufRef) (dest : Connector) (pkt : Packet) (datalen : Int)
  | lost (response : BufRef)
  deriving DecidableEq

namespace Server

def setBuffer (server : Server) (ref : BufRef) (buffer : Buffer) : Server :=
  { server with buffer := Function.update server.buffer ref buffer }

def setWorker (server : Server) (thread : Nat) (worker : Worker) : Server :=
  { server with workers := Function.update server.workers thread worker }

/-- `sendto` an external server -/
def forward (server : Server) (query : BufRef) (dest : Connector) : Event :=
  .forwarded query dest (server.buffer query).pkt (server.buffer query).datalen

end Server

/-! ### The pool threads -/

def threadBlock (server : Server) (thread : Nat) : Except Fault (Server × List Event) :=
  match server.lists.pop .readyBuf with
  | (none, _) => .error .blocked
  | (some request, lists) =>
    .ok ({ server with lists := lists }.setWorker thread (.handler request), [.taken request])

/-- "find initial query" -/
def findQuery (server : Server) (request : BufRef) : Option (Option BufRef) :=
  findFrom server.lists.links.next
    (fun ref => (server.buffer ref).refID = (server.buffer request).pkt.id)
    (server.lists.fresh + 1) server.lists.links.head

/-- "server failure", "not implemented" or "refused" -/
def Failed (pkt : Packet) : Prop :=
  pkt.opt &&& dnsOptRcodeMask = dnsOptRcodeSF ∨ dnsOptRcodeNE < pkt.opt &&& dnsOptRcodeMask

instance (pkt : Packet) : Decidable (Failed pkt) :=
  inferInstanceAs (Decidable (pkt.opt &&& dnsOptRcodeMask = dnsOptRcodeSF ∨
    dnsOptRcodeNE < pkt.opt &&& dnsOptRcodeMask))

/-- "answer client" with the ID it has used. -/
def answerClient (server : Server) (thread : Nat) (request query : BufRef) : Server :=
  let buffer := server.buffer request
  let pkt := { buffer.pkt with id := (server.buffer query).srcID }
  (server.setBuffer request { buffer with pkt := pkt }).setWorker thread
    (.send request (some query) false (some (server.buffer query).client))

/-- "try to send to another server": the two buffers change their places. -/
def retryQuery (server : Server) (thread : Nat) (request query : BufRef) (next : Connector)
    (further : List Connector) : Server :=
  (server.setBuffer query { server.buffer query with qserver := next :: further }).setWorker thread
    (.send query (some request) true (some next))

/-- "Here we handle a response from one of the external servers". -/
def handleResponse (server : Server) (thread : Nat) (request : BufRef) :
    Except Fault (Server × List Event) :=
  match findQuery server request with
  | none => .error .hang
  | some none => .ok (server.setWorker thread (.send request none false none), [.lost request])
  | some (some query) =>
    let server := { server with lists := server.lists.unlinkQuery query }
    if Failed (server.buffer request).pkt then
      match (server.buffer query).qserver with
      | [] => .error .wild
      | [_] => .ok (answerClient server thread request query, [.left query .answered])
      | _ :: next :: further =>
        .ok (retryQuery server thread request query next further, [.left query .retried])
    else .ok (answerClient server thread request query, [.left query .answered])

/-- "Here we handle a request from client"; `lookup` is what the two lookups find. -/
def handleQuery (server : Server) (thread : Nat) (request : BufRef) (lookup : Option Answer) :
    Server :=
  let buffer := server.buffer request
  let reply := Worker.send request none false (some buffer.client)
  if buffer.pkt.qdcount ≠ 0x0100 then
    let pkt := { buffer.pkt with opt := buffer.pkt.opt ||| dnsOptRcodeFE }
    (server.setBuffer request { buffer with pkt := pkt }).setWorker thread reply
  else
    match lookup with
    | some answer =>
      let pkt := { answer.pkt with id := buffer.pkt.id }
      (server.setBuffer request { buffer with pkt := pkt, datalen := answer.datalen }).setWorker
        thread reply
    | none =>
      match server.srvrConnectors with
      | [] =>
        let pkt := { buffer.pkt with opt := buffer.pkt.opt ||| dnsOptRcodeNE }
        (server.setBuffer request { buffer with pkt := pkt }).setWorker thread reply
      | first :: further =>
        let server := server.setBuffer request
          { buffer with srcID := buffer.pkt.id, qserver := first :: further }
        { server with lists := server.lists.setNext request none }.setWorker thread (.number request)

/-- `request->ref_ID = IntReqNum++;` and the choice of the first external server. -/
def numberQuery (server : Server) (thread : Nat) (request : BufRef) : Server :=
  let buffer := server.buffer request
  let pkt := { buffer.pkt with id := server.intReqNum }
  let server := server.setBuffer request { buffer with refID := server.intReqNum, pkt := pkt }
  { server with intReqNum := server.intReqNum + 1 }.setWorker thread
    (.send request none true server.srvrConnectors.head?)

/-- `sendto`, seen by what is done with the two buffers. -/
def sendto (server : Server) (request : BufRef) (tmpQ : Option BufRef) (saveRq : Bool)
    (dest : Connector) : Event :=
  let buffer := server.buffer request
  match saveRq, tmpQ with
  | true, _ => server.forward request dest
  | false, some query => .relayed request query dest buffer.pkt buffer.datalen
  | false, none => .answered request dest buffer.pkt buffer.datalen

/-- `if(tmp_q != NULL)`: "return buffers back to free list" -/
def freeTmp (lists : BufferLists) : Option BufRef → BufferLists
  | some tmpQ => lists.push .freeBuf tmpQ
  | none => lists

/-- `sendto`, and "if appropriate - return buffers back to free list". -/
def sendAndFree (server : Server) (thread : Nat) (request : BufRef) (tmpQ : Option BufRef)
    (saveRq : Bool) (dest : Option Connector) : Server × List Event :=
  let lists := freeTmp server.lists tmpQ
  let lists := if saveRq then lists else lists.push .freeBuf request
  ({ server with lists := lists }.setWorker thread (if saveRq then .queue request else .block),
    (dest.map (sendto server request tmpQ saveRq)).toList)

/-- "if we need to add request to queue - do it" -/
def queueRequest (server : Server) (thread : Nat) (request : BufRef) : Server × List Event :=
  ({ server with lists := server.lists.appendQuery request }.setWorker thread .block,
    [.entered request])

/-- The next step of a pool thread. -/
def workerStep (server : Server) (thread : Nat) (lookup : Option Answer) :
    Except Fault (Server × List Event) :=
  match server.workers thread with
  | .block => threadBlock server thread
  | .handler request =>
    if (server.buffer request).pkt.opt &&& dnsOptQR ≠ 0 then handleResponse server thread request
    else .ok (handleQuery server thread request lookup, [])
  | .number request => .ok (numberQuery server thread request, [])
  | .send request tmpQ saveRq dest => .ok (sendAndFree server thread request tmpQ saveRq dest)
  | .queue request => .ok (queueRequest server thread request)

/-! ### The main loop -/

/-- The end of `select`: the marked sockets, or nothing when its return code is not
positive. -/
def selectStep (server : Server) (ready : Option (List Nat)) : Server :=
  match ready with
  | none => { server with curTime := server.curTime - 2, main := .expire }
  | some fds => { server with curTime := server.clock, main := .scan fds server.bindConnectors }

/-- "get the first available free buffer", "if there were no free buffers - allocate new one" -/
def takeBuffer (server : Server) : BufRef × Server :=
  match server.lists.pop .freeBuf with
  | (some ref, lists) => (ref, { server with lists := lists })
  | (none, lists) => (lists.malloc.1, { server with lists := lists.malloc.2 })

/-- One turn of the loop over the connectors. -/
def scanStep (server : Server) (fds : List Nat) : List Connector → Server
  | [] => { server with curTime := server.curTime - 2, main := .expire }
  | conn :: rest =>
    if conn.sock ∈ fds then
      let (ref, server) := takeBuffer server
      { server with main := .receive fds conn rest ref }
    else { server with main := .scan fds rest }

/-- "recv() the new message" into the cleared buffer. A short one is given back, and the loop
comes to the same connector again. -/
def receiveStep (server : Server) (fds : List Nat) (conn : Connector) (rest : List Connector)
    (tmpQ : BufRef) (message : Datagram) : Server × List Event :=
  let short := message.datalen < 17
  let server := server.setBuffer tmpQ
    { sender := message.sender, qclient := conn, qserver := [], refID := 0, srcID := 0
      rcvtime := if short then 0 else server.curTime
      datalen := message.datalen, pkt := message.pkt }
  let main := if short then .giveBack fds (conn :: rest) tmpQ else .ready fds rest tmpQ
  ({ server with lists := server.lists.clear tmpQ, main := main },
    if short then [] else [.received tmpQ conn message])

/-- "remove expired queries or resend them to other servers", with at most `turns` turns of
the loop. -/
def expirePass : Nat → Server → Option BufRef → Except Fault (Server × List Event)
  | _, server, none => .ok (server, [])
  | 0, _, some _ => .error .hang
  | turns + 1, server, some tmpQ =>
    let buffer := server.buffer tmpQ
    let tq := server.lists.links.next tmpQ
    if buffer.rcvtime < server.curTime then
      match buffer.qserver with
      | [] => .error .wild
      | _ :: next :: further =>
        (expirePass turns (server.setBuffer tmpQ { buffer with qserver := next :: further })
          (some tmpQ)).map fun (final, events) => (final, server.forward tmpQ next :: events)
      | [_] =>
        let lists := (server.lists.unlinkQuery tmpQ).push .freeBuf tmpQ
        (expirePass turns { server with lists := lists } tq).map
          fun (final, events) => (final, .left tmpQ .expired :: events)
    else expirePass turns server tq

/-- Whose step is next, and what it gets from outside. -/
inductive Action where
  | worker (thread : Nat) (lookup : Option Answer)
  | select (ready : Option (List Nat))
  | recvfrom (message : Datagram)
  | main
  | expire (turns : Nat)
  | tick (seconds : Nat)

def mainStep (server : Server) : Action → Except Fault (Server × List Event)
  | .select ready =>
    match server.main with
    | .select => .ok (selectStep server ready, [])
    | _ => .error .blocked
  | .recvfrom message =>
    match server.main with
    | .receive fds conn rest tmpQ => .ok (receiveStep server fds conn rest tmpQ message)
    | _ => .error .blocked
  | .main =>
    match server.main with
    | .scan fds tmpConn => .ok (scanStep server fds tmpConn, [])
    | .giveBack fds tmpConn tmpQ =>
      .ok ({ server with
        lists := server.lists.push .freeBuf tmpQ, main := .scan fds tmpConn }, [])
    | .ready fds rest tmpQ =>
      .ok ({ server with
        lists := server.lists.push .readyBuf tmpQ, main := .scan fds rest }, [.filled tmpQ])
    | _ => .error .blocked
  | .expire turns =>
    match server.main with
    | .expire =>
      (expirePass turns server server.lists.links.head).map
        fun (final, events) => ({ final with main := .select }, events)
    | _ => .error .blocked
  | _ => .error .blocked

/-- One step of a thread, or of the clock. -/
def Server.handle (server : Server) : Action → Except Fault (Server × List Event)
  | .worker thread lookup => workerStep server thread lookup
  | .tick seconds => .ok ({ server with clock := server.clock + seconds }, [])
  | action => mainStep server action

def Step : Server → Action × List Event → Server → Prop := Answers Server.handle

/-! ### The start -/

/-- "prepare buffers for query processing" -/
def prepareBuffers : Nat → BufferLists → BufferLists
  | 0, lists => lists
  | count + 1, lists => prepareBuffers count (lists.malloc.2.push .freeBuf lists.malloc.1)

/-- The server after `qxdns_setup`. Memory that was never written holds anything. -/
structure Server.Started (server : Server) : Prop where
  lists : ∃ blank count, server.lists = prepareBuffers count blank ∧
    blank.links.head = none ∧ blank.links.tail = none ∧ blank.top = fun _ => none
  number : server.intReqNum = 1
  workers : server.workers = fun _ => .block
  main : server.main = .select

/-! ### The queue of outstanding queries -/

/-- The queries that have entered the queue and not left it. -/
def outstanding (queue : List BufRef) (events : List Event) : List BufRef :=
  events.foldl after queue
where
  after (queue : List BufRef) : Event → List BufRef
    | .entered query => queue ++ [query]
    | .left query _ => queue.erase query
    | _ => queue

/-- The buffers that have been filled and that no worker has taken, the last one first. -/
def unread (ready : List BufRef) (events : List Event) : List BufRef :=
  events.foldl after ready
where
  after (ready : List BufRef) : Event → List BufRef
    | .filled ref => ref :: ready
    | .taken ref => ready.erase ref
    | _ => ready

def eventsOf (labels : List (Action × List Event)) : List Event := labels.flatMap Prod.snd

/-- The outstanding queries after a run. -/
def queueOf (labels : List (Action × List Event)) : List BufRef := outstanding [] (eventsOf labels)

/-- The queue is a doubly linked list of the outstanding queries, and none of its buffers is
free. -/
structure Server.WellFormed (server : Server) (queries : List BufRef) : Prop where
  once : queries.Nodup
  forward : Chain server.lists.links.next server.lists.links.head queries
  tail : server.lists.links.tail = queries.getLast?
  inverse : ∀ first ∈ queries, ∀ second ∈ queries,
    server.lists.links.next first = some second ↔ server.lists.links.prev second = some first
  first : ∀ query, server.lists.links.head = some query → server.lists.links.prev query = none
  apart : ∀ ref, Reachable server.lists.links.next server.lists.links.head ref →
    ¬ Reachable server.lists.links.next (server.lists.top .freeBuf) ref

/-- The response of a worker makes its query go to the next server. -/
def Retries (server : Server) (request query : BufRef) : Prop :=
  (server.buffer request).pkt.opt &&& dnsOptQR ≠ 0 ∧ Failed (server.buffer request).pkt ∧
    1 < (server.buffer query).qserver.length

instance (server : Server) (request query : BufRef) : Decidable (Retries server request query) :=
  inferInstanceAs (Decidable (_ ∧ _))

/-- A query goes to the next server only if it is the last one of the queue. -/
def RetriesLast (server : Server) (action : Action) : Prop :=
  match action with
  | .worker thread _ =>
    match server.workers thread with
    | .handler request =>
      match findQuery server request with
      | some (some query) => Retries server request query → server.lists.links.next query = none
      | _ => True
    | _ => True
  | _ => True

instance (server : Server) (action : Action) : Decidable (RetriesLast server action) := by
  unfold RetriesLast
  split
  · split
    · split <;> infer_instance
    · infer_instance
  · infer_instance

end QNXStuff.QXDns
