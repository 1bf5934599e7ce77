import QNXStuff.QXDns.Server

/-! What can happen in one step of the DNS server, and the rule of the expiry pass. -/

namespace QNXStuff.QXDns

open Execution

/-- What can happen in one step. -/
inductive Move (server : Server) : Action → List Event → Server → Prop where
  | take {thread lookup request} (here : server.workers thread = .block)
      (top : server.lists.top .readyBuf = some request) :
      Move server (.worker thread lookup) [.taken request] ({ server with
        lists := server.lists.setTop .readyBuf (server.lists.links.next request) }.setWorker thread
          (.handler request))
  | lose {thread lookup request} (here : server.workers thread = .handler request)
      (response : (server.buffer request).pkt.opt &&& dnsOptQR ≠ 0)
      (search : findQuery server request = some none) :
      Move server (.worker thread lookup) [.lost request]
        (server.setWorker thread (.send request none false none))
  | answer {thread lookup request query} (here : server.workers thread = .handler request)
      (response : (server.buffer request).pkt.opt &&& dnsOptQR ≠ 0)
      (search : findQuery server request = some (some query)) :
      Move server (.worker thread lookup) [.left query .answered]
        (answerClient { server with lists := server.lists.unlinkQuery query } thread request query)
  | retry {thread lookup request query asked next further}
      (here : server.workers thread = .handler request)
      (response : (server.buffer request).pkt.opt &&& dnsOptQR ≠ 0)
      (search : findQuery server request = some (some query))
      (failed : Failed (server.buffer request).pkt)
      (servers : (server.buffer query).qserver = asked :: next :: further) :
      Move server (.worker thread lookup) [.left query .retried]
        (retryQuery { server with lists := server.lists.unlinkQuery query } thread request query
          next further)
  | reply {thread lookup request} (pkt : Packet) (datalen : Int)
      (here : server.workers thread = .handler request)
      (query : (server.buffer request).pkt.opt &&& dnsOptQR = 0)
      (id : pkt.id = (server.buffer request).pkt.id) :
      Move server (.worker thread lookup) []
        ((server.setBuffer request
          { server.buffer request with pkt := pkt, datalen := datalen }).setWorker thread
            (.send request none false (some (server.buffer request).client)))
  | accept {thread lookup request first further} (here : server.workers thread = .handler request)
      (query : (server.buffer request).pkt.opt &&& dnsOptQR = 0)
      (servers : server.srvrConnectors = first :: further) :
      Move server (.worker thread lookup) []
        ({ server.setBuffer request { server.buffer request with
            srcID := (server.buffer request).pkt.id, qserver := first :: further } with
          lists := server.lists.setNext request none }.setWorker thread (.number request))
  | number {thread lookup request} (here : server.workers thread = .number request) :
      Move server (.worker thread lookup) [] (numberQuery server thread request)
  | send {thread lookup request tmpQ saveRq dest}
      (here : server.workers thread = .send request tmpQ saveRq dest) :
      Move server (.worker thread lookup) (sendAndFree server thread request tmpQ saveRq dest).2
        (sendAndFree server thread request tmpQ saveRq dest).1
  | enqueue {thread lookup request} (here : server.workers thread = .queue request) :
      Move server (.worker thread lookup) [.entered request] (queueRequest server thread request).1
  | select {ready} (here : server.main = .select) :
      Move server (.select ready) [] (selectStep server ready)
  | scan {fds tmpConn} (here : server.main = .scan fds tmpConn) :
      Move server .main [] (scanStep server fds tmpConn)
  | receive {message fds conn rest tmpQ} (here : server.main = .receive fds conn rest tmpQ) :
      Move server (.recvfrom message) (receiveStep server fds conn rest tmpQ message).2
        (receiveStep server fds conn rest tmpQ message).1
  | giveBack {fds tmpConn tmpQ} (here : server.main = .giveBack fds tmpConn tmpQ) :
      Move server .main [] { server with
        lists := server.lists.push .freeBuf tmpQ, main := .scan fds tmpConn }
  | ready {fds rest tmpQ} (here : server.main = .ready fds rest tmpQ) :
      Move server .main [.filled tmpQ] { server with
        lists := server.lists.push .readyBuf tmpQ, main := .scan fds rest }
  | expire {turns events final} (here : server.main = .expire)
      (pass : expirePass turns server server.lists.links.head = .ok (final, events)) :
      Move server (.expire turns) events { final with main := .select }
  | tick {seconds} : Move server (.tick seconds) [] { server with clock := server.clock + seconds }

/-- What a step does, seen without its state. -/
theorem handle_answers {server : Server} {action : Action} {events : List Event} :
    ((server.handle action).map Prod.snd).toOption = some events ↔
      ∃ next, Step server (action, events) next := by
  cases done : server.handle action with
  | error fault => simp [Except.map, Except.toOption, Step, Answers, done]
  | ok answer =>
    obtain ⟨next, others⟩ := answer
    simp [Except.map, Except.toOption, Step, Answers, done]

section Cases

variable {server next : Server} {thread : Nat} {lookup : Option Answer} {request : BufRef}
  {events : List Event}

theorem handleResponse_moves (here : server.workers thread = .handler request)
    (response : (server.buffer request).pkt.opt &&& dnsOptQR ≠ 0)
    (done : handleResponse server thread request = .ok (next, events)) :
    Move server (.worker thread lookup) events next := by
  unfold handleResponse at done
  split at done
  · cases done
  · rename_i search
    cases done
    exact .lose here response search
  · rename_i query search
    dsimp only at done
    split at done
    · rename_i failed
      split at done
      · cases done
      · cases done
        exact .answer here response search
      · rename_i servers
        cases done
        exact .retry here response search failed servers
    · cases done
      exact .answer here response search

theorem handleQuery_moves (here : server.workers thread = .handler request)
    (query : (server.buffer request).pkt.opt &&& dnsOptQR = 0) :
    Move server (.worker thread lookup) [] (handleQuery server thread request lookup) := by
  unfold handleQuery
  dsimp only
  split
  · exact .reply _ (server.buffer request).datalen here query rfl
  · split
    · rename_i answer
      exact .reply { answer.pkt with id := (server.buffer request).pkt.id } answer.datalen here
        query rfl
    · split
      · exact .reply _ (server.buffer request).datalen here query rfl
      · rename_i servers
        exact .accept here query servers

theorem workerStep_moves (done : workerStep server thread lookup = .ok (next, events)) :
    Move server (.worker thread lookup) events next := by
  unfold workerStep at done
  split at done
  · rename_i here
    simp only [threadBlock, BufferLists.pop] at done
    cases top : server.lists.top .readyBuf with
    | none =>
      rw [top] at done
      cases done
    | some request =>
      rw [top] at done
      cases done
      exact .take here top
  · rename_i request here
    split at done
    · rename_i response
      exact handleResponse_moves here response done
    · rename_i query
      cases done
      exact handleQuery_moves here (not_not.mp query)
  · rename_i here
    cases done
    exact .number here
  · rename_i here
    cases done
    exact .send here
  · rename_i here
    cases done
    exact .enqueue here

theorem mainStep_moves {action : Action} (done : mainStep server action = .ok (next, events)) :
    Move server action events next := by
  cases action with
  | worker thread lookup => cases done
  | tick seconds => cases done
  | select ready =>
    simp only [mainStep] at done
    split at done
    · rename_i here
      cases done
      exact .select here
    · cases done
  | recvfrom message =>
    simp only [mainStep] at done
    split at done
    · rename_i here
      cases done
      exact .receive here
    · cases done
  | main =>
    simp only [mainStep] at done
    split at done
    · rename_i here
      cases done
      exact .scan here
    · rename_i here
      cases done
      exact .giveBack here
    · rename_i here
      cases done
      exact .ready here
    · cases done
  | expire turns =>
    simp only [mainStep] at done
    split at done
    · rename_i here
      cases pass : expirePass turns server server.lists.links.head with
      | error fault =>
        rw [pass] at done
        cases done
      | ok ending =>
        rw [pass] at done
        cases done
        exact .expire here pass
    · cases done

theorem step_moves {action : Action} (step : Step server (action, events) next) :
    Move server action events next := by
  have done : server.handle action = .ok (next, events) := step
  cases action with
  | worker thread lookup => exact workerStep_moves done
  | tick seconds =>
    cases done
    exact .tick
  | select ready => exact mainStep_moves done
  | recvfrom message => exact mainStep_moves done
  | main => exact mainStep_moves done
  | expire turns => exact mainStep_moves done

/-- What every turn of the expiry pass keeps holds at its end. `past` are the events of the
turns before. -/
theorem expirePass_rule {motive : Server → Option BufRef → List Event → Prop}
    (resent : ∀ server tmpQ past asked next further, motive server (some tmpQ) past →
      (server.buffer tmpQ).rcvtime < server.curTime →
      (server.buffer tmpQ).qserver = asked :: next :: further →
      motive (server.setBuffer tmpQ { server.buffer tmpQ with qserver := next :: further })
        (some tmpQ) (past ++ [server.forward tmpQ next]))
    (removed : ∀ server tmpQ past asked, motive server (some tmpQ) past →
      (server.buffer tmpQ).rcvtime < server.curTime → (server.buffer tmpQ).qserver = [asked] →
      motive { server with lists := (server.lists.unlinkQuery tmpQ).push .freeBuf tmpQ }
        (server.lists.links.next tmpQ) (past ++ [.left tmpQ .expired]))
    (passed : ∀ server tmpQ past, motive server (some tmpQ) past →
      server.curTime ≤ (server.buffer tmpQ).rcvtime →
      motive server (server.lists.links.next tmpQ) past)
    {turns : Nat} {server final : Server} {tmpQ : Option BufRef} {past events : List Event}
    (start : motive server tmpQ past) (done : expirePass turns server tmpQ = .ok (final, events)) :
    motive final none (past ++ events) := by
  induction turns generalizing server tmpQ past events with
  | zero =>
    cases tmpQ with
    | none =>
      cases done
      simpa using start
    | some ref => cases done
  | succ turns ih =>
    cases tmpQ with
    | none =>
      cases done
      simpa using start
    | some ref =>
      simp only [expirePass] at done
      split at done
      · rename_i expired
        split at done
        · cases done
        · rename_i servers
          obtain ⟨ending, rest, same⟩ := map_eq_ok.mp done
          cases same
          simpa using ih (resent server ref past _ _ _ start expired servers) rest
        · rename_i servers
          obtain ⟨ending, rest, same⟩ := map_eq_ok.mp done
          cases same
          simpa using ih (removed server ref past _ start expired servers) rest
      · rename_i young
        exact ih (passed server ref past start (Int.not_lt.mp young)) done

end Cases

end QNXStuff.QXDns
