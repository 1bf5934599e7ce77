import Mathlib.Algebra.GroupWithZero.Nat
import QNXStuff.QXDns.Relays

/-! The expiry pass of the main loop: what one pass does to every query of the queue, and when
that is what the deadline asks for. -/

namespace QNXStuff.QXDns

open Execution LinkedList

/-- The query is older than the deadline of two seconds. -/
def Old (server : Server) (query : BufRef) : Prop :=
  2 < server.clock - (server.buffer query).rcvtime

/-- The test of the pass. -/
def Expired (server : Server) (query : BufRef) : Prop :=
  (server.buffer query).rcvtime < server.curTime

instance (server : Server) : DecidablePred (Old server) := fun query =>
  inferInstanceAs (Decidable (2 < server.clock - (server.buffer query).rcvtime))

instance (server : Server) : DecidablePred (Expired server) := fun query =>
  inferInstanceAs (Decidable ((server.buffer query).rcvtime < server.curTime))

def sentTo (query : BufRef) (events : List Event) : List Connector :=
  events.filterMap fun
    | .forwarded other dest _ _ => if other = query then some dest else none
    | _ => none

/-- The seconds since a query was sent to the server it is with. -/
def waited (labels : List (Action × List Event)) (query : BufRef) : Nat :=
  labels.foldl (fun seconds (action, events) =>
    match action with
    | .tick more => seconds + more
    | _ => if sentTo query events = [] then seconds else 0) 0

/-- The server that a query is with has had the time of a deadline to respond. -/
def HadTime (labels : List (Action × List Event)) (query : BufRef) : Prop :=
  2 < waited labels query

instance (labels : List (Action × List Event)) : DecidablePred (HadTime labels) := fun query =>
  inferInstanceAs (Decidable (2 < waited labels query))

/-- A pass moves every old query on by one server. One that is with its last server it takes out
when that server has had its time, and not before; young queries stay as they are. -/
structure PassRight (server : Server) (labels : List (Action × List Event))
    (events : List Event) (next : Server) : Prop where
  moved : ∀ query ∈ queueOf labels, Old server query → ∀ asked following further,
    (server.buffer query).qserver = asked :: following :: further →
    query ∈ outstanding (queueOf labels) events ∧ sentTo query events = [following] ∧
      (next.buffer query).qserver = following :: further
  removed : ∀ query ∈ queueOf labels, Old server query → ∀ asked,
    (server.buffer query).qserver = [asked] → sentTo query events = [] ∧
      (query ∈ outstanding (queueOf labels) events ↔ ¬ HadTime labels query)
  young : ∀ query ∈ queueOf labels, ¬ Old server query →
    query ∈ outstanding (queueOf labels) events ∧ sentTo query events = [] ∧
      next.buffer query = server.buffer query

/-- The pass ends, and does what it should behind the steps so far. -/
def PassesRight (server : Server) (labels : List (Action × List Event)) : Prop :=
  (∃ turns events next, Step server (.expire turns, events) next) ∧
    ∀ turns events next, Step server (.expire turns, events) next →
      PassRight server labels events next

/-- Every old query is with its last server, and the clock variable tells the queries whose last
server has had its time from the others. -/
def Deadlines (server : Server) (labels : List (Action × List Event)) : Prop :=
  ∀ query ∈ queueOf labels,
    (Old server query → (server.buffer query).qserver.length = 1 ∧
      (Expired server query ↔ HadTime labels query)) ∧
    (¬ Old server query → ¬ Expired server query)

structure PassDone (server : Server) (front back : List BufRef) (events : List Event)
    (final : Server) : Prop where
  queue : outstanding (front ++ back) events =
    front ++ back.filter fun query => ¬ Expired server query
  buffer : ∀ query, ¬ Expired server query → final.buffer query = server.buffer query
  sent : ∀ query, sentTo query events =
    if query ∈ back ∧ Expired server query then (server.buffer query).qserver.tail else []

section Pass

variable {server final : Server} {front back ready : List BufRef} {query : BufRef}
  {events : List Event}

theorem sentTo_cons_left (query other : BufRef) (why : Leaving) (events : List Event) :
    sentTo query (.left other why :: events) = sentTo query events := rfl

/-- The turns a pass takes at most. -/
def turnsFor (server : Server) (back : List BufRef) : Nat :=
  (back.map fun query => (server.buffer query).qserver.length).sum + back.length

/-- A turn that sends the query at the cursor to its next server. -/
theorem PassDone.resent {asked following : Connector} {further : List Connector}
    (servers : (server.buffer query).qserver = asked :: following :: further)
    (expired : Expired server query)
    (done : PassDone (server.setBuffer query
      { server.buffer query with qserver := following :: further }) front (query :: back)
      events final) :
    PassDone server front (query :: back) (server.forward query following :: events) final := by
  have same : ∀ other, Expired (server.setBuffer query
      { server.buffer query with qserver := following :: further }) other ↔
      Expired server other := by
    intro other
    by_cases here : other = query
    · simp [Expired, Server.setBuffer, here]
    · simp [Expired, Server.setBuffer, here]
  refine ⟨?_, fun other young => ?_, fun other => ?_⟩
  · have queue := done.queue
    simp only [same] at queue
    exact queue
  · have apart : other ≠ query := fun here => young (here ▸ expired)
    rw [done.buffer other (fun old => young ((same other).mp old))]
    exact Function.update_of_ne apart ..
  · have sent := done.sent other
    simp only [same] at sent
    by_cases here : other = query
    · subst here
      simp only [List.mem_cons_self, expired, and_self, if_true] at sent ⊢
      simp only [sentTo, Server.forward, List.filterMap_cons, if_true, servers, List.tail_cons]
      rw [sentTo] at sent
      rw [sent]
      simp [Server.setBuffer]
    · have silent : sentTo other (server.forward query following :: events) =
          sentTo other events := by
        simp [sentTo, Server.forward, Ne.symm here]
      rw [silent, sent]
      simp [Server.setBuffer, here]

/-- A turn that takes the query at the cursor out of the queue. -/
theorem PassDone.removed {asked : Connector} {lists : BufferLists}
    (nodup : (front ++ query :: back).Nodup)
    (servers : (server.buffer query).qserver = [asked]) (expired : Expired server query)
    (done : PassDone { server with lists := lists } front back events final) :
    PassDone server front (query :: back) (.left query .expired :: events) final := by
  have outside : query ∉ front := fun earlier =>
    List.disjoint_of_nodup_append nodup earlier List.mem_cons_self
  have absent : query ∉ back := (List.nodup_cons.mp nodup.of_append_right).1
  refine ⟨?_, done.buffer, fun other => ?_⟩
  · have queue := done.queue
    have erased : (front ++ query :: back).erase query = front ++ back := by
      rw [List.erase_append_right _ outside, List.erase_cons_head]
    have step : outstanding (front ++ query :: back) (.left query .expired :: events) =
        outstanding ((front ++ query :: back).erase query) events := rfl
    rw [step, erased, queue]
    simp [expired]
    rfl
  · rw [sentTo_cons_left, done.sent other]
    by_cases here : other = query
    · subst here
      simp [absent, servers, Expired]
    · exact if_congr (by simp [here, Expired]) rfl rfl

/-- A turn that finds a young query at the cursor. -/
theorem PassDone.passed (young : ¬ Expired server query)
    (done : PassDone server (front ++ [query]) back events final) :
    PassDone server front (query :: back) events final := by
  refine ⟨?_, done.buffer, fun other => ?_⟩
  · have queue := done.queue
    simpa [young] using queue
  · rw [done.sent other]
    by_cases here : other = query
    · subst here
      simp [young]
    · simp [here]

/-- On a well-formed queue of queries that have a server the pass ends. -/
theorem expirePass_done (front back : List BufRef) (turns : Nat)
    (inv : Inv server (front ++ back) ready)
    (here : server.main = .expire) (served : ∀ query ∈ back, (server.buffer query).qserver ≠ [])
    (enough : turnsFor server back ≤ turns) :
    ∃ final events, expirePass turns server back.head? = .ok (final, events) ∧
      PassDone server front back events final := by
  induction turns generalizing server front back with
  | zero =>
    cases back with
    | nil => exact ⟨server, [], rfl, by simp [outstanding], fun _ _ => rfl, by simp [sentTo]⟩
    | cons query rest => simp [turnsFor] at enough
  | succ turns ih =>
    cases back with
    | nil => exact ⟨server, [], rfl, by simp [outstanding], fun _ _ => rfl, by simp [sentTo]⟩
    | cons query rest =>
      have represents := inv.represents
      have next := represents.next_eq
      have member : query ∈ front ++ query :: rest :=
        List.mem_append_right front List.mem_cons_self
      simp only [List.head?_cons, expirePass]
      by_cases expired : (server.buffer query).rcvtime < server.curTime
      · rw [if_pos expired]
        obtain ⟨asked, behind, servers⟩ :=
          List.exists_cons_of_ne_nil (served query List.mem_cons_self)
        cases behind with
        | nil =>
          -- the last server has been asked
          have erased : (front ++ query :: rest).erase query = front ++ rest := by
            have outside : query ∉ front := fun earlier =>
              List.disjoint_of_nodup_append represents.nodup earlier List.mem_cons_self
            rw [List.erase_append_right _ outside, List.erase_cons_head]
          have shorter := inv.expire (by rw [here]; rfl) member
          rw [erased] at shorter
          obtain ⟨final, events, pass, done⟩ := ih front rest shorter here
            (fun other later => served other (List.mem_cons_of_mem query later))
            (by simp only [turnsFor, List.map_cons, List.sum_cons, List.length_cons] at enough ⊢
                omega)
          refine ⟨final, .left query .expired :: events, ?_,
            done.removed represents.nodup servers expired⟩
          simp only [servers, next, pass]
          rfl
        | cons following further =>
          have resent : Inv (server.setBuffer query { server.buffer query with
              qserver := following :: further }) (front ++ query :: rest) ready :=
            inv.pass rfl rfl rfl
          have absent : query ∉ rest :=
            (List.nodup_cons.mp represents.nodup.of_append_right).1
          have lengths : (rest.map fun other => ((server.setBuffer query { server.buffer query with
              qserver := following :: further }).buffer other).qserver.length) =
              rest.map fun other => (server.buffer other).qserver.length := by
            refine List.map_congr_left fun other later => ?_
            have apart : other ≠ query := fun same => absent (same ▸ later)
            simp [Server.setBuffer, apart]
          obtain ⟨final, events, pass, done⟩ := ih front (query :: rest) resent
            here (fun other later => by
              by_cases same : other = query
              · simp [Server.setBuffer, same]
              · simpa [Server.setBuffer, same] using served other later)
            (by simp only [turnsFor, List.map_cons, List.sum_cons, List.length_cons, lengths,
                  servers] at enough ⊢
                simp only [Server.setBuffer, Function.update_self, List.length_cons]
                omega)
          refine ⟨final, server.forward query following :: events, ?_,
            done.resent servers expired⟩
          simp only [List.head?_cons] at pass
          simp only [servers, pass]
          rfl
      · rw [if_neg expired]
        obtain ⟨final, events, pass, done⟩ := ih (front ++ [query]) rest
          (by simpa using inv) here
          (fun other later => served other (List.mem_cons_of_mem query later))
          (by simp only [turnsFor, List.map_cons, List.sum_cons, List.length_cons] at enough ⊢
              omega)
        refine ⟨final, events, ?_, done.passed expired⟩
        rw [next, pass]

theorem expirePass_unique {turns turns' : Nat} {tmpQ : Option BufRef} {events' : List Event}
    {final' : Server} (done : expirePass turns server tmpQ = .ok (final, events))
    (done' : expirePass turns' server tmpQ = .ok (final', events')) :
    final = final' ∧ events = events' := by
  induction turns generalizing server tmpQ turns' events events' with
  | zero =>
    cases tmpQ with
    | none =>
      cases done
      cases turns' <;> cases done' <;> exact ⟨rfl, rfl⟩
    | some ref => cases done
  | succ turns ih =>
    cases tmpQ with
    | none =>
      cases done
      cases turns' <;> cases done' <;> exact ⟨rfl, rfl⟩
    | some ref =>
      cases turns' with
      | zero => cases done'
      | succ turns' =>
        simp only [expirePass] at done done'
        split at done
        · rename_i expired
          rw [if_pos expired] at done'
          split at done
          · cases done
          · rename_i servers
            simp only [servers] at done'
            obtain ⟨⟨_, _⟩, rest, same⟩ := map_eq_ok.mp done
            obtain ⟨⟨_, _⟩, rest', same'⟩ := map_eq_ok.mp done'
            cases same
            cases same'
            obtain ⟨rfl, rfl⟩ := ih rest rest'
            exact ⟨rfl, rfl⟩
          · rename_i servers
            simp only [servers] at done'
            obtain ⟨⟨_, _⟩, rest, same⟩ := map_eq_ok.mp done
            obtain ⟨⟨_, _⟩, rest', same'⟩ := map_eq_ok.mp done'
            cases same
            cases same'
            obtain ⟨rfl, rfl⟩ := ih rest rest'
            exact ⟨rfl, rfl⟩
        · rename_i young
          rw [if_neg young] at done'
          exact ih done done'

end Pass

section Runs

variable {start server : Server} {labels : List (Action × List Event)}

/-- The whole pass in a state that a run reaches. -/
theorem run_pass (started : start.Started)
    (run : Run (Under Step LastRetried) start labels server) (here : server.main = .expire) :
    ∃ turns events final, Step server (.expire turns, events) { final with main := .select } ∧
      PassDone server [] (queueOf labels) events final ∧
      ∀ turns' events' next', Step server (.expire turns', events') next' →
        events' = events ∧ next' = { final with main := .select } := by
  obtain ⟨inv, fits⟩ := run_fits started run
  obtain ⟨final, events, pass, done⟩ := expirePass_done [] (queueOf labels)
    (turnsFor server (queueOf labels)) inv here
    (fun query queued => by
      obtain ⟨_, _, waits⟩ := fits.queue query queued
      exact waits.asks.servers) (Nat.le_refl _)
  rw [← inv.represents.head_eq] at pass
  have steps : ∀ turns events next, Step server (.expire turns, events) next ↔
      ∃ final, expirePass turns server server.lists.links.head = .ok (final, events) ∧
        next = { final with main := .select } := by
    intro turns events next
    show mainStep server (.expire turns) = .ok (next, events) ↔ _
    simp only [mainStep, here, map_eq_ok]
    constructor
    · rintro ⟨⟨final, _⟩, pass, same⟩
      cases same
      exact ⟨final, pass, rfl⟩
    · rintro ⟨final, pass, rfl⟩
      exact ⟨_, pass, rfl⟩
  refine ⟨_, events, final, (steps _ _ _).mpr ⟨final, pass, rfl⟩, done, ?_⟩
  intro turns' events' next' step
  obtain ⟨final', pass', rfl⟩ := (steps _ _ _).mp step
  obtain ⟨rfl, rfl⟩ := expirePass_unique pass pass'
  exact ⟨rfl, rfl⟩

/-- What the pass sends for a query, and whether it keeps it. -/
theorem PassDone.query {final : Server} {queue : List BufRef} {events : List Event}
    (done : PassDone server [] queue events final) {query : BufRef} (queued : query ∈ queue) :
    (query ∈ outstanding queue events ↔ ¬ Expired server query) ∧
      sentTo query events =
        if Expired server query then (server.buffer query).qserver.tail else [] := by
  have kept := done.queue
  rw [List.nil_append, List.nil_append] at kept
  rw [kept, done.sent query]
  simp [queued]

/-- A pass does what it should if and only if every old query is with its last server, and the
clock variable tells those whose last server has had its time from the others. -/
theorem passes_right_iff (started : start.Started)
    (run : Run (Under Step LastRetried) start labels server) (here : server.main = .expire) :
    PassesRight server labels ↔ Deadlines server labels := by
  obtain ⟨turns, events, final, step, done, only⟩ := run_pass started run here
  have served := (run_fits started run).2.queue
  constructor
  · rintro ⟨-, right⟩ query queued
    have right := right turns events _ step
    obtain ⟨kept, sent⟩ := done.query queued
    constructor
    · intro old
      obtain ⟨_, _, waits⟩ := served query queued
      obtain ⟨asked, behind, servers⟩ := List.exists_cons_of_ne_nil waits.asks.servers
      cases behind with
      | nil =>
        have stays := (right.removed query queued old asked servers).2
        exact ⟨by simp [servers], not_iff_not.mp (kept.symm.trans stays)⟩
      | cons following further =>
        -- such a query is either not sent anywhere or not kept
        obtain ⟨stays, once, -⟩ := right.moved query queued old asked following further servers
        rw [sent, if_neg (kept.mp stays)] at once
        cases once
    · intro young
      exact kept.mp (right.young query queued young).1
  · intro deadlines
    refine ⟨⟨turns, events, _, step⟩, fun turns' events' next' step' => ?_⟩
    obtain ⟨rfl, rfl⟩ := only turns' events' next' step'
    refine ⟨fun query queued old asked following further servers => ?_,
      fun query queued old asked servers => ?_, fun query queued young => ?_⟩
    · have single := ((deadlines query queued).1 old).1
      simp [servers] at single
    · obtain ⟨kept, sent⟩ := done.query queued
      have tells := ((deadlines query queued).1 old).2
      exact ⟨by simp [sent, servers], kept.trans (not_congr tells)⟩
    · obtain ⟨kept, sent⟩ := done.query queued
      have fresh := (deadlines query queued).2 young
      exact ⟨kept.mpr fresh, by simp [sent, fresh], done.buffer query fresh⟩

end Runs

/-- After a server failure a query is with the last server, and a later pass takes it out. -/
theorem last_server_expires : ∃ labels server,
    Run (Under Step LastRetried) (twoServers 4) labels server ∧ queueOf labels = [3] ∧
      Old server 3 ∧ HadTime labels 3 ∧ PassesRight server labels := by
  obtain ⟨labels, server, run, seen⟩ := replay_reaches
    (guarded Server.handle RetriesLast) (twoServers 4)
    (receives 0 3 2 (question 11 [1]) ++ works 0 5 ++
      receives 1 4 1 (response 1 1 dnsOptRcodeSF [1]) ++ works 0 4 ++ [.tick 10] ++
      (receives 0 3 2 (question 12 [2])).dropLast)
    (fun server labels => decide (queueOf labels = [3] ∧ server.main = .expire ∧
      Old server 3 ∧ Expired server 3 ∧ (server.buffer 3).qserver.length = 1 ∧
      HadTime labels 3))
    true (by decide +kernel)
  obtain ⟨queue, here, old, expired, single, time⟩ := of_decide_eq_true seen
  have run := run_guarded run
  refine ⟨labels, server, run, queue, old, time,
    (passes_right_iff (twoServers_started 4) run here).mpr ?_⟩
  rw [Deadlines, queue]
  intro query queued
  cases List.mem_singleton.mp queued
  exact ⟨fun _ => ⟨single, iff_of_true expired time⟩, fun young => absurd old young⟩

/-- An old query is sent to its second server and taken out of the queue in one pass. -/
theorem one_pass_asks_and_expires : ∃ labels server,
    (twoServers 4).Started ∧ Run Step (twoServers 4) labels server ∧ server.main = .expire ∧
      ¬ PassesRight server labels := by
  obtain ⟨labels, server, run, seen⟩ := replay_reaches Server.handle
    (twoServers 4)
    (receives 0 3 2 (question 11 [1]) ++ works 0 5 ++ [.tick 10] ++
      (receives 0 3 2 (question 12 [2])).dropLast)
    (fun server labels => decide (queueOf labels = [3] ∧ server.main = .expire ∧
      Old server 3 ∧ (server.buffer 3).qserver = [⟨4, 1⟩, ⟨5, 2⟩] ∧
      ((server.handle (.expire 9)).map Prod.snd).toOption =
        some [.forwarded 3 ⟨5, 2⟩ ⟨1, 0, 0x0100, [1]⟩ 30, .left 3 .expired]))
    true (by decide +kernel)
  obtain ⟨queue, here, old, servers, done⟩ := of_decide_eq_true seen
  obtain ⟨next, step⟩ := handle_answers.mp done
  refine ⟨labels, server, twoServers_started 4, run, here, fun right => ?_⟩
  have moved := (right.2 9 _ next step).moved 3
  rw [queue] at moved
  have kept := (moved List.mem_cons_self old _ _ _ servers).1
  exact absurd kept (by decide)

/-- A query is sent to its last server because the first one has failed, and the pass of the same
turn of the main loop takes it out. -/
theorem last_server_gets_no_time : ∃ labels server,
    (twoServers 4).Started ∧ Run (Under Step LastRetried) (twoServers 4) labels server ∧
      server.main = .expire ∧ ¬ PassesRight server labels := by
  obtain ⟨labels, server, run, seen⟩ := replay_reaches
    (guarded Server.handle RetriesLast) (twoServers 4)
    (receives 0 3 2 (question 11 [1]) ++ works 0 5 ++ [.tick 10] ++
      (receives 1 4 1 (response 1 1 dnsOptRcodeSF [1])).dropLast ++ works 0 4)
    (fun server labels => decide (queueOf labels = [3] ∧ server.main = .expire ∧
      Old server 3 ∧ Expired server 3 ∧ ¬ HadTime labels 3))
    true (by decide +kernel)
  obtain ⟨queue, here, old, expired, early⟩ := of_decide_eq_true seen
  have run := run_guarded run
  refine ⟨labels, server, twoServers_started 4, run, here, fun right => ?_⟩
  have deadlines := (passes_right_iff (twoServers_started 4) run here).mp right
  rw [Deadlines, queue] at deadlines
  exact early (((deadlines 3 List.mem_cons_self).1 old).2.mp expired)

end QNXStuff.QXDns
