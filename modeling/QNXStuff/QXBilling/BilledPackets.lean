import QNXStuff.QXBilling.Billing
import QNXStuff.QXBilling.LogPeriods

/-! Which packets the logger can bill: those whose client is on the list that is in force for
their region. -/

namespace QNXStuff.QXBilling

open Execution

/-- A NIC of the list has the address pair of the packet. -/
def Lists (nics : List RuleNics) (pkt : QxLog) : Prop :=
  ∃ rule ∈ nics, rule.mac = pkt.mac ∧ rule.ipAddr = pkt.ipClnt

theorem findNic_ne_none {nics : List RuleNics} {pkt : QxLog} :
    findNic nics pkt ≠ none ↔ Lists nics pkt := by
  rw [findNic, Option.ne_none_iff_isSome, List.find?_isSome]
  refine exists_congr fun rule => and_congr_right fun _ => ?_
  rw [Bool.and_eq_true, decide_eq_true_iff, mac_memcmp, beq_iff_eq]
  exact and_congr eq_comm eq_comm

/-! ### Sessions -/

def SamePair (pkt pkt' : QxLog) : Prop := pkt.mac = pkt'.mac ∧ pkt.ipClnt = pkt'.ipClnt

theorem Lists.samePair {nics : List RuleNics} {pkt pkt' : QxLog} (lists : Lists nics pkt)
    (same : SamePair pkt pkt') : Lists nics pkt' := by
  unfold Lists
  rw [← same.1, ← same.2]
  exact lists

theorem addToSessions_pair {sessions : List QxLog} {pkt session : QxLog}
    (member : session ∈ addToSessions sessions pkt) :
    ∃ origin ∈ sessions ++ [pkt], SamePair origin session := by
  unfold addToSessions at member
  split at member
  · next index found =>
    obtain ⟨place, inside, rfl⟩ := List.mem_iff_getElem.mp member
    rw [List.length_modify] at inside
    refine ⟨sessions[place], List.mem_append_left _ (List.getElem_mem inside), ?_⟩
    rw [List.getElem_modify]
    split
    · exact ⟨rfl, rfl⟩
    · exact ⟨rfl, rfl⟩
  · exact ⟨session, member, rfl, rfl⟩

theorem sessions_pair {captured sessions : List QxLog} {session : QxLog}
    (member : session ∈ captured.foldl addToSessions sessions) :
    ∃ origin ∈ sessions ++ captured, SamePair origin session := by
  induction captured generalizing sessions with
  | nil => exact ⟨session, by simpa using member, rfl, rfl⟩
  | cons pkt rest ih =>
    obtain ⟨origin, among, same⟩ := ih member
    rcases List.mem_append.mp among with earlier | later
    · obtain ⟨first, here, same'⟩ := addToSessions_pair earlier
      refine ⟨first, ?_, same'.1.trans same.1, same'.2.trans same.2⟩
      rcases List.mem_append.mp here with old | new
      · exact List.mem_append_left _ old
      · obtain rfl := List.mem_singleton.mp new
        exact List.mem_append_right _ List.mem_cons_self
    · exact ⟨origin, List.mem_append_right _ (List.mem_cons_of_mem _ later), same⟩

namespace Billing

variable {PktThread : Type} {state next : Billing PktThread} {label : BillingLabel PktThread}

/-! ### Steps -/

section

variable [DecidableEq PktThread]

/-- What one step can do. -/
inductive Moves (state : Billing PktThread) : BillingInput PktThread → Billing PktThread → Prop where
  | packet (thread : PktThread) (stage : PktStage) (waits : ∀ pkt, stage ≠ .admitted pkt) :
      Moves state input (state.setPacket thread stage)
  | allow (here : state.packets thread = .exempted pkt exmpt)
      (admitted : state.rules.ruleMatchClient pkt = some true)
      (taxed : exmpt ≠ retRmeActiveonly) :
      Moves state (.thread thread) (state.setPacket thread (.admitted pkt))
  | store (here : state.packets thread = .admitted pkt) :
      Moves state input { state.setPacket thread .idle with log := (state.log.logStorePkt pkt).2 }
  | addExempt (loading : state.control = .loading) (rule : RuleExempt) :
      Moves state input { state with rules := (state.rules.ruleAddExempt rule).2 }
  | readAccounts (accounts : List UInt32) :
      Moves state input { state with accounts := accounts }
  | pushNic (loading : state.control = .loading) (rule : RuleNics)
      (added : state.rules.call (.addNic rule) = some pushed) :
      Moves state input { state with rules := pushed, shdwNics := state.shdwNics ++ [rule] }
  | listNic (loading : state.control = .loading) (rule : RuleNics) :
      Moves state input { state with shdwNics := state.shdwNics ++ [rule] }
  | skipNic : Moves state input state
  | swapLog (here : state.control = .loading) :
      Moves state .control { state with
        log := state.log.logSwapLog.2
        control := .logSwapped state.log.logFdNum state.log.activeCount }
  | swapExempts (here : state.control = .logSwapped rgn cnt) :
      Moves state .control { state with
        rules := state.rules.swapExempts, control := .exemptsSwapped rgn cnt }
  | swapNics (here : state.control = .exemptsSwapped rgn cnt) :
      Moves state .control { state with
        rules := state.rules.swapNics, control := .nicsSwapped rgn cnt }
  | swapPointers (here : state.control = .nicsSwapped rgn cnt) :
      Moves state .control { state with
        crntNics := state.shdwNics
        shdwNics := state.crntNics
        control := .billing rgn cnt }
  | again (here : state.control = .billing rgn cnt) :
      Moves state .control { state with shdwNics := [], control := .loading }

theorem threadStep_moves {thread : PktThread} {event : BillingEvent}
    (step : state.threadStep thread = .ok (next, event)) : state.Moves (.thread thread) next := by
  unfold threadStep at step
  cases here : state.packets thread with
  | idle => simp [here] at step
  | parsed pkt =>
    simp only [here] at step
    split at step
    · cases step
      exact .packet thread .idle nofun
    · cases step
      exact .packet thread _ nofun
  | exempted pkt exmpt =>
    simp only [here] at step
    cases admitted : state.rules.ruleMatchClient pkt with
    | none => simp [admitted] at step
    | some known =>
      cases known with
      | false =>
        simp only [admitted] at step
        cases step
        exact .packet thread .idle nofun
      | true =>
        simp only [admitted] at step
        split at step
        · cases step
          exact .packet thread .idle nofun
        · next taxed =>
          cases step
          exact .allow here admitted taxed
  | admitted pkt =>
    rw [here] at step
    cases step
    exact .store here

theorem readNic_moves {row : NicRow} {input : BillingInput PktThread}
    (loading : state.control = .loading) (read : state.readNic row = .ok next) :
    state.Moves input next := by
  unfold readNic at read
  split at read
  · cases added : state.rules.call (.addNic row.rule) with
    | none => simp [added] at read
    | some rules =>
      rw [added] at read
      cases read
      exact .pushNic loading row.rule added
  · split at read
    · cases read
      exact .listNic loading row.rule
    · cases read
      exact .skipNic

theorem step_moves (step : BillingStep state label next) : state.Moves label.1 next := by
  obtain ⟨input, event⟩ := label
  have step : state.handle input = .ok (next, event) := step
  cases input with
  | arrive thread pkt =>
    cases here : state.packets thread with
    | idle =>
      simp only [handle, here] at step
      cases step
      exact .packet thread _ nofun
    | _ => simp [handle, here] at step
  | thread thread => exact threadStep_moves step
  | addExempt rule =>
    simp only [handle] at step
    split at step
    · next loading =>
      cases step
      exact .addExempt loading rule
    · cases step
  | readAccounts accounts =>
    simp only [handle] at step
    split at step
    · cases step
      exact .readAccounts accounts
    · cases step
  | readNic row =>
    simp only [handle] at step
    split at step
    · next loading =>
      obtain ⟨read, done, same⟩ := map_eq_ok.mp step
      cases same
      exact readNic_moves loading.1 done
    · cases step
  | control =>
    have step : Except.ok state.controlStep = .ok (next, event) := step
    unfold controlStep at step
    cases here : state.control with
    | loading => rw [here] at step; cases step; exact .swapLog here
    | logSwapped rgn cnt => rw [here] at step; cases step; exact .swapExempts here
    | exemptsSwapped rgn cnt => rw [here] at step; cases step; exact .swapNics here
    | nicsSwapped rgn cnt => rw [here] at step; cases step; exact .swapPointers here
    | billing rgn cnt => rw [here] at step; cases step; exact .again here

end

/-! ### The lists in force -/

/-- The list that bills the region which is being filled. -/
def fillList (state : Billing PktThread) : List RuleNics :=
  match state.control with
  | .loading | .billing _ _ => state.crntNics
  | .logSwapped _ _ | .exemptsSwapped _ _ | .nicsSwapped _ _ => state.shdwNics

/-- The region that was returned and the list that bills it. -/
def readList (state : Billing PktThread) : Option ((Nat × UInt32) × List RuleNics) :=
  match state.control with
  | .loading => none
  | .logSwapped rgn cnt | .exemptsSwapped rgn cnt | .nicsSwapped rgn cnt =>
    some ((rgn, cnt), state.crntNics)
  | .billing rgn cnt => some ((rgn, cnt), state.shdwNics)

/-- The client rules in the filter are on the lists: those in use and those for the next period. -/
def RulesOn (state : Billing PktThread) (rounds : Rounds) : Prop :=
  match state.control with
  | .loading | .logSwapped _ _ | .exemptsSwapped _ _ =>
    (∀ rule ∈ rounds.last, rule ∈ state.crntNics) ∧ ∀ rule ∈ rounds.current, rule ∈ state.shdwNics
  | .nicsSwapped _ _ => (∀ rule ∈ rounds.last, rule ∈ state.shdwNics) ∧ rounds.current = []
  | .billing _ _ => (∀ rule ∈ rounds.last, rule ∈ state.crntNics) ∧ rounds.current = []

/-- The slots below a count hold packets of clients on the list. -/
def Filled (log : Log) (nics : List RuleNics) (region : LogRegion) (count : UInt32) : Prop :=
  ∀ slot, slot < count.toNat → Lists nics (log.region region slot)

/-- What holds in every state of a run in which packets are matched and stored in time. -/
structure Sound (state : Billing PktThread) (limit : Nat) : Prop where
  fd : state.log.logFdNum ≤ 1
  place : state.log.At .idle
  within : state.log.activeCount ≤ state.log.logLimit
  filled : Filled state.log state.fillList state.log.activeLog state.log.activeCount
  waiting : ∀ thread pkt, state.packets thread = .admitted pkt → Lists state.fillList pkt
  returned : ∀ rgn cnt nics, state.readList = some ((rgn, cnt), nics) →
    Filled state.log nics (shmLogs rgn) cnt ∧ shmLogs rgn ≠ state.log.activeLog
  rules : ∃ rounds, state.rules.Follows limit rounds ∧ state.RulesOn rounds

/-- Between the two swaps of `QXC_SWAP_GET_LOG`. -/
def Control.between : Control → Bool
  | .logSwapped _ _ | .exemptsSwapped _ _ => true
  | .loading | .nicsSwapped _ _ | .billing _ _ => false

/-- When the log is swapped, no packet whose client is not on the new list waits to be stored, and
none passes the client check before the rules are swapped too. -/
def InTime (state : Billing PktThread) (label : BillingLabel PktThread) : Prop :=
  match label.1 with
  | .control => state.control = .loading → ∀ thread pkt, state.packets thread = .admitted pkt →
      Lists state.shdwNics pkt
  | .thread thread => Control.between state.control = true → ∀ pkt exmpt,
      state.packets thread = .exempted pkt exmpt → exmpt ≠ retRmeActiveonly →
        state.rules.ruleMatchClient pkt = some true → Lists state.shdwNics pkt
  | _ => True

/-! ### What a step keeps -/

variable {limit : Nat}

/-- A client that the filter knows is on the list that bills the region being filled. -/
theorem Sound.admitted (sound : state.Sound limit) {pkt : QxLog}
    (admitted : state.rules.ruleMatchClient pkt = some true)
    (inTime : Control.between state.control = true → Lists state.shdwNics pkt) :
    Lists state.fillList pkt := by
  obtain ⟨rounds, follows, listed⟩ := sound.rules
  rw [follows.matchClient, Option.some.injEq, decide_eq_true_iff] at admitted
  obtain ⟨rule, member, pair⟩ := admitted
  have known := List.mem_of_mem_take member
  unfold RulesOn at listed
  unfold fillList
  cases phase : state.control with
  | loading =>
    rw [phase] at listed
    exact ⟨rule, listed.1 rule known, pair⟩
  | billing rgn cnt =>
    rw [phase] at listed
    exact ⟨rule, listed.1 rule known, pair⟩
  | nicsSwapped rgn cnt =>
    rw [phase] at listed
    exact ⟨rule, listed.1 rule known, pair⟩
  | logSwapped rgn cnt => exact inTime (by rw [phase]; rfl)
  | exemptsSwapped rgn cnt => exact inTime (by rw [phase]; rfl)

/-- One packet more in the region, of a client on the list. -/
theorem Filled.store {log : Log} {nics : List RuleNics} {pkt : QxLog}
    (filled : Filled log nics log.activeLog log.activeCount) (lists : Lists nics pkt)
    (within : log.activeCount ≤ log.logLimit) :
    Filled (log.logStorePkt pkt).2 nics log.activeLog (log.logStorePkt pkt).2.activeCount ∧
      (log.logStorePkt pkt).2.activeCount ≤ log.logLimit := by
  unfold Log.logStorePkt Log.fill Log.reserve
  by_cases room : log.activeCount < log.logLimit
  · simp only [if_pos room]
    have one : (log.activeCount + 1).toNat = log.activeCount.toNat + 1 := by
      have bound := log.logLimit.toNat_lt
      have below := UInt32.lt_iff_toNat_lt.mp room
      rw [UInt32.toNat_add]
      exact Nat.mod_eq_of_lt (by simp; omega)
    constructor
    · intro slot inside
      have inside : slot < (log.activeCount + 1).toNat := inside
      show Lists nics (Function.update log.region log.activeLog
        (Function.update (log.region log.activeLog) log.activeCount.toNat pkt) log.activeLog slot)
      rw [Function.update_self]
      by_cases last : slot = log.activeCount.toNat
      · rw [last, Function.update_self]
        exact lists
      · rw [Function.update_of_ne last]
        exact filled slot (by omega)
    · show log.activeCount + 1 ≤ log.logLimit
      rw [UInt32.le_iff_toNat_le, one]
      exact UInt32.lt_iff_toNat_lt.mp room
  · simp only [if_neg room]
    have full : log.activeCount = log.logLimit :=
      UInt32.le_antisymm within (UInt32.not_lt.mp room)
    rw [full] at filled
    exact ⟨filled, UInt32.le_refl _⟩

theorem Filled.store_other {log : Log} {nics : List RuleNics} {region : LogRegion} {count : UInt32}
    (filled : Filled log nics region count) (pkt : QxLog) (apart : region ≠ log.activeLog) :
    Filled (log.logStorePkt pkt).2 nics region count := by
  intro slot inside
  unfold Log.logStorePkt Log.fill Log.reserve
  dsimp only
  split
  · show Lists nics (Function.update log.region log.activeLog _ region slot)
    rw [Function.update_of_ne apart]
    exact filled slot inside
  · exact filled slot inside

theorem logStorePkt_kept (log : Log) (pkt : QxLog) :
    (log.logStorePkt pkt).2.activeLog = log.activeLog ∧
    (log.logStorePkt pkt).2.shadowLog = log.shadowLog ∧
    (log.logStorePkt pkt).2.logFdNum = log.logFdNum ∧
    (log.logStorePkt pkt).2.logLimit = log.logLimit := by
  unfold Log.logStorePkt Log.fill Log.reserve
  dsimp only
  split <;> exact ⟨rfl, rfl, rfl, rfl⟩

/-- The rules in the filter change while the logger loads them. -/
theorem Sound.load (sound : state.Sound limit) (loading : state.control = .loading) (rules : Rules)
    (added : List RuleNics)
    (follows : ∀ rounds, state.rules.Follows limit rounds →
      ∃ rounds', rules.Follows limit rounds' ∧ rounds'.last = rounds.last ∧
        ∀ rule ∈ rounds'.current, rule ∈ rounds.current ++ added) :
    ({ state with rules := rules, shdwNics := state.shdwNics ++ added } :
      Billing PktThread).Sound limit := by
  have same : ({ state with rules := rules, shdwNics := state.shdwNics ++ added } :
      Billing PktThread).fillList = state.fillList := by
    simp only [fillList, loading]
  constructor
  · exact sound.fd
  · exact sound.place
  · exact sound.within
  · rw [same]
    exact sound.filled
  · rw [same]
    exact sound.waiting
  · intro rgn cnt nics reads
    simp only [readList, loading] at reads
    cases reads
  · obtain ⟨rounds, before, listed⟩ := sound.rules
    obtain ⟨rounds', after, last, current⟩ := follows rounds before
    refine ⟨rounds', after, ?_⟩
    simp only [RulesOn, loading] at listed ⊢
    rw [last]
    refine ⟨listed.1, fun rule member => ?_⟩
    rcases List.mem_append.mp (current rule member) with known | new
    · exact List.mem_append_left _ (listed.2 rule known)
    · exact List.mem_append_right _ new

theorem Sound.addExempt (sound : state.Sound limit) (loading : state.control = .loading)
    (rule : RuleExempt) :
    ({ state with rules := (state.rules.ruleAddExempt rule).2 } : Billing PktThread).Sound limit := by
  have loaded := sound.load loading (state.rules.ruleAddExempt rule).2 [] fun rounds follows =>
    ⟨rounds, follows.addExempt rule, rfl, fun _ member => List.mem_append_left _ member⟩
  rw [List.append_nil] at loaded
  exact loaded

theorem Sound.pushNic (sound : state.Sound limit) (loading : state.control = .loading)
    {rule : RuleNics} {pushed : Rules} (added : state.rules.call (.addNic rule) = some pushed) :
    ({ state with rules := pushed, shdwNics := state.shdwNics ++ [rule] } :
      Billing PktThread).Sound limit := by
  refine sound.load loading pushed [rule] fun rounds follows => ?_
  obtain ⟨next, called, follows⟩ := follows.addNic rule
  rw [added] at called
  cases called
  exact ⟨_, follows, rfl, fun _ member => member⟩

theorem Sound.listNic (sound : state.Sound limit) (loading : state.control = .loading)
    (rule : RuleNics) :
    ({ state with shdwNics := state.shdwNics ++ [rule] } : Billing PktThread).Sound limit :=
  sound.load loading state.rules [rule] fun rounds follows =>
    ⟨rounds, follows, rfl, fun _ member => List.mem_append_left _ member⟩

/-- The region that was filled is the one returned, and the other one starts empty. -/
theorem Sound.swapLog (sound : state.Sound limit) (here : state.control = .loading)
    (inTime : ∀ thread pkt, state.packets thread = .admitted pkt → Lists state.shdwNics pkt) :
    ({ state with
      log := state.log.logSwapLog.2
      control := .logSwapped state.log.logFdNum state.log.activeCount } :
      Billing PktThread).Sound limit := by
  obtain ⟨active, shadow⟩ : state.log.activeLog = _ ∧ state.log.shadowLog = _ := sound.place
  have filled := sound.filled
  simp only [fillList, here] at filled
  have toggled : shmLogs (if state.log.logFdNum = 1 then 0 else 1) =
      (shmLogs state.log.logFdNum).other := shmLogs_toggle sound.fd
  constructor
  · show (if state.log.logFdNum = 1 then 0 else 1) ≤ 1
    split <;> decide
  · constructor
    · exact shadow.trans toggled.symm
    · show state.log.activeLog = (shmLogs (if state.log.logFdNum = 1 then 0 else 1)).other
      rw [toggled, LogRegion.other_other]
      exact active
  · exact UInt32.zero_le
  · intro slot inside
    cases inside
  · exact inTime
  · intro rgn cnt nics reads
    simp only [readList, Option.some.injEq, Prod.mk.injEq] at reads
    obtain ⟨⟨rfl, rfl⟩, rfl⟩ := reads
    constructor
    · rw [← active]
      exact filled
    · show _ ≠ state.log.shadowLog
      rw [shadow]
      exact (LogRegion.other_ne _).symm
  · obtain ⟨rounds, follows, listed⟩ := sound.rules
    simp only [RulesOn, here] at listed
    exact ⟨rounds, follows, listed⟩

/-- The swap goes on without touching the log. -/
theorem Sound.goOn (sound : state.Sound limit) (log : next.log = state.log)
    (packets : next.packets = state.packets) (fill : next.fillList = state.fillList)
    (read : ∀ returned, next.readList = some returned → state.readList = some returned)
    (rules : ∀ rounds, state.rules.Follows limit rounds → state.RulesOn rounds →
      ∃ rounds', next.rules.Follows limit rounds' ∧ next.RulesOn rounds') :
    next.Sound limit where
  fd := log ▸ sound.fd
  place := log ▸ sound.place
  within := log ▸ sound.within
  filled := by
    rw [fill, log]
    exact sound.filled
  waiting := by
    rw [fill, packets]
    exact sound.waiting
  returned := by
    intro rgn cnt nics reads
    rw [log]
    exact sound.returned rgn cnt nics (read _ reads)
  rules := by
    obtain ⟨rounds, follows, listed⟩ := sound.rules
    exact rules rounds follows listed

theorem Sound.swapExempts (sound : state.Sound limit) {rgn : Nat} {cnt : UInt32}
    (here : state.control = .logSwapped rgn cnt) :
    ({ state with rules := state.rules.swapExempts, control := .exemptsSwapped rgn cnt } :
      Billing PktThread).Sound limit := by
  refine sound.goOn rfl rfl ?_ ?_ fun rounds follows listed => ⟨rounds, follows.swapExempts, ?_⟩
  · simp only [fillList, here]
  · simp only [readList, here]
    exact fun _ same => same
  · simp only [RulesOn, here] at listed
    exact listed

/-- The rules that were loaded are now in use, and they are on the list that was loaded. -/
theorem Sound.swapNics (sound : state.Sound limit) {rgn : Nat} {cnt : UInt32}
    (here : state.control = .exemptsSwapped rgn cnt) :
    ({ state with rules := state.rules.swapNics, control := .nicsSwapped rgn cnt } :
      Billing PktThread).Sound limit := by
  refine sound.goOn rfl rfl ?_ ?_ fun rounds follows listed => ⟨_, follows.swapNics, ?_⟩
  · simp only [fillList, here]
  · simp only [readList, here]
    exact fun _ same => same
  · simp only [RulesOn, here] at listed
    exact ⟨listed.2, rfl⟩

theorem Sound.swapPointers (sound : state.Sound limit) {rgn : Nat} {cnt : UInt32}
    (here : state.control = .nicsSwapped rgn cnt) :
    ({ state with
      crntNics := state.shdwNics
      shdwNics := state.crntNics
      control := .billing rgn cnt } : Billing PktThread).Sound limit := by
  refine sound.goOn rfl rfl ?_ ?_ fun rounds follows listed => ⟨rounds, follows, ?_⟩
  · simp only [fillList, here]
  · simp only [readList, here]
    exact fun _ same => same
  · simp only [RulesOn, here] at listed
    exact listed

theorem Sound.again (sound : state.Sound limit) {rgn : Nat} {cnt : UInt32}
    (here : state.control = .billing rgn cnt) :
    ({ state with shdwNics := [], control := .loading } : Billing PktThread).Sound limit := by
  refine sound.goOn rfl rfl ?_ ?_ fun rounds follows listed => ⟨rounds, follows, ?_⟩
  · simp only [fillList, here]
  · simp only [readList]
    nofun
  · simp only [RulesOn, here] at listed
    refine ⟨listed.1, fun rule member => ?_⟩
    rw [listed.2] at member
    cases member

theorem Sound.billed (sound : state.Sound limit) : state.Billed := by
  intro rgn cnt here
  have filled := (sound.returned rgn cnt state.shdwNics (by simp only [readList, here])).1
  have listed : ∀ pkt ∈ state.captured rgn cnt, Lists state.shdwNics pkt := by
    intro pkt member
    simp only [captured, Log.slots, List.map_map, List.mem_map, List.mem_range] at member
    obtain ⟨slot, inside, rfl⟩ := member
    exact filled slot inside
  constructor
  · intro pkt member
    exact findNic_ne_none.mpr (listed pkt member)
  · intro session member
    obtain ⟨pkt, among, same⟩ := sessions_pair member
    exact findNic_ne_none.mpr ((listed pkt among).samePair same)

variable [DecidableEq PktThread]

theorem setPacket_self (state : Billing PktThread) (thread : PktThread) (stage : PktStage) :
    (state.setPacket thread stage).packets thread = stage :=
  Function.update_self ..

theorem setPacket_ne (state : Billing PktThread) {thread other : PktThread} (apart : other ≠ thread)
    (stage : PktStage) : (state.setPacket thread stage).packets other = state.packets other :=
  Function.update_of_ne apart ..

/-- A packet thread that is not going to store anything. -/
theorem Sound.packet (sound : state.Sound limit) (thread : PktThread) {stage : PktStage}
    (waits : ∀ pkt, stage ≠ .admitted pkt) : (state.setPacket thread stage).Sound limit :=
  { sound with
    waiting := by
      intro other pkt here
      by_cases same : other = thread
      · subst same
        exact absurd ((state.setPacket_self other stage).symm.trans here) (waits pkt)
      · exact sound.waiting other pkt ((state.setPacket_ne same stage).symm.trans here) }

theorem Sound.allow (sound : state.Sound limit) {thread : PktThread} {pkt : QxLog}
    (lists : Lists state.fillList pkt) : (state.setPacket thread (.admitted pkt)).Sound limit :=
  { sound with
    waiting := by
      intro other pkt' here
      by_cases same : other = thread
      · subst same
        cases (state.setPacket_self other (.admitted pkt)).symm.trans here
        exact lists
      · exact sound.waiting other pkt' ((state.setPacket_ne same _).symm.trans here) }

theorem Sound.store (sound : state.Sound limit) {thread : PktThread} {pkt : QxLog}
    (here : state.packets thread = .admitted pkt) :
    ({ state.setPacket thread .idle with log := (state.log.logStorePkt pkt).2 } :
      Billing PktThread).Sound limit := by
  have lists := sound.waiting thread pkt here
  obtain ⟨filled, within⟩ := sound.filled.store lists sound.within
  obtain ⟨active, shadow, fd, logLimit⟩ := logStorePkt_kept state.log pkt
  have quiet : (state.setPacket thread .idle).Sound limit := sound.packet thread nofun
  refine { quiet with fd := ?_, place := ?_, within := ?_, filled := ?_, returned := ?_ }
  · show (state.log.logStorePkt pkt).2.logFdNum ≤ 1
    rw [fd]
    exact sound.fd
  · have place : state.log.activeLog = _ ∧ state.log.shadowLog = _ := sound.place
    show (state.log.logStorePkt pkt).2.activeLog = _ ∧ (state.log.logStorePkt pkt).2.shadowLog = _
    rw [active, shadow, fd]
    exact place
  · show _ ≤ (state.log.logStorePkt pkt).2.logLimit
    rw [logLimit]
    exact within
  · show Filled _ _ (state.log.logStorePkt pkt).2.activeLog _
    rw [active]
    exact filled
  · intro rgn cnt nics reads
    obtain ⟨filled, apart⟩ := sound.returned rgn cnt nics reads
    refine ⟨filled.store_other pkt apart, ?_⟩
    show _ ≠ (state.log.logStorePkt pkt).2.activeLog
    rw [active]
    exact apart

theorem Sound.step (sound : state.Sound limit) (step : BillingStep state label next)
    (inTime : state.InTime label) : next.Sound limit := by
  have move := step_moves step
  obtain ⟨input, event⟩ := label
  cases move with
  | packet thread stage waits => exact sound.packet thread waits
  | allow here admitted taxed =>
    exact sound.allow (sound.admitted admitted fun between =>
      inTime between _ _ here taxed admitted)
  | store here => exact sound.store here
  | addExempt loading rule => exact sound.addExempt loading rule
  | readAccounts accounts => exact { sound with }
  | pushNic loading rule added => exact sound.pushNic loading added
  | listNic loading rule => exact sound.listNic loading rule
  | skipNic => exact sound
  | swapLog here => exact sound.swapLog here (inTime here)
  | swapExempts here => exact sound.swapExempts here
  | swapNics here => exact sound.swapNics here
  | swapPointers here => exact sound.swapPointers here
  | again here => exact sound.again here

end Billing

/-- Whatever order packets, rules and swaps come in: if no packet of a client that is not on the
new list is on its way to the log when the log and then the rules are swapped, everything in a
returned region is billed. -/
theorem returned_packets_are_billed {PktThread : Type} [DecidableEq PktThread]
    (region : LogRegion → Nat → QxLog) (numSlots : Fin (2 ^ 31)) (exRule : Buffer → Nat → RuleExempt)
    (node : NicRef → NicNode) (exCnt ncCnt maxNics : Nat) {labels : List (BillingLabel PktThread)}
    {final : Billing PktThread}
    (run : Run (Under BillingStep Billing.InTime) (Billing.start PktThread (logInit region numSlots)
      (ruleInitLists exRule node exCnt ncCnt) maxNics) labels final) : final.Billed := by
  have sound : final.Sound ncCnt := by
    refine run.invariant (motive := fun state => state.Sound ncCnt) ?_
      fun state label next sound step => sound.step step.1 step.2
    constructor
    · exact Nat.zero_le 1
    · exact ⟨rfl, rfl⟩
    · exact UInt32.zero_le
    · intro slot inside
      cases inside
    · nofun
    · nofun
    · exact ⟨⟨[], []⟩, .init exRule node exCnt ncCnt, nofun, nofun⟩
  exact sound.billed

/-! ### One client -/

def onlyNic : RuleNics := ⟨1, 0x0A000002, Vector.replicate 6 7⟩

def fromClient : QxLog :=
  ⟨Vector.replicate 6 7, protoDlcIPv4, 0x0A000002, 2, protoIPv4TCP, 80, 80, 0, 64⟩

/-- One packet thread, and room for two packets, exemptions and clients. -/
def oneClient : Billing Unit :=
  Billing.start Unit (logInit (fun _ _ => fromClient) 2)
    (ruleInitLists (fun _ _ => ⟨0, 0, 0, 0, 0, 0, 0⟩) (fun _ => ⟨onlyNic, none, none⟩) 2 2) 2

def loadsClient : List (BillingInput Unit) :=
  [.readAccounts [5], .readNic ⟨onlyNic, 5⟩, .control, .control, .control, .control]

/-- Swaps come while no packet is on its way. -/
def undisturbed (state : Billing Unit) : BillingInput Unit → Bool
  | .control => state.control != .loading || state.packets () == .idle
  | .thread _ => !Billing.Control.between state.control
  | _ => true

theorem inTime_of_undisturbed {state : Billing Unit} {label : BillingLabel Unit}
    (calm : undisturbed state label.1 = true) : state.InTime label := by
  obtain ⟨input, event⟩ := label
  cases input with
  | control =>
    intro loading thread pkt here
    simp [undisturbed, loading, here] at calm
  | thread thread =>
    intro between
    simp [undisturbed, between] at calm
  | _ => exact trivial

/-- A packet of the client is billed after the period in which it was stored. -/
theorem packet_of_client_is_billed : ∃ labels, ∃ final : Billing Unit,
    Run (Under BillingStep Billing.InTime) oneClient labels final ∧
      final.control = .billing 1 1 ∧ final.captured 1 1 = [fromClient] ∧ final.Billed := by
  obtain ⟨labels, final, run, seen⟩ := replay_reaches
    (guarded Billing.handle fun state input => undisturbed state input = true) oneClient
    (loadsClient ++ [.control, .arrive () fromClient, .thread (), .thread (), .thread ()] ++
      loadsClient)
    (fun final _ => decide (final.control = .billing 1 1 ∧ final.captured 1 1 = [fromClient]))
    true (by decide +kernel)
  obtain ⟨here, captured⟩ := of_decide_eq_true seen
  have run := (run_guarded run).mono fun state label next step =>
    (⟨step.1, inTime_of_undisturbed step.2⟩ : Under BillingStep Billing.InTime state label next)
  exact ⟨labels, final, run, here, captured, returned_packets_are_billed _ _ _ _ _ _ _ run⟩

/-- A packet passes the client check, its client is not on the next list, both lists are swapped,
and then it is stored: the swap after that returns it with a list that does not name it. -/
theorem stored_packet_has_no_nic : ∃ labels, ∃ final : Billing Unit,
    Run BillingStep oneClient labels final ∧
      (∃ label ∈ labels, label.2 = .passed fromClient true) ∧
      final.control = .billing 0 1 ∧ fromClient ∈ final.captured 0 1 ∧
      findNic final.shdwNics fromClient = none ∧ ¬ final.Billed := by
  obtain ⟨labels, final, run, seen⟩ := replay_reaches Billing.handle oneClient
    (loadsClient ++ [.control, .arrive () fromClient, .thread (), .thread ()] ++
      List.replicate 5 .control ++ [.thread ()] ++ List.replicate 4 .control)
    (fun final labels => decide ((∃ label ∈ labels, label.2 = .passed fromClient true) ∧
      final.control = .billing 0 1 ∧ final.captured 0 1 = [fromClient] ∧
      findNic final.shdwNics fromClient = none))
    true (by decide +kernel)
  obtain ⟨passed, here, captured, unknown⟩ := of_decide_eq_true seen
  have member : fromClient ∈ final.captured 0 1 := by
    rw [captured]
    exact List.mem_cons_self
  refine ⟨labels, final, run, passed, here, member, unknown, ?_⟩
  intro billed
  exact (billed 0 1 here).1 fromClient member unknown

end QNXStuff.QXBilling
