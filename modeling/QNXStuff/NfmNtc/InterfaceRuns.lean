import QNXStuff.NfmNtc.Interfaces

/-! What the list of interfaces holds after any run. -/

namespace QNXStuff.NfmNtc

open Execution Registry SharedLock
open QXMail (stricmp tolower)

/-- A name as `stricmp` takes it. -/
def caseless (name : List UInt8) : List UInt8 := name.map tolower

def IfRecord.key (ifs : IfRecord) : List UInt8 := caseless ifs.ifname

def Advert.key (ad : Advert) : List UInt8 := caseless ad.name

theorem stricmp_iff {first second : List UInt8} :
    stricmp first second = true ↔ caseless first = caseless second := by
  rw [stricmp, beq_iff_eq]
  rfl

/-- A name that `ifname` holds whole. -/
def Advert.Fits (ad : Advert) : Prop := ad.name.length < ifNamSiz

theorem Advert.record_key {ad : Advert} (fits : ad.Fits) : ad.record.key = ad.key := by
  unfold IfRecord.key Advert.key Advert.record
  rw [List.take_of_length_le (Nat.le_sub_one_of_lt fits)]

/-! ### What the labels say -/

/-- The numbers that the label of a completed advert gives the interface. -/
def advertOf (key : List UInt8) (label : IfLabel Thread) : Option IfNumbers :=
  match label.2 with
  | .advertised _ ad => if ad.key = key then some ad.numbers else none
  | _ => none

/-- The interface that a command declares, and whether to be of interest. -/
def IfCommand.declaration : IfCommand → Option (List UInt8 × Bool)
  | .ifPresent _ => none
  | .addIf name => some (name, true)
  | .delIf name => some (name, false)

/-- What the label of a command that has found its interface declares of it. -/
def declared (key : List UInt8) (label : IfLabel Thread) : Option Bool :=
  match label.2 with
  | .answered command retval _ =>
    if retval = 1 then
      command.declaration.bind fun said => if caseless said.1 = key then some said.2 else none
    else none
  | _ => none

theorem advertOf_advertised {key : List UInt8} {input : IfInput Thread} {thread : Thread}
    {ad : Advert} : advertOf key (input, .advertised thread ad) =
      if ad.key = key then some ad.numbers else none := rfl

/-- A label that says nothing about any interface. -/
structure Mute (label : IfLabel Thread) : Prop where
  advertOf : ∀ key, advertOf key label = none
  declared : ∀ key, declared key label = none

/-! ### What the threads and the records hold to -/

def NetThread.advert : NetThread → Option Advert
  | .searching ad _ | .updating ad _ _ | .adding ad => some ad
  | _ => none

/-- The stores of an advert that are behind a thread. -/
def Field.Stored (numbers : IfNumbers) (ifs : IfRecord) : Field → Prop
  | .cell => True
  | .endpoint => ifs.cell = numbers.cell
  | .iface => ifs.cell = numbers.cell ∧ ifs.endpoint = numbers.endpoint
  | .flag => ifs.numbers = numbers

theorem Field.store_key (numbers : IfNumbers) (field : Field) (ifs : IfRecord) :
    (field.store numbers ifs).key = ifs.key := by
  cases field <;> rfl

theorem Field.store_interest (numbers : IfNumbers) (field : Field) (ifs : IfRecord) :
    (field.store numbers ifs).ofinterest = ifs.ofinterest := by
  cases field <;> rfl

theorem Field.store_stored {numbers : IfNumbers} {field next : Field} {ifs : IfRecord}
    (stored : field.Stored numbers ifs) (goes : field.next = some next) :
    next.Stored numbers (field.store numbers ifs) := by
  cases field with
  | cell =>
    cases goes
    rfl
  | endpoint =>
    cases goes
    exact ⟨stored, rfl⟩
  | iface =>
    cases goes
    show (IfNumbers.mk ifs.cell ifs.endpoint numbers.iface) = numbers
    rw [stored.1, stored.2]
  | flag => cases goes

/-- What a thread relies on: a search has missed no record but newer ones, and they have other names. -/
def NetThread.Relies (records : List IfRecord) : NetThread → Prop
  | .idle => True
  | .searching ad head =>
    ad.Fits ∧ head ≤ records.length ∧
      ∀ place ifs, head ≤ place → records[place]? = some ifs → ifs.key ≠ ad.key
  | .updating ad place field =>
    ∃ ifs, records[place]? = some ifs ∧ ifs.key = ad.key ∧ field.Stored ad.numbers ifs
  | .adding ad => ad.Fits ∧ ad.key ∉ records.map IfRecord.key
  | .dying _ head | .arriving _ head | .comparing _ head _ => head ≤ records.length

/-- What a record has to do with the labels so far, while adverts of some names are being stored. -/
structure Noted {Thread : Type} (past : List (IfLabel Thread)) (updated : List UInt8 → Prop)
    (ifs : IfRecord) : Prop where
  numbers : ¬ updated ifs.key → latest (advertOf ifs.key) past = some ifs.numbers
  interest : ifs.ofinterest = (latest (declared ifs.key) past).getD false

section Records

variable {records : List IfRecord} {place : Nat} {change : IfRecord → IfRecord} {phase : NetThread}

/-- A record is changed: not its name, and its numbers only by the thread at it. -/
theorem NetThread.Relies.modify (relies : phase.Relies records)
    (keeps : ∀ ifs, (change ifs).key = ifs.key)
    (apart : ∀ ad field, phase = .updating ad place field → ∀ ifs, (change ifs).numbers = ifs.numbers) :
    phase.Relies (records.modify place change) := by
  have keys : (records.modify place change).map IfRecord.key = records.map IfRecord.key :=
    keys_modify keeps
  cases phase with
  | idle => trivial
  | searching ad head =>
    refine ⟨relies.1, by rw [List.length_modify]; exact relies.2.1, ?_⟩
    intro other ifs above there
    obtain ⟨before, here, same⟩ := of_modify there
    have differs := relies.2.2 other before above here
    rw [same]
    split
    · rw [keeps]
      exact differs
    · exact differs
  | updating ad other field =>
    obtain ⟨ifs, here, named, stored⟩ := relies
    by_cases same : place = other
    · subst same
      refine ⟨change ifs, by rw [List.getElem?_modify, here]; simp, by rw [keeps, named], ?_⟩
      have numbers := apart ad field rfl ifs
      have cell : (change ifs).cell = ifs.cell := congrArg IfNumbers.cell numbers
      have endpoint : (change ifs).endpoint = ifs.endpoint := congrArg IfNumbers.endpoint numbers
      cases field with
      | cell => trivial
      | endpoint => exact cell.trans stored
      | iface => exact ⟨cell.trans stored.1, endpoint.trans stored.2⟩
      | flag => exact numbers.trans stored
    · exact ⟨ifs, by rw [List.getElem?_modify, here]; simp [same], named, stored⟩
  | adding ad => exact ⟨relies.1, by rw [keys]; exact relies.2⟩
  | dying numbers head => simpa only [NetThread.Relies, List.length_modify] using relies
  | arriving numbers head => simpa only [NetThread.Relies, List.length_modify] using relies
  | comparing numbers head field => simpa only [NetThread.Relies, List.length_modify] using relies

/-- A record is added, of another name than the thread's. -/
theorem NetThread.Relies.add {record : IfRecord} (relies : phase.Relies records)
    (apart : ∀ ad, phase.advert = some ad → record.key ≠ ad.key) :
    phase.Relies (records ++ [record]) := by
  cases phase with
  | idle => trivial
  | searching ad head =>
    refine ⟨relies.1, by rw [List.length_append]; exact Nat.le_add_right_of_le relies.2.1, ?_⟩
    intro place ifs above there
    by_cases old : place < records.length
    · rw [List.getElem?_append_left old] at there
      exact relies.2.2 place ifs above there
    · rw [List.getElem?_append_right (Nat.le_of_not_lt old)] at there
      rw [List.mem_singleton.mp (List.mem_of_getElem? there)]
      exact apart ad rfl
  | updating ad place field =>
    obtain ⟨ifs, here, named, stored⟩ := relies
    exact ⟨ifs, by rw [List.getElem?_append_left (List.getElem?_eq_some_iff.mp here).1, here], named,
      stored⟩
  | adding ad =>
    refine ⟨relies.1, ?_⟩
    rw [List.map_append, List.mem_append, not_or]
    exact ⟨relies.2, fun last => apart ad rfl (List.mem_singleton.mp last).symm⟩
  | dying numbers head =>
    exact Nat.le_trans relies (by rw [List.length_append]; exact Nat.le_add_right _ _)
  | arriving numbers head =>
    exact Nat.le_trans relies (by rw [List.length_append]; exact Nat.le_add_right _ _)
  | comparing numbers head field =>
    exact Nat.le_trans relies (by rw [List.length_append]; exact Nat.le_add_right _ _)

section Notes

variable {Thread : Type} {past : List (IfLabel Thread)} {label : IfLabel Thread}
  {updated updated' : List UInt8 → Prop} {ifs : IfRecord}

theorem Noted.mute (noted : Noted past updated ifs) (mute : Mute label)
    (fewer : updated ifs.key → updated' ifs.key) : Noted (past ++ [label]) updated' ifs where
  numbers := fun settled => by
    rw [latest_snoc_none (mute.advertOf _)]
    exact noted.numbers fun updates => settled (fewer updates)
  interest := by
    rw [latest_snoc_none (mute.declared _)]
    exact noted.interest

/-- What changes one record does to the notes of all. -/
theorem noted_modify (noted : ∀ ifs ∈ records, Noted past updated ifs)
    (changed : ∀ ifs, records[place]? = some ifs → Noted past updated ifs →
      Noted (past ++ [label]) updated' (change ifs))
    (others : ∀ other ifs, other ≠ place → records[other]? = some ifs → Noted past updated ifs →
      Noted (past ++ [label]) updated' ifs) :
    ∀ ifs ∈ records.modify place change, Noted (past ++ [label]) updated' ifs := by
  intro ifs inside
  obtain ⟨other, there⟩ := List.mem_iff_getElem?.mp inside
  obtain ⟨before, here, rfl⟩ := of_modify there
  have old := noted before (List.mem_of_getElem? here)
  split
  · next same => exact changed before (same ▸ here) old
  · next apart => exact others other before apart here old

end Notes

end Records

/-! ### One step -/

namespace Interfaces

variable {Thread : Type}

/-- Adverts of one interface come one after the other, and with a name that can be kept. -/
def Orderly (state : Interfaces Thread) : IfInput Thread → Prop
  | .comes _ (.advert ad) =>
    ad.Fits ∧ ∀ other, ∀ under ∈ (state.threads other).advert, under.key ≠ ad.key
  | _ => True

instance [Fintype Thread] (state : Interfaces Thread) (input : IfInput Thread) :
    Decidable (state.Orderly input) :=
  match input with
  | .comes _ (.advert ad) => inferInstanceAs (Decidable (ad.name.length < ifNamSiz ∧ _))
  | .comes _ (.dying _) | .comes _ (.packet _) => isTrue trivial
  | .goOn _ | .asks _ | .serves => isTrue trivial

/-- A thread is storing an advert into a record of this name. -/
def Updates (state : Interfaces Thread) (key : List UInt8) : Prop :=
  ∃ thread ad place field, state.threads thread = .updating ad place field ∧ ad.key = key

variable [DecidableEq Thread]

inductive Does (state : Interfaces Thread) :
    IfInput Thread → IfEvent Thread → Interfaces Thread → Prop where
  | comes {thread : Thread} {arrival : Arrival} (idle : state.threads thread = .idle) :
      Does state (.comes thread arrival) .silent
        (state.move thread (arrival.thread state.ntcIfs.length))
  | finds {thread : Thread} {ad : Advert} {head place : Nat}
      (here : state.threads thread = .searching ad head)
      (found : state.search ad.name head = some place) :
      Does state (.goOn thread) .silent (state.move thread (.updating ad place .cell))
  | misses {thread : Thread} {ad : Advert} {head : Nat}
      (here : state.threads thread = .searching ad head)
      (missing : state.search ad.name head = none) :
      Does state (.goOn thread) .silent (state.move thread (.adding ad))
  | stores {thread : Thread} {ad : Advert} {place : Nat} {field next : Field}
      (here : state.threads thread = .updating ad place field) (goes : field.next = some next) :
      Does state (.goOn thread) .silent
        ((state.change place (field.store ad.numbers)).move thread (.updating ad place next))
  | updates {thread : Thread} {ad : Advert} {place : Nat}
      (here : state.threads thread = .updating ad place .flag) :
      Does state (.goOn thread) (.advertised thread ad)
        ((state.change place (Field.flag.store ad.numbers)).move thread .idle)
  | adds {thread : Thread} {ad : Advert} (here : state.threads thread = .adding ad)
      (alone : ∀ other, (state.threads other).hold = .free) :
      Does state (.goOn thread) (.advertised thread ad)
        ({ state with ntcIfs := state.ntcIfs ++ [ad.record] }.move thread .idle)
  | marks {thread : Thread} {numbers : IfNumbers} {head place : Nat}
      (here : state.threads thread = .dying numbers head)
      (alone : ∀ other, (state.threads other).hold = .free) :
      Does state (.goOn thread) (.died thread numbers)
        ((state.change place fun ifs => { ifs with dead := true }).move thread .idle)
  | ignores {thread : Thread} {numbers : IfNumbers} {head : Nat}
      (here : state.threads thread = .dying numbers head) :
      Does state (.goOn thread) (.died thread numbers) (state.move thread .idle)
  | enters {thread : Thread} {numbers : IfNumbers} {head : Nat}
      (here : state.threads thread = .arriving numbers head) :
      Does state (.goOn thread) .silent (state.move thread (.comparing numbers head .cell))
  | agrees {thread : Thread} {numbers : IfNumbers} {place : Nat} {field next : Field} {ifs : IfRecord}
      (here : state.threads thread = .comparing numbers (place + 1) field)
      (entry : state.ntcIfs[place]? = some ifs) (same : field.agrees numbers ifs = true)
      (goes : field.next = some next) :
      Does state (.goOn thread) .silent (state.move thread (.comparing numbers (place + 1) next))
  | differs {thread : Thread} {numbers : IfNumbers} {place : Nat} {field : Field} {ifs : IfRecord}
      (here : state.threads thread = .comparing numbers (place + 1) field)
      (entry : state.ntcIfs[place]? = some ifs) (other : field.agrees numbers ifs = false) :
      Does state (.goOn thread) .silent (state.move thread (.comparing numbers place .cell))
  | judges {thread : Thread} {numbers : IfNumbers} {place : Nat} {ifs : IfRecord}
      (here : state.threads thread = .comparing numbers (place + 1) .flag)
      (entry : state.ntcIfs[place]? = some ifs) :
      Does state (.goOn thread) (.judged thread ifs.ofinterest) (state.move thread .idle)
  | ends {thread : Thread} {numbers : IfNumbers} {field : Field}
      (here : state.threads thread = .comparing numbers 0 field) :
      Does state (.goOn thread) (.judged thread true) (state.move thread .idle)
  | asks {command : IfCommand} :
      Does state (.asks command) .silent
        { state with manager := some (command, state.ntcIfs.length) }
  | shows {nbytes head : Nat} {present : List (List UInt8 × Bool)} :
      Does state .serves (.answered (.ifPresent nbytes) head present) { state with manager := none }
  | declares {command : IfCommand} {name : List UInt8} {interest : Bool} {head place : Nat}
      (said : command.declaration = some (name, interest))
      (found : state.search name head = some place) :
      Does state .serves (.answered command 1 [])
        { state.change place (fun ifs => { ifs with ofinterest := interest }) with manager := none }
  | declines {command : IfCommand} :
      Does state .serves (.answered command 0 []) { state with manager := none }

variable {state after : Interfaces Thread}

theorem setInterest_does {head : Nat} {command : IfCommand} {name : List UInt8} {interest : Bool}
    {event : IfEvent Thread} (said : command.declaration = some (name, interest))
    (done : state.setInterest head command name interest = .ok (after, event)) :
    Does state .serves event after := by
  unfold setInterest at done
  split at done
  · next place found =>
    cases done
    exact .declares said found
  · cases done
    exact .declines

theorem serve_does {head : Nat} {command : IfCommand} {event : IfEvent Thread}
    (done : state.serve head command = .ok (after, event)) : Does state .serves event after := by
  cases command with
  | ifPresent nbytes =>
    simp only [serve] at done
    split at done
    · cases done
    · cases done
      exact .shows
  | addIf name => exact setInterest_does rfl done
  | delIf name => exact setInterest_does rfl done

theorem compare_does {thread : Thread} {numbers : IfNumbers} {place : Nat} {field : Field}
    {event : IfEvent Thread} (here : state.threads thread = .comparing numbers place field)
    (done : state.compare thread numbers field place = .ok (after, event)) :
    Does state (.goOn thread) event after := by
  cases place with
  | zero =>
    cases done
    exact .ends here
  | succ place =>
    simp only [compare] at done
    split at done
    · cases done
    · next ifs entry =>
      split at done
      · next same =>
        cases goes : field.next with
        | some next =>
          simp only [goes] at done
          cases done
          exact .agrees here entry same goes
        | none =>
          simp only [goes] at done
          cases done
          obtain rfl : field = .flag := by
            cases field <;> first | rfl | cases goes
          exact .judges here entry
      · next other =>
        cases done
        exact .differs here entry (Bool.eq_false_iff.mpr other)

variable [Fintype Thread]

theorem goOn_does {thread : Thread} {event : IfEvent Thread}
    (done : state.goOn thread = .ok (after, event)) : Does state (.goOn thread) event after := by
  cases here : state.threads thread with
  | idle =>
    simp only [goOn, here] at done
    cases done
  | searching ad head =>
    simp only [goOn, here] at done
    split at done
    · next place found =>
      cases done
      exact .finds here found
    · next missing =>
      cases done
      exact .misses here missing
  | updating ad place field =>
    simp only [goOn, here, update] at done
    split at done
    · cases done
    · cases goes : field.next with
      | some next =>
        simp only [goes] at done
        cases done
        exact .stores here goes
      | none =>
        simp only [goes] at done
        cases done
        obtain rfl : field = .flag := by
          cases field <;> first | rfl | cases goes
        exact .updates here
  | adding ad =>
    simp only [goOn, here] at done
    split at done
    · next alone =>
      cases done
      exact .adds here alone
    · cases done
  | dying numbers head =>
    simp only [goOn, here] at done
    split at done
    · next alone =>
      split at done
      · cases done
        exact .marks here alone
      · cases done
        exact .ignores here
    · cases done
  | arriving numbers head =>
    simp only [goOn, here] at done
    cases done
    exact .enters here
  | comparing numbers ifs field =>
    simp only [goOn, here] at done
    exact compare_does here done

theorem handle_does {input : IfInput Thread} {event : IfEvent Thread}
    (done : state.handle input = .ok (after, event)) : Does state input event after := by
  cases input with
  | comes thread arrival =>
    simp only [handle] at done
    split at done
    · next idle =>
      cases done
      exact .comes idle
    · cases done
  | goOn thread => exact goOn_does done
  | asks command =>
    simp only [handle] at done
    split at done
    · cases done
    · cases done
      exact .asks
  | serves =>
    simp only [handle] at done
    split at done
    · exact serve_does done
    · cases done

/-! ### The list and the labels, step by step -/

/-- What holds of the list in every state of an orderly run. -/
structure Sound (past : List (IfLabel Thread)) (state : Interfaces Thread) : Prop where
  keys : (state.ntcIfs.map IfRecord.key).Nodup
  relies : ∀ thread, (state.threads thread).Relies state.ntcIfs
  apart : ∀ thread other ad under, (state.threads thread).advert = some ad →
    (state.threads other).advert = some under → thread ≠ other → under.key ≠ ad.key
  manager : ∀ asked, state.manager = some asked → asked.2 ≤ state.ntcIfs.length
  noted : ∀ ifs ∈ state.ntcIfs, Noted past state.Updates ifs
  listed : ∀ key, key ∈ state.ntcIfs.map IfRecord.key ↔ latest (advertOf key) past ≠ none
  unlisted : ∀ key, key ∉ state.ntcIfs.map IfRecord.key → latest (declared key) past = none

section Steps

variable {past : List (IfLabel Thread)} {label : IfLabel Thread} {thread : Thread} {now : NetThread}
  {ad : Advert} {place : Nat} {change : IfRecord → IfRecord} {key : List UInt8}
  {input : IfInput Thread} {event : IfEvent Thread}

omit [Fintype Thread]

theorem updates_of_move (state : Interfaces Thread) (updates : state.Updates key)
    (goesOn : ∀ ad place field, state.threads thread = .updating ad place field → ad.key = key →
      ∃ place field, now = .updating ad place field) : (state.move thread now).Updates key := by
  obtain ⟨other, ad, place, field, here, named⟩ := updates
  by_cases same : other = thread
  · subst same
    obtain ⟨place', field', still⟩ := goesOn ad place field here named
    exact ⟨other, ad, place', field', by rw [move_self, still], named⟩
  · exact ⟨other, ad, place, field, by rw [move_of_ne state same, here], named⟩

/-- The threads' adverts stay apart when one thread moves on. -/
theorem apart_move (state : Interfaces Thread)
    (apart : ∀ thread other ad under, (state.threads thread).advert = some ad →
      (state.threads other).advert = some under → thread ≠ other → under.key ≠ ad.key)
    (advert : ∀ ad, now.advert = some ad → (state.threads thread).advert = some ad ∨
      ∀ other under, (state.threads other).advert = some under → under.key ≠ ad.key) :
    ∀ first second ad under, ((state.move thread now).threads first).advert = some ad →
      ((state.move thread now).threads second).advert = some under → first ≠ second →
      under.key ≠ ad.key := by
  intro first second ad under mine other differ
  by_cases here : first = thread
  · subst here
    rw [move_self] at mine
    rw [move_of_ne state differ.symm] at other
    rcases advert ad mine with same | fresh
    · exact apart first second ad under same other differ
    · exact fresh second under other
  · rw [move_of_ne state here] at mine
    by_cases there : second = thread
    · subst there
      rw [move_self] at other
      rcases advert under other with same | fresh
      · exact apart first second ad under mine same differ
      · exact (fresh first ad mine).symm
    · rw [move_of_ne state there] at other
      exact apart first second ad under mine other differ

/-- A thread moves on, and the list stays as it is. -/
theorem Sound.walk (sound : state.Sound past) (mute : Mute label)
    (settled : ∀ ad place field, state.threads thread ≠ .updating ad place field)
    (relies : now.Relies state.ntcIfs)
    (advert : ∀ ad, now.advert = some ad → (state.threads thread).advert = some ad ∨
      ∀ other under, (state.threads other).advert = some under → under.key ≠ ad.key) :
    (state.move thread now).Sound (past ++ [label]) where
  keys := sound.keys
  relies := all_move relies sound.relies
  apart := apart_move state sound.apart advert
  manager := sound.manager
  noted := fun ifs inside => (sound.noted ifs inside).mute mute fun updates =>
    updates_of_move state updates fun ad place field here => absurd here (settled ad place field)
  listed := fun key => by
    rw [latest_snoc_none (mute.advertOf key)]
    exact sound.listed key
  unlisted := fun key missing => by
    rw [latest_snoc_none (mute.declared key)]
    exact sound.unlisted key missing

omit [DecidableEq Thread] in
/-- The resource manager's thread goes on, and the list stays as it is. -/
theorem Sound.manage (sound : state.Sound past) (mute : Mute label) {asked : Option (IfCommand × Nat)}
    (inside : ∀ command, asked = some command → command.2 ≤ state.ntcIfs.length) :
    Sound (past ++ [label]) { state with manager := asked } where
  keys := sound.keys
  relies := sound.relies
  apart := sound.apart
  manager := inside
  noted := fun ifs inside => (sound.noted ifs inside).mute mute id
  listed := fun key => by
    rw [latest_snoc_none (mute.advertOf key)]
    exact sound.listed key
  unlisted := fun key missing => by
    rw [latest_snoc_none (mute.declared key)]
    exact sound.unlisted key missing

/-- A thread changes a record and moves on. -/
theorem Sound.touch (sound : state.Sound past) (keeps : ∀ ifs, (change ifs).key = ifs.key)
    (relies : now.Relies (state.ntcIfs.modify place change))
    (others : ∀ other, other ≠ thread →
      (state.threads other).Relies (state.ntcIfs.modify place change))
    (advert : ∀ ad, now.advert = some ad → (state.threads thread).advert = some ad)
    (noted : ∀ ifs ∈ state.ntcIfs.modify place change,
      Noted (past ++ [label]) ((state.change place change).move thread now).Updates ifs)
    (listed : ∀ key, (advertOf key label).isSome = true → key ∈ state.ntcIfs.map IfRecord.key)
    (undeclared : ∀ key, declared key label = none) :
    ((state.change place change).move thread now).Sound (past ++ [label]) where
  keys := by
    show ((state.ntcIfs.modify place change).map IfRecord.key).Nodup
    rw [keys_modify keeps]
    exact sound.keys
  relies := fun other => by
    by_cases here : other = thread
    · rw [here, move_self]
      exact relies
    · rw [move_of_ne _ here]
      exact others other here
  apart := apart_move (state.change place change) sound.apart fun ad here => .inl (advert ad here)
  manager := fun asked here => by
    show asked.2 ≤ (state.ntcIfs.modify place change).length
    rw [List.length_modify]
    exact sound.manager asked here
  noted := noted
  listed := fun key => by
    show key ∈ (state.ntcIfs.modify place change).map IfRecord.key ↔ _
    rw [keys_modify keeps, latest_snoc]
    cases said : advertOf key label with
    | none =>
      rw [Option.none_or]
      exact sound.listed key
    | some numbers =>
      rw [Option.some_or]
      exact ⟨fun _ => Option.some_ne_none _, fun _ => listed key (by rw [said]; rfl)⟩
  unlisted := fun key missing => by
    rw [latest_snoc_none (undeclared key)]
    refine sound.unlisted key ?_
    have missing : key ∉ (state.ntcIfs.modify place change).map IfRecord.key := missing
    rwa [keys_modify keeps] at missing

omit [DecidableEq Thread] in
/-- What the others rely on stays when an advert stores into the record of its name. -/
theorem Sound.others_store (sound : state.Sound past) {field field' : Field}
    (here : state.threads thread = .updating ad place field) {other : Thread} (apart : other ≠ thread) :
    (state.threads other).Relies (state.ntcIfs.modify place (field'.store ad.numbers)) := by
  refine (sound.relies other).modify (field'.store_key ad.numbers) ?_
  intro under at' there
  obtain ⟨first, entry, named, -⟩ := here ▸ sound.relies thread
  obtain ⟨second, entry', named', -⟩ := there ▸ sound.relies other
  rw [entry] at entry'
  cases entry'
  exact absurd (named'.symm.trans named)
    (sound.apart thread other ad under (by rw [here]; rfl) (by rw [there]; rfl) apart.symm)

omit [DecidableEq Thread] in
/-- What is not at the record of the advert has another name. -/
theorem Sound.other_key (sound : state.Sound past) {field : Field}
    (here : state.threads thread = .updating ad place field) {other : Nat} {ifs : IfRecord}
    (apart : other ≠ place) (entry : state.ntcIfs[other]? = some ifs) : ifs.key ≠ ad.key := by
  obtain ⟨mine, entry', named, -⟩ := here ▸ sound.relies thread
  exact fun same => apart (place_unique sound.keys entry entry' (same.trans named.symm))

theorem Sound.stores (sound : state.Sound past) (mute : Mute label) {field next : Field}
    (here : state.threads thread = .updating ad place field) (goes : field.next = some next) :
    ((state.change place (field.store ad.numbers)).move thread (.updating ad place next)).Sound
      (past ++ [label]) := by
  obtain ⟨mine, entry, named, stored⟩ := here ▸ sound.relies thread
  have updates : ((state.change place (field.store ad.numbers)).move thread
      (.updating ad place next)).Updates ad.key := ⟨thread, ad, place, next, move_self .., rfl⟩
  refine sound.touch (Field.store_key ad.numbers field) ?_ (fun other => sound.others_store here)
    ?_ ?_ (fun key said => by rw [mute.advertOf] at said; cases said) mute.declared
  · refine ⟨field.store ad.numbers mine, by rw [List.getElem?_modify, entry]; simp, ?_, ?_⟩
    · rw [Field.store_key, named]
    · exact Field.store_stored stored goes
  · intro under same
    rw [here]
    exact same
  · refine noted_modify sound.noted ?_ ?_
    · intro ifs there noted
      rw [entry] at there
      cases there
      refine ⟨fun settled => absurd ?_ settled, ?_⟩
      · rw [Field.store_key, named]
        exact updates
      · rw [Field.store_interest, Field.store_key, latest_snoc_none (mute.declared _)]
        exact noted.interest
    · intro other ifs apart there noted
      refine noted.mute mute fun before => ?_
      refine updates_of_move (state.change place (field.store ad.numbers)) before ?_
      intro under place' field' same _
      have same : state.threads thread = .updating under place' field' := same
      rw [here] at same
      cases same
      exact ⟨place, next, rfl⟩

theorem Sound.updates (sound : state.Sound past)
    (here : state.threads thread = .updating ad place .flag) :
    ((state.change place (Field.flag.store ad.numbers)).move thread .idle).Sound
      (past ++ [(input, .advertised thread ad)]) := by
  obtain ⟨mine, entry, named, stored⟩ := here ▸ sound.relies thread
  refine sound.touch (Field.store_key ad.numbers .flag) trivial (fun other => sound.others_store here)
    (fun under same => by cases same) ?_ ?_ (fun _ => rfl)
  · refine noted_modify sound.noted ?_ ?_
    · intro ifs there noted
      rw [entry] at there
      cases there
      refine ⟨fun _ => ?_, ?_⟩
      · rw [Field.store_key, named]
        rw [latest_snoc_some (advertOf_advertised.trans (if_pos rfl))]
        exact congrArg some stored.symm
      · rw [Field.store_interest, Field.store_key, latest_snoc_none rfl]
        exact noted.interest
    · intro other ifs apart there noted
      have differs : ad.key ≠ ifs.key := (sound.other_key here apart there).symm
      refine ⟨fun settled => ?_, ?_⟩
      · rw [latest_snoc_none (advertOf_advertised.trans (if_neg differs))]
        refine noted.numbers fun before => settled ?_
        refine updates_of_move (state.change place (Field.flag.store ad.numbers)) before ?_
        intro under place' field' same named'
        have same : state.threads thread = .updating under place' field' := same
        rw [here] at same
        cases same
        exact absurd named' differs
      · rw [latest_snoc_none rfl]
        exact noted.interest
  · intro key said
    rw [advertOf_advertised] at said
    split at said
    · next same =>
      rw [← same, ← named]
      exact List.mem_map_of_mem (List.mem_of_getElem? entry)
    · cases said

omit [DecidableEq Thread] in
/-- No advert is being stored while nobody has the lock. -/
theorem not_updates (alone : ∀ other, (state.threads other).hold = .free) : ¬ state.Updates key := by
  rintro ⟨other, ad, place, field, here, -⟩
  have free := alone other
  rw [here] at free
  cases free

theorem Sound.adds (sound : state.Sound past) (here : state.threads thread = .adding ad)
    (alone : ∀ other, (state.threads other).hold = .free) :
    Sound (past ++ [(input, .advertised thread ad)])
      ({ state with ntcIfs := state.ntcIfs ++ [ad.record] }.move thread .idle) := by
  obtain ⟨fits, missing⟩ := here ▸ sound.relies thread
  have named : ad.record.key = ad.key := Advert.record_key fits
  have lone : ∀ other, other ≠ thread → ∀ under, (state.threads other).advert = some under →
      ad.record.key ≠ under.key := by
    intro other apart under there
    rw [named]
    exact sound.apart other thread under ad there (by rw [here]; rfl) apart
  constructor
  · exact nodup_added sound.keys (by rw [named]; exact missing)
  · intro other
    by_cases same : other = thread
    · rw [same, move_self]
      trivial
    · rw [move_of_ne _ same]
      exact (sound.relies other).add (lone other same)
  · exact apart_move { state with ntcIfs := state.ntcIfs ++ [ad.record] } sound.apart
      fun under same => by cases same
  · intro asked there
    exact Nat.le_trans (sound.manager asked there) (by simp [move])
  · intro ifs inside
    have inside : ifs ∈ state.ntcIfs ++ [ad.record] := inside
    rcases List.mem_append.mp inside with old | last
    · have noted := sound.noted ifs old
      have differs : ad.key ≠ ifs.key := fun same => missing (same ▸ List.mem_map_of_mem old)
      refine ⟨fun _ => ?_, ?_⟩
      · rw [latest_snoc_none (advertOf_advertised.trans (if_neg differs))]
        exact noted.numbers (not_updates alone)
      · rw [latest_snoc_none rfl]
        exact noted.interest
    · rw [List.mem_singleton.mp last]
      refine ⟨fun _ => ?_, ?_⟩
      · rw [named, latest_snoc_some (advertOf_advertised.trans (if_pos rfl))]
        rfl
      · rw [named, latest_snoc_none rfl, sound.unlisted _ missing]
        rfl
  · intro key
    show key ∈ (state.ntcIfs ++ [ad.record]).map IfRecord.key ↔ _
    rw [List.map_append, List.mem_append, List.map_singleton, List.mem_singleton, named, latest_snoc,
      advertOf_advertised]
    by_cases same : ad.key = key
    · simp [same]
    · rw [if_neg same, Option.none_or, ← sound.listed key]
      exact or_iff_left (Ne.symm same)
  · intro key missing'
    have missing' : key ∉ (state.ntcIfs ++ [ad.record]).map IfRecord.key := missing'
    rw [latest_snoc_none rfl]
    refine sound.unlisted key fun old => missing' ?_
    rw [List.map_append]
    exact List.mem_append_left _ old

theorem Sound.marks (sound : state.Sound past) (mute : Mute label) {numbers : IfNumbers} {head : Nat}
    (here : state.threads thread = .dying numbers head) :
    ((state.change place fun ifs => { ifs with dead := true }).move thread .idle).Sound
      (past ++ [label]) := by
  refine sound.touch (fun _ => rfl) trivial
    (fun other _ => (sound.relies other).modify (fun _ => rfl) fun _ _ _ _ => rfl)
    (fun under same => by cases same) ?_ (fun key said => by rw [mute.advertOf] at said; cases said)
    mute.declared
  have still : ∀ ifs : IfRecord, state.Updates ifs.key →
      ((state.change place fun ifs => { ifs with dead := true }).move thread .idle).Updates ifs.key := by
    intro ifs updates
    refine updates_of_move (state.change place fun ifs => { ifs with dead := true }) updates ?_
    intro under place' field same _
    have same : state.threads thread = .updating under place' field := same
    rw [here] at same
    cases same
  refine noted_modify sound.noted ?_ ?_
  · intro ifs there noted
    have noted := noted.mute mute (still ifs)
    exact ⟨noted.numbers, noted.interest⟩
  · exact fun other ifs apart there noted => noted.mute mute (still ifs)

omit [DecidableEq Thread] in
theorem declared_answered {command : IfCommand} {name : List UInt8} {interest : Bool}
    {present : List (List UInt8 × Bool)} (said : command.declaration = some (name, interest)) :
    declared key ((input, .answered command 1 present) : IfLabel Thread) =
      if caseless name = key then some interest else none := by
  simp [declared, said]

omit [DecidableEq Thread] in
theorem Sound.declares (sound : state.Sound past) {command : IfCommand} {name : List UInt8}
    {interest : Bool} {head : Nat} {present : List (List UInt8 × Bool)}
    (said : command.declaration = some (name, interest))
    (found : state.search name head = some place) :
    Sound (past ++ [(input, .answered command 1 present)])
      { state.change place (fun ifs => { ifs with ofinterest := interest }) with manager := none } := by
  obtain ⟨-, mine, entry, hit⟩ := findBelow_some found
  have named : mine.key = caseless name := stricmp_iff.mp hit
  have keys : (state.ntcIfs.modify place fun ifs => { ifs with ofinterest := interest }).map
      IfRecord.key = state.ntcIfs.map IfRecord.key := keys_modify fun _ => rfl
  constructor
  · show ((state.ntcIfs.modify place _).map IfRecord.key).Nodup
    rw [keys]
    exact sound.keys
  · exact fun other => (sound.relies other).modify (fun _ => rfl) fun _ _ _ _ => rfl
  · exact sound.apart
  · intro asked there
    cases there
  · refine noted_modify sound.noted ?_ ?_
    · intro ifs there noted
      rw [entry] at there
      cases there
      refine ⟨fun settled => ?_, ?_⟩
      · rw [latest_snoc_none rfl]
        exact noted.numbers settled
      · show interest = (latest (declared mine.key) _).getD false
        rw [latest_snoc_some ((declared_answered said).trans (if_pos named.symm)), Option.getD_some]
    · intro other ifs apart there noted
      have differs : caseless name ≠ ifs.key := fun same =>
        apart (place_unique sound.keys entry there (named.trans same)).symm
      refine ⟨fun settled => ?_, ?_⟩
      · rw [latest_snoc_none rfl]
        exact noted.numbers settled
      · rw [latest_snoc_none ((declared_answered said).trans (if_neg differs))]
        exact noted.interest
  · intro key
    show key ∈ (state.ntcIfs.modify place _).map IfRecord.key ↔ _
    rw [keys, latest_snoc_none rfl]
    exact sound.listed key
  · intro key missing
    have missing : key ∉ (state.ntcIfs.modify place _).map IfRecord.key := missing
    rw [keys] at missing
    have differs : caseless name ≠ key := by
      rintro rfl
      exact missing (named ▸ List.mem_map_of_mem (List.mem_of_getElem? entry))
    rw [latest_snoc_none ((declared_answered said).trans (if_neg differs))]
    exact sound.unlisted key missing

omit [DecidableEq Thread] in
/-- A search that has found nothing has passed every record. -/
theorem Sound.missing (sound : state.Sound past) {head : Nat}
    (here : state.threads thread = .searching ad head) (missing : state.search ad.name head = none) :
    ad.key ∉ state.ntcIfs.map IfRecord.key := by
  obtain ⟨-, -, newer⟩ := here ▸ sound.relies thread
  intro inside
  obtain ⟨ifs, member, named⟩ := List.mem_map.mp inside
  obtain ⟨place, entry⟩ := List.mem_iff_getElem?.mp member
  rcases Nat.lt_or_ge place head with below | above
  · have misses := findBelow_none missing place below ifs entry
    exact Bool.eq_false_iff.mp misses (stricmp_iff.mpr named)
  · exact newer place ifs above entry named

theorem Sound.comes (sound : state.Sound past) (mute : Mute label) {arrival : Arrival}
    (orderly : state.Orderly (.comes thread arrival)) (idle : state.threads thread = .idle) :
    (state.move thread (arrival.thread state.ntcIfs.length)).Sound (past ++ [label]) := by
  refine sound.walk mute (fun ad place field here => by rw [idle] at here; cases here) ?_ ?_
  · cases arrival with
    | advert ad =>
      refine ⟨orderly.1, Nat.le_refl _, fun place ifs above entry => ?_⟩
      exact absurd (List.getElem?_eq_some_iff.mp entry).1 (Nat.not_lt_of_le above)
    | dying numbers => exact Nat.le_refl _
    | packet numbers => exact Nat.le_refl _
  · intro ad at'
    cases arrival with
    | advert under =>
      cases at'
      exact .inr orderly.2
    | dying numbers => cases at'
    | packet numbers => cases at'

theorem Sound.step (sound : state.Sound past) (orderly : state.Orderly input)
    (does : Does state input event after) : after.Sound (past ++ [(input, event)]) := by
  cases does with
  | comes idle => exact sound.comes ⟨fun _ => rfl, fun _ => rfl⟩ orderly idle
  | finds here found =>
    obtain ⟨-, ifs, entry, hit⟩ := findBelow_some found
    refine sound.walk ⟨fun _ => rfl, fun _ => rfl⟩ (fun _ _ _ same => by rw [here] at same; cases same)
      ⟨ifs, entry, stricmp_iff.mp hit, trivial⟩ fun under same => .inl ?_
    rw [here]
    exact same
  | misses here missing =>
    have relies := here ▸ sound.relies _
    refine sound.walk ⟨fun _ => rfl, fun _ => rfl⟩ (fun _ _ _ same => by rw [here] at same; cases same)
      ⟨relies.1, sound.missing here missing⟩ fun under same => .inl ?_
    rw [here]
    exact same
  | stores here goes => exact sound.stores ⟨fun _ => rfl, fun _ => rfl⟩ here goes
  | updates here => exact sound.updates here
  | adds here alone => exact sound.adds here alone
  | marks here alone => exact sound.marks ⟨fun _ => rfl, fun _ => rfl⟩ here
  | ignores here =>
    exact sound.walk ⟨fun _ => rfl, fun _ => rfl⟩ (fun _ _ _ same => by rw [here] at same; cases same)
      trivial fun under same => by cases same
  | enters here =>
    have relies := here ▸ sound.relies _
    exact sound.walk ⟨fun _ => rfl, fun _ => rfl⟩ (fun _ _ _ same => by rw [here] at same; cases same)
      relies fun under same => by cases same
  | agrees here entry same goes =>
    have relies := here ▸ sound.relies _
    exact sound.walk ⟨fun _ => rfl, fun _ => rfl⟩ (fun _ _ _ same => by rw [here] at same; cases same)
      relies fun under same => by cases same
  | differs here entry other =>
    have relies := here ▸ sound.relies _
    exact sound.walk ⟨fun _ => rfl, fun _ => rfl⟩ (fun _ _ _ same => by rw [here] at same; cases same)
      (Nat.le_of_succ_le relies) fun under same => by cases same
  | judges here entry =>
    exact sound.walk ⟨fun _ => rfl, fun _ => rfl⟩ (fun _ _ _ same => by rw [here] at same; cases same)
      trivial fun under same => by cases same
  | ends here =>
    exact sound.walk ⟨fun _ => rfl, fun _ => rfl⟩ (fun _ _ _ same => by rw [here] at same; cases same)
      trivial fun under same => by cases same
  | asks =>
    exact sound.manage ⟨fun _ => rfl, fun _ => rfl⟩ fun command same => by cases same; exact Nat.le_refl _
  | shows =>
    exact sound.manage ⟨fun _ => rfl, fun _ => by simp [declared, IfCommand.declaration]⟩
      fun command same => by cases same
  | declares said found => exact sound.declares said found
  | declines =>
    exact sound.manage ⟨fun _ => rfl, fun _ => rfl⟩ fun command same => by cases same

end Steps

/-! ### Whole runs -/

variable {past labels : List (IfLabel Thread)} {final : Interfaces Thread}

/-- The filter as it is mounted. -/
def started : Interfaces Thread := ⟨[], fun _ => .idle, none⟩

abbrev IfStep (state : Interfaces Thread) (label : IfLabel Thread) (next : Interfaces Thread) : Prop :=
  Answers handle state label next

omit [DecidableEq Thread] [Fintype Thread] in
theorem started_sound : Sound [] (started : Interfaces Thread) where
  keys := List.nodup_nil
  relies := fun _ => trivial
  apart := fun _ _ _ _ same => by cases same
  manager := fun _ same => by cases same
  noted := fun _ inside => by cases inside
  listed := fun key => by simp [started, latest]
  unlisted := fun _ _ => rfl

theorem run_sound
    (run : Run (Under IfStep fun state label => state.Orderly label.1) started labels final) :
    final.Sound labels :=
  run.history (motive := fun past state => state.Sound past) started_sound
    fun _ _ _ _ sound step => sound.step step.2 (handle_does step.1)

theorem Sound.not_wild (sound : state.Sound past) (input : IfInput Thread) :
    state.handle input ≠ .error .wild := by
  cases input with
  | comes thread arrival =>
    simp only [handle]
    split <;> simp
  | asks command =>
    simp only [handle]
    split <;> simp
  | serves =>
    simp only [handle]
    split
    · next command head here =>
      have inside : head ≤ state.ntcIfs.length := sound.manager _ here
      cases command with
      | ifPresent nbytes =>
        have enough : ¬ state.ntcIfs.length < min head (nbytes / ifInfoSize) := by omega
        simp [serve, enough]
      | addIf name =>
        simp only [serve, setInterest]
        split <;> simp
      | delIf name =>
        simp only [serve, setInterest]
        split <;> simp
    · simp
  | goOn thread =>
    have relies := sound.relies thread
    cases here : state.threads thread with
    | idle => simp [handle, goOn, here]
    | searching ad head =>
      simp only [handle, goOn, here]
      split <;> simp
    | updating ad place field =>
      obtain ⟨ifs, entry, -, -⟩ := here ▸ relies
      have inside : ¬ state.ntcIfs.length ≤ place :=
        Nat.not_le_of_lt (List.getElem?_eq_some_iff.mp entry).1
      simp only [handle, goOn, here, update, inside, if_false]
      split <;> simp
    | adding ad =>
      simp only [handle, goOn, here]
      split <;> simp
    | dying numbers head =>
      simp only [handle, goOn, here]
      split
      · split <;> simp
      · simp
    | arriving numbers head => simp [handle, goOn, here]
    | comparing numbers place field =>
      simp only [handle, goOn, here]
      cases place with
      | zero => simp [compare]
      | succ place =>
        have inside : place < state.ntcIfs.length := by
          rw [here] at relies
          exact relies
        simp only [compare, List.getElem?_eq_getElem inside]
        split
        · split <;> simp
        · simp

/-- Where the adverts of one interface do not overlap and names fit into `ifname`, the list holds each
advertised interface once, with the numbers of its last advert, unless one is just being stored, and with
the interest of the last command that has found it; and nothing is accessed beyond it. -/
theorem interfaces_are_listed_once (labels : List (IfLabel Thread)) (final : Interfaces Thread)
    (run : Run (Under IfStep fun state label => state.Orderly label.1) started labels final) :
    (final.ntcIfs.map IfRecord.key).Nodup ∧
      (∀ key, key ∈ final.ntcIfs.map IfRecord.key ↔ latest (advertOf key) labels ≠ none) ∧
      (∀ ifs ∈ final.ntcIfs, ¬ final.Updates ifs.key →
        latest (advertOf ifs.key) labels = some ifs.numbers) ∧
      (∀ ifs ∈ final.ntcIfs, ifs.ofinterest = (latest (declared ifs.key) labels).getD false) ∧
      ∀ input, final.handle input ≠ .error .wild := by
  have sound := run_sound run
  exact ⟨sound.keys, sound.listed, fun ifs inside => (sound.noted ifs inside).numbers,
    fun ifs inside => (sound.noted ifs inside).interest, sound.not_wild⟩

end Interfaces

/-- An interface is advertised, said to be of interest, and advertised anew, with an advert of another
one in between. -/
theorem interface_is_advertised_anew : ∃ labels, ∃ final : Interfaces Bool,
    Run (Under Interfaces.IfStep fun state label => state.Orderly label.1) Interfaces.started labels
      final ∧
      final.ntcIfs.map (fun ifs => (ifs.ifname, ifs.numbers, ifs.ofinterest)) =
        [([101, 110, 48], ⟨7, 8, 9⟩, true), ([101, 110, 49], ⟨1, 2, 4⟩, false)] ∧
      (final.ntcIfs.map IfRecord.key).Nodup := by
  obtain ⟨labels, final, run, seen⟩ := replay_reaches (guarded Interfaces.handle Interfaces.Orderly)
    (Interfaces.started : Interfaces Bool)
    ([.comes false (.advert ⟨[101, 110, 48], ⟨1, 2, 3⟩⟩)] ++ List.replicate 2 (.goOn false) ++
      [.asks (.addIf [69, 78, 48]), .serves, .comes false (.advert ⟨[69, 78, 48], ⟨7, 8, 9⟩⟩),
        .comes true (.advert ⟨[101, 110, 49], ⟨1, 2, 4⟩⟩), .goOn true] ++
      List.replicate 5 (.goOn false) ++ [.goOn true])
    (fun final _ => final.ntcIfs.map fun ifs => (ifs.ifname, ifs.numbers, ifs.ofinterest))
    [([101, 110, 48], ⟨7, 8, 9⟩, true), ([101, 110, 49], ⟨1, 2, 4⟩, false)] (by decide +kernel)
  have run := run_guarded run
  exact ⟨labels, final, run, seen, (Interfaces.interfaces_are_listed_once labels final run).1⟩

end QNXStuff.NfmNtc
