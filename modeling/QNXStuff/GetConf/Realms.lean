import Mathlib.Data.List.Induction
import QNXStuff.GetConf.Scripts
import QNXStuff.Library.Registry

/-! Programs that read directives and realms: the loops over the words of a line and over the lines up
to the end of a realm, and what lines they take. -/

namespace QNXStuff.GetConf

open Execution Registry
open QXMail (ascii stricmp)

/-- There are turns for the lines ahead and for the words of each. -/
structure Ahead.Below (ahead : Ahead) (turns : Nat) : Prop where
  lines : ahead.rest.length < turns
  words : ∀ line ∈ ahead.rest, line.length ≤ turns

theorem Ahead.Below.mono {ahead after : Ahead} {turns : Nat} {used : List Line}
    (below : ahead.Below turns) (rest : ahead.rest = used ++ after.rest) : after.Below turns := by
  obtain ⟨lines, words⟩ := below
  rw [rest] at lines words
  rw [List.length_append] at lines
  exact ⟨Nat.lt_of_le_of_lt (Nat.le_add_left ..) lines,
    fun line member => words line (List.mem_append_right _ member)⟩

theorem Ahead.Below.skip {ahead : Ahead} {turns : Nat} (below : ahead.Below turns) (args : Line) :
    Ahead.Below { ahead with args := args } turns :=
  ⟨below.lines, below.words⟩

/-- A program that may give up. -/
abbrev Setup (Fault : Type) := ExceptT Fault Script

namespace Setup

variable {Fault State Value Value' Result : Type}

def string : Setup Fault (Option Word) := ExceptT.mk (.string fun word => .done (.ok word))

def token : Setup Fault (Option Word) := ExceptT.mk (.token fun word => .done (.ok word))

def ofExcept (result : Except Fault Value) : Setup Fault Value := ExceptT.mk (.done result)

/-- `while(NULL != (token = GetConf_token()))` -/
def eachToken (spent : Fault) (body : State → Word → Except Fault State) :
    Nat → State → Setup Fault State
  | 0, _ => throw spent
  | turns + 1, state => do
    match ← token with
    | none => pure state
    | some word =>
      let next ← ofExcept (body state word)
      eachToken spent body turns next

/-- `while( (token = GetConf_string()) != NULL )`, which the body may leave, and what is behind it when
the file ends. -/
def eachString (spent : Fault) (body : State → Word → Setup Fault (Pass State Result))
    (atEnd : State → Except Fault Result) : Nat → State → Setup Fault Result
  | 0, _ => throw spent
  | turns + 1, state => do
    match ← string with
    | none => ofExcept (atEnd state)
    | some word =>
      match ← body state word with
      | .stop result => pure result
      | .again next => eachString spent body atEnd turns next

/-! ### What a program takes of the lines -/

/-- It comes to a value, and leaves what is ahead then. -/
def Takes (setup : Setup Fault Value) (ahead : Ahead) (value : Value) (after : Ahead) : Prop :=
  Script.read setup.run ahead = (after, .ok value)

section Steps

variable {ahead after : Ahead} {value : Value} {value' : Value'}

theorem takes_pure : Takes (pure value : Setup Fault Value) ahead value after ↔ after = ahead := by
  constructor
  · intro takes
    cases takes
    rfl
  · rintro rfl
    rfl

theorem takes_pure' {other : Value} :
    Takes (pure value : Setup Fault Value) ahead other after ↔ other = value ∧ after = ahead := by
  constructor
  · intro takes
    cases takes
    exact ⟨rfl, rfl⟩
  · rintro ⟨rfl, rfl⟩
    rfl

theorem not_takes_throw {fault : Fault} :
    ¬ Takes (throw fault : Setup Fault Value) ahead value after := by
  intro takes
  cases takes

theorem takes_ofExcept {result : Except Fault Value} :
    Takes (ofExcept result) ahead value after ↔ result = .ok value ∧ after = ahead := by
  constructor
  · intro takes
    cases takes
    exact ⟨rfl, rfl⟩
  · rintro ⟨rfl, rfl⟩
    rfl

theorem takes_string {word : Option Word} :
    Takes (string : Setup Fault (Option Word)) ahead word after ↔ ahead.next = (after, word) := by
  constructor
  · intro takes
    cases takes
    rfl
  · intro read
    show (ahead.next.1, Except.ok ahead.next.2) = _
    rw [read]

theorem takes_token {word : Option Word} :
    Takes (token : Setup Fault (Option Word)) ahead word after ↔
      word = ahead.args.head? ∧ after = { ahead with args := ahead.args.tail } := by
  constructor
  · intro takes
    cases takes
    exact ⟨rfl, rfl⟩
  · rintro ⟨rfl, rfl⟩
    rfl

theorem takes_bind {setup : Setup Fault Value} {next : Value → Setup Fault Value'} :
    Takes (setup >>= next) ahead value' after ↔
      ∃ value between, Takes setup ahead value between ∧ Takes (next value) between value' after := by
  unfold Takes
  have bound : Script.read (setup >>= next).run ahead =
      match Script.read setup.run ahead with
      | (between, .ok value) => Script.read (next value).run between
      | (between, .error fault) => (between, .error fault) := by
    refine (Script.read_bind ..).trans ?_
    cases read : Script.read setup.run ahead with
    | mk between result =>
      have read : Script.read setup ahead = (between, result) := read
      rw [read]
      cases result <;> rfl
  rw [bound]
  cases read : Script.read setup.run ahead with
  | mk between result =>
    cases result with
    | error fault => simp
    | ok value => simp

end Steps

/-! ### The loops -/

section Loops

variable {spent : Fault} {ahead after : Ahead} {turns : Nat} {state : State}

theorem takes_eachToken {body : State → Word → Except Fault State} {final : State}
    (enough : ahead.args.length < turns) :
    Takes (eachToken spent body turns state) ahead final after ↔
      ahead.args.foldlM body state = .ok final ∧ after = { ahead with args := [] } := by
  obtain ⟨args, lines⟩ := ahead
  induction args generalizing state turns with
  | nil =>
    obtain ⟨turns, rfl⟩ := Nat.exists_eq_add_of_lt enough
    simp only [List.length_nil, Nat.zero_add, eachToken, takes_bind, takes_token]
    constructor
    · rintro ⟨_, _, ⟨rfl, rfl⟩, takes⟩
      obtain ⟨rfl, rfl⟩ := takes_pure'.mp takes
      exact ⟨rfl, rfl⟩
    · rintro ⟨done, rfl⟩
      cases done
      exact ⟨_, _, ⟨rfl, rfl⟩, takes_pure.mpr rfl⟩
  | cons word args ih =>
    obtain ⟨turns, rfl⟩ := Nat.exists_eq_add_one_of_ne_zero (Nat.ne_of_gt (Nat.zero_lt_of_lt enough))
    have less : args.length < turns := Nat.lt_of_succ_lt_succ enough
    simp only [eachToken, takes_bind, takes_token, List.foldlM_cons]
    constructor
    · rintro ⟨_, _, ⟨rfl, rfl⟩, takes⟩
      obtain ⟨next, between, taken, rest⟩ := takes_bind.mp takes
      obtain ⟨done, rfl⟩ := takes_ofExcept.mp taken
      obtain ⟨folded, same⟩ := (ih less).mp rest
      exact ⟨by rw [done]; exact folded, same⟩
    · rintro ⟨done, rfl⟩
      cases first : body state word with
      | error fault =>
        rw [first] at done
        cases done
      | ok next =>
        rw [first] at done
        exact ⟨_, _, ⟨rfl, rfl⟩, takes_bind.mpr ⟨next, _, takes_ofExcept.mpr ⟨first, rfl⟩,
          (ih less).mpr ⟨done, rfl⟩⟩⟩

end Loops

/-! ### Realms -/

/-- What a loop over lines makes of them: items, each of some lines, up to a line that closes it. -/
inductive Realm (item : State → List Line → State → Prop) (close : State → Line → Result → Prop) :
    State → List Line → Result → Prop where
  | closed {state : State} {line : Line} {result : Result} (closes : close state line result) :
      Realm item close state [line] result
  | item {state next : State} {used lines : List Line} {result : Result} (some : used ≠ [])
      (made : item state used next) (rest : Realm item close next lines result) :
      Realm item close state (used ++ lines) result

/-- The same up to the end of the file. -/
inductive Items (item : State → List Line → State → Prop) : State → List Line → State → Prop where
  | none {state : State} : Items item state [] state
  | item {state next final : State} {used lines : List Line} (some : used ≠ [])
      (made : item state used next) (rest : Items item next lines final) :
      Items item state (used ++ lines) final

/-! ### Readings of the same lines -/

section Readings

variable {State' Result' : Type} {item : State → List Line → State → Prop}
  {close : State → Line → Result → Prop} {item' : State' → List Line → State' → Prop}
  {close' : State' → Line → Result' → Prop} {state final : State} {state' : State'} {lines : List Line}
  {result : Result}

/-- A realm has another reading if its items and its last line have one. -/
theorem Realm.simulate (alike : State → State' → Prop) (ends : Result → Result' → Prop)
    (step : ∀ {state next state' used}, item state used next → alike state state' →
      ∃ next', item' state' used next' ∧ alike next next')
    (last : ∀ {state result state' line}, close state line result → alike state state' →
      ∃ result', close' state' line result' ∧ ends result result')
    (realm : Realm item close state lines result) (here : alike state state') :
    ∃ result', Realm item' close' state' lines result' ∧ ends result result' := by
  induction realm generalizing state' with
  | closed closes =>
    obtain ⟨result', closes', there⟩ := last closes here
    exact ⟨result', .closed closes', there⟩
  | item some made _ ih =>
    obtain ⟨next', made', between⟩ := step made here
    obtain ⟨result', realm', there⟩ := ih between
    exact ⟨result', .item some made' realm', there⟩

theorem Items.simulate (alike : State → State' → Prop)
    (step : ∀ {state next state' used}, item state used next → alike state state' →
      ∃ next', item' state' used next' ∧ alike next next')
    (items : Items item state lines final) (here : alike state state') :
    ∃ final', Items item' state' lines final' ∧ alike final final' := by
  induction items generalizing state' with
  | none => exact ⟨state', .none, here⟩
  | item some made _ ih =>
    obtain ⟨next', made', between⟩ := step made here
    obtain ⟨final', items', there⟩ := ih between
    exact ⟨final', .item some made' items', there⟩

end Readings

/-- What the body of a loop does is what items and closing lines say, where there are turns enough. -/
structure Follows (turns : Nat) (body : State → Word → Setup Fault (Pass State Result))
    (item : State → List Line → State → Prop) (close : State → Line → Result → Prop) : Prop where
  stops : ∀ {state word ahead result after}, ahead.Below turns → ahead.args.length < turns →
    Takes (body state word) ahead (.stop result) after →
    close state (word :: ahead.args) result ∧ after.rest = ahead.rest
  goes : ∀ {state word ahead next after}, ahead.Below turns → ahead.args.length < turns →
    Takes (body state word) ahead (.again next) after →
    ∃ used, used ≠ [] ∧ (word :: ahead.args) :: ahead.rest = used ++ after.rest ∧ item state used next
  closes : ∀ {state word ahead result}, ahead.Below turns → ahead.args.length < turns →
    close state (word :: ahead.args) result →
    ∃ after, Takes (body state word) ahead (.stop result) after ∧ after.rest = ahead.rest
  items : ∀ {state word ahead next used more}, ahead.Below turns → ahead.args.length < turns →
    item state used next → (word :: ahead.args) :: ahead.rest = used ++ more →
    ∃ after, Takes (body state word) ahead (.again next) after ∧ after.rest = more

section Realms

variable {spent : Fault} {turns fuel : Nat} {body : State → Word → Setup Fault (Pass State Result)}
  {item : State → List Line → State → Prop} {close : State → Line → Result → Prop}
  {atEnd : State → Except Fault Result} {ahead after between : Ahead} {state final : State}
  {result : Result} {word : Word}

theorem below_next (below : ahead.Below turns) (read : ahead.next = (between, some word)) :
    between.Below turns ∧ between.args.length < turns := by
  have rest : ahead.rest = [word :: between.args] ++ between.rest := Ahead.next_some read
  refine ⟨below.mono rest, ?_⟩
  exact below.words (word :: between.args) (by rw [rest]; exact List.mem_cons_self)

theorem takes_turn (read : ahead.next = (between, some word)) :
    Takes (eachString spent body atEnd (fuel + 1) state) ahead result after ↔
      Takes (body state word) between (.stop result) after ∨
        ∃ next middle, Takes (body state word) between (.again next) middle ∧
          Takes (eachString spent body atEnd fuel next) middle result after := by
  simp only [eachString, takes_bind, takes_string, read, Prod.mk.injEq]
  constructor
  · rintro ⟨_, _, ⟨rfl, rfl⟩, takes⟩
    obtain ⟨pass, middle, turn, rest⟩ := takes_bind.mp takes
    cases pass with
    | stop result' =>
      obtain ⟨rfl, rfl⟩ := takes_pure'.mp rest
      exact .inl turn
    | again next => exact .inr ⟨next, middle, turn, rest⟩
  · rintro (turn | ⟨next, middle, turn, rest⟩)
    · exact ⟨_, _, ⟨rfl, rfl⟩, takes_bind.mpr ⟨_, _, turn, takes_pure.mpr rfl⟩⟩
    · exact ⟨_, _, ⟨rfl, rfl⟩, takes_bind.mpr ⟨_, _, turn, rest⟩⟩

/-- A turn of the loop at the end of the file. -/
theorem takes_ending (read : ahead.next = (between, none)) :
    Takes (eachString spent body atEnd (fuel + 1) state) ahead result after ↔
      atEnd state = .ok result ∧ after = between := by
  simp only [eachString, takes_bind, takes_string, read, Prod.mk.injEq]
  constructor
  · rintro ⟨_, _, ⟨rfl, rfl⟩, takes⟩
    exact takes_ofExcept.mp takes
  · rintro ⟨done, rfl⟩
    exact ⟨_, _, ⟨rfl, rfl⟩, takes_ofExcept.mpr ⟨done, rfl⟩⟩

/-- What a loop that must be closed has taken is a realm. -/
theorem Follows.realm (follows : Follows turns body item close)
    (unended : ∀ state result, atEnd state ≠ .ok result) (below : ahead.Below turns)
    (takes : Takes (eachString spent body atEnd fuel state) ahead result after) :
    ∃ used, ahead.rest = used ++ after.rest ∧ Realm item close state used result := by
  induction fuel generalizing state ahead with
  | zero => exact absurd takes not_takes_throw
  | succ fuel ih =>
    rcases ahead.reads_next with ⟨between, read⟩ | ⟨between, word, read⟩
    · exact absurd ((takes_ending read).mp takes).1 (unended state result)
    · have rest := Ahead.next_some read
      obtain ⟨below', short⟩ := below_next below read
      rcases (takes_turn read).mp takes with turn | ⟨next, middle, turn, later⟩
      · obtain ⟨closed, same⟩ := follows.stops below' short turn
        exact ⟨[word :: between.args], by rw [rest, same]; rfl, .closed closed⟩
      · obtain ⟨used, some, split, made⟩ := follows.goes below' short turn
        obtain ⟨lines, split', realm⟩ := ih (below.mono (rest.trans split)) later
        exact ⟨used ++ lines, by rw [rest, split, split', List.append_assoc], .item some made realm⟩

theorem rest_cons {line : Line} {more : List Line} (here : ahead.rest = line :: more) :
    ∃ word between, line = word :: between.args ∧ ahead.next = (between, some word) ∧
      between.rest = more := by
  have some : line ≠ [] := by
    have member : line ∈ ahead.rest := by rw [here]; exact List.mem_cons_self
    simpa using (List.mem_filter.mp member).2
  obtain ⟨word, args, rfl⟩ := List.exists_cons_of_ne_nil some
  obtain ⟨between, read, rfl, rest⟩ := Ahead.next_of_rest here
  exact ⟨word, between, rfl, read, rest⟩

theorem Follows.takes_realm (follows : Follows turns body item close) {used more : List Line}
    (realm : Realm item close state used result) (rest : ahead.rest = used ++ more)
    (below : ahead.Below turns) (enough : ahead.rest.length < fuel) :
    ∃ after, Takes (eachString spent body atEnd fuel state) ahead result after ∧ after.rest = more := by
  induction realm generalizing ahead fuel with
  | closed closes =>
    obtain ⟨fuel, rfl⟩ := Nat.exists_eq_add_one_of_ne_zero (Nat.ne_of_gt (Nat.zero_lt_of_lt enough))
    obtain ⟨word, between, rfl, read, left⟩ := rest_cons rest
    obtain ⟨below', short⟩ := below_next below read
    obtain ⟨after, turn, same⟩ := follows.closes below' short closes
    exact ⟨after, (takes_turn read).mpr (.inl turn), same.trans left⟩
  | @item state next used lines result some made _ ih =>
    obtain ⟨fuel, rfl⟩ := Nat.exists_eq_add_one_of_ne_zero (Nat.ne_of_gt (Nat.zero_lt_of_lt enough))
    obtain ⟨line, used', rfl⟩ := List.exists_cons_of_ne_nil some
    rw [List.append_assoc] at rest
    obtain ⟨word, between, rfl, read, left⟩ := rest_cons rest
    obtain ⟨below', short⟩ := below_next below read
    have split : (word :: between.args) :: between.rest =
        ((word :: between.args) :: used') ++ (lines ++ more) := by
      rw [left]
      rfl
    obtain ⟨middle, turn, same⟩ := follows.items below' short made split
    have less : middle.rest.length < fuel := by
      rw [rest, List.length_append, List.length_cons] at enough
      rw [same]
      omega
    obtain ⟨after, takes, behind⟩ := ih same (below.mono (rest.trans (by rw [same]))) less
    exact ⟨after, (takes_turn read).mpr (.inr ⟨next, middle, turn, takes⟩), behind⟩

/-- What a loop up to the end of the file has taken are items. -/
theorem Follows.file (follows : Follows turns body item fun _ _ _ => False)
    (below : ahead.Below turns)
    (takes : Takes (eachString spent body atEnd fuel state) ahead result after) :
    ∃ final, Items item state ahead.rest final ∧ atEnd final = .ok result := by
  induction fuel generalizing state ahead with
  | zero => exact absurd takes not_takes_throw
  | succ fuel ih =>
    rcases ahead.reads_next with ⟨between, read⟩ | ⟨between, word, read⟩
    · refine ⟨state, ?_, ((takes_ending read).mp takes).1⟩
      rw [(Ahead.next_none read).1]
      exact .none
    · have rest := Ahead.next_some read
      obtain ⟨below', short⟩ := below_next below read
      rcases (takes_turn read).mp takes with turn | ⟨next, middle, turn, later⟩
      · exact (follows.stops below' short turn).1.elim
      · obtain ⟨used, some, split, made⟩ := follows.goes below' short turn
        obtain ⟨final, items, done⟩ := ih (below.mono (rest.trans split)) later
        refine ⟨final, ?_, done⟩
        rw [rest, split]
        exact .item some made items

theorem Follows.takes_file (follows : Follows turns body item fun _ _ _ => False)
    (items : Items item state ahead.rest final) (done : atEnd final = .ok result)
    (below : ahead.Below turns) (enough : ahead.rest.length < fuel) :
    ∃ after, Takes (eachString spent body atEnd fuel state) ahead result after := by
  generalize lines : ahead.rest = all at items
  induction items generalizing ahead fuel with
  | none =>
    obtain ⟨fuel, rfl⟩ := Nat.exists_eq_add_one_of_ne_zero (Nat.ne_of_gt (Nat.zero_lt_of_lt enough))
    obtain ⟨between, read⟩ := Ahead.next_of_nil lines
    exact ⟨between, (takes_ending read).mpr ⟨done, rfl⟩⟩
  | @item state next final used rest some made _ ih =>
    obtain ⟨fuel, rfl⟩ := Nat.exists_eq_add_one_of_ne_zero (Nat.ne_of_gt (Nat.zero_lt_of_lt enough))
    obtain ⟨line, used', rfl⟩ := List.exists_cons_of_ne_nil some
    obtain ⟨word, between, rfl, read, left⟩ := rest_cons lines
    obtain ⟨below', short⟩ := below_next below read
    have split : (word :: between.args) :: between.rest =
        ((word :: between.args) :: used') ++ rest := by
      rw [left]
      rfl
    obtain ⟨middle, turn, same⟩ := follows.items below' short made split
    have less : middle.rest.length < fuel := by
      rw [lines, List.cons_append, List.length_cons, List.length_append] at enough
      rw [same]
      omega
    obtain ⟨after, takes⟩ := ih done (below.mono (lines.trans (by rw [same]))) less same
    exact ⟨after, (takes_turn read).mpr (.inr ⟨next, middle, turn, takes⟩)⟩

end Realms

/-! ### Realms of directives -/

section Directives

variable {ahead after : Ahead} {state : State} {token : Word} {turns : Nat}

/-- Directives by name, with what each makes of a word of its line. -/
abbrev Table (State : Type) := List (String × (Option Word → State → State))

/-- The first one with the name. -/
def Table.directive (table : Table State) (token : Word) : Option (Option Word → State → State) :=
  (table.find? fun entry => stricmp (ascii entry.1) token).map (·.2)

theorem Table.directive_cons (entry : String × (Option Word → State → State)) (table : Table State)
    (token : Word) : Table.directive (entry :: table) token =
      if stricmp (ascii entry.1) token then some entry.2 else table.directive token := by
  unfold Table.directive
  rw [List.find?_cons]
  split <;> simp_all

theorem Table.keeps {Part : Type} {part : State → Part} {table : Table State}
    {directive : Option Word → State → State} (known : table.directive token = some directive)
    (each : ∀ entry ∈ table, ∀ word state, part (entry.2 word state) = part state)
    (word : Option Word) (state : State) : part (directive word state) = part state := by
  obtain ⟨entry, found, rfl⟩ := Option.map_eq_some_iff.mp known
  exact each entry (List.mem_of_find?_eq_some found) word state

/-- A directive that does nothing without a word. -/
def worded (directive : Word → State → State) : Option Word → State → State
  | some word, state => directive word state
  | none, state => state

/-- The body of a loop over directives, each with a word of its line, up to a closing tag. -/
def directives (tag : Word) (close : State → Except Fault Result)
    (table : Table State) (unknown : Word → Fault) (state : State) (token : Word) :
    Setup Fault (Pass State Result) :=
  if stricmp tag token then do
    let result ← ofExcept (close state)
    pure (.stop result)
  else
    match table.directive token with
    | none => throw (unknown token)
    | some directive => do
      let word ← Setup.token
      pure (.again (directive word state))

/-- The line that closes a realm, whatever follows in it. -/
inductive Closes (tag : Word) (close : State → Except Fault Result) : State → Line → Result → Prop where
  | line {state : State} {token : Word} {args : Line} {result : Result}
      (closing : stricmp tag token = true) (closed : close state = .ok result) :
      Closes tag close state (token :: args) result

inductive DirectiveItem (tag : Word) (table : Table State) : State → List Line → State → Prop where
  | directive {state : State} {token : Word} {args : Line} {directive : Option Word → State → State}
      (inside : stricmp tag token = false) (known : table.directive token = some directive) :
      DirectiveItem tag table state [token :: args] (directive args.head? state)

theorem stricmp_other {first : Word} (second : Word) (different : stricmp first second = false)
    (same : stricmp first token = true) : stricmp second token = false := by
  have same : first.map QXMail.tolower = token.map QXMail.tolower := by simpa [stricmp] using same
  have different : first.map QXMail.tolower ≠ second.map QXMail.tolower := by
    simpa [stricmp] using different
  simp only [stricmp, beq_eq_false_iff_ne, ne_eq]
  exact fun other => different (same.trans other.symm)

theorem takes_word {value : Value} {missing : Fault} {next : Word → Setup Fault Value} :
    Takes (do
      let some word ← Setup.token | throw missing
      next word) ahead value after ↔
    ∃ word args, ahead.args = word :: args ∧
      Takes (next word) { ahead with args := args } value after := by
  rw [takes_bind]
  constructor
  · rintro ⟨word, _, read, taken⟩
    obtain ⟨rfl, rfl⟩ := takes_token.mp read
    cases words : ahead.args with
    | nil =>
      rw [words] at taken
      exact absurd taken not_takes_throw
    | cons word args =>
      rw [words] at taken
      exact ⟨word, args, rfl, taken⟩
  · rintro ⟨word, args, same, taken⟩
    refine ⟨some word, _, takes_token.mpr ⟨by rw [same]; rfl, rfl⟩, ?_⟩
    rw [same]
    exact taken

variable {tag : Word} {close : State → Except Fault Result} {table : Table State}
  {unknown : Word → Fault}

theorem takes_directives {pass : Pass State Result} :
    Takes (directives tag close table unknown state token) ahead pass after ↔
      (stricmp tag token = true ∧ ∃ result, close state = .ok result ∧ pass = .stop result ∧
        after = ahead) ∨
      (stricmp tag token = false ∧ ∃ directive, table.directive token = some directive ∧
        pass = .again (directive ahead.args.head? state) ∧
        after = { ahead with args := ahead.args.tail }) := by
  unfold directives
  cases closing : stricmp tag token with
  | true =>
    simp only [↓reduceIte, true_and, Bool.true_eq_false, false_and, or_false, takes_bind,
      takes_ofExcept, takes_pure']
    constructor
    · rintro ⟨result, _, ⟨closed, rfl⟩, rfl, rfl⟩
      exact ⟨result, closed, rfl, rfl⟩
    · rintro ⟨result, closed, rfl, rfl⟩
      exact ⟨result, _, ⟨closed, rfl⟩, rfl, rfl⟩
  | false =>
    cases known : table.directive token with
    | none => simp [not_takes_throw]
    | some directive =>
      simp only [Bool.false_eq_true, ↓reduceIte, false_and, false_or, true_and, Option.some.injEq,
        exists_eq_left', takes_bind, takes_token, takes_pure']
      constructor
      · rintro ⟨_, _, ⟨rfl, rfl⟩, rfl, rfl⟩
        exact ⟨rfl, rfl⟩
      · rintro ⟨rfl, rfl⟩
        exact ⟨_, _, ⟨rfl, rfl⟩, rfl, rfl⟩

theorem directives_follows :
    Follows turns (directives tag close table unknown) (DirectiveItem tag table)
      (Closes tag close) where
  stops _ _ taken := by
    rcases takes_directives.mp taken with ⟨closing, _, closed, same, rfl⟩ | ⟨_, _, _, same, _⟩
    · cases same
      exact ⟨.line closing closed, rfl⟩
    · cases same
  goes _ _ taken := by
    rcases takes_directives.mp taken with ⟨_, _, _, same, _⟩ | ⟨inside, _, known, same, rfl⟩
    · cases same
    · cases same
      exact ⟨_, List.cons_ne_nil _ [], rfl, .directive inside known⟩
  closes _ _ closes := by
    cases closes with
    | line closing closed =>
      exact ⟨_, takes_directives.mpr (.inl ⟨closing, _, closed, rfl, rfl⟩), rfl⟩
  items _ _ made split := by
    cases made with
    | directive inside known =>
      obtain ⟨same, rest⟩ := List.cons_eq_cons.mp split
      obtain ⟨rfl, rfl⟩ := List.cons_eq_cons.mp same
      exact ⟨_, takes_directives.mpr (.inr ⟨inside, _, known, rfl, rfl⟩), rest⟩

/-! ### Settings without realms -/

/-- The word that a line gives to a directive. -/
def givenTo (name : String) : Line → Option Word
  | token :: word :: _ => if stricmp (ascii name) token then some word else none
  | _ => none

/-- What a line sets: a word that is no directive is passed over. -/
def Table.apply (table : Table State) (state : State) : Line → State
  | [] => state
  | token :: args =>
    match table.directive token with
    | none => state
    | some directive => directive args.head? state

/-- The body of a loop over settings. -/
def settingTurn (table : Table State) (state : State) (token : Word) : Setup Fault (Pass State State) :=
  match table.directive token with
  | none => pure (.again state)
  | some directive => do
    let word ← Setup.token
    pure (.again (directive word state))

inductive SettingItem (table : Table State) : State → List Line → State → Prop where
  | line {state : State} {line : Line} (some : line ≠ []) :
      SettingItem table state [line] (table.apply state line)

/-- It takes each line and never ends by itself. -/
theorem takes_settingTurn {pass : Pass State State}
    (taken : Takes (settingTurn table state token : Setup Fault (Pass State State)) ahead pass after) :
    pass = .again (table.apply state (token :: ahead.args)) ∧ after.rest = ahead.rest := by
  unfold settingTurn at taken
  simp only [Table.apply]
  cases known : table.directive token with
  | none =>
    rw [known] at taken
    obtain ⟨rfl, rfl⟩ := takes_pure'.mp taken
    exact ⟨rfl, rfl⟩
  | some directive =>
    rw [known] at taken
    obtain ⟨_, _, read, taken⟩ := takes_bind.mp taken
    obtain ⟨rfl, rfl⟩ := takes_token.mp read
    obtain ⟨rfl, rfl⟩ := takes_pure'.mp taken
    exact ⟨rfl, rfl⟩

theorem settingTurn_takes (table : Table State) (state : State) (token : Word) (ahead : Ahead) :
    ∃ after, Takes (settingTurn table state token : Setup Fault (Pass State State)) ahead
      (.again (table.apply state (token :: ahead.args))) after ∧ after.rest = ahead.rest := by
  unfold settingTurn
  simp only [Table.apply]
  cases table.directive token with
  | none => exact ⟨ahead, takes_pure.mpr rfl, rfl⟩
  | some directive =>
    exact ⟨_, takes_bind.mpr ⟨_, _, takes_token.mpr ⟨rfl, rfl⟩, takes_pure.mpr rfl⟩, rfl⟩

theorem settings_follow : Follows turns
    (settingTurn table : State → Word → Setup Fault (Pass State State)) (SettingItem table)
    fun _ _ _ => False where
  stops _ _ taken := by
    cases (takes_settingTurn taken).1
  goes _ _ taken := by
    obtain ⟨same, rest⟩ := takes_settingTurn taken
    cases same
    exact ⟨_, List.cons_ne_nil _ [], by rw [rest]; rfl, .line (List.cons_ne_nil _ _)⟩
  closes _ _ closes := closes.elim
  items _ _ made split := by
    cases made with
    | line some =>
      obtain ⟨rfl, rest⟩ := List.cons_eq_cons.mp split
      obtain ⟨after, taken, same⟩ := settingTurn_takes table _ _ _
      exact ⟨after, taken, same.trans rest⟩

theorem items_settings {lines : List Line} (words : ∀ line ∈ lines, line ≠ []) :
    Items (SettingItem table) state lines (lines.foldl table.apply state) := by
  induction lines generalizing state with
  | nil => exact .none
  | cons line lines ih =>
    obtain ⟨some, others⟩ := List.forall_mem_cons.mp words
    exact .item (List.cons_ne_nil line []) (.line some) (ih others)

/-! ### What is set last -/

section Parts

variable {Part : Type} (part : State → Part) {name : String} {value : Word → Part}
  {directive : Word → State → State}

theorem Table.directive_congr {other : Word}
    (same : token.map QXMail.tolower = other.map QXMail.tolower) :
    table.directive token = table.directive other := by
  unfold Table.directive stricmp
  rw [same]

theorem Table.apply_part (here : table.directive (ascii name) = some (worded directive))
    (gives : ∀ word state, part (directive word state) = value word)
    (others : ∀ entry ∈ table, entry.1 ≠ name → ∀ word state, part (entry.2 word state) = part state)
    (state : State) (line : Line) :
    part (table.apply state line) = ((givenTo name line).map value).getD (part state) := by
  cases line with
  | nil => rfl
  | cons token args =>
    simp only [Table.apply]
    cases same : stricmp (ascii name) token with
    | true =>
      have alike : (ascii name).map QXMail.tolower = token.map QXMail.tolower := by
        simpa [stricmp] using same
      rw [← Table.directive_congr alike, here]
      cases args with
      | nil => rfl
      | cons word args => simp [givenTo, same, worded, gives]
    | false =>
      have silent : givenTo name (token :: args) = none := by
        cases args with
        | nil => rfl
        | cons word args => simp [givenTo, same]
      rw [silent]
      cases known : table.directive token with
      | none => rfl
      | some other =>
        obtain ⟨entry, found, rfl⟩ := Option.map_eq_some_iff.mp known
        refine others entry (List.mem_of_find?_eq_some found) ?_ _ state
        rintro rfl
        have matched := List.find?_some found
        rw [same] at matched
        cases matched

/-- Behind some lines the part is what the last of them that sets it says. -/
theorem Table.part_latest (here : table.directive (ascii name) = some (worded directive))
    (gives : ∀ word state, part (directive word state) = value word)
    (others : ∀ entry ∈ table, entry.1 ≠ name → ∀ word state, part (entry.2 word state) = part state)
    (state : State) (lines : List Line) :
    part (lines.foldl table.apply state) =
      ((latest (givenTo name) lines).map value).getD (part state) := by
  -- from the end, where the last line that sets the part is
  induction lines using List.reverseRecOn with
  | nil => rfl
  | append_singleton lines line ih =>
    rw [List.foldl_append, latest_snoc]
    refine (Table.apply_part part here gives others _ line).trans ?_
    rw [ih]
    cases givenTo name line <;> rfl

end Parts

end Directives

/-! ### Files -/

section Files

variable {file : List UInt8} {turns : Nat}

def fileLines (file : List UInt8) : List Line := (wordLines file).filter (· ≠ [])

theorem pieces_length (line : List UInt8) : (pieces line).length ≤ line.length := by
  unfold pieces
  induction line with
  | nil => exact Nat.le_refl 0
  | cons byte line ih =>
    rw [List.splitOnP_cons_eq_if_modifyHead, List.length_cons]
    split
    · exact Nat.le_succ_of_le ih
    · cases split : line.splitOnP isBlank with
      | nil => exact Nat.zero_le _
      | cons first rest =>
        rw [split] at ih
        have fewer : (rest.filter (· != [])).length ≤ line.length := by
          refine Nat.le_trans ?_ ih
          exact List.Sublist.length_le ((List.sublist_cons_self first rest).filter _)
        simpa [List.filter_cons] using fewer

theorem wordsOf_length (line : List UInt8) : (wordsOf line).length ≤ line.length := by
  unfold wordsOf
  refine Nat.le_trans (List.takeWhile_prefix _).length_le (Nat.le_trans (pieces_length _) ?_)
  exact (List.takeWhile_prefix _).length_le

theorem linesOf_length (file : List UInt8) : (linesOf file).length ≤ file.length ∧
    ∀ line ∈ linesOf file, line.length ≤ file.length := by
  induction file with
  | nil => exact ⟨Nat.le_refl 0, List.forall_mem_nil _⟩
  | cons byte file ih =>
    obtain ⟨few, short⟩ := ih
    unfold linesOf
    split
    · refine ⟨Nat.succ_le_succ few, List.forall_mem_cons.mpr ⟨?_, fun line member => ?_⟩⟩
      · simp
      · exact Nat.le_succ_of_le (short line member)
    · split
      next => exact ⟨by simp, by simp⟩
      next line lines same =>
        rw [same] at few short
        obtain ⟨first, others⟩ := List.forall_mem_cons.mp short
        refine ⟨Nat.le_succ_of_le few, List.forall_mem_cons.mpr ⟨Nat.succ_le_succ first, ?_⟩⟩
        exact fun other member => Nat.le_succ_of_le (others other member)

theorem file_below (enough : file.length < turns) : Ahead.Below ⟨[], wordLines file⟩ turns := by
  obtain ⟨few, short⟩ := linesOf_length file
  constructor
  · refine Nat.lt_of_le_of_lt (List.length_filter_le ..) ?_
    rw [wordLines, List.length_map]
    exact Nat.lt_of_le_of_lt few enough
  · intro words member
    obtain ⟨line, inside, rfl⟩ := List.mem_map.mp (List.mem_filter.mp member).1
    exact Nat.le_trans (wordsOf_length line) (Nat.le_trans (short line inside) (Nat.le_of_lt enough))

/-- Over a text file a loop comes to its end exactly with what the items of the file give. -/
theorem Follows.reads_file {spent : Fault} {body : State → Word → Setup Fault (Pass State Result)}
    {item : State → List Line → State → Prop} {atEnd : State → Except Fault Result} {conf : Conf}
    (follows : Follows turns body item fun _ _ _ => False) (opened : conf.Opened file)
    (text : TextFile file) (enough : file.length < turns) (state : State) (result : Result) :
    (∃ after, (eachString spent body atEnd turns state).run.run conf = .ok (after, .ok result)) ↔
      ∃ final, Items item state (fileLines file) final ∧ atEnd final = .ok result := by
  have below := file_below enough
  obtain ⟨after, ran⟩ : ∃ after, (eachString spent body atEnd turns state).run.run conf = .ok (after,
      ((eachString spent body atEnd turns state).run.read ⟨[], wordLines file⟩).2) := by
    obtain ⟨turns, rfl⟩ := Nat.exists_eq_add_one_of_ne_zero (Nat.ne_of_gt (Nat.zero_lt_of_lt enough))
    exact run_file _ opened text
  rw [ran]
  constructor
  · rintro ⟨_, same⟩
    simp only [Except.ok.injEq, Prod.mk.injEq] at same
    exact follows.file below (Prod.ext rfl same.2)
  · rintro ⟨final, items, done⟩
    obtain ⟨_, taken⟩ := follows.takes_file items done below below.lines
    exact ⟨after, congrArg (fun read => Except.ok (after, read.2)) taken⟩

/-- Of a text file a loop over settings makes what its lines set. -/
theorem settings_read (spent : Fault) (table : Table State) {conf : Conf} (opened : conf.Opened file)
    (text : TextFile file) (enough : file.length < turns) (state : State) :
    ∃ after, (eachString spent (settingTurn table) Except.ok turns state).run.run conf =
      .ok (after, .ok ((fileLines file).foldl table.apply state)) := by
  refine (settings_follow.reads_file opened text enough _ _).mpr ⟨_, items_settings ?_, rfl⟩
  intro line member
  simpa using (List.mem_filter.mp member).2

end Files

end Setup

end QNXStuff.GetConf
