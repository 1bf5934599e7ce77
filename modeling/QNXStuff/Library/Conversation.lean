import Mathlib.Data.List.Basic

/-! Two parties that take turns: one says things and waits for replies, the other is what it may
make of the things said to it since its last reply. -/

namespace QNXStuff.Conversation

universe u v w

/-- What the first party does. -/
inductive Turn (Item : Type v) where
  | say (items : List Item)
  | hear

def Turn.waits {Item : Type v} : Turn Item → Bool
  | .say _ => false
  | .hear => true

/-- How often it waits for a reply. -/
def hears {Item : Type v} (turns : List (Turn Item)) : Nat := turns.countP Turn.waits

variable {State : Type u} {Item : Type v} {Reply : Type w}

/-- The second party: from a state and what has been said, to a state and a reply or none. -/
abbrev Peer (State : Type u) (Item : Type v) (Reply : Type w) :=
  State → List Item → State → Option Reply → Prop

/-- The turns of the first party meet the second one, whose replies are the ones given; behind them
there are none. -/
inductive Meets (peer : Peer State Item Reply) :
    State → List Item → List (Turn Item) → List (Option Reply) → State → List Item → Prop where
  | nil : Meets peer state said [] replies state said
  | say (later : Meets peer state (said ++ items) turns replies final left) :
      Meets peer state said (.say items :: turns) replies final left
  | hear (replied : peer state said next replies.head?.join)
      (later : Meets peer next [] turns replies.tail final left) :
      Meets peer state said (.hear :: turns) replies final left

section

variable {peer : Peer State Item Reply} {state final : State} {said left items : List Item}
  {turns later : List (Turn Item)} {replies : List (Option Reply)}

@[simp] theorem hears_nil : hears ([] : List (Turn Item)) = 0 := rfl

@[simp] theorem hears_say : hears (.say items :: turns) = hears turns :=
  List.countP_cons_of_neg Bool.false_ne_true

@[simp] theorem hears_hear : hears (.hear :: turns) = hears turns + 1 :=
  List.countP_cons_of_pos rfl

@[simp] theorem hears_append : hears (turns ++ later) = hears turns + hears later :=
  List.countP_append

theorem meets_nil (met : Meets peer state said [] replies final left) :
    final = state ∧ left = said := by
  cases met
  exact ⟨rfl, rfl⟩

theorem meets_say (met : Meets peer state said [.say items] replies final left) :
    final = state ∧ left = said ++ items := by
  cases met with
  | say met => exact meets_nil met

theorem meets_hear (met : Meets peer state said [.hear] replies final left) :
    peer state said final replies.head?.join ∧ left = [] := by
  cases met with
  | hear replied met =>
    obtain ⟨rfl, rfl⟩ := meets_nil met
    exact ⟨replied, rfl⟩

theorem meets_append (met : Meets peer state said (turns ++ later) replies final left) :
    ∃ middle between, Meets peer state said turns replies middle between ∧
      Meets peer middle between later (replies.drop (hears turns)) final left := by
  induction turns generalizing state said replies with
  | nil => exact ⟨state, said, .nil, met⟩
  | cons turn turns ih =>
    cases met with
    | say met =>
      obtain ⟨middle, between, first, rest⟩ := ih met
      exact ⟨middle, between, .say first, by simpa using rest⟩
    | hear replied met =>
      obtain ⟨middle, between, first, rest⟩ := ih met
      refine ⟨middle, between, .hear replied first, ?_⟩
      simpa [List.drop_tail] using rest

end

end QNXStuff.Conversation
