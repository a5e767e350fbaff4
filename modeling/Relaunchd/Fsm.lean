/-
  Relaunchd.Fsm — the state machine template (`src/fsm.h`).
-/

import Relaunchd.Lib.Prog

namespace Fsm

open Prog

variable {σ State Trigger : Type}

inductive Status where
  | success
  | noMatchingTrigger
  | blockedByGuard
  deriving DecidableEq, Repr

structure Trans (σ State Trigger : Type) where
  fromState : State
  toState : State
  trigger : Trigger
  guard : Prog σ Bool
  action : Prog σ Unit

section Execute

variable [DecidableEq Trigger] (setState : State → Prog σ Unit) (trigger : Trigger)

/-- The loop of `execute` over the transitions out of the current state. -/
def tryTransitions : Status → List (Trans σ State Trigger) → Prog σ Status
  | status, [] => pure status
  | status, t :: rest =>
    if trigger ≠ t.trigger then tryTransitions status rest
    else do
      if ← t.guard then do
        t.action
        setState t.toState
        return .success
      else tryTransitions .blockedByGuard rest

/-- An action that throws leaves the state as it was. -/
def execute [DecidableEq State] (state : Prog σ State) (transitions : List (Trans σ State Trigger)) : Prog σ Status := do
  let current ← state
  tryTransitions setState trigger .noMatchingTrigger (transitions.filter (·.fromState = current))

@[simp] theorem wp_tryTransitions_nil {status : Status} {Q : Status → σ → Prop} {E : σ → Prop} {s : σ} :
    wp (tryTransitions setState trigger status []) Q E s = Q status s := rfl

/-- A transition whose trigger fires and whose guard holds is taken. -/
theorem wp_tryTransitions_cons {status : Status} {t : Trans σ State Trigger} {rest : List (Trans σ State Trigger)}
    {Q : Status → σ → Prop} {E : σ → Prop} {s : σ} (ht : trigger = t.trigger) :
    wp (tryTransitions setState trigger status (t :: rest)) Q E s =
      wp t.guard (fun b s' =>
        if b then wp t.action (fun _ s'' => wp (setState t.toState) (fun _ => Q .success) E s'') E s'
        else wp (tryTransitions setState trigger .blockedByGuard rest) Q E s') E s := by
  rw [tryTransitions, if_neg (fun h => h ht), wp_bind]
  congr 1
  funext b s'
  rw [wp_ite]
  simp only [wp_bind, wp_pure]

theorem wp_tryTransitions_skip {status : Status} {t : Trans σ State Trigger} {rest : List (Trans σ State Trigger)}
    {Q : Status → σ → Prop} {E : σ → Prop} {s : σ} (ht : trigger ≠ t.trigger) :
    wp (tryTransitions setState trigger status (t :: rest)) Q E s =
      wp (tryTransitions setState trigger status rest) Q E s := by
  rw [tryTransitions, if_pos ht]

/-! ### How a machine ends -/

variable {C : String → Prop} {status : Status} {t : Trans σ State Trigger} {rest : List (Trans σ State Trigger)}
  {Q : Status → σ → Prop} {E : σ → Prop} {s : σ}

@[simp] theorem ends_tryTransitions_nil : ends C (tryTransitions setState trigger status []) Q E s = Q status s := rfl

theorem ends_tryTransitions_cons (ht : trigger = t.trigger) :
    ends C (tryTransitions setState trigger status (t :: rest)) Q E s =
      ends C t.guard (fun b s' =>
        if b then ends C t.action (fun _ s'' => ends C (setState t.toState) (fun _ => Q .success) E s'') E s'
        else ends C (tryTransitions setState trigger .blockedByGuard rest) Q E s') E s := by
  rw [tryTransitions, if_neg (fun h => h ht), ends_bind]
  congr 1
  funext b s'
  rw [ends_ite]
  simp only [ends_bind, ends_pure]

theorem ends_tryTransitions_skip (ht : trigger ≠ t.trigger) :
    ends C (tryTransitions setState trigger status (t :: rest)) Q E s =
      ends C (tryTransitions setState trigger status rest) Q E s := by
  rw [tryTransitions, if_pos ht]

end Execute

/-! ### What holds of a machine's parts -/

/-- What holds of the guards and the actions on a trigger, and is kept by sequencing, holds
    of the machine. -/
theorem execute_keeps [DecidableEq Trigger] [DecidableEq State] {P : (α : Type) → Prog σ α → Prop} (hP : Sequential P)
    {setState : State → Prog σ Unit} {trigger : Trigger} {state : Prog σ State} {transitions : List (Trans σ State Trigger)}
    (hset : ∀ state, P Unit (setState state)) (hstate : P State state)
    (h : ∀ t ∈ transitions, t.trigger = trigger → P Bool t.guard ∧ P Unit t.action) :
    P Status (execute setState trigger state transitions) := by
  have htry : ∀ (ts : List (Trans σ State Trigger)) (status : Status),
      (∀ t ∈ ts, t.trigger = trigger → P Bool t.guard ∧ P Unit t.action) →
      P Status (tryTransitions setState trigger status ts) := by
    intro ts
    induction ts with
    | nil => exact fun _ _ => hP.returns _
    | cons t rest ih =>
      intro status ht
      obtain ⟨ht, hrest⟩ := List.forall_mem_cons.mp ht
      rw [tryTransitions]
      split
      · exact ih _ hrest
      · rename_i he
        obtain ⟨hg, ha⟩ := ht (Decidable.not_not.mp he).symm
        refine hP.bind hg fun b => ?_
        cases b with
        | true => exact hP.bind ha fun _ => hP.bind (hset _) fun _ => hP.returns _
        | false => exact ih _ hrest
  exact hP.bind hstate fun _ => htry _ _ fun t ht => h t (List.mem_filter.mp ht).1

end Fsm
