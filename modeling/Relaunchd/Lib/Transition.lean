/-
  Relaunchd.Lib.Transition — labelled transition systems: the states a run reaches, and the
  induction every invariant is proved by.

  `Reach I N` are the states reached from `I` by steps of `N`. A property of runs whose
  steps all meet a condition `C` is a property of `Reach I (Under N C)`.
-/

import Mathlib

namespace Transition

variable {σ ε : Type} {I : σ → Prop} {N : σ → ε → σ → Prop}

inductive Reach (I : σ → Prop) (N : σ → ε → σ → Prop) : σ → Prop
  | init {s : σ} : I s → Reach I N s
  | step {s s' : σ} (e : ε) : Reach I N s → N s e s' → Reach I N s'

/-- The steps that meet a condition on the state before them and on their label. -/
def Under (N : σ → ε → σ → Prop) (C : σ → ε → Prop) (s : σ) (e : ε) (s' : σ) : Prop := N s e s' ∧ C s e

def Later (N : σ → ε → σ → Prop) : σ → σ → Prop := Relation.ReflTransGen fun s s' => ∃ e, N s e s'

theorem Reach.invariant {P : σ → Prop} (h0 : ∀ s, I s → P s) (hN : ∀ s e s', P s → N s e s' → P s') {s : σ}
    (h : Reach I N s) : P s := by
  induction h with
  | init hi => exact h0 _ hi
  | step e _ hs ih => exact hN _ e _ ih hs

theorem Reach.mono {N' : σ → ε → σ → Prop} (hN : ∀ s e s', N s e s' → N' s e s') {s : σ} (h : Reach I N s) :
    Reach I N' s := by
  induction h with
  | init hi => exact .init hi
  | step e _ hs ih => exact .step e ih (hN _ _ _ hs)

theorem Reach.of_under {C : σ → ε → Prop} {s : σ} (h : Reach I (Under N C) s) : Reach I N s :=
  h.mono fun _ _ _ hs => hs.1

/-- An invariant proved with the help of one already known to hold of every state reached. -/
theorem Reach.invariant_with {K P : σ → Prop} (hK : ∀ s, Reach I N s → K s) (h0 : ∀ s, I s → P s)
    (hN : ∀ s e s', K s → P s → N s e s' → P s') {s : σ} (h : Reach I N s) : P s := by
  induction h with
  | init hi => exact h0 _ hi
  | step e hr hs ih => exact hN _ e _ (hK _ hr) ih hs

theorem Later.mono {N' : σ → ε → σ → Prop} (hN : ∀ s e s', N s e s' → N' s e s') {s t : σ} (h : Later N s t) :
    Later N' s t := by
  induction h with
  | refl => exact .refl
  | tail _ hs ih => obtain ⟨e, hs⟩ := hs; exact ih.tail ⟨e, hN _ e _ hs⟩

theorem Reach.later {s t : σ} (h : Reach I N s) (hl : Later N s t) : Reach I N t := by
  induction hl with
  | refl => exact h
  | tail _ hs ih => obtain ⟨e, hs⟩ := hs; exact .step e ih hs

/-! ## Runs that end -/

section Steps

variable {rank : σ → Nat} {n : Nat} {s t : σ}

inductive Steps (N : σ → ε → σ → Prop) : Nat → σ → σ → Prop
  | refl (s : σ) : Steps N 0 s s
  | tail {n : Nat} {s t u : σ} (e : ε) : Steps N n s t → N t e u → Steps N (n + 1) s u

theorem Steps.mono {N' : σ → ε → σ → Prop} (hN : ∀ s e s', N s e s' → N' s e s') (h : Steps N n s t) : Steps N' n s t := by
  induction h with
  | refl => exact .refl _
  | tail e _ hs ih => exact .tail e ih (hN _ _ _ hs)

theorem Steps.append {m : Nat} {u : σ} (h : Steps N n s t) (h' : Steps N m t u) : Steps N (n + m) s u := by
  induction h' with
  | refl => exact h
  | tail e _ hs ih => exact .tail e (ih h) hs

def play (step : σ → ε → Option σ) (s : σ) : List ε → Option σ
  | [] => some s
  | e :: es => (step s e).bind fun s' => play step s' es

theorem steps_of_play {step : σ → ε → Option σ} {es : List ε} (h : play step s es = some t) :
    Steps (fun s e s' => step s e = some s') es.length s t := by
  induction es generalizing s with
  | nil => cases h; exact .refl _
  | cons e es ih =>
    obtain ⟨s', hs, h⟩ := Option.bind_eq_some_iff.mp h
    have hone : Steps (fun s e s' => step s e = some s') 1 s s' := .tail e (.refl s) hs
    have happend := hone.append (ih h)
    rwa [Nat.add_comm] at happend

/-- Steps that evaluate, to a state with a property. -/
theorem steps_of_any {step : σ → ε → Option σ} {es : List ε} {p : σ → Bool} (h : (play step s es).any p) :
    ∃ t, Steps (fun s e s' => step s e = some s') es.length s t ∧ p t := by
  obtain ⟨t, ht, hp⟩ := (Option.any_eq_true p _).mp h
  exact ⟨t, steps_of_play ht, hp⟩

theorem Steps.later (h : Steps N n s t) : Later N s t := by
  induction h with
  | refl => exact .refl
  | tail e _ hs ih => exact ih.tail ⟨e, hs⟩

def stepIf (step : σ → ε → Option σ) (C : σ → ε → Prop) [∀ s, DecidablePred (C s)] (s : σ) (e : ε) : Option σ :=
  if C s e then step s e else none

theorem later_of_play (step : σ → ε → Option σ) (C : σ → ε → Prop) [∀ s, DecidablePred (C s)] (es : List ε) (s : σ)
    (p : σ → Bool) (h : (play (stepIf step C) s es).any p) :
    ∃ t, Later (Under (fun s e s' => step s e = some s') C) s t ∧ p t := by
  obtain ⟨t, hs, hp⟩ := steps_of_any h
  refine ⟨t, hs.later.mono fun s e s' h => ?_, hp⟩
  rw [stepIf] at h
  split at h
  · rename_i hC
    exact ⟨h, hC⟩
  · cases h

/-- A number that every step makes smaller bounds the length of a run. -/
theorem Steps.length_le (hr : ∀ s e s', N s e s' → rank s' < rank s) (h : Steps N n s t) : n + rank t ≤ rank s := by
  induction h with
  | refl s => omega
  | tail e _ hs ih =>
    have := hr _ e _ hs
    omega

end Steps

/-! ## What is noted on the way -/

section Noted

variable {ν : Type} {note : σ → ε → ν → ν} {first : ν}

/-- A state a run reaches, and what was noted on the way: `note` says what each step adds. -/
inductive Noted (I : σ → Prop) (N : σ → ε → σ → Prop) (note : σ → ε → ν → ν) (first : ν) : σ → ν → Prop
  | init {s : σ} : I s → Noted I N note first s first
  | step {s s' : σ} {n : ν} (e : ε) : Noted I N note first s n → N s e s' → Noted I N note first s' (note s e n)

theorem Noted.reach {s : σ} {n : ν} (h : Noted I N note first s n) : Reach I N s := by
  induction h with
  | init hi => exact .init hi
  | step e _ hs ih => exact .step e ih hs

theorem Reach.noted {s : σ} (h : Reach I N s) : ∃ n, Noted I N note first s n := by
  induction h with
  | init hi => exact ⟨first, .init hi⟩
  | step e _ hs ih =>
    obtain ⟨n, hn⟩ := ih
    exact ⟨_, .step e hn hs⟩

/-- A property of states and notes that every step from a state reached keeps. -/
theorem Noted.invariant {P : σ → ν → Prop} (h0 : ∀ s, I s → P s first)
    (hN : ∀ s n e s', Reach I N s → P s n → N s e s' → P s' (note s e n)) {s : σ} {n : ν} (h : Noted I N note first s n) :
    P s n := by
  induction h with
  | init hi => exact h0 _ hi
  | step e hr hs ih => exact hN _ _ e _ hr.reach ih hs

end Noted

end Transition
