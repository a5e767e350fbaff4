/-
  Relaunchd.Lib.Reorder — a list of operations, run in another order.

  An operation takes a state to a result and a new state, or ends the run. Where any two of
  a list commute, every permutation of it ends in the same state, with the same results up
  to their order.
-/

import Mathlib

namespace Reorder

variable {δ σ ρ : Type} {f : δ → σ → Option (ρ × σ)} {d d' : δ} {ds ds' : List δ} {s s' : σ} {r : ρ} {rs : List ρ}

def runAll (f : δ → σ → Option (ρ × σ)) : List δ → σ → Option (List ρ × σ)
  | [], s => some ([], s)
  | d :: ds, s =>
    match f d s with
    | none => none
    | some (r, s₁) => (runAll f ds s₁).map fun (rs, s₂) => (r :: rs, s₂)

theorem runAll_cons : runAll f (d :: ds) s = some (rs, s') ↔
    ∃ r s₁ rs', f d s = some (r, s₁) ∧ runAll f ds s₁ = some (rs', s') ∧ rs = r :: rs' := by
  rw [runAll]
  cases hf : f d s with
  | none => simp
  | some p =>
    obtain ⟨r, s₁⟩ := p
    simp only [Option.map_eq_some_iff, Prod.exists, Prod.mk.injEq, Option.some.injEq]
    constructor
    · intro h
      obtain ⟨rs', s₂, hr, rfl, rfl⟩ := h
      exact ⟨r, s₁, rs', ⟨rfl, rfl⟩, hr, rfl⟩
    · intro h
      obtain ⟨r', s₁', rs', ⟨rfl, rfl⟩, hr, rfl⟩ := h
      exact ⟨rs', s', hr, rfl, rfl⟩

/-- Two operations that run one after the other run the other way round as well, and come to
    the same. -/
def Commutes (f : δ → σ → Option (ρ × σ)) (d d' : δ) : Prop :=
  ∀ s r s₁ r' s₂, f d s = some (r, s₁) → f d' s₁ = some (r', s₂) →
    ∃ t, f d' s = some (r', t) ∧ f d t = some (r, s₂)

theorem runAll_perm (hp : ds.Perm ds') (hc : ds.Pairwise fun d d' => Commutes f d d' ∧ Commutes f d' d)
    (hr : runAll f ds s = some (rs, s')) : ∃ rs', rs.Perm rs' ∧ runAll f ds' s = some (rs', s') := by
  induction hp generalizing s rs with
  | nil => exact ⟨rs, .refl rs, hr⟩
  | cons d _ ih =>
    obtain ⟨r, s₁, rs₁, hd, hrest, rfl⟩ := runAll_cons.mp hr
    obtain ⟨rs', hperm, hrun⟩ := ih (List.pairwise_cons.mp hc).2 hrest
    exact ⟨r :: rs', hperm.cons r, runAll_cons.mpr ⟨r, s₁, rs', hd, hrun, rfl⟩⟩
  | swap d d' ds =>
    obtain ⟨r', s₁, rs₁, hd', hrest, rfl⟩ := runAll_cons.mp hr
    obtain ⟨r, s₂, rs₂, hd, hlast, rfl⟩ := runAll_cons.mp hrest
    have hcomm : Commutes f d' d := ((List.pairwise_cons.mp hc).1 d List.mem_cons_self).1
    obtain ⟨t, ht, ht'⟩ := hcomm s r' s₁ r s₂ hd' hd
    exact ⟨r :: r' :: rs₂, .swap r r' rs₂, runAll_cons.mpr ⟨r, t, _, ht, runAll_cons.mpr ⟨r', s₂, rs₂, ht', hlast, rfl⟩, rfl⟩⟩
  | trans h₁ _ ih₁ ih₂ =>
    obtain ⟨rs₁, hperm₁, hrun₁⟩ := ih₁ hc hr
    obtain ⟨rs₂, hperm₂, hrun₂⟩ := ih₂ (hc.perm h₁ fun h => h.symm) hrun₁
    exact ⟨rs₂, hperm₁.trans hperm₂, hrun₂⟩

end Reorder
