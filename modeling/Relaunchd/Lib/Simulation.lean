/-
  Relaunchd.Lib.Simulation — what a run lets an observer see, and the rule by which the runs of
  one system are runs of another as far as that goes.
-/

import Relaunchd.Lib.Transition

namespace Transition

variable {σ τ ε ω : Type} {I : σ → Prop} {N : σ → ε → σ → Prop} {J : τ → Prop} {M : τ → ω → τ → Prop}
  {see : σ → ε → Option ω} {R : σ → τ → Prop}

/-- What is seen of a run, in order; `see` says what a step shows. -/
abbrev Trace (I : σ → Prop) (N : σ → ε → σ → Prop) (see : σ → ε → Option ω) : σ → List ω → Prop :=
  Noted I N (fun s e seen => seen ++ (see s e).toList) []

abbrev Behaves (J : τ → Prop) (M : τ → ω → τ → Prop) : τ → List ω → Prop := Trace J M fun _ e => some e

/-- From related states, a step that is seen is a step of the other system, and one that is not
    seen is none. -/
def Simulates (N : σ → ε → σ → Prop) (M : τ → ω → τ → Prop) (see : σ → ε → Option ω) (R : σ → τ → Prop) : Prop :=
  ∀ s e s' t, R s t → N s e s' →
    (see s e = none ∧ R s' t) ∨ ∃ o t', see s e = some o ∧ M t o t' ∧ R s' t'

/-- What is seen of a run is what a run of the other system shows. -/
theorem Trace.simulated {s : σ} {seen : List ω} (h0 : ∀ s, I s → ∃ t, J t ∧ R s t) (hR : Simulates N M see R)
    (h : Trace I N see s seen) : ∃ t, Behaves J M t seen ∧ R s t := by
  refine h.invariant (P := fun s seen => ∃ t, Behaves J M t seen ∧ R s t) (fun s hi => ?_) fun s seen e s' _ hp hs => ?_
  · obtain ⟨t, ht, hr⟩ := h0 s hi
    exact ⟨t, .init ht, hr⟩
  · obtain ⟨t, ht, hr⟩ := hp
    rcases hR s e s' t hr hs with ⟨hsee, hr'⟩ | ⟨o, t', hsee, hstep, hr'⟩
    · rw [hsee, Option.toList_none, List.append_nil]
      exact ⟨t, ht, hr'⟩
    · rw [hsee]
      exact ⟨t', .step o ht hstep, hr'⟩

/-! ## Runs that evaluate -/

def watch (step : σ → ε → Option σ) (check : σ → ε → Bool) (see : σ → ε → Option ω) (s : σ) : List ε → Option (σ × List ω)
  | [] => some (s, [])
  | e :: es =>
    if check s e then
      (step s e).bind fun s' => (watch step check see s' es).map fun r => (r.1, (see s e).toList ++ r.2)
    else none

theorem trace_of_watch {step : σ → ε → Option σ} {check : σ → ε → Bool} {C : σ → ε → Prop} {s t : σ} {es : List ε}
    {seen more : List ω} (hc : ∀ s e, check s e → C s e)
    (h : Trace I (Under (fun s e s' => step s e = some s') C) see s seen) (hw : watch step check see s es = some (t, more)) :
    Trace I (Under (fun s e s' => step s e = some s') C) see t (seen ++ more) := by
  induction es generalizing s seen more with
  | nil =>
    cases hw
    rwa [List.append_nil]
  | cons e es ih =>
    unfold watch at hw
    split at hw
    · rename_i hcheck
      obtain ⟨s', hs, hrest⟩ := Option.bind_eq_some_iff.mp hw
      obtain ⟨⟨u, rest⟩, hmore, heq⟩ := Option.map_eq_some_iff.mp hrest
      cases heq
      rw [← List.append_assoc]
      exact ih (.step e h ⟨hs, hc s e hcheck⟩) hmore
    · cases hw

def record {ν : Type} (step : σ → ε → Option σ) (note : σ → ε → ν → ν) (s : σ) (n : ν) : List ε → Option (σ × ν)
  | [] => some (s, n)
  | e :: es => (step s e).bind fun s' => record step note s' (note s e n) es

theorem noted_of_record {ν : Type} {note : σ → ε → ν → ν} {first : ν} {step : σ → ε → Option σ} {s t : σ} {n k : ν} {es : List ε}
    (h : Noted I (fun s e s' => step s e = some s') note first s n) (hr : record step note s n es = some (t, k)) :
    Noted I (fun s e s' => step s e = some s') note first t k := by
  induction es generalizing s n with
  | nil =>
    cases hr
    exact h
  | cons e es ih =>
    obtain ⟨s', hs, hrest⟩ := Option.bind_eq_some_iff.mp hr
    exact ih (.step e h hs) hrest

end Transition
