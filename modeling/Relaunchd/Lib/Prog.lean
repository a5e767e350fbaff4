/-
  Relaunchd.Lib.Prog — programs over a state that may end in an exception.

  A program runs from a state and returns a value, raises an exception (a string) that a
  caller may catch, or dies: a failed assertion, a use of freed memory, an exception that
  leaves a function which must not throw. What the program did to the state before an
  exception stays done (there is no roll-back), and nothing runs after a crash.

  `wp x Q E s`: run from `s`, `x` ends in a state with `Q` if it returns, in a state with
  `E` if it throws. A crash satisfies every `wp`; `ends` speaks of those.
-/

import Mathlib

inductive Res (σ α : Type) where
  | ok (a : α) (s : σ)
  | throw (what : String) (s : σ)
  | crash (why : String)

def Prog (σ α : Type) : Type := σ → Res σ α

namespace Prog

variable {σ α β : Type}

def ret (a : α) : Prog σ α := fun s => .ok a s

def andThen (x : Prog σ α) (f : α → Prog σ β) : Prog σ β := fun s =>
  match x s with
  | .ok a s' => f a s'
  | .throw w s' => .throw w s'
  | .crash w => .crash w

instance : Monad (Prog σ) where
  pure := ret
  bind := andThen

def get : Prog σ σ := fun s => .ok s s

def gets (f : σ → α) : Prog σ α := fun s => .ok (f s) s

def modify (f : σ → σ) : Prog σ Unit := fun s => .ok () (f s)

def throw (what : String) : Prog σ α := fun s => .throw what s

def crash (why : String) : Prog σ α := fun _ => .crash why

def tryCatch (x : Prog σ α) (h : String → Prog σ α) : Prog σ α := fun s =>
  match x s with
  | .throw w s' => h w s'
  | r => r

/-- A function declared not to throw: an exception that leaves it ends the program. -/
def noexcept (x : Prog σ α) : Prog σ α := tryCatch x fun w => crash w

def forEach (f : β → Prog σ Unit) : List β → Prog σ Unit
  | [] => ret ()
  | b :: bs => do
    f b
    forEach f bs

def final? (x : Prog σ α) (s : σ) : Option σ :=
  match x s with
  | .ok _ s' => some s'
  | _ => none

theorem final?_eq_some {x : Prog σ α} {s s' : σ} : final? x s = some s' ↔ ∃ a, x s = .ok a s' := by
  unfold final?
  cases x s with
  | ok a u => simp
  | throw w u => simp
  | crash w => simp

def passes (x : Prog σ α) (p : α → σ → Bool) (s : σ) : Bool :=
  match x s with
  | .ok a s' => p a s'
  | _ => false

theorem of_passes {x : Prog σ α} {p : α → σ → Bool} {s : σ} (h : passes x p s) : ∃ a s', x s = .ok a s' ∧ p a s' := by
  unfold passes at h
  cases hx : x s with
  | ok a s' => rw [hx] at h; exact ⟨a, s', rfl, h⟩
  | throw w s' => rw [hx] at h; cases h
  | crash w => rw [hx] at h; cases h

def crashed? : Res σ α → Option String
  | .crash w => some w
  | _ => none

theorem crashed?_eq {r : Res σ α} {w : String} : crashed? r = some w ↔ r = .crash w := by
  cases r with
  | ok a s | throw v s => exact ⟨nofun, nofun⟩
  | crash v => simp [crashed?]

/-! ## Runs of a sequence -/

theorem bind_ok {x : Prog σ α} {f : α → Prog σ β} {s s' : σ} {a : α} (h : x s = .ok a s') : (x >>= f) s = f a s' := by
  simp only [bind, andThen, h]

theorem bind_throw {x : Prog σ α} {f : α → Prog σ β} {s s' : σ} {w : String} (h : x s = .throw w s') :
    (x >>= f) s = .throw w s' := by
  simp only [bind, andThen, h]

theorem bind_crash {x : Prog σ α} {f : α → Prog σ β} {s : σ} {w : String} (h : x s = .crash w) :
    (x >>= f) s = .crash w := by
  simp only [bind, andThen, h]

theorem of_bind_ok {x : Prog σ α} {f : α → Prog σ β} {s s' : σ} {b : β} (h : (x >>= f) s = .ok b s') :
    ∃ a t, x s = .ok a t ∧ f a t = .ok b s' := by
  cases hx : x s with
  | ok a t => exact ⟨a, t, rfl, (bind_ok hx).symm.trans h⟩
  | throw w t => cases (bind_throw hx).symm.trans h
  | crash w => cases (bind_crash hx).symm.trans h

theorem bind_assoc {γ : Type} (x : Prog σ α) (f : α → Prog σ β) (g : β → Prog σ γ) :
    x >>= f >>= g = x >>= fun a => f a >>= g := by
  funext s
  simp only [bind, andThen]
  cases x s <;> rfl

theorem get_bind (f : σ → Prog σ β) (s : σ) : (get >>= f) s = f s s := rfl

theorem ite_run (c : Prop) [Decidable c] (x y : Prog σ α) (s : σ) : (if c then x else y) s = if c then x s else y s := by
  split <;> rfl

/-! ## Weakest preconditions -/

def wp (x : Prog σ α) (Q : α → σ → Prop) (E : σ → Prop) (s : σ) : Prop :=
  match x s with
  | .ok a s' => Q a s'
  | .throw _ s' => E s'
  | .crash _ => True

section Rules

variable {Q : α → σ → Prop} {E : σ → Prop} {s : σ}

@[simp] theorem wp_ret (a : α) : wp (ret a) Q E s = Q a s := rfl
@[simp] theorem wp_pure (a : α) : wp (pure a : Prog σ α) Q E s = Q a s := rfl
@[simp] theorem wp_get {Q : σ → σ → Prop} : wp get Q E s = Q s s := rfl
@[simp] theorem wp_gets (f : σ → α) : wp (gets f) Q E s = Q (f s) s := rfl
@[simp] theorem wp_modify {Q : Unit → σ → Prop} (f : σ → σ) : wp (modify f) Q E s = Q () (f s) := rfl
@[simp] theorem wp_throw (w : String) : wp (throw w) Q E s = E s := rfl
@[simp] theorem wp_crash (w : String) : wp (crash w) Q E s = True := rfl

@[simp] theorem wp_bind (x : Prog σ β) (f : β → Prog σ α) :
    wp (x >>= f) Q E s = wp x (fun b s' => wp (f b) Q E s') E s := by
  simp only [wp, bind, andThen]
  cases x s <;> rfl

@[simp] theorem wp_map (f : β → α) (x : Prog σ β) :
    wp (f <$> x) Q E s = wp x (fun b s' => Q (f b) s') E s :=
  wp_bind x fun b => pure (f b)

@[simp] theorem wp_tryCatch (x : Prog σ α) (h : String → Prog σ α) :
    wp (tryCatch x h) Q E s =
      (match x s with
        | .ok a s' => Q a s'
        | .throw w s' => wp (h w) Q E s'
        | .crash _ => True) := by
  simp only [wp, tryCatch]
  cases x s <;> rfl

theorem wp_ite (c : Prop) [Decidable c] (x y : Prog σ α) :
    wp (if c then x else y) Q E s = if c then wp x Q E s else wp y Q E s := by
  split <;> rfl

/-- Two runs that come to the same. -/
theorem wp_congr {x y : Prog σ α} {t : σ} (h : x s = y t) : wp x Q E s = wp y Q E t := by
  unfold wp
  rw [h]

theorem wp_mono {Q' : α → σ → Prop} {E' : σ → Prop} {x : Prog σ α} (h : wp x Q E s)
    (hQ : ∀ a s', Q a s' → Q' a s') (hE : ∀ s', E s' → E' s') : wp x Q' E' s := by
  unfold wp at h ⊢
  cases hx : x s <;> simp only [hx] at h ⊢
  · exact hQ _ _ h
  · exact hE _ h

theorem wp_and {Q' : α → σ → Prop} {E' : σ → Prop} {x : Prog σ α} (h : wp x Q E s) (h' : wp x Q' E' s) :
    wp x (fun a s' => Q a s' ∧ Q' a s') (fun s' => E s' ∧ E' s') s := by
  unfold wp at *
  cases hx : x s <;> simp_all

/-- A handler that catches: the exceptional postcondition of the body is what the handler needs. -/
theorem wp_catch {x : Prog σ α} {h : String → Prog σ α} {F : σ → Prop} (hx : wp x Q F s)
    (hh : ∀ w s', F s' → wp (h w) Q E s') : wp (tryCatch x h) Q E s := by
  rw [wp_tryCatch]
  unfold wp at hx
  cases e : x s <;> simp only [e] at hx ⊢
  · exact hx
  · exact hh _ _ hx

theorem wp_noexcept {x : Prog σ α} (hx : wp x Q (fun _ => True) s) : wp (noexcept x) Q E s :=
  wp_catch hx fun _ _ _ => trivial

/-- Reading a `wp` off a run that returned. -/
theorem wp_ok {x : Prog σ α} {a : α} {s' : σ} (h : wp x Q E s) (hx : x s = .ok a s') : Q a s' := by
  unfold wp at h
  rw [hx] at h
  exact h

/-- The postcondition may speak of the run itself. -/
theorem wp_self {x : Prog σ α} (h : wp x Q E s) : wp x (fun a s' => x s = .ok a s' ∧ Q a s') E s := by
  unfold wp at h ⊢
  cases hx : x s <;> simp only [hx] at h ⊢
  · exact ⟨trivial, h⟩
  · exact h

theorem wp_of_ok {x : Prog σ α} (h : ∀ a s', x s = .ok a s' → Q a s') (h' : ∀ w s', x s = .throw w s' → E s') :
    wp x Q E s := by
  unfold wp
  cases hx : x s with
  | ok a s' => exact h a s' hx
  | throw w s' => exact h' w s' hx
  | crash w => trivial

/-- The rule for loops: an invariant that the body keeps. -/
theorem wp_forEach {I : σ → Prop} {f : β → Prog σ Unit} {bs : List β} (h : I s)
    (hf : ∀ b ∈ bs, ∀ s, I s → wp (f b) (fun _ => I) E s) : wp (forEach f bs) (fun _ => I) E s := by
  induction bs generalizing s with
  | nil => exact h
  | cons b bs ih =>
    rw [forEach, wp_bind]
    refine wp_mono (hf b List.mem_cons_self s h) (fun _ s' hs' => ?_) fun _ => id
    exact ih hs' fun c hc => hf c (List.mem_cons_of_mem _ hc)

end Rules

/-- A property that a program has if its parts do. -/
structure Sequential (P : (α : Type) → Prog σ α → Prop) : Prop where
  returns : ∀ {α : Type} (a : α), P α (pure a)
  bind : ∀ {α β : Type} {x : Prog σ α} {f : α → Prog σ β}, P α x → (∀ a, P β (f a)) → P β (x >>= f)

/-! ## Programs that stay within a relation -/

/-- From a state with `I`, however the program ends, the state it started in and the one it
    ended in are related. -/
def Within (I : σ → Prop) (R : σ → σ → Prop) (x : Prog σ α) : Prop :=
  ∀ s, I s → wp x (fun _ s' => R s s') (fun s' => R s s') s

section Within

variable {I : σ → Prop} {R : σ → σ → Prop}

theorem Within.of_same (hr : ∀ s, I s → R s s) {x : Prog σ α}
    (h : ∀ s, wp x (fun _ s' => s' = s) (fun s' => s' = s) s) : Within I R x := fun s hs =>
  wp_mono (h s) (fun _ _ e => e ▸ hr s hs) fun _ e => e ▸ hr s hs

theorem Within.bind (hI : ∀ s t, I s → R s t → I t) (ht : ∀ s t u, R s t → R t u → R s u) {x : Prog σ α}
    {f : α → Prog σ β} (hx : Within I R x) (hf : ∀ a, Within I R (f a)) : Within I R (x >>= f) := fun s hs => by
  rw [wp_bind]
  refine wp_mono (hx s hs) (fun a t h => ?_) fun _ => id
  exact wp_mono (hf a t (hI s t hs h)) (fun _ u hu => ht s t u h hu) fun u hu => ht s t u h hu

theorem Within.tryCatch (hI : ∀ s t, I s → R s t → I t) (ht : ∀ s t u, R s t → R t u → R s u) {x : Prog σ α}
    {h : String → Prog σ α} (hx : Within I R x) (hh : ∀ w, Within I R (h w)) : Within I R (Prog.tryCatch x h) :=
  fun s hs => wp_catch (hx s hs) fun w t hr =>
    wp_mono (hh w t (hI s t hs hr)) (fun _ u hu => ht s t u hr hu) fun u hu => ht s t u hr hu

theorem Within.forEach (hr : ∀ s, I s → R s s) (hI : ∀ s t, I s → R s t → I t) (ht : ∀ s t u, R s t → R t u → R s u)
    {f : β → Prog σ Unit} (bs : List β) (hf : ∀ b, Within I R (f b)) : Within I R (Prog.forEach f bs) := by
  induction bs with
  | nil => exact fun s hs => hr s hs
  | cons b bs ih => exact .bind hI ht (hf b) fun _ => ih

end Within

/-! ## How a run ends -/

/-- As `wp`, and a run that crashes does it for a reason `C` allows. -/
def ends (C : String → Prop) (x : Prog σ α) (Q : α → σ → Prop) (E : σ → Prop) (s : σ) : Prop :=
  match x s with
  | .ok a s' => Q a s'
  | .throw _ s' => E s'
  | .crash w => C w

section Ends

variable {C : String → Prop} {Q : α → σ → Prop} {E : σ → Prop} {s : σ}

@[simp] theorem ends_pure (a : α) : ends C (pure a : Prog σ α) Q E s = Q a s := rfl
@[simp] theorem ends_get {Q : σ → σ → Prop} : ends C get Q E s = Q s s := rfl
@[simp] theorem ends_gets (f : σ → α) : ends C (gets f) Q E s = Q (f s) s := rfl
@[simp] theorem ends_modify {Q : Unit → σ → Prop} (f : σ → σ) : ends C (modify f) Q E s = Q () (f s) := rfl
@[simp] theorem ends_throw (w : String) : ends C (throw w) Q E s = E s := rfl
@[simp] theorem ends_crash (w : String) : ends C (crash w) Q E s = C w := rfl

@[simp] theorem ends_bind (x : Prog σ β) (f : β → Prog σ α) :
    ends C (x >>= f) Q E s = ends C x (fun b s' => ends C (f b) Q E s') E s := by
  simp only [ends, bind, andThen]
  cases x s <;> rfl

theorem ends_ite (c : Prop) [Decidable c] (x y : Prog σ α) :
    ends C (if c then x else y) Q E s = if c then ends C x Q E s else ends C y Q E s := by
  split <;> rfl

theorem ends_iff {x : Prog σ α} : ends C x Q E s ↔ wp x Q E s ∧ ∀ w, x s = .crash w → C w := by
  unfold ends wp
  cases x s with
  | ok a s' => exact ⟨fun h => ⟨h, nofun⟩, And.left⟩
  | throw w s' => exact ⟨fun h => ⟨h, nofun⟩, And.left⟩
  | crash w => exact ⟨fun h => ⟨trivial, fun _ e => by cases e; exact h⟩, fun h => h.2 w rfl⟩

theorem ends_congr {x y : Prog σ α} {t : σ} (h : x s = y t) : ends C x Q E s = ends C y Q E t := by
  unfold ends
  rw [h]

theorem ends_mono {C' : String → Prop} {Q' : α → σ → Prop} {E' : σ → Prop} {x : Prog σ α} (h : ends C x Q E s)
    (hC : ∀ w, C w → C' w) (hQ : ∀ a s', Q a s' → Q' a s') (hE : ∀ s', E s' → E' s') : ends C' x Q' E' s :=
  ends_iff.mpr ⟨wp_mono (ends_iff.mp h).1 hQ hE, fun w hw => hC w ((ends_iff.mp h).2 w hw)⟩

/-- What is known of the states a run ends in, in addition. -/
theorem ends_and {Q' : α → σ → Prop} {E' : σ → Prop} {x : Prog σ α} (h : ends C x Q E s) (h' : wp x Q' E' s) :
    ends C x (fun a s' => Q a s' ∧ Q' a s') (fun s' => E s' ∧ E' s') s :=
  ends_iff.mpr ⟨wp_and (ends_iff.mp h).1 h', (ends_iff.mp h).2⟩

theorem ends_ok {x : Prog σ α} {a : α} {s' : σ} (h : x s = .ok a s') : ends C x Q E s = Q a s' := by
  unfold ends
  rw [h]

theorem ends_failed {x : Prog σ α} {w : String} {s' : σ} (h : x s = .throw w s') : ends C x Q E s = E s' := by
  unfold ends
  rw [h]

theorem ends_died {x : Prog σ α} {w : String} (h : x s = .crash w) : ends C x Q E s = C w := by
  unfold ends
  rw [h]

theorem wp_iff_ends {x : Prog σ α} : wp x Q E s ↔ ends (fun _ => True) x Q E s :=
  ⟨fun h => ends_iff.mpr ⟨h, fun _ _ => trivial⟩, fun h => (ends_iff.mp h).1⟩

/-- A run that can neither return nor throw crashes. -/
theorem ends_crashes {x : Prog σ α} (h : ends C x (fun _ _ => False) (fun _ => False) s) : ∃ w, x s = .crash w ∧ C w := by
  unfold ends at h
  cases hx : x s with
  | ok a s' => simp only [hx] at h
  | throw w s' => simp only [hx] at h
  | crash w => exact ⟨w, rfl, by simpa only [hx] using h⟩

/-- A run that can end neither way returns. -/
theorem ends_returns {x : Prog σ α} (h : ends (fun _ => False) x Q (fun _ => False) s) : ∃ a s', x s = .ok a s' ∧ Q a s' := by
  unfold ends at h
  cases hx : x s with
  | ok a s' => exact ⟨a, s', rfl, by simpa only [hx] using h⟩
  | throw w s' => simp only [hx] at h
  | crash w => simp only [hx] at h

/-- A handler that catches. -/
theorem ends_catch {F : σ → Prop} {x : Prog σ α} {h : String → Prog σ α} (hx : ends C x Q F s)
    (hh : ∀ w s', F s' → ends C (h w) Q E s') : ends C (tryCatch x h) Q E s := by
  unfold ends at hx ⊢
  unfold tryCatch
  cases e : x s with
  | ok a s' => simpa only [e] using hx
  | throw w s' => exact hh w s' (by simpa only [e] using hx)
  | crash w => simpa only [e] using hx

end Ends

/-! ## Programs that no run crashes -/

/-- From a state with `I` no run crashes, and each ends in one with `I`. -/
def Survives (I : σ → Prop) (x : Prog σ α) : Prop := ∀ s, I s → ends (fun _ => False) x (fun _ => I) I s

namespace Survives

variable {I : σ → Prop}

theorem returns (a : α) : Survives I (pure a : Prog σ α) := fun _ h => h

theorem get : Survives I (get : Prog σ σ) := fun _ h => h

theorem gets (f : σ → α) : Survives I (gets f) := fun _ h => h

theorem modify {f : σ → σ} (h : ∀ s, I s → I (f s)) : Survives I (modify f) := h

theorem throws (w : String) : Survives I (throw w : Prog σ α) := fun _ h => h

theorem bind {x : Prog σ α} {f : α → Prog σ β} (hx : Survives I x) (hf : ∀ a, Survives I (f a)) :
    Survives I (x >>= f) := fun s h => by
  rw [ends_bind]
  exact ends_mono (hx s h) (fun _ => id) (fun a s' hs' => hf a s' hs') fun _ => id

theorem branches (c : Prop) [Decidable c] {x y : Prog σ α} (hx : Survives I x) (hy : Survives I y) :
    Survives I (if c then x else y) := by
  split
  · exact hx
  · exact hy

theorem catches {x : Prog σ α} {h : String → Prog σ α} (hx : Survives I x) (hh : ∀ w, Survives I (h w)) :
    Survives I (tryCatch x h) := fun s hs => ends_catch (hx s hs) fun w s' => hh w s'

/-- A program that keeps `I`, and does not crash. -/
theorem of_wp {x : Prog σ α} (h : ∀ s, I s → wp x (fun _ => I) I s) (hc : ∀ s, I s → ∀ w, x s ≠ .crash w) : Survives I x :=
  fun s hs => ends_iff.mpr ⟨h s hs, hc s hs⟩

theorem not_crash {x : Prog σ α} {s : σ} (h : Survives I x) (hs : I s) (w : String) : x s ≠ .crash w :=
  (ends_iff.mp (h s hs)).2 w

end Survives

/-! ## Why a run fails -/

def failure? : Res σ α → Option String
  | .ok _ _ => none
  | .throw w _ => some w
  | .crash w => some w

def FailsIn (texts : List String) (x : Prog σ α) : Prop := ∀ s w, failure? (x s) = some w → w ∈ texts

namespace FailsIn

variable {texts : List String}

theorem returns (a : α) : FailsIn texts (pure a : Prog σ α) := nofun

theorem gets (f : σ → α) : FailsIn texts (gets f) := nofun

theorem get : FailsIn texts (get : Prog σ σ) := nofun

theorem modify (f : σ → σ) : FailsIn texts (modify f) := nofun

theorem throws {w : String} (h : w ∈ texts) : FailsIn texts (throw w : Prog σ α) := fun _ _ e => by cases e; exact h

theorem crashes {w : String} (h : w ∈ texts) : FailsIn texts (crash w : Prog σ α) := fun _ _ e => by cases e; exact h

theorem bind {x : Prog σ α} {f : α → Prog σ β} (hx : FailsIn texts x) (hf : ∀ a, FailsIn texts (f a)) :
    FailsIn texts (x >>= f) := fun s w h => by
  simp only [Bind.bind, andThen] at h
  cases e : x s with
  | ok a s' => rw [e] at h; exact hf a s' w h
  | throw v s' => rw [e] at h; cases h; exact hx s _ (congrArg failure? e)
  | crash v => rw [e] at h; cases h; exact hx s _ (congrArg failure? e)

theorem branches (c : Prop) [Decidable c] {x y : Prog σ α} (hx : FailsIn texts x) (hy : FailsIn texts y) :
    FailsIn texts (if c then x else y) := by
  split
  · exact hx
  · exact hy

theorem catches {x : Prog σ α} {h : String → Prog σ α} (hx : FailsIn texts x) (hh : ∀ w, FailsIn texts (h w)) :
    FailsIn texts (tryCatch x h) := fun s w hf => by
  unfold tryCatch at hf
  cases e : x s with
  | ok a s' => rw [e] at hf; cases hf
  | throw v s' => rw [e] at hf; exact hh v s' w hf
  | crash v => rw [e] at hf; cases hf; exact hx s _ (congrArg failure? e)

/-- An exception that ends the program does it with its own text. -/
theorem noexcepts {x : Prog σ α} (hx : FailsIn texts x) : FailsIn texts (noexcept x) := fun s w hf => by
  unfold noexcept tryCatch at hf
  apply hx s w
  cases e : x s with
  | ok a s' => rw [e] at hf; cases hf
  | throw v s' => rw [e] at hf; exact hf
  | crash v => rw [e] at hf; exact hf

theorem loops {f : β → Prog σ Unit} (bs : List β) (hf : ∀ b, FailsIn texts (f b)) : FailsIn texts (forEach f bs) := by
  induction bs with
  | nil => exact returns ()
  | cons b bs ih => exact bind (hf b) fun _ => ih

theorem mono {texts' : List String} {x : Prog σ α} (h : FailsIn texts x) (ht : texts ⊆ texts') : FailsIn texts' x :=
  fun s w hw => ht (h s w hw)

end FailsIn

end Prog
