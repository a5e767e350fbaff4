/-
  Relaunchd.Properties.Inheriting — the descriptors of the program that `start_child_process`
  executes (`src/job.cc`): its three standard files are those of the manifest, and it has
  nothing else that launchd did not let it have.
-/

import Relaunchd.ExecMonitor

namespace Relaunchd

open Prog Descriptors

namespace Child

/-! ## Stages -/

/-- From a state with `I`, a stage that goes on leaves one with `J`; one that returns a status,
    or throws, leaves one with `K`. -/
def Carries (I J : Setup → Prop) (K : Option ExecStatus → Setup → Prop) (x : Stage) : Prop :=
  ∀ s, I s → wp x (fun r s' => if r = none then J s' else K r s') (K none) s

section Carries

variable {I J L : Setup → Prop} {K : Option ExecStatus → Setup → Prop} {x : Stage} {rest rest' : List Stage}

theorem Carries.done : Carries I I K (return none) := fun s hs => by
  rw [wp_pure, if_pos rfl]
  exact hs

theorem Carries.cons (hx : Carries I J K x) (hrest : Carries J L K (inOrder rest)) : Carries I L K (inOrder (x :: rest)) := by
  intro s hs
  rw [inOrder, wp_bind]
  refine wp_mono (hx s hs) (fun r s' h => ?_) fun _ => id
  cases r with
  | none => exact hrest s' (by rwa [if_pos rfl] at h)
  | some status =>
    rw [if_neg (Option.some_ne_none status)] at h
    rw [wp_pure, if_neg (Option.some_ne_none status)]
    exact h

theorem Carries.append (h : Carries I J K (inOrder rest)) (h' : Carries J L K (inOrder rest')) :
    Carries I L K (inOrder (rest ++ rest')) := by
  induction rest generalizing I with
  | nil =>
    intro s hs
    have hj := h s hs
    rw [inOrder, wp_pure, if_pos rfl] at hj
    exact h' s hj
  | cons x rest ih =>
    intro s hs
    rw [List.cons_append, inOrder, wp_bind]
    have hx := h s hs
    rw [inOrder, wp_bind] at hx
    refine wp_mono hx (fun r s' hr => ?_) fun _ => id
    cases r with
    | none =>
      have hstep : Carries (fun t => t = s') J K (inOrder rest) := fun t ht => ht ▸ hr
      exact ih hstep s' rfl
    | some status =>
      rw [wp_pure, if_neg (Option.some_ne_none status)] at hr ⊢
      exact hr

end Carries

/-! ## The calls so far -/

def Syscall.plain : Syscall → Bool
  | .openFile _ _ _ | .dup2 _ _ | .close _ => false
  | _ => true

variable {t u : Table File} {c : Syscall} {a : Answer} {calls : List (Syscall × Answer)} {fd : Nat}

theorem afterCall_plain (h : c.plain) : afterCall t (c, a) = t := by
  cases c <;> first | rfl | cases h

theorem afterCall_error (c : Syscall) (errno : Nat) : afterCall t (c, .error errno) = t := by cases c <;> rfl

theorem afterCalls_concat : afterCalls t (calls ++ [(c, a)]) = afterCall (afterCalls t calls) (c, a) := by
  rw [afterCalls, List.foldl_append]
  rfl

theorem legal_concat : Legal t (calls ++ [(c, a)]) ↔ Legal t calls ∧ LegalCall (afterCalls t calls) (c, a) := by
  induction calls generalizing t with
  | nil => exact ⟨fun h => ⟨trivial, h.1⟩, fun h => ⟨h.2, trivial⟩⟩
  | cons d calls ih => exact (and_congr_right fun _ => ih).trans and_assoc.symm

theorem wp_call {Q : Answer → Setup → Prop} {E : Setup → Prop} {s : Setup} :
    wp (call c) Q E s = Q (s.answers.headD (.ok 0)) (s.after c) := rfl

/-! ## The standard files -/

/-- The file that the manifest wants at one of the first three descriptors. -/
def stdio (manifest : Manifest) : Nat → File
  | 0 => .opened manifest.stdinPath .rdonly 0
  | 1 => .opened manifest.stdoutPath .create 0o600
  | _ => .opened manifest.stderrPath .create 0o600

def Redirected (t : Table File) (files : Nat → File) (k : Nat) (u : Table File) : Prop :=
  ∀ fd, u.lookup fd = if fd < k then some { file := files fd } else t.lookup fd

def Untouched (t u : Table File) : Prop := ∀ fd e, 2 < fd → t.lookup fd = some e → u.lookup fd = some e

/-- What holds of the descriptors after the calls so far, if the kernel's answers are legal. -/
def Leaves (t : Table File) (P : Table File → Prop) (s : Setup) : Prop := Legal t s.calls → P (afterCalls t s.calls)

variable {files : Nat → File} {k : Nat} {s : Setup} {P : Table File → Prop} {code : ExecErrorCode} {manifest : Manifest}

theorem redirected_zero (t : Table File) (files : Nat → File) : Redirected t files 0 t := fun _ => by simp

theorem Redirected.untouched (h : Redirected t files k u) (hk : k ≤ 3) : Untouched t u := by
  intro fd e hfd he
  rw [h fd, if_neg (by omega), he]

/-- How the set-up ends when it does not go on: with an error, if with a status. -/
def Ended (t : Table File) (r : Option ExecStatus) (s : Setup) : Prop :=
  (∀ status, r = some status → status.errorCode ≠ .execSuccess) ∧ Leaves t (Untouched t) s

theorem Leaves.mono {Q : Table File → Prop} (h : Leaves t P s) (hPQ : ∀ u, P u → Q u) : Leaves t Q s := fun hl => hPQ _ (h hl)

theorem Leaves.after (h : Leaves t P s) (hc : c.plain) : Leaves t P (s.after c) := by
  intro hl
  rw [Setup.after, afterCalls_concat, afterCall_plain hc]
  exact h (legal_concat.mp hl).1

theorem Leaves.threw (h : Leaves t (Redirected t files k) s) (hk : k ≤ 3) : Ended t none s :=
  ⟨fun _ e => (by cases e), h.mono fun _ hu => hu.untouched hk⟩

theorem Leaves.failed {status : ExecStatus} (h : Leaves t (Untouched t) s) (hcode : status.errorCode ≠ .execSuccess) :
    Ended t (some status) s := ⟨fun _ e => by cases e; exact hcode, h⟩

/-- A call that opens, closes and redirects nothing. -/
theorem carries_attempt (hk : k ≤ 3) (hc : c.plain) (hcode : code ≠ .execSuccess) :
    Carries (Leaves t (Redirected t files k)) (Leaves t (Redirected t files k)) (Ended t) (attempt c code) := by
  intro s hs
  have hnext := hs.after hc
  rw [attempt, wp_bind, wp_call]
  cases s.answers.headD (.ok 0) with
  | ok n => rw [wp_pure, if_pos rfl]; exact hnext
  | error errno =>
    rw [wp_pure, if_neg (Option.some_ne_none _)]
    exact (hnext.mono fun u hu => hu.untouched hk).failed hcode

theorem carries_attemptIf {α : Type} {value : Option α} {f : α → Syscall} (hk : k ≤ 3) (hf : ∀ a, (f a).plain)
    (hcode : code ≠ .execSuccess) :
    Carries (Leaves t (Redirected t files k)) (Leaves t (Redirected t files k)) (Ended t)
      (attemptIf value f code) := by
  cases value with
  | none => exact .done
  | some a => exact carries_attempt hk (hf a) hcode

theorem carries_setUmask :
    Carries (Leaves t (Redirected t files k)) (Leaves t (Redirected t files k)) (Ended t) (setUmask manifest) := by
  intro s hs
  rw [setUmask, wp_bind, wp_call, wp_pure, if_pos rfl]
  exact hs.after rfl

theorem carries_becomeUser {ctx : ExecutionContext} (hk : k ≤ 3) :
    Carries (Leaves t (Redirected t files k)) (Leaves t (Redirected t files k)) (Ended t)
      (becomeUser manifest ctx) := by
  have hthrow : Carries (Leaves t (Redirected t files k)) (Leaves t (Redirected t files k)) (Ended t)
      (throw "bad_optional_access") := fun s hs => hs.threw hk
  unfold becomeUser
  cases manifest.userName with
  | none => exact .done
  | some user =>
    cases ctx.gid with
    | none => exact hthrow
    | some gid =>
      cases ctx.uid with
      | none => exact hthrow
      | some uid =>
        refine .cons ?_ (.cons (carries_attempt hk rfl (by decide)) (.cons (carries_attempt hk rfl (by decide)) .done))
        split
        · exact carries_attempt hk rfl (by decide)
        · exact .done

/-! ## A redirection -/

/-- The descriptor the file is opened at is free, so that it is none of the first three, and
    none that was open. -/
theorem Redirected.free {n : Nat} (h : Redirected t files k u) (ht : ∀ fd < 3, t.lookup fd ≠ none) (hn : u.Free n) :
    2 < n ∧ t.lookup n = none := by
  have hl := h n
  rw [Table.Free] at hn
  rw [hn] at hl
  by_cases hk : n < k
  · rw [if_pos hk] at hl
    cases hl
  · rw [if_neg hk] at hl
    refine ⟨?_, hl.symm⟩
    by_contra h2
    exact ht n (by omega) hl.symm

variable {path : String} {flags : OpenFlags} {mode : Nat} {context : ExecErrorContext} {n : Nat}

/-- `open(2)` succeeds at a free descriptor, and then `dup2(2)` and `close(2)` do. -/
theorem Redirected.next (h : Redirected t files k u) (ht : ∀ fd < 3, t.lookup fd ≠ none) (hk : k < 3) (hn : u.Free n)
    (hfile : files k = .opened path flags mode) :
    Redirected t files (k + 1) (((u.openAt n (.opened path flags mode)).dup2 n k).close n) := by
  obtain ⟨h2, hfree⟩ := h.free ht hn
  intro fd
  by_cases hfd : fd = n
  · subst hfd
    rw [Table.lookup_close_self, if_neg (by omega), hfree]
  · rw [Table.lookup_close_ne hfd]
    by_cases hfk : fd = k
    · subst hfk
      rw [Table.lookup_dup2_self Table.lookup_openAt_self (Ne.symm hfd), if_pos (by omega), hfile]
    · rw [Table.lookup_dup2_ne hfk, Table.lookup_openAt_ne hfd, h fd]
      by_cases hlt : fd < k
      · rw [if_pos hlt, if_pos (by omega)]
      · rw [if_neg hlt, if_neg (by omega)]

theorem Untouched.openAt {file : File} (h : Untouched t u) (hn : t.lookup n = none) : Untouched t (u.openAt n file) := by
  intro fd e hfd he
  have hne : fd ≠ n := fun hEq => by rw [hEq, hn] at he; cases he
  rw [Table.lookup_openAt_ne hne]
  exact h fd e hfd he

theorem Untouched.dup2 {old : Nat} (h : Untouched t u) (hk : k < 3) : Untouched t (u.dup2 old k) := by
  intro fd e hfd he
  rw [Table.lookup_dup2_ne (by omega)]
  exact h fd e hfd he

theorem Untouched.close (h : Untouched t u) (hn : t.lookup n = none) : Untouched t (u.close n) := by
  intro fd e hfd he
  have hne : fd ≠ n := fun hEq => by rw [hEq, hn] at he; cases he
  rw [Table.lookup_close_ne hne]
  exact h fd e hfd he

theorem Untouched.closeCall (h : Untouched t u) (hn : t.lookup n = none) (a : Answer) :
    Untouched t (afterCall u (.close n, a)) := by
  cases a with
  | ok m => exact h.close hn
  | error errno => exact h

theorem carries_redirect (ht : ∀ fd < 3, t.lookup fd ≠ none) (hk : k < 3) (hfile : files k = .opened path flags mode) :
    Carries (Leaves t (Redirected t files k)) (Leaves t (Redirected t files (k + 1))) (Ended t)
      (redirect k path flags mode context) := by
  intro s hs
  rw [redirect, wp_bind, replaceFd, wp_bind, wp_call]
  cases h1 : s.answers.headD (.ok 0) with
  | error errno =>
    rw [wp_pure, wp_pure, if_neg (Option.some_ne_none _)]
    refine Leaves.failed (fun hl => ?_) (by simp)
    rw [Setup.after, h1] at hl ⊢
    rw [afterCalls_concat, afterCall_error]
    exact (hs (legal_concat.mp hl).1).untouched (by omega)
  | ok n =>
    dsimp only
    rw [wp_bind, wp_call]
    have hopened : Legal t (s.after (.openFile path flags mode)).calls →
        ∃ u, Redirected t files k u ∧ u.Free n ∧ afterCalls t (s.after (.openFile path flags mode)).calls =
          u.openAt n (.opened path flags mode) := by
      intro hl
      rw [Setup.after, h1] at hl ⊢
      obtain ⟨hl, hn⟩ := legal_concat.mp hl
      exact ⟨_, hs hl, hn, afterCalls_concat⟩
    generalize s.after (.openFile path flags mode) = s₁ at hopened ⊢
    cases h2 : s₁.answers.headD (.ok 0) with
    | error errno =>
      have hkept : Leaves t (Untouched t) ((s₁.after (.dup2 n k)).after (.close n)) := by
        intro hl
        rw [Setup.after, Setup.after, h2] at hl ⊢
        obtain ⟨hl, -⟩ := legal_concat.mp hl
        obtain ⟨hl, -⟩ := legal_concat.mp hl
        obtain ⟨u, hu, hn, hEq⟩ := hopened hl
        rw [afterCalls_concat, afterCalls_concat, afterCall_error, hEq]
        have hfree := (hu.free ht hn).2
        exact ((hu.untouched (by omega)).openAt hfree).closeCall hfree _
      dsimp only
      rw [wp_bind, wp_call]
      cases (s₁.after (.dup2 n k)).answers.headD (.ok 0) with
      | ok m => rw [wp_pure, wp_pure, if_neg (Option.some_ne_none _)]; exact hkept.failed (by simp)
      | error errno => rw [wp_pure, wp_pure, if_neg (Option.some_ne_none _)]; exact hkept.failed (by simp)
    | ok m =>
      dsimp only
      rw [attempt, wp_bind, wp_call]
      cases h3 : (s₁.after (.dup2 n k)).answers.headD (.ok 0) with
      | ok m' =>
        rw [wp_pure, wp_pure, if_pos rfl]
        intro hl
        rw [Setup.after, h3, Setup.after, h2] at hl ⊢
        obtain ⟨hl, -⟩ := legal_concat.mp hl
        obtain ⟨hl, -⟩ := legal_concat.mp hl
        obtain ⟨u, hu, hn, hEq⟩ := hopened hl
        rw [afterCalls_concat, afterCalls_concat, hEq]
        exact hu.next ht hk hn hfile
      | error errno =>
        rw [wp_pure, wp_pure, if_neg (Option.some_ne_none _)]
        refine Leaves.failed (fun hl => ?_) (by simp)
        rw [Setup.after, h3, Setup.after, h2] at hl ⊢
        obtain ⟨hl, -⟩ := legal_concat.mp hl
        obtain ⟨hl, -⟩ := legal_concat.mp hl
        obtain ⟨u, hu, hn, hEq⟩ := hopened hl
        rw [afterCalls_concat, afterCalls_concat, afterCall_error, hEq]
        exact ((hu.untouched (by omega)).openAt (hu.free ht hn).2).dup2 hk

/-! ## The whole set-up -/

theorem carries_execute {ctx : ExecutionContext} :
    Carries (Leaves t (Redirected t files 3)) (Leaves t (Redirected t files 3)) (Ended t)
      (execute manifest ctx) := by
  unfold execute
  cases manifest.program.or manifest.programArguments.head? with
  | none => exact fun s hs => hs.threw (by omega)
  | some path => exact carries_attempt (by omega) rfl (by decide)

theorem carries_startChildProcess (ht : ∀ fd < 3, t.lookup fd ≠ none) (manifest : Manifest) (ctx : ExecutionContext) :
    Carries (Leaves t (Redirected t (stdio manifest) 0)) (Leaves t (Redirected t (stdio manifest) 3)) (Ended t)
      (startChildProcess manifest ctx) := by
  have h0 : 0 ≤ 3 := by decide
  refine .append (.cons carries_setUmask ?_) (.cons carries_execute .done)
  refine .cons (carries_attempt h0 rfl (by decide)) (.cons (carries_attemptIf h0 (fun _ => rfl) (by decide)) ?_)
  refine .cons (carries_attemptIf h0 (fun _ => rfl) (by decide)) (.cons (carries_attemptIf h0 (fun _ => rfl) (by decide)) ?_)
  refine .cons (carries_becomeUser h0) (.cons (carries_redirect ht (by decide) rfl) ?_)
  refine .cons (carries_redirect ht (by decide) rfl) (.cons (carries_redirect ht (by decide) rfl) ?_)
  exact .cons (carries_attempt (by decide) rfl (by decide)) (.cons (carries_attempt (by decide) rfl (by decide)) .done)

/-- A set-up that fails says why, and what was open past the standard files still is. -/
theorem startChildProcess_failed {ctx : ExecutionContext} {answers : List Answer} {status : ExecStatus} {s : Setup}
    (ht : ∀ fd < 3, t.lookup fd ≠ none) (h : startChildProcess manifest ctx { answers } = .ok (some status) s)
    (hl : Legal t s.calls) : status.errorCode ≠ .execSuccess ∧ Untouched t (afterCalls t s.calls) := by
  have hw := wp_ok (carries_startChildProcess ht manifest ctx { answers } fun _ => redirected_zero t _) h
  rw [if_neg (Option.some_ne_none status)] at hw
  exact ⟨hw.1 status rfl, hw.2 hl⟩

/-- The program's standard files are the manifest's, and its other descriptors those that
    launchd's table `t` leaves open across `execve(2)`; the set-up leaks none. -/
theorem program_inherits {ctx : ExecutionContext} {answers : List Answer} {s : Setup}
    (ht : ∀ fd < 3, t.lookup fd ≠ none) (h : startChildProcess manifest ctx { answers } = .ok none s)
    (hl : Legal t s.calls) (fd : Nat) : (afterCalls t s.calls).exec.lookup fd =
      if fd < 3 then some { file := stdio manifest fd } else t.exec.lookup fd := by
  have hw := wp_ok (carries_startChildProcess ht manifest ctx { answers } fun _ => redirected_zero t _) h
  rw [if_pos rfl] at hw
  rw [Table.lookup_exec, hw hl fd]
  by_cases h3 : fd < 3
  · rw [if_pos h3, if_pos h3]
    rfl
  · rw [if_neg h3, if_neg h3, Table.lookup_exec]

/-- launchd's descriptors: the standard files, and one that it keeps for itself. -/
def daemonFds : Table File :=
  ((((∅ : Table File).openAt 0 (.other 0)).openAt 1 (.other 1)).openAt 2 (.other 2)).openAt 3 (.other 3) |>.setCloexec 3

def plainJob : Manifest := { label := "job", program := some "/bin/job", programArguments := ["/bin/job"] }

def plainAnswers : List Answer := [.ok 0, .ok 0, .ok 8, .ok 0, .ok 0, .ok 8, .ok 0, .ok 0, .ok 8]

end Child

end Relaunchd
