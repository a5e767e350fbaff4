/-
  Relaunchd.Refinement.Shutdown — what a shutdown signal does: the first has every job
  unloaded, one that comes before they are gone destroys them.
-/

import Relaunchd.Refinement.Requests

namespace Relaunchd

open Prog EventManager Tables

variable {s s' s'' : Sys}

/-! ## The jobs are unloaded -/

/-- The jobs stored under some labels have been unloaded by force, each once. -/
structure Unloads (labels : List String) (s s' : Sys) : Prop where
  inv : s'.tables.Inv none
  keeps : Keeps s s'
  unloaded : ∀ label ∈ labels, ∀ r l, s.jobs.lookup label = some r → s.tables.fate r = .alive l →
    ∃ sent, Sent s.kernel.answers sent ∧
      s'.tables.fate r = .alive (l.unload (Job.disabledIn l.manifest s.stateFile) true sent)
  others : ∀ r, (∀ label ∈ labels, s.jobs.lookup label ≠ some r) → s'.tables.fate r = s.tables.fate r

theorem Unloads.refl (h : s.tables.Inv none) : Unloads [] s s := ⟨h, Keeps.refl s, nofun, fun _ _ => rfl⟩

theorem Sent.mono {a b : Answers} {sent : Bool} (hab : a.Left b) (h : Sent b sent) : Sent a sent :=
  h.imp_left fun hm => hab.kills hm

theorem unloadOne_spec {E : Sys → Prop} (h : s.tables.Inv none) (label : String) :
    wp (Manager.unloadOne label) (fun _ => Unloads [label] s) E s := by
  rw [Manager.unloadOne, wp_bind, wp_get]
  cases hr : s.jobs.lookup label with
  | none =>
    refine ⟨h, Keeps.refl s, fun label' hm r l hr' => ?_, fun _ _ => rfl⟩
    rw [List.mem_singleton.mp hm, hr] at hr'
    cases hr'
  | some r =>
    obtain ⟨l, hl, -, hb⟩ := stored_alive h hr
    have hd : ∀ s', UnloadedBy none r l (Job.disabledIn l.manifest s.stateFile) true s s' → Unloads [label] s s' := by
      intro s' h'
      obtain ⟨sent, hsent, hm⟩ := h'
      refine ⟨hm.inv, hm.keeps, fun label' hmem r' l' hr' hl' => ?_, fun r' hne => hm.others r' ?_⟩
      · rw [List.mem_singleton.mp hmem, hr] at hr'
        cases hr'
        rw [hl] at hl'
        cases hl'
        exact ⟨sent, hsent, hm.life⟩
      · rintro rfl
        exact hne label (List.mem_singleton_self _) hr
    have hspec := unloadJob_spec h hl hb true
    obtain ⟨j, hj, rfl⟩ := fate_eq_alive hl
    have hj' : s.heap r = some j := hj
    dsimp only
    rw [wp_bind, wp_this hj', wp_ite]
    split
    · refine wp_catch (F := Unloads [label] s) ?_ fun _ _ => id
      rw [wp_bind]
      exact wp_mono hspec (fun _ s' hm => hd s' hm) fun s' hm => hd s' hm
    · rename_i hskip
      refine hd s ⟨true, .inr rfl, ?_⟩
      rw [Life.unload_ignored (by simpa [or_iff_not_imp_left] using hskip)]
      exact Moves.refl h hl

theorem Unloads.cons {label : String} {labels : List String} (h : s.tables.Inv none) (hn : label ∉ labels)
    (h₁ : Unloads [label] s s') (h₂ : Unloads labels s' s'') : Unloads (label :: labels) s s'' := by
  have hjobs : s'.jobs = s.jobs := h₁.keeps.jobs
  have hne : ∀ label' ∈ labels, ∀ r, s.jobs.lookup label' = some r → s.jobs.lookup label ≠ some r := by
    intro label' hm r hr hr'
    obtain ⟨j, hj, hl, -⟩ := h.owned.stored _ _ hr
    have : label = label' := (h.owned.label_eq hr' hj).symm.trans hl
    exact hn (this ▸ hm)
  refine ⟨h₂.inv, h₁.keeps.trans h₂.keeps, fun label' hm r l hr hl => ?_, fun r hr => ?_⟩
  · rcases List.mem_cons.mp hm with rfl | hm
    · obtain ⟨sent, hsent, hlife⟩ := h₁.unloaded label' (List.mem_singleton_self _) r l hr hl
      refine ⟨sent, hsent, (h₂.others r fun label'' hm'' hr'' => ?_).trans hlife⟩
      rw [hjobs] at hr''
      exact hne label'' hm'' r hr'' hr
    · have hl' : s'.tables.fate r = .alive l := (h₁.others r fun label'' hm'' => by
        rw [List.mem_singleton.mp hm'']; exact hne label' hm r hr).trans hl
      obtain ⟨sent, hsent, hlife⟩ := h₂.unloaded label' hm r l (by rw [hjobs]; exact hr) hl'
      rw [h₁.keeps.stateFile] at hlife
      exact ⟨sent, hsent.mono h₁.keeps.answers, hlife⟩
  · exact (h₂.others r fun label' hm => by rw [hjobs]; exact hr label' (List.mem_cons_of_mem _ hm)).trans
      (h₁.others r fun label' hm => by rw [List.mem_singleton.mp hm]; exact hr label List.mem_cons_self)

theorem unloadEach_spec {E : Sys → Prop} (h : s.tables.Inv none) {labels : List String} (hn : labels.Nodup) :
    wp (forEach Manager.unloadOne labels) (fun _ => Unloads labels s) E s := by
  induction labels generalizing s with
  | nil => exact .refl h
  | cons label rest ih =>
    rw [List.nodup_cons] at hn
    rw [forEach, wp_bind]
    refine wp_mono (unloadOne_spec h label) (fun _ s₁ h₁ => ?_) fun _ => id
    exact wp_mono (ih h₁.inv hn.2) (fun _ s₂ h₂ => h₁.cons h hn.1 h₂) fun _ => id

structure ShutsDown (s s' : Sys) : Prop where
  inv : s'.tables.Inv none
  state : s'.state = .gracefulShutdown
  listening : s'.listening = false
  jobs : s'.jobs = s.jobs
  unloaded : ∀ label r l, s.jobs.lookup label = some r → s.tables.fate r = .alive l → ∃ sent, Sent s.kernel.answers sent ∧
    s'.tables.fate r = .alive (l.unload (Job.disabledIn l.manifest s.stateFile) true sent)
  others : ∀ r, (∀ label, s.jobs.lookup label ≠ some r) → s'.tables.fate r = s.tables.fate r

theorem unloadAllJobs_spec {E : Sys → Prop} (h : s.tables.Inv none) :
    wp Manager.unloadAllJobs (fun _ s' => ∃ s₁ labels, Took s s₁ ∧ (∀ label, label ∈ labels ↔ label ∈ s.jobs) ∧
      Unloads labels s₁ s') E s := by
  apply wp_noexcept
  rw [wp_bind, wp_get, wp_bind]
  refine wp_mono visiting_spec ?_ fun _ => id
  intro order s₁ h'
  obtain ⟨hperm, htook⟩ := h'
  refine wp_mono (unloadEach_spec (htook.tables ▸ h) (hperm.nodup_iff.mpr s.jobs.keys_nodup)) (fun _ s' hu => ?_) fun _ => id
  exact ⟨s₁, order, htook, fun label => hperm.mem_iff, hu⟩

/-- The transition to GracefulShutdown. -/
theorem shutdown_spec {E : Sys → Prop} (h : s.tables.Inv none) (hs : s.state = .running) :
    wp (Manager.execute [] .stopRequested) (fun _ => ShutsDown s) E s := by
  have hfilter : (Manager.transitions []).filter (·.fromState = s.state) =
      [ { fromState := .running, toState := .running, trigger := .startRequested
          guard := gets fun s => !s.pendingJobs.keys.isEmpty
          action := Manager.startAllJobs },
        { fromState := .running, toState := .gracefulShutdown, trigger := .stopRequested
          guard := return true
          action := do
            modify fun s => { s with listening := false }
            Manager.unloadAllJobs } ] := by
    rw [hs]
    rfl
  rw [Manager.execute, wp_bind, Fsm.execute, wp_bind, wp_gets, hfilter, Fsm.wp_tryTransitions_skip,
    Fsm.wp_tryTransitions_cons, wp_pure, if_pos rfl, wp_bind, wp_modify]
  · refine wp_mono (unloadAllJobs_spec (s := { s with listening := false }) h) ?_ fun _ => id
    intro _ s' h'
    obtain ⟨s₁, labels, htook, hlabels, hu⟩ := h'
    have hjobs : s₁.jobs = s.jobs := htook.keeps.jobs
    have hfate : ∀ r, s₁.tables.fate r = s.tables.fate r := fun r => by rw [htook.tables]; rfl
    refine ⟨hu.inv, rfl, hu.keeps.listening.trans htook.keeps.listening, hu.keeps.jobs.trans hjobs, fun label r l hr hl => ?_,
      fun r hr => ?_⟩
    · have hmem : label ∈ labels := (hlabels label).mpr (AList.lookup_isSome.mp (by rw [hr]; rfl))
      obtain ⟨sent, hsent, hlife⟩ := hu.unloaded label hmem r l (by rw [hjobs]; exact hr) ((hfate r).trans hl)
      rw [show s₁.stateFile = s.stateFile from htook.keeps.stateFile] at hlife
      exact ⟨sent, hsent.mono htook.keeps.answers, hlife⟩
    · exact (hu.others r fun label _ => by rw [hjobs]; exact hr label).trans (hfate r)
  · rfl
  · simp

/-! ## The jobs are destroyed -/

/-- While the jobs of `s` are unloaded without waiting for them. -/
structure Forcing (s s' : Sys) : Prop where
  jobs : s'.jobs = s.jobs
  pendingJobs : s'.pendingJobs = s.pendingJobs
  nextRef : s'.nextRef = s.nextRef
  state : s'.state = s.state
  starts : s'.starts = s.starts
  procs : Fading s.kernel.procs s'.kernel.procs
  heap : ∀ r j', s'.heap r = some j' → ∃ j, s.heap r = some j ∧ (j'.pid = j.pid ∨ j'.pid = 0)
  pended : ∀ r j, s.heap r = some j → j.boot = .pending → s'.heap r = some j
  kills : ∀ k ∈ s'.kernel.kills, k ∈ s.kernel.kills ∨
    ∃ j, s.heap k.job = some j ∧ j.boot ≠ .pending ∧ k.pid = j.pid ∧ j.pid ≠ 0 ∧
      (0 < k.pid → ∃ c, k.child = some c ∧ c.job = k.job ∧ c.pid = k.pid)

section Forcing

theorem Forcing.refl (s : Sys) : Forcing s s :=
  ⟨rfl, rfl, rfl, rfl, rfl, Fading.refl _, fun _ j hj => ⟨j, hj, .inl rfl⟩, fun _ _ hj _ => hj, fun _ hk => .inl hk⟩

/-- A step that concerns neither the jobs nor their processes. -/
theorem Forcing.other (h : Forcing s s') (hj : s''.jobs = s'.jobs) (hpj : s''.pendingJobs = s'.pendingJobs) (hn : s''.nextRef = s'.nextRef)
    (hs : s''.state = s'.state) (hst : s''.starts = s'.starts) (hp : s''.kernel.procs = s'.kernel.procs)
    (hh : s''.heap = s'.heap) (hk : s''.kernel.kills = s'.kernel.kills) : Forcing s s'' :=
  ⟨hj.trans h.jobs, hpj.trans h.pendingJobs, hn.trans h.nextRef, hs.trans h.state, hst.trans h.starts, hp ▸ h.procs,
    hh ▸ h.heap, hh ▸ h.pended,
    hk ▸ h.kills⟩

theorem Forcing.reaped (h : Forcing s s') {procs : List Proc} (hf : Fading s'.kernel.procs procs) :
    Forcing s (s'.updateKernel fun k => { k with procs }) :=
  ⟨h.jobs, h.pendingJobs, h.nextRef, h.state, h.starts, h.procs.trans hf, h.heap, h.pended, h.kills⟩

theorem Forcing.job (h : Forcing s s') {r : Ref} {j : Job} {f : Job → Job} (hj : s.heap r = some j)
    (hb : j.boot ≠ .pending) (hf : ∀ k, (f k).pid = k.pid ∨ (f k).pid = 0) : Forcing s (s'.updateJob r f) := by
  refine ⟨h.jobs, h.pendingJobs, h.nextRef, h.state, h.starts, h.procs, fun r' k' hk' => ?_, fun r' k hk hkb => ?_, h.kills⟩
  · by_cases e : r' = r
    · subst e
      simp only [Sys.updateJob, Function.update_self, Option.map_eq_some_iff] at hk'
      obtain ⟨k, hk, rfl⟩ := hk'
      obtain ⟨i, hi, hp⟩ := h.heap r' k hk
      refine ⟨i, hi, ?_⟩
      rcases hf k with e | e
      · rw [e]; exact hp
      · exact .inr e
    · rw [show (s'.updateJob r f).heap r' = s'.heap r' from Function.update_of_ne e ..] at hk'
      exact h.heap r' k' hk'
  · have hne : r' ≠ r := by
      rintro rfl
      rw [hj] at hk
      cases hk
      exact hb hkb
    exact (Function.update_of_ne hne ..).trans (h.pended r' k hk hkb)

theorem Forcing.kill (hinv : s.tables.Inv none) (h : Forcing s s') {r : Ref} {j j' : Job} (hj : s.heap r = some j)
    (hb : j.boot ≠ .pending) (hj' : s'.heap r = some j') (hp : j'.pid ≠ 0) (sig : Int) :
    Forcing s (s'.updateKernel fun k => { k with kills := k.kills ++ [⟨r, j'.pid, sig, s'.child r⟩] }) := by
  refine ⟨h.jobs, h.pendingJobs, h.nextRef, h.state, h.starts, h.procs, h.heap, h.pended, fun k hk => ?_⟩
  rcases List.mem_append.mp hk with hk | hk
  · exact h.kills k hk
  obtain ⟨i, hi, hpid⟩ := h.heap r j' hj'
  rw [hj] at hi
  cases hi
  rw [List.mem_singleton.mp hk]
  have hpid : j'.pid = j.pid := hpid.resolve_right hp
  refine .inr ⟨j, hj, hb, hpid, hpid ▸ hp, fun hpos => ?_⟩
  have hchild : childPid s.kernel.procs r = some j.pid := (hinv.good r j hj).pidChild (show 0 < j.pid by rw [← hpid]; exact hpos)
  rw [← childPid_fading h.procs r] at hchild
  obtain ⟨c, hc, hcp⟩ := Option.map_eq_some_iff.mp hchild
  exact ⟨c, hc, (childOf_some hc).2.1, hcp.trans hpid.symm⟩

theorem Forcing.took (h : Forcing s s') (ht : Took s' s'') : Forcing s s'' :=
  h.other ht.keeps.jobs ht.keeps.pendingJobs ht.keeps.nextRef ht.keeps.state (congrArg Tables.starts ht.tables) (congrArg Tables.procs ht.tables)
    (congrArg Tables.heap ht.tables) (congrArg Tables.kills ht.tables)

theorem Forcing.waitFor (h : Forcing s s') (pid : Int) : Forcing s (s'.updateKernel (Job.waitFor pid)) := by
  rw [Sys.updateKernel, Job.waitFor_eq]
  exact h.reaped (.waitFor pid s'.kernel)

theorem killProcessGroup_forcing {E : Sys → Prop} (h : Forcing s s') (r : Ref) :
    wp (Job.killProcessGroup r) (fun _ => Forcing s) E s' := by
  rw [Job.killProcessGroup, wp_bind]
  refine wp_this_of fun j _ => ?_
  rw [wp_ite]
  split
  · exact h
  rw [wp_ite]
  split
  · exact h
  · have hlogged : Forcing s (s'.updateKernel fun k => { k with groupKills := k.groupKills ++ [(r, j.pgid)] }) :=
      h.other rfl rfl rfl rfl rfl rfl rfl rfl
    exact hlogged.reaped (.reap s'.kernel _)

/-- Cancelling a timer throws, which ends the program here. -/
theorem cancelTimerIfSet_forcing (h : Forcing s s') {r : Ref} {j : Job} (hj : s.heap r = some j) (hb : j.boot ≠ .pending) :
    wp (Job.cancelTimerIfSet r) (fun _ => Forcing s) (fun _ => True) s' := by
  rw [Job.cancelTimerIfSet, wp_bind]
  refine wp_this_of fun k _ => ?_
  rw [wp_ite]
  split
  swap
  · exact h
  rw [Job.cancelTimer, wp_bind]
  refine wp_this_of fun k _ => ?_
  split
  · trivial
  rw [wp_bind, deleteTimer, wp_bind, ignoreTimer, wp_bind, wp_get]
  split
  · trivial
  rw [wp_bind, wp_modify, wp_bind, wp_modify, wp_ite]
  split
  · rw [wp_pure, wp_modify, wp_setJob]
    refine Forcing.job ?_ hj hb fun _ => .inl rfl
    exact h.other rfl rfl rfl rfl rfl rfl rfl rfl
  · trivial

theorem forceUnloadJob_spec {E : Sys → Prop} (hinv : s.tables.Inv none) (h : Forcing s s') {r : Ref} {j : Job}
    (hj : s.heap r = some j) (hb : j.boot ≠ .pending) : wp (Job.forceUnloadJob r) (fun _ => Forcing s) E s' := by
  apply wp_noexcept
  rw [wp_bind]
  refine wp_this_of fun j' hj' => ?_
  have hrest : ∀ s₁, Forcing s s₁ → wp (do
      Job.cancelTimerIfSet r
      setJob r fun j => { j with state := .unloaded }) (fun _ => Forcing s) (fun _ => True) s₁ := by
    intro s₁ h₁
    rw [wp_bind]
    refine wp_mono (cancelTimerIfSet_forcing h₁ hj hb) (fun _ s₂ h₂ => ?_) fun _ => id
    rw [wp_setJob]
    exact h₂.job hj hb fun _ => .inl rfl
  dsimp only
  rw [wp_ite]
  split
  · rename_i hp
    rw [wp_bind, Job.logKill, wp_modify, wp_bind]
    refine wp_mono nextKill_spec ?_ fun _ => id
    intro _ s₁ h'
    obtain ⟨-, htook⟩ := h'
    have h₁ : Forcing s s₁ := (h.kill hinv hj hb hj' hp SIGKILL).took htook
    rw [wp_bind, wp_modify, wp_bind]
    refine wp_mono (killProcessGroup_forcing (h₁.waitFor j'.pid) r) (fun _ s₂ h₂ => ?_) fun _ => id
    rw [wp_bind, deleteProcess, wp_modify, wp_bind, wp_setJob]
    refine hrest _ (Forcing.job ?_ hj hb fun _ => .inr rfl)
    exact h₂.other rfl rfl rfl rfl rfl rfl rfl rfl
  · exact hrest s' h

theorem forceEach_spec {E : Sys → Prop} (hinv : s.tables.Inv none) (h : Forcing s s') (labels : List String) :
    wp (forEach Manager.forceUnloadOne labels) (fun _ => Forcing s) E s' := by
  refine wp_forEach h fun label _ s₁ h₁ => ?_
  rw [Manager.forceUnloadOne, wp_bind, wp_get, h₁.jobs]
  cases hr : s.jobs.lookup label with
  | none => exact h₁
  | some r =>
    obtain ⟨j, hj, -, hb⟩ := hinv.owned.stored label r hr
    exact forceUnloadJob_spec hinv h₁ hj hb

end Forcing

/-- The jobs are gone, and the manager is finished. -/
structure Forced (s s' : Sys) : Prop where
  state : s'.state = .finished
  jobs : s'.jobs = ∅
  pendingJobs : s'.pendingJobs = s.pendingJobs
  starts : s'.starts = s.starts
  procs : Fading s.kernel.procs s'.kernel.procs
  /-- The jobs that were not bootstrapped remain. -/
  heap : ∀ r j, s'.heap r = some j ↔ s.heap r = some j ∧ j.boot = .pending
  kills : ∀ k ∈ s'.kernel.kills, k ∈ s.kernel.kills ∨
    ∃ j, s.heap k.job = some j ∧ j.boot ≠ .pending ∧ k.pid = j.pid ∧ j.pid ≠ 0 ∧
      (0 < k.pid → ∃ c, k.child = some c ∧ c.job = k.job ∧ c.pid = k.pid)

theorem foldl_destroy (es : List (Sigma fun _ : String => Ref)) (s : Sys) :
    es.foldl (fun s e => Manager.destroy e.2 s) s =
      { s with heap := fun r => if r ∈ es.map (·.2) then none else s.heap r } := by
  induction es generalizing s with
  | nil => rfl
  | cons e es ih =>
    rw [List.foldl_cons, ih]
    unfold Manager.destroy
    congr 1
    funext r
    by_cases h : r = e.2
    · simp [h]
    · simp only [List.map_cons, List.mem_cons, h, false_or, ne_eq, not_false_eq_true, Function.update_of_ne]

/-- The last transition of the manager. -/
theorem execute_allJobsExited {Q : Unit → Sys → Prop} {E : Sys → Prop} (hs : s.state = .gracefulShutdown) :
    wp (Manager.execute [] .allJobsExited) Q E s = Q () { s with state := .finished } := by
  have hfilter : (Manager.transitions []).filter (·.fromState = s.state) =
      [ { fromState := .gracefulShutdown, toState := .finished, trigger := .stopRequested
          guard := return true
          action := return () },
        { fromState := .gracefulShutdown, toState := .finished, trigger := .allJobsExited
          guard := return true
          action := return () } ] := by
    rw [hs]
    rfl
  rw [Manager.execute, wp_bind, Fsm.execute, wp_bind, wp_gets, hfilter, Fsm.wp_tryTransitions_skip,
    Fsm.wp_tryTransitions_cons, wp_pure, if_pos rfl, wp_pure, wp_modify]
  · rfl
  · rfl
  · simp

theorem forced_spec {E : Sys → Prop} (h : s.tables.Inv none) (hs : s.state = .gracefulShutdown) :
    wp (do
      Manager.forceUnloadAllJobs
      Manager.execute [] .allJobsExited) (fun _ => Forced s) E s := by
  rw [wp_bind]
  apply wp_noexcept
  rw [wp_bind, wp_get, wp_bind]
  refine wp_mono visiting_spec ?_ fun _ => id
  intro order s₁ h'
  obtain ⟨-, htook⟩ := h'
  rw [wp_bind]
  refine wp_mono (forceEach_spec h ((Forcing.refl s).took htook) order) (fun _ s₂ h₂ => ?_) fun _ => id
  rw [wp_modify, foldl_destroy]
  obtain ⟨s₃, hs₃⟩ : ∃ s₃ : Sys, s₃ = { s₂ with
    heap := fun r => if r ∈ s₂.jobs.entries.map (·.2) then none else s₂.heap r
    jobs := ∅ } := ⟨_, rfl⟩
  have hstate : s₃.state = .gracefulShutdown := by rw [hs₃]; exact h₂.state.trans hs
  rw [show ({ s₂ with
    heap := fun r => if r ∈ s₂.jobs.entries.map (·.2) then none else s₂.heap r
    jobs := ∅ } : Sys) = s₃ from hs₃.symm, execute_allJobsExited hstate, hs₃]
  refine ⟨rfl, rfl, h₂.pendingJobs, h₂.starts, h₂.procs, fun r j => ?_, h₂.kills⟩
  have hstored : r ∈ s₂.jobs.entries.map (·.2) ↔ ∃ label, s.jobs.lookup label = some r := by
    rw [h₂.jobs, List.mem_map]
    constructor
    · intro h'
      obtain ⟨⟨label, r'⟩, hm, rfl⟩ := h'
      exact ⟨label, AList.mem_lookup_iff.mpr hm⟩
    · intro h'
      obtain ⟨label, hr⟩ := h'
      exact ⟨⟨label, r⟩, AList.mem_lookup_iff.mp hr, rfl⟩
  dsimp only
  constructor
  · intro hj
    split at hj
    · cases hj
    rename_i hn
    rw [hstored] at hn
    obtain ⟨k, hk, -⟩ := h₂.heap r j hj
    rcases h.owned.owned r k hk with hl | hl
    · exact absurd ⟨_, hl⟩ hn
    obtain ⟨k', hk', -, hb⟩ := h.owned.pended _ _ hl
    rw [h₂.pended r k' hk' hb] at hj
    cases hj
    exact ⟨hk', hb⟩
  · intro h'
    obtain ⟨hj, hb⟩ := h'
    rw [if_neg]
    · exact h₂.pended r j hj hb
    · rw [hstored]
      intro h'
      obtain ⟨label, hl⟩ := h'
      obtain ⟨k, hk, -, hkb⟩ := h.owned.stored label r hl
      rw [show s.tables.heap r = some j from hj] at hk
      cases hk
      exact hkb hb

end Relaunchd
