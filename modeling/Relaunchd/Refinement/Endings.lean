/-
  Relaunchd.Refinement.Endings — how the operations of a job end. A start dies of an entry
  that is missing from the databases; else an operation fails only where a system call does,
  where a timer gets a negative time, or where a state cannot be looked up.
-/

import Relaunchd.Child
import Relaunchd.Refinement.Step
import Relaunchd.StateDoc

namespace Relaunchd

open Prog EventManager Tables

/-- No start, and no timer, fails in an exception. -/
structure Answers.Calm (a : Answers) : Prop where
  forks : .noPipe ∉ a.forks
  probes : false ∉ a.probes
  timers : ∀ t ∈ a.timers, t.fails = false

/-- The look-ups of a start find their entries. -/
def Known (users : Users) (m : Manifest) : Prop := (Job.executionContext users m []).isSome

variable {C : String → Prop} {E : Prop} {s : Sys} {r : Ref} {j : Job} {a b : Answers}

theorem Answers.Calm.left (h : a.Calm) (hl : a.Left b) : b.Calm where
  forks hm := h.forks (hl.forks hm)
  probes hm := h.probes (hl.probes hm)
  timers t ht := h.timers t (hl.timers ht)

theorem Answers.Calm.fork (h : a.Calm) : a.nextFork ≠ .noPipe := fun e => by
  rcases mem_or_headD a.forks (.started 0 true) with hm | hd
  · exact h.forks (e ▸ hm)
  · exact nomatch e.symm.trans hd

theorem Answers.Calm.probe (h : a.Calm) : a.nextProbe = true := by
  rcases mem_or_headD a.probes true with hm | hd
  · cases hp : a.nextProbe with
    | true => rfl
    | false => exact absurd (hp ▸ hm) h.probes
  · exact hd

theorem Answers.Calm.timer (h : a.Calm) : ∃ fd, a.timers.headD (.watched 0) = .watched fd := by
  rcases mem_or_headD a.timers (.watched 0) with hm | hd
  · have hfails := h.timers _ hm
    cases ht : a.timers.headD (.watched 0) with
    | watched fd => exact ⟨fd, rfl⟩
    | noFd => rw [ht] at hfails; cases hfails
    | noWatch fd => rw [ht] at hfails; cases hfails
  · exact ⟨0, hd⟩

/-! ## Starts -/

@[simp] theorem ends_answer {α : Type} {field : Answers → List α} {rest : Answers → List α → Answers} {success : α}
    {Q : α → Sys → Prop} {E : Sys → Prop} :
    ends C (answer field rest success) Q E s = Q ((field s.kernel.answers).headD success)
      (s.updateKernel fun k => { k with answers := rest k.answers (field k.answers).tail }) := rfl

@[simp] theorem ends_passTime {Q : Unit → Sys → Prop} {E : Sys → Prop} : ends C passTime Q E s = Q () s.ticked := by
  simp only [passTime, nextTick, ends_bind, ends_answer, ends_modify, Sys.ticked, Sys.updateKernel]

@[simp] theorem ends_currentTime {Q : Nat → Sys → Prop} {E : Sys → Prop} :
    ends C currentTime Q E s = Q (s.clock 1 / 1000) s.ticked := by
  rw [currentTime, ends_bind, ends_passTime, ends_gets, Sys.clock_one]

@[simp] theorem ends_setJob {Q : Unit → Sys → Prop} {E : Sys → Prop} (f : Job → Job) :
    ends C (setJob r f) Q E s = Q () (s.updateJob r f) := rfl

theorem ends_this {Q : Job → Sys → Prop} {E : Sys → Prop} (h : s.heap r = some j) : ends C (this r) Q E s = Q j s := by
  simp only [ends, this, h]

/-- The program dies of a missing entry only. -/
def NullEntry (C : String → Prop) (users : Users) (m : Manifest) : Prop :=
  Known users m ∨ C "null passwd entry" ∧ C "null group entry"

theorem lookUpUser_ends (hj : s.heap r = some j) (hu : NullEntry C s.kernel.users j.manifest) {E : Sys → Prop} :
    ends C (Job.lookUpUser r) (fun _ s' => s' = s) E s := by
  simp only [Job.lookUpUser, ends_bind, ends_this hj, ends_get]
  unfold NullEntry Known Job.executionContext at hu
  cases hn : j.manifest.userName with
  | none => rfl
  | some user =>
    simp only [hn] at hu ⊢
    cases hp : s.kernel.users.getpwnam user with
    | none =>
      simp only [hp, Option.isNone_none, if_true, ends_crash] at hu ⊢
      exact (hu.resolve_left (by simp)).1
    | some pwent =>
      cases hg : j.manifest.groupName with
      | none => rfl
      | some group =>
        cases hgr : s.kernel.users.getgrnam group with
        | some gid => simp [hgr]
        | none =>
          simp only [hp, hg, hgr, Option.bind_eq_bind, Option.bind_some, Option.bind_none] at hu
          simpa [hgr] using (hu.resolve_left (by simp)).2

theorem run_ends (hj : s.heap r = some j) (hu : NullEntry C s.kernel.users j.manifest) :
    ends C (Job.run r) (fun _ s' => (∃ j', s'.heap r = some j') ∧ s'.kernel.answers.nextProbe = s.kernel.answers.nextProbe)
      (fun _ => s.kernel.answers.nextFork = .noPipe) s := by
  rw [Job.run, ends_bind]
  refine ends_mono (lookUpUser_ends hj hu) (fun _ => id) ?_ fun _ => id
  rintro _ s₁ rfl
  rw [ends_bind, nextFork, ends_answer]
  have hfork : s₁.kernel.answers.forks.headD (.started 0 true) = s₁.kernel.answers.nextFork := rfl
  rw [hfork]
  cases s₁.kernel.answers.nextFork with
  | noPipe => rfl
  | noFork =>
    simp only [ends_bind, ends_setJob, ends_pure]
    exact ⟨⟨_, Sys.updateJob_self hj⟩, rfl⟩
  | noExec want =>
    simp only [ends_bind, ends_passTime, ends_gets, ends_modify, ends_setJob, ends_currentTime, ends_pure]
    exact ⟨⟨_, Sys.updateJob_self (Sys.updateJob_self hj)⟩, rfl⟩
  | started want getpgid =>
    simp only [ends_bind, ends_passTime, ends_gets, ends_modify, ends_setJob, ends_currentTime, ends_pure]
    exact ⟨⟨_, Sys.updateJob_self (Sys.updateJob_self hj)⟩, rfl⟩

/-- A start. -/
theorem startJob_ends (hj : s.heap r = some j) (hu : NullEntry C s.kernel.users j.manifest) (hE : E ∨ s.kernel.answers.Calm) :
    ends C (Job.startJob r) (fun _ _ => True) (fun _ => E) s := by
  simp only [Job.startJob, ends_bind, ends_modify, ends_currentTime, ends_setJob]
  refine ends_mono (run_ends (Sys.updateJob_self hj) hu) (fun _ => id) ?_ fun _ hf => hE.resolve_right fun hc => ?_
  · intro running s' h
    obtain ⟨⟨j', hj'⟩, hprobe⟩ := h
    rw [ends_ite]
    split
    · rw [ends_bind, ends_this hj', addProcess, ends_bind, nextProbe, ends_answer, ends_ite]
      split
      · trivial
      · rename_i hp
        exact hE.resolve_right fun hc => hp (hprobe.trans hc.probe)
    · trivial
  · exact hc.fork hf

/-! ## Timers -/

theorem timerfdCreate_ends : ends C timerfdCreate (fun made _ => s.kernel.answers.Calm → made.2 = true)
    (fun _ => ¬ s.kernel.answers.Calm) s := by
  rw [timerfdCreate, ends_bind, nextTimer, ends_answer]
  cases ht : s.kernel.answers.timers.headD (.watched 0) with
  | noFd =>
    rintro hc
    obtain ⟨fd, hfd⟩ := hc.timer
    cases ht.symm.trans hfd
  | noWatch fd =>
    rintro hc
    obtain ⟨fd, hfd⟩ := hc.timer
    cases ht.symm.trans hfd
  | watched fd => exact fun _ => rfl

theorem monitorTimer_ends {timerId : Nat} {milliseconds : Int} (hE : E ∨ s.kernel.answers.Calm ∧ 0 ≤ (timespecOf milliseconds).1) :
    ends C (monitorTimer timerId milliseconds) (fun _ _ => True) (fun _ => E) s := by
  rw [monitorTimer, ends_bind]
  refine ends_mono timerfdCreate_ends (fun _ => id) ?_ fun _ hc => hE.resolve_right fun h => hc h.1
  rintro ⟨tfd, watched⟩ s₁ hwatched
  simp only [setTimerfd, ends_bind, ends_modify, ends_ite, ends_throw]
  split
  · rename_i hneg
    exact hE.resolve_right fun h => absurd h.2 (by omega)
  split
  · trivial
  · rename_i hn
    exact hE.resolve_right fun h => hn (hwatched h.1)

theorem addTimer_ends {kind : TimerKind} {milliseconds : Int} (hE : E ∨ s.kernel.answers.Calm ∧ 0 ≤ (timespecOf milliseconds).1) :
    ends C (addTimer milliseconds r kind) (fun _ _ => True) (fun _ => E) s := by
  have hid : ends C getNextTimerId (fun _ s' => s'.kernel = s.kernel) (fun _ => E) s := rfl
  rw [addTimer, ends_bind]
  refine ends_mono hid (fun _ => id) (fun timerId s₁ hk => ?_) fun _ => id
  rw [ends_bind]
  refine ends_mono (monitorTimer_ends (by rwa [hk])) (fun _ => id) (fun _ s₂ _ => ?_) fun _ => id
  trivial

/-- A periodic timer: the interval is in milliseconds, and a legal one is never negative. -/
theorem schedulePeriodicJob_ends {interval : Nat} (hj : s.heap r = some j) (hn : j.timerId = none)
    (hi : j.manifest.startInterval = some interval) (hE : E ∨ s.kernel.answers.Calm ∧ 0 ≤ (timespecOf interval).1) :
    ends C (Job.schedulePeriodicJob r) (fun _ _ => True) (fun _ => E) s := by
  rw [Job.schedulePeriodicJob, ends_bind, ends_this hj, hn, if_neg (by simp), hi]
  dsimp only
  rw [ends_bind]
  exact ends_mono (addTimer_ends hE) (fun _ => id) (fun _ _ _ => trivial) fun _ => id

theorem ends_elapsed {startedAt : Nat} {Q : Int → Sys → Prop} {E : Sys → Prop} (hj : s.heap r = some j)
    (hst : j.startedAt = some startedAt) :
    ends C (Job.elapsed r) Q E s = Q (((s.clock 1 / 1000 : Nat) : Int) - startedAt) s.ticked := by
  rw [Job.elapsed, ends_bind, ends_currentTime, ends_bind, ends_this (s := s.ticked) hj, hst]
  rfl

theorem ends_shouldThrottle {startedAt : Nat} {Q : Bool → Sys → Prop} {E : Sys → Prop} (hj : s.heap r = some j)
    (hst : j.startedAt = some startedAt) : ends C (Job.shouldThrottle r) Q E s =
      Q (decide (((s.clock 1 / 1000 : Nat) : Int) - startedAt < j.manifest.throttleInterval)) s.ticked := by
  rw [Job.shouldThrottle, ends_bind, ends_elapsed hj hst, ends_bind, ends_this (s := s.ticked) hj]
  rfl

/-- A throttled restart. -/
theorem startAfterThrottleInterval_ends {startedAt : Nat} (hj : s.heap r = some j) (hst : j.startedAt = some startedAt)
    (hE : E ∨ s.kernel.answers.Calm ∧
      0 ≤ (timespecOf ((j.manifest.throttleInterval - (((s.clock 1 / 1000 : Nat) : Int) - startedAt)) * 1000)).1) :
    ends C (Job.startAfterThrottleInterval r) (fun _ _ => True) (fun _ => E) s := by
  rw [Job.startAfterThrottleInterval, ends_bind, ends_elapsed hj hst, ends_bind, ends_this (s := s.ticked) hj]
  dsimp only
  rw [ends_bind]
  refine ends_mono (addTimer_ends (hE.imp_right fun h => ⟨h.1.left left_tail.1, h.2⟩)) (fun _ => id) (fun _ _ _ => trivial)
    fun _ => id

/-! ## Triggers -/

variable {depth : Nat}

theorem ends_executeNested {Q : Unit → Sys → Prop} {E : Sys → Prop} (hj : s.heap r = some j) (trigger : Job.Triggers) :
    ends C (Job.executeNested (depth + 1) r trigger) Q E s =
      ends C (Fsm.tryTransitions (fun state => setJob r fun j => { j with state }) trigger .noMatchingTrigger
        ((Job.transitions (Job.executeNested depth r) r).filter (·.fromState = j.state))) (fun _ => Q ()) E s := by
  simp only [Job.executeNested, Fsm.execute, ends_bind, ends_this hj, ends_pure]

/-- StartRequested, which cancels no timer. -/
theorem startRequested_ends (hj : s.heap r = some j) (hs : j.state = .loaded ∨ j.state = .waiting) (hn : j.timerId = none)
    (hu : NullEntry C s.kernel.users j.manifest) (hE : E ∨ s.kernel.answers.Calm) :
    ends C (Job.executeNested (depth + 1) r .startRequested) (fun _ _ => True) (fun _ => E) s := by
  have hstart : ends C (Job.startJob r) (fun _ _ => True) (fun _ => E) s := startJob_ends hj hu hE
  have hcancel : ends C (Job.cancelTimerIfSet r) (fun _ s' => s' = s) (fun _ => E) s := by
    rw [Job.cancelTimerIfSet, ends_bind, ends_this hj, hn, if_neg (by simp)]
    rfl
  rw [ends_executeNested hj]
  rcases hs with hs | hs
  · simp [hs, Job.transitions, Fsm.ends_tryTransitions_cons, Fsm.ends_tryTransitions_skip, hstart]
  · simp only [hs, Job.transitions, List.filter, decide_true, decide_false, reduceCtorEq, Fsm.ends_tryTransitions_cons,
      ends_pure, if_true, ends_bind]
    refine ends_mono hcancel (fun _ => id) (fun _ s' e => ?_) fun _ => id
    subst e
    exact ends_mono hstart (fun _ => id) (fun _ _ _ => trivial) fun _ => id

theorem ends_isDisabled {Q : Bool → Sys → Prop} {E : Sys → Prop} (hj : s.heap r = some j) :
    ends C (Job.isDisabled r) Q E s = ends C (ofDecode (Job.disabledIn j.manifest s.stateFile)) Q E s := by
  rw [Job.isDisabled, ends_bind, ends_this hj, ends_bind, ends_get]

/-- Looking a state up cannot kill the program. -/
theorem isDisabled_ends (hj : s.heap r = some j) :
    ends C (Job.isDisabled r) (fun disabled s' => s' = s ∧ Job.disabledIn j.manifest s.stateFile = .ok disabled)
      (fun s' => s' = s ∧ ¬ ∃ disabled, Job.disabledIn j.manifest s.stateFile = .ok disabled) s := by
  rw [ends_isDisabled hj]
  cases hd : Job.disabledIn j.manifest s.stateFile with
  | ok disabled => exact ⟨rfl, rfl⟩
  | error e =>
    have hfault := disabledIn_faults j.manifest e hd
    simp only [Json.exceptions, List.mem_cons, List.not_mem_nil, or_false] at hfault
    rcases hfault with rfl | rfl
    · exact ⟨rfl, by simp⟩
    · exact ⟨rfl, by simp⟩

/-- Bootstrap. -/
theorem bootstrap_ends (hj : s.heap r = some j) (hs : j.state = .loaded) (hn : j.timerId = none)
    (hu : Job.disabledIn j.manifest s.stateFile = .ok false → j.manifest.runAtLoad || j.manifest.keepAlive →
      NullEntry C s.kernel.users j.manifest) (hE : E ∨ s.kernel.answers.Calm ∧
      (∃ disabled, Job.disabledIn j.manifest s.stateFile = .ok disabled) ∧
      ∀ interval, j.manifest.startInterval = some interval → 0 ≤ (timespecOf interval).1) :
    ends C (Job.execute r .bootstrap) (fun _ _ => True) (fun _ => E) s := by
  have hstart : Job.disabledIn j.manifest s.stateFile = .ok false → (j.manifest.runAtLoad || j.manifest.keepAlive) →
      ends C (Job.executeNested 1 r .startRequested) (fun _ _ => True) (fun _ => E) s := fun hd hruns =>
    startRequested_ends hj (.inl hs) hn (hu hd hruns) (hE.imp_right And.left)
  have hguard : ∀ flag : Job → Job → Bool, ends C (do
      if ← Job.isDisabled r then return false
      else return flag (← this r) (← this r))
      (fun b s' => s' = s ∧ (b → Job.disabledIn j.manifest s.stateFile = .ok false ∧ flag j j)) (fun _ => E) s := by
    intro flag
    rw [ends_bind]
    refine ends_mono (isDisabled_ends hj) (fun _ => id) ?_ fun _ h => hE.resolve_right fun hok => h.2 hok.2.1
    intro disabled s' h'
    obtain ⟨rfl, hd⟩ := h'
    cases disabled with
    | true => exact ⟨rfl, by simp⟩
    | false => simp [ends_this hj, hd]
  rw [Job.execute, ends_executeNested hj, hs]
  simp only [Job.transitions, List.filter, decide_true, decide_false, reduceCtorEq]
  rw [Fsm.ends_tryTransitions_cons]
  swap
  · rfl
  refine ends_mono (hguard fun a b => a.manifest.runAtLoad || b.manifest.keepAlive) (fun _ => id) ?_ fun _ => id
  intro runs s₁ h'
  obtain ⟨rfl, hruns⟩ := h'
  cases runs with
  | true => exact ends_mono (hstart (hruns rfl).1 (hruns rfl).2) (fun _ => id) (fun _ _ _ => trivial) fun _ => id
  | false =>
    rw [if_neg Bool.false_ne_true, Fsm.ends_tryTransitions_cons]
    swap
    · rfl
    refine ends_mono (hguard fun a b => a.manifest.startInterval.isSome && !b.manifest.runAtLoad) (fun _ => id) ?_ fun _ => id
    intro waits s₂ h'
    obtain ⟨rfl, hw⟩ := h'
    cases waits with
    | true =>
      obtain ⟨interval, hi⟩ := Option.isSome_iff_exists.mp (Bool.and_eq_true_iff.mp (hw rfl).2).1
      refine ends_mono (schedulePeriodicJob_ends hj hn hi (hE.imp_right fun h => ⟨h.1, h.2.2 interval hi⟩)) (fun _ => id)
        (fun _ _ _ => trivial) fun _ => id
    | false =>
      rw [if_neg Bool.false_ne_true, Fsm.ends_tryTransitions_skip, Fsm.ends_tryTransitions_skip]
      · trivial
      · simp
      · simp

theorem submitDelete_ends (hj : s.heap r = some j) {E : Sys → Prop} : ends C (Job.submitDelete r) (fun _ _ => True) E s := by
  rw [Job.submitDelete, ends_bind, ends_this hj]
  trivial

/-- A timer of a whole number of seconds can be set, unless the kernel finds their number negative. -/
theorem Life.throttleArming_valid {l : Life} {now : Nat} (h : l.throttleArming now ≠ .failed) :
    0 ≤ (timespecOf ((l.manifest.throttleInterval - l.elapsed (now / 1000)) * 1000)).1 := by
  refine Int.not_lt.mp fun hneg => h ?_
  rw [Life.throttleArming, Arming.ofMilliseconds, if_pos hneg]

/-- The exit of a child: a KeepAlive job is started again, now or later. -/
theorem processExited_ends {l : Life} (hj : s.heap r = some j) (hl : s.tables.lifeOf r j = l)
    (hu : l.restarts (s.clock 1 / 1000) → NullEntry C s.kernel.users j.manifest)
    (hst : j.state = .running → ∃ startedAt, j.startedAt = some startedAt)
    (hE : E ∨ s.kernel.answers.Calm ∧ (l.awaits (s.clock 1 / 1000) (s.clock 2 / 1000) → l.throttleArming (s.clock 3) ≠ .failed)) :
    ends C (Job.execute r .processExited) (fun _ _ => True) (fun _ => E) s := by
  subst hl
  have hj₁ : s.ticked.heap r = some j := hj
  have hj₂ : s.ticked.ticked.heap r = some j := hj
  rw [Job.execute, ends_executeNested hj]
  cases hs : j.state with
  | loaded | waiting | exited | unloaded => simp [Job.transitions, Fsm.ends_tryTransitions_skip]
  | running =>
    cases hka : j.manifest.keepAlive with
    | false =>
      simp [Job.transitions, Fsm.ends_tryTransitions_cons, Fsm.ends_tryTransitions_skip, ends_this hj, hka, submitDelete_ends hj]
    | true =>
      obtain ⟨startedAt, hst⟩ := hst hs
      have hthrottled : ∀ t : Nat, (s.tables.lifeOf r j).throttled t = decide ((t : Int) - startedAt < j.manifest.throttleInterval) :=
        fun t => by
          rw [Life.throttled, Life.elapsed, show (s.tables.lifeOf r j).startedAt = some startedAt from hst]
          rfl
      have hstart : (s.tables.lifeOf r j).restarts (s.clock 1 / 1000) →
          ends C (Job.startJob r) (fun _ _ => True) (fun _ => E) s.ticked := fun hr =>
        startJob_ends hj₁ (hu hr) (hE.imp_right fun h => h.1.left left_tail.1)
      have hwait : (s.tables.lifeOf r j).awaits (s.clock 1 / 1000) (s.clock 2 / 1000) →
          ends C (Job.startAfterThrottleInterval r) (fun _ _ => True) (fun _ => E) s.ticked.ticked := fun ha => by
        refine startAfterThrottleInterval_ends hj₂ hst (hE.imp_right fun h => ⟨(h.1.left left_tail.1).left left_tail.1, ?_⟩)
        have hvalid := Life.throttleArming_valid (h.2 ha)
        rw [Life.elapsed, show (s.tables.lifeOf r j).startedAt = some startedAt from hst] at hvalid
        rw [Sys.ticked_clock, Sys.ticked_clock]
        exact hvalid
      have hrest : (j.unloadRequested = false → (s.tables.lifeOf r j).throttled (s.clock 1 / 1000)) →
          ends C (Fsm.tryTransitions (fun state => setJob r fun j => { j with state }) .processExited .blockedByGuard
            (((Job.transitions (Job.executeNested 1 r) r).filter (·.fromState = Job.States.running)).drop 2))
            (fun _ _ => True) (fun _ => E) s.ticked := fun ht₁ => by
        simp [Job.transitions, Fsm.ends_tryTransitions_cons, Fsm.ends_tryTransitions_skip, ends_this hj₁, hka,
          ends_shouldThrottle hj₁ hst]
        have hgone : j.unloadRequested = true → ends C (Job.submitDelete r) (fun _ _ => True) (fun _ => E) s.ticked.ticked :=
          fun _ => submitDelete_ends hj₂
        split
        · simpa [ends_this hj₂] using hgone
        · rename_i hlt
          rw [ends_bind, ends_this hj₂, ends_pure]
          cases hflag : j.unloadRequested with
          | false =>
            refine hwait (Life.awaits_iff.mpr ⟨hs, hka, ht₁ hflag, ?_, hflag⟩)
            rw [hthrottled]
            exact decide_eq_true (by omega)
          | true =>
            rw [Bool.not_true, if_neg Bool.false_ne_true, ends_this hj₂]
            exact hgone
      simp only [Job.transitions, List.filter, decide_true, decide_false, reduceCtorEq]
      simp only [Fsm.ends_tryTransitions_cons, ends_bind, ends_this hj, hka, ends_pure, ends_ite,
        Bool.not_true, Bool.false_and, Bool.false_eq_true, if_false, ends_shouldThrottle hj hst]
      split
      · rename_i hlt
        refine hrest fun _ => ?_
        rw [hthrottled]
        exact hlt
      · rename_i hlt
        rw [ends_this hj₁]
        split
        · rename_i hflag
          refine ends_mono (hstart (Life.restarts_iff.mpr ⟨hs, hka, ?_, Bool.not_eq_true' .. |>.mp hflag⟩)) (fun _ => id)
            (fun _ _ _ => trivial) fun _ => id
          rw [hthrottled]
          exact Bool.eq_false_iff.mpr hlt
        · rename_i hflag
          exact hrest fun hf => absurd (by rw [hf]; rfl) hflag

/-! ## Callbacks -/

theorem killProcessGroup_ends (hj : s.heap r = some j) {E : Sys → Prop} : ends C (Job.killProcessGroup r) (fun _ s' =>
    s'.heap = s.heap ∧ s'.clock = s.clock ∧ s'.kernel.answers = s.kernel.answers ∧ s'.kernel.users = s.kernel.users) E s := by
  rw [Job.killProcessGroup, ends_bind, ends_this hj, ends_ite]
  split
  · exact ⟨rfl, rfl, rfl, rfl⟩
  · rw [ends_ite]
    split
    · exact ⟨rfl, rfl, rfl, rfl⟩
    · exact ⟨rfl, rfl, rfl, rfl⟩

/-- The callback of an exit is dispatched to a job that is there. -/
theorem exit_ends {p : Int} {st : WaitStatus} {i : Nat} {rest : List Event} {c : Proc} {l : Life} (h : s.tables.Inv none)
    (hq : s.eventmgr.pendingEvents = .proc p st i :: rest) (hc : s.kernel.procs[i]? = some c)
    (hl : s.tables.fate c.job = .alive l) (hst : l.state = .running → l.startedAt.isSome)
    (hu : l.reap.restarts (s.clock 1 / 1000) → NullEntry C s.kernel.users l.manifest)
    (hE : E ∨ s.kernel.answers.Calm ∧
      (l.reap.awaits (s.clock 1 / 1000) (s.clock 2 / 1000) → l.reap.throttleArming (s.clock 3) ≠ .failed)) :
    ends C (EventManager.dispatch (.proc p st i)) (fun _ _ => True) (fun _ => E) (s.popped rest) := by
  obtain ⟨-, c', hc', -, -, -, hcb⟩ := h.registry.queued p st i (by
    rw [show s.tables.eventmgr.pendingEvents = _ from hq]
    exact List.mem_cons_self)
  obtain rfl : c' = c := Option.some.inj (hc'.symm.trans hc)
  obtain ⟨j, hj, rfl⟩ := fate_eq_alive hl
  rw [EventManager.dispatch, ends_bind, ends_get, show (s.popped rest).eventmgr.processCallbacks.lookup p = some c'.job from hcb]
  dsimp only
  have hj₁ : (s.popped rest).heap c'.job = some j := hj
  rw [ends_bind, Job.processCallback, ends_bind, ends_this hj₁, ends_bind, ends_modify, ends_bind, Job.reapChildProcess,
    ends_bind, ends_setJob, ends_bind, ends_setJob, ends_bind]
  obtain ⟨a, b, hrec⟩ := recordExit_eq st j
  obtain ⟨s₂, hs₂⟩ : ∃ s₂, s₂ = ((((s.popped rest).updateKernel (·.dispatch i c'.job)).updateJob c'.job (Job.recordExit st)).updateJob
    c'.job fun j => { j with pid := 0 }) := ⟨_, rfl⟩
  have hj₂ : s₂.heap c'.job = some { j with lastExitStatus := a, termSignal := b, pid := 0 } := by
    have hdispatched : ((s.popped rest).updateKernel (·.dispatch i c'.job)).heap c'.job = some j := hj
    rw [hs₂, Sys.updateJob_self (Sys.updateJob_self hdispatched), hrec]
  have hclock₂ : s₂.clock = s.clock := by rw [hs₂]; rfl
  have hans₂ : s₂.kernel.answers = s.kernel.answers := by rw [hs₂]; rfl
  have husers₂ : s₂.kernel.users = s.kernel.users := by rw [hs₂]; rfl
  rw [← hs₂]
  refine ends_mono (killProcessGroup_ends hj₂) (fun _ => id) ?_ fun _ => id
  intro _ s₃ h'
  obtain ⟨hheap, hclock, hans, husers⟩ := h'
  rw [ends_pure]
  have hj₃ : s₃.heap c'.job = some { j with lastExitStatus := a, termSignal := b, pid := 0 } := by rw [hheap, hj₂]
  refine ends_mono (processExited_ends hj₃ rfl (fun hr => ?_) (fun hs => ?_) (hE.imp_right fun hcalm => ⟨?_, fun ha => ?_⟩))
    (fun _ => id) (fun _ _ _ => trivial) fun _ => id
  · rw [husers, husers₂]
    rw [hclock, hclock₂] at hr
    exact hu hr
  · exact Option.isSome_iff_exists.mp (hst hs)
  · rw [hans, hans₂]
    exact hcalm.1
  · rw [hclock, hclock₂] at ha ⊢
    exact hcalm.2 ha

/-- The callback of a timer is dispatched. -/
theorem timer_ends {fd : Fd} {timerId deadline : Nat} (h : s.tables.Inv none)
    (hfd : s.kernel.timerfds.lookup fd = some { state := .armed deadline, watched := true })
    (hid : s.eventmgr.timerfdMap.lookup timerId = some fd)
    (hu : ∀ r kind j, s.eventmgr.timerCallbacks.lookup timerId = some (r, kind) → s.heap r = some j →
      NullEntry C s.kernel.users j.manifest)
    (hE : E ∨ s.kernel.answers.Calm) :
    ends C (EventManager.dispatch (.timer timerId)) (fun _ _ => True) (fun _ => E)
      (s.updateKernel fun k => { k with timerfds := k.timerfds.insert fd { state := .disarmed, watched := true } }) := by
  obtain ⟨⟨r, kind⟩, hcb⟩ := Option.ne_none_iff_exists'.mp (h.timed.fds timerId fd hid).1
  have hdeadline : s.tables.eventmgr.timerOf s.tables.timerfds r timerId = some (kind, deadline) := timerOf_of hcb hid hfd
  obtain ⟨j, hj, hji⟩ := h.timed.armed r timerId (by rw [EventManager.armedFor, hdeadline]; rfl)
  have htimer : (s.tables.lifeOf r j).timer.isSome := by
    rw [show (s.tables.lifeOf r j).timer = j.timerId.bind (s.tables.eventmgr.timerOf s.tables.timerfds r) from rfl, hji,
      Option.bind_some, hdeadline]
    rfl
  have hwaits : j.state = .waiting := ((h.good r j hj).waiting htimer).1
  have hnull := hu r kind j hcb hj
  obtain ⟨s₁, hs₁⟩ : ∃ s₁, s₁ = s.updateKernel fun k =>
    { k with timerfds := k.timerfds.insert fd { state := .disarmed, watched := true } } := ⟨_, rfl⟩
  have hj₁ : s₁.heap r = some j := by rw [hs₁]; exact hj
  rw [← hs₁, EventManager.dispatch, ends_bind, ends_get,
    show s₁.eventmgr.timerCallbacks.lookup timerId = some (r, kind) by rw [hs₁]; exact hcb]
  dsimp only
  have hnull₁ : NullEntry C (s₁.updateJob r fun j => { j with timerId := none }).kernel.users j.manifest := by rw [hs₁]; exact hnull
  have hcalm : E ∨ (s₁.updateJob r fun j => { j with timerId := none }).kernel.answers.Calm := by rw [hs₁]; exact hE
  cases kind with
  | throttle =>
    rw [Job.timerCallback, ends_bind, ends_this hj₁, ends_bind, ends_setJob]
    exact startRequested_ends (Sys.updateJob_self hj₁) (.inr hwaits) rfl hnull₁ hcalm
  | periodic =>
    rw [Job.timerCallback, ends_bind, ends_this hj₁, ends_bind, ends_setJob]
    exact startJob_ends (Sys.updateJob_self hj₁) hnull₁ hcalm

end Relaunchd
