/-
  Relaunchd.Refinement.Machine — the triggers of a job's state machine.
-/

import Relaunchd.Refinement.Start
import Relaunchd.Refinement.Timers

namespace Relaunchd

open Prog EventManager Tables

variable {busy : Option Int} {r : Ref} {l : Life} {s s' : Sys} {j : Job} {depth : Nat}

/-! ## StartRequested -/

/-- A start that ends in the state Running, unless it throws. -/
def Entered (busy : Option Int) (r : Ref) (l : Life) (s : Sys) (throws : Bool) (s' : Sys) : Prop :=
  ∃ how : Start, how.throws = throws ∧ how.Sound ∧ how.Of s.kernel.answers.nextFork s.kernel.answers.nextProbe ∧
    Moves busy r ((l.start s.clock how).enter .running how) s s'

theorem start_running_spec (h : s.tables.Inv busy) (hl : s.tables.fate r = .alive l) (hi : l.Idle) (hb : l.boot ≠ .pending)
    (hs : l.state ≠ .unloaded) :
    wp (Job.startJob r) (fun _ s' => Entered busy r l s false (s'.updateJob r fun j => { j with state := .running }))
      (Entered busy r l s true) s := by
  refine wp_mono (startJob_spec h hl hi hb) ?_ ?_
  · intro _ s' h'
    obtain ⟨how, hret, hsound, hof, hm⟩ := h'
    refine ⟨how, hret, hsound, hof, ?_⟩
    rw [Life.enter, if_neg (by simp [hret])]
    refine hm.trans (moves_state hm.inv hm.life nofun ?_ (Life.start_timerSet.trans hi.2) (by rwa [Life.start_boot]))
    rwa [Life.start_state]
  · intro s' h'
    obtain ⟨how, hret, hsound, hof, hm⟩ := h'
    exact ⟨how, hret, hsound, hof, by rwa [Life.enter, if_pos hret]⟩

theorem wp_executeNested {Q : Unit → Sys → Prop} {E : Sys → Prop} (hj : s.heap r = some j) (trigger : Job.Triggers) :
    wp (Job.executeNested (depth + 1) r trigger) Q E s =
      wp (Fsm.tryTransitions (fun state => setJob r fun j => { j with state }) trigger .noMatchingTrigger
        ((Job.transitions (Job.executeNested depth r) r).filter (·.fromState = j.state))) (fun _ => Q ()) E s := by
  simp only [Job.executeNested, Fsm.execute, wp_bind, wp_this hj, wp_pure]

section Unguarded

variable {Q : Unit → Sys → Prop} {E : Sys → Prop}

theorem wp_stop_running (hj : s.heap r = some j) (hs : j.state = .running) : wp (Job.execute r .stopRequested) Q E s =
    wp (Job.terminate r) (fun _ s' => Q () (s'.updateJob r fun j => { j with state := .running })) E s := by
  rw [Job.execute, wp_executeNested hj, hs]
  simp [Job.transitions, Fsm.wp_tryTransitions_cons, Fsm.wp_tryTransitions_skip]

theorem wp_stop_ignored (hj : s.heap r = some j) (hs : j.state ≠ .running) :
    wp (Job.execute r .stopRequested) Q E s = Q () s := by
  rw [Job.execute, wp_executeNested hj]
  cases hstate : j.state with
  | running => exact absurd hstate hs
  | loaded | waiting | exited | unloaded => simp [Job.transitions, Fsm.wp_tryTransitions_skip]

theorem wp_unload_idle (hj : s.heap r = some j) (hs : j.state = .loaded ∨ j.state = .exited) :
    wp (Job.execute r .unloadRequested) Q E s =
      wp (Job.submitDelete r) (fun _ s' => Q () (s'.updateJob r fun j => { j with state := .unloaded })) E s := by
  rw [Job.execute, wp_executeNested hj]
  rcases hs with hs | hs
  all_goals
    rw [hs]
    simp [Job.transitions, Fsm.wp_tryTransitions_cons, Fsm.wp_tryTransitions_skip]

theorem wp_unload_waiting (hj : s.heap r = some j) (hs : j.state = .waiting) :
    wp (Job.execute r .unloadRequested) Q E s = wp (Job.cancelTimerIfSet r) (fun _ s₁ =>
      wp (Job.submitDelete r) (fun _ s' => Q () (s'.updateJob r fun j => { j with state := .unloaded })) E s₁) E s := by
  rw [Job.execute, wp_executeNested hj, hs]
  simp [Job.transitions, Fsm.wp_tryTransitions_cons, Fsm.wp_tryTransitions_skip]

theorem wp_unload_ignored (hj : s.heap r = some j) (hs : j.state = .running ∨ j.state = .unloaded) :
    wp (Job.execute r .unloadRequested) Q E s = Q () s := by
  rw [Job.execute, wp_executeNested hj]
  rcases hs with hs | hs
  all_goals
    rw [hs]
    simp [Job.transitions, Fsm.wp_tryTransitions_skip]

end Unguarded

theorem startRequested_spec (depth : Nat) (h : s.tables.Inv busy) (hl : s.tables.fate r = .alive l) (hi : l.Idle) (hb : l.boot ≠ .pending)
    (hs : l.state = .loaded ∨ l.state = .waiting) :
    wp (Job.executeNested (depth + 1) r .startRequested) (fun _ => Entered busy r l s false) (Entered busy r l s true) s := by
  have hne : l.state ≠ .unloaded := by rcases hs with hs | hs <;> rw [hs] <;> simp
  have hstart := start_running_spec h hl hi hb hne
  obtain ⟨j, hj, rfl⟩ := fate_eq_alive hl
  rw [wp_executeNested hj]
  rcases hs with hs | hs
  · simpa [show j.state = .loaded from hs, Job.transitions, Fsm.wp_tryTransitions_cons, Fsm.wp_tryTransitions_skip] using hstart
  · simp only [show j.state = .waiting from hs, Job.transitions, List.filter, decide_true, decide_false, reduceCtorEq,
      Fsm.wp_tryTransitions_cons, wp_pure, if_true, wp_bind]
    refine wp_mono (cancelTimerIfSet_spec h hl) ?_ fun _ ht => absurd ht.1 (by rw [hi.2]; simp)
    intro _ s₁ h'
    obtain ⟨-, rfl⟩ := h'
    exact hstart

/-! ## Bootstrap -/

def Booted (busy : Option Int) (r : Ref) (l : Life) (lookup : Decode Bool) (s s' : Sys) : Prop :=
  ∃ (how : Start) (arming : Arming), how.Sound ∧ how.Of s.kernel.answers.nextFork s.kernel.answers.nextProbe ∧
    ((∃ a ∈ s.kernel.answers.timers, a.fails) ∧ arming = .failed ∨
      ∀ interval, l.manifest.startInterval = some interval → ∃ now, arming = .ofMilliseconds now interval) ∧
    Moves busy r (l.bootTriggered lookup s.clock how arming) s s'

theorem wp_isDisabled {Q : Bool → Sys → Prop} {E : Sys → Prop} (hj : s.heap r = some j) :
    wp (Job.isDisabled r) Q E s = wp (ofDecode (Job.disabledIn j.manifest s.stateFile)) Q E s := by
  rw [Job.isDisabled, wp_bind, wp_this hj, wp_bind, wp_get]

theorem Start.exists_of (fork : ForkAnswer) (probe : Bool) : ∃ how : Start, how.Sound ∧ how.Of fork probe := by
  cases fork with
  | noPipe => exact ⟨.noPipe, trivial, rfl⟩
  | noFork => exact ⟨.noFork, trivial, rfl⟩
  | noExec => exact ⟨.noExec, trivial, rfl⟩
  | started => cases probe with
    | true => exact ⟨.started 1, Int.one_pos, 1, rfl⟩
    | false => exact ⟨.unwatched 1, Int.one_pos, 1, rfl⟩

theorem Arming.exists_of (startInterval : Option Nat) :
    ∃ arming, ∀ interval, startInterval = some interval → ∃ now, arming = Arming.ofMilliseconds now interval := by
  cases startInterval with
  | none => exact ⟨.failed, nofun⟩
  | some interval => exact ⟨.ofMilliseconds 0 interval, fun i hi => by cases hi; exact ⟨0, rfl⟩⟩

theorem Booted.quiet {lookup : Decode Bool} (h : s.tables.Inv busy) (hl : s.tables.fate r = .alive l)
    (hn : ∀ clock how arming, l.bootTriggered lookup clock how arming = l) : Booted busy r l lookup s s := by
  obtain ⟨how, hs, hof⟩ := Start.exists_of s.kernel.answers.nextFork s.kernel.answers.nextProbe
  obtain ⟨arming, ha⟩ := Arming.exists_of l.manifest.startInterval
  exact ⟨how, arming, hs, hof, .inr ha, by rw [hn]; exact Moves.refl h hl⟩

theorem Booted.scheduled {lookup : Decode Bool} {arming : Arming}
    (ha : (∃ a ∈ s.kernel.answers.timers, a.fails) ∧ arming = .failed ∨
      ∀ interval, l.manifest.startInterval = some interval → ∃ now, arming = .ofMilliseconds now interval)
    (hw : ∀ clock how, l.bootTriggered lookup clock how arming = l.wait .periodic arming)
    (hm : Moves busy r (l.wait .periodic arming) s s') : Booted busy r l lookup s s' := by
  obtain ⟨how, hs, hof⟩ := Start.exists_of s.kernel.answers.nextFork s.kernel.answers.nextProbe
  exact ⟨how, arming, hs, hof, ha, by rwa [hw]⟩

theorem Booted.entered {lookup : Decode Bool} {throws : Bool} (h : Entered busy r l s throws s')
    (hw : ∀ clock how arming, l.bootTriggered lookup clock how arming = (l.start clock how).enter .running how) :
    Booted busy r l lookup s s' := by
  obtain ⟨how, -, hs, hof, hm⟩ := h
  obtain ⟨arming, ha⟩ := Arming.exists_of l.manifest.startInterval
  exact ⟨how, arming, hs, hof, .inr ha, by rwa [hw]⟩

/-- The job is Running already when the Bootstrap's own transition ends. -/
theorem Entered.again (h : Entered busy r l s false s') (hi : l.Idle) (hb : l.boot ≠ .pending) :
    Entered busy r l s false (s'.updateJob r fun j => { j with state := .running }) := by
  obtain ⟨how, hret, hs, hof, hm⟩ := h
  refine ⟨how, hret, hs, hof, ?_⟩
  rw [Life.enter, if_neg (by simp [hret])] at hm ⊢
  exact hm.trans (moves_state hm.inv hm.life nofun nofun (Life.start_timerSet.trans hi.2) (by rwa [Life.start_boot]))

theorem bootstrap_spec (h : s.tables.Inv busy) (hl : s.tables.fate r = .alive l) (hi : l.Idle) (hb : l.boot ≠ .pending)
    (hs : l.state = .loaded) :
    wp (Job.execute r .bootstrap) (fun _ => Booted busy r l (Job.disabledIn l.manifest s.stateFile) s)
      (Booted busy r l (Job.disabledIn l.manifest s.stateFile) s) s := by
  have hstart := startRequested_spec 0 h hl hi hb (.inl hs)
  obtain ⟨j, hj, rfl⟩ := fate_eq_alive hl
  have hj' : s.heap r = some j := hj
  rw [Job.execute, wp_executeNested hj, show (s.tables.lifeOf r j).manifest = j.manifest from rfl]
  simp only [show j.state = .loaded from hs, Job.transitions, List.filter, decide_true, decide_false, reduceCtorEq,
    Fsm.wp_tryTransitions_cons, wp_bind, wp_isDisabled hj']
  cases hd : Job.disabledIn j.manifest s.stateFile with
  | error e =>
    cases e with
    | exn w => exact Booted.quiet h hl fun _ _ _ => rfl
    | abort w => trivial
  | ok disabled =>
    cases disabled with
    | true =>
      simp only [ofDecode, wp_pure, ↓reduceIte, Bool.false_eq_true, wp_isDisabled hj', hd]
      exact Booted.quiet h hl fun _ _ _ => rfl
    | false =>
      simp only [ofDecode, wp_pure, Bool.false_eq_true, ↓reduceIte, wp_bind, Bool.or_eq_true, wp_this hj',
        wp_isDisabled hj', hd, Bool.and_eq_true, Bool.not_eq_eq_eq_not, Bool.not_true]
      by_cases hrun : j.manifest.runAtLoad = true ∨ j.manifest.keepAlive = true
      · have hrun' : (j.manifest.runAtLoad || j.manifest.keepAlive) = true := by simpa using hrun
        rw [if_pos hrun]
        exact wp_mono hstart (fun _ s' hm => .entered (hm.again hi hb) fun _ _ _ => if_pos hrun')
          fun s' hm => .entered hm fun _ _ _ => if_pos hrun'
      · have hrun' : ¬ (j.manifest.runAtLoad || j.manifest.keepAlive) = true := by simpa using hrun
        have hno : j.manifest.runAtLoad = false := by simpa using fun h => hrun (.inl h)
        rw [if_neg hrun]
        cases hsi : j.manifest.startInterval with
        | none =>
          rw [if_neg (by simp)]
          exact Booted.quiet h hl fun _ _ _ => (if_neg hrun').trans (if_neg (by simp [lifeOf, hsi]))
        | some interval =>
          have hw : ∀ clock how arming, (s.tables.lifeOf r j).bootTriggered (.ok false) clock how arming =
              (s.tables.lifeOf r j).wait .periodic arming := fun _ _ _ =>
            (if_neg hrun').trans (if_pos (by simp [lifeOf, hsi]))
          rw [if_pos (by simp [hno])]
          refine wp_mono (schedulePeriodicJob_spec h hl hi hb (by rw [hs]; simp) hsi) (fun _ s' hm => ?_) fun s' hm => ?_
          · exact .scheduled (.inr fun i hi => by cases hsi.symm.trans hi; exact ⟨_, rfl⟩) (fun _ _ => hw _ _ _) hm
          · rcases hm with ⟨hf | hf, hm⟩
            · exact .scheduled (.inl ⟨hf, rfl⟩) (fun _ _ => hw _ _ _) hm
            · exact .scheduled (.inr fun i hi => by cases hsi.symm.trans hi; exact ⟨s.kernel.now, rfl⟩) (fun _ _ => hw _ _ _)
                (by rw [hf]; exact hm)

/-! ## ProcessExited -/

def Exited (busy : Option Int) (r : Ref) (l : Life) (s s' : Sys) : Prop :=
  ∃ how : Start, how.throws = false ∧ how.Sound ∧
    (l.restarts (s.clock 1 / 1000) → how.Of s.kernel.answers.nextFork s.kernel.answers.nextProbe) ∧
    (l.awaits (s.clock 1 / 1000) (s.clock 2 / 1000) → l.throttleArming (s.clock 3) ≠ .failed) ∧
    Moves busy r (l.processExited s.clock how) s s'

theorem submitDelete_spec {E : Sys → Prop} (h : s.tables.Inv busy) (hl : s.tables.fate r = .alive l)
    (ht : l.timerSet = false) (hb : l.boot ≠ .pending) (hs : l.state ≠ .unloaded) :
    wp (Job.submitDelete r)
      (fun _ s' => Moves busy r { l with state := .unloaded } s (s'.updateJob r fun j => { j with state := .unloaded })) E s := by
  obtain ⟨j, hj, rfl⟩ := fate_eq_alive hl
  have hnone : j.timerId = none := Option.not_isSome_iff_eq_none.mp (by rw [show j.timerId.isSome = false from ht]; exact nofun)
  rw [Job.submitDelete, wp_bind, wp_this hj, submitIpcCallback, wp_modify]
  have hj' : (s.updateEventmgr fun m => { m with pendingEvents := m.pendingEvents ++ [.ipc "delete_job" j.label] }).heap r =
      some j := hj
  have htab := tables_updateJob hj' fun j => { j with state := .unloaded }
  refine ⟨?_, ?_, fun r' hne => ?_, ⟨rfl, rfl, rfl, rfl, rfl, rfl, .refl _⟩⟩ <;> rw [htab]
  · exact h.unload hj hs hb hnone
  · exact fate_put_self
  · exact (fate_put_ne hne).trans (fate_submitDelete (t := s.tables) j.label r')

/-- An exit after which the job is not started. -/
theorem Exited.of_moves (hr : l.restarts (s.clock 1 / 1000) = false)
    (ha : l.awaits (s.clock 1 / 1000) (s.clock 2 / 1000) → l.throttleArming (s.clock 3) ≠ .failed)
    (hm : ∀ how, Moves busy r (l.processExited s.clock how) s s') : Exited busy r l s s' :=
  ⟨.noFork, rfl, trivial, fun h' => absurd (hr.symm.trans h') nofun, ha, hm _⟩

/-- The clock is read before an operation. -/
theorem Moves.ticked (h : Moves busy r l s.ticked s') : Moves busy r l s s' := h.after rfl (keeps_ticked s)

theorem Exited.unloaded (hs : l.state = .running) (hu : l.unloadRequested) (hm : Moves busy r { l with state := .unloaded } s s') :
    Exited busy r l s s' :=
  .of_moves (by simp [Life.restarts, hu]) (by simp [Life.awaits, hu]) fun how => by rwa [Life.processExited_unloadRequested hs hu]

theorem processExited_spec (h : s.tables.Inv busy) (hl : s.tables.fate r = .alive l) (hi : l.Idle) (hb : l.boot ≠ .pending) :
    wp (Job.execute r .processExited) (fun _ => Exited busy r l s) (fun _ => True) s := by
  obtain ⟨j, hj, rfl⟩ := fate_eq_alive hl
  have hj' : s.heap r = some j := hj
  have hj₁ : s.ticked.heap r = some j := hj
  have hj₂ : s.ticked.ticked.heap r = some j := hj
  rw [Job.execute, wp_executeNested hj]
  by_cases hs : j.state = .running
  · have hne : (s.tables.lifeOf r j).state ≠ .unloaded := by simp [hs]
    simp only [hs, Job.transitions, List.filter, decide_true, decide_false, reduceCtorEq, ne_eq, not_false_eq_true,
      Fsm.wp_tryTransitions_cons, Fsm.wp_tryTransitions_skip, Fsm.wp_tryTransitions_nil, wp_setJob, wp_pure, wp_bind,
      Bool.and_eq_true, Bool.not_eq_eq_eq_not, Bool.not_true, Option.not_isSome, Option.isNone_iff_eq_none, wp_this hj']
    cases hka : j.manifest.keepAlive with
    | false =>
      simp only [true_and, ↓reduceIte, wp_pure, Bool.false_eq_true, wp_this hj', hka]
      cases hu : j.unloadRequested with
      | true =>
        simp only [Bool.true_eq_false, and_false, ↓reduceIte]
        exact wp_mono (submitDelete_spec h hl hi.2 hb hne) (fun _ _ hm => .unloaded hs hu hm) fun _ => id
      | false =>
        cases hsi : j.manifest.startInterval with
        | none =>
          simp only [and_self, ↓reduceIte]
          refine .of_moves (by simp [Life.restarts, hka]) (by simp [Life.awaits, hka]) fun how => ?_
          rw [Life.processExited_exited hs hka hsi hu]
          exact moves_state h hl (by simp) hne hi.2 hb
        | some interval =>
          simp only [reduceCtorEq, and_true, ↓reduceIte, Bool.false_eq_true]
          refine .of_moves (by simp [Life.restarts, hka]) (by simp [Life.awaits, hka]) fun how => ?_
          rw [Life.processExited_periodic hs hka (by simp [hsi]) hu]
          exact Moves.refl h hl
    | true =>
      simp only [Bool.true_eq_false, false_and, ↓reduceIte, wp_bind]
      apply wp_shouldThrottle hj'
      cases hu : j.unloadRequested with
      | true =>
        have hsub := wp_mono (submitDelete_spec (s := s.ticked.ticked) (E := fun _ => True) h hl hi.2 hb hne)
          (fun _ _ hm => Exited.unloaded hs hu hm.ticked.ticked) fun _ => id
        cases (s.tables.lifeOf r j).throttled (s.clock 1 / 1000) <;>
        · simp only [Bool.false_eq_true, ↓reduceIte, wp_bind, wp_pure, Bool.not_eq_eq_eq_not, Bool.not_true,
            Bool.ite_eq_false, wp_this hj₁, hu, hka, Bool.true_eq_false]
          apply wp_shouldThrottle hj₁
          cases (s.ticked.tables.lifeOf r j).throttled (s.ticked.clock 1 / 1000) <;> simpa [wp_this hj₂, hu] using hsub
      | false =>
        cases ht₁ : (s.tables.lifeOf r j).throttled (s.clock 1 / 1000) with
        | false =>
          have hr : (s.tables.lifeOf r j).restarts (s.clock 1 / 1000) := by simp [Life.restarts, hs, hka, hu, ht₁]
          simp only [Bool.false_eq_true, ↓reduceIte, wp_bind, wp_pure, Bool.not_eq_eq_eq_not, Bool.not_true,
            Bool.ite_eq_false, wp_this hj₁, hu]
          refine wp_mono (start_running_spec (s := s.ticked) h hl hi hb hne) ?_ fun _ _ => trivial
          intro _ s' h'
          obtain ⟨how, hret, hsound, hof, hm⟩ := h'
          refine ⟨how, hret, hsound, fun _ => hof, by simp [Life.awaits, ht₁], ?_⟩
          rw [Life.processExited_restarts hr]
          rw [Life.enter_self (by simp [Life.start_state, hs]), show s.ticked.clock = fun n => s.clock (n + 1) from funext s.ticked_clock] at hm
          exact hm.ticked
        | true =>
          simp only [↓reduceIte, wp_pure, Bool.false_eq_true, wp_this hj₁, hka, Bool.true_eq_false, wp_bind]
          apply wp_shouldThrottle hj₁
          rw [Sys.ticked_clock]
          cases ht₂ : (s.tables.lifeOf r j).throttled (s.clock 2 / 1000) with
          | false =>
            rw [show (s.ticked.tables.lifeOf r j).throttled (s.clock 2 / 1000) = false from ht₂]
            simp only [↓reduceIte, wp_pure, Bool.false_eq_true, wp_this hj₂, hu]
            refine .of_moves (by simp [Life.restarts, ht₁]) (by simp [Life.awaits, ht₂]) fun how => ?_
            rw [Life.processExited_missed hs hka hu ht₁ ht₂]
            exact (Moves.refl (s := s.ticked.ticked) h hl).ticked.ticked
          | true =>
            rw [show (s.ticked.tables.lifeOf r j).throttled (s.clock 2 / 1000) = true from ht₂]
            simp only [Bool.true_eq_false, ↓reduceIte, wp_bind, wp_pure, Bool.not_eq_eq_eq_not, Bool.not_true,
              Bool.ite_eq_false, wp_this hj₂, hu, Bool.false_eq_true]
            refine wp_mono (startAfterThrottleInterval_spec (s := s.ticked.ticked) h hl hi hb hne) (fun _ s' hm => ?_) fun _ => id
            rw [Sys.ticked_clock, Sys.ticked_clock] at hm
            refine .of_moves (by simp [Life.restarts, ht₁]) (fun _ => hm.1) fun how => ?_
            rw [Life.processExited_waits hs hka hu ht₁ ht₂]
            exact hm.2.ticked.ticked
  · have hq : Exited busy r (s.tables.lifeOf r j) s s :=
      .of_moves (by simp [Life.restarts, hs]) (by simp [Life.awaits, hs]) fun how => by
        rw [Life.processExited_not_running (by simpa using hs)]
        exact Moves.refl h hl
    cases hst : j.state with
    | running => exact absurd hst hs
    | loaded | waiting | exited | unloaded =>
      simpa [Job.transitions, Fsm.wp_tryTransitions_skip] using hq

/-! ## Signals and unloading -/

def Sent (a : Answers) (sent : Bool) : Prop := sent ∈ a.kills ∨ sent = true

theorem nextKill_spec {E : Sys → Prop} : wp nextKill (fun sent s' => Sent s.kernel.answers sent ∧ Took s s') E s :=
  ⟨mem_or_headD _ _, rfl, ⟨rfl, rfl, rfl, rfl, rfl, rfl, left_tail.2.2.2.2⟩, rfl⟩

theorem killJob_spec {E : Sys → Prop} (h : s.tables.Inv busy) (hl : s.tables.fate r = .alive l) (sig : Int) :
    wp (Job.killJob r sig) (fun sent s' => Sent s.kernel.answers sent ∧ Moves busy r l.signal s s') E s := by
  obtain ⟨j, hj, rfl⟩ := fate_eq_alive hl
  have hj' : s.heap r = some j := hj
  rw [Job.killJob, wp_bind, wp_this hj', wp_ite]
  by_cases hp : j.pid = 0
  · rw [if_pos hp]
    exact ⟨.inr rfl, by rw [Life.signal, if_pos (by simpa using hp)]; exact Moves.refl h hl⟩
  · rw [if_neg hp, wp_bind, Job.logKill, wp_modify]
    obtain ⟨s₁, hs₁⟩ : ∃ s₁, s₁ = s.updateKernel fun k => { k with kills := k.kills ++ [⟨r, j.pid, sig, s.child r⟩] } :=
      ⟨_, rfl⟩
    have ht : s₁.tables = s.tables.logKill r j.pid sig := by rw [hs₁]; rfl
    have hk : Keeps s s₁ := by rw [hs₁]; exact ⟨rfl, rfl, rfl, rfl, rfl, rfl, .refl _⟩
    have hm : Moves busy r (s.tables.lifeOf r j).signal s s₁ := by
      refine ⟨ht ▸ h.logKill hj hp, ?_, fun r' hne => by rw [ht, fate_logKill_ne hne], hk⟩
      rw [ht, fate_alive (show (s.tables.logKill r j.pid sig).heap r = some j from hj), Life.signal, if_neg (by simpa using hp)]
      unfold lifeOf
      rw [history_logKill]
      rfl
    rw [← hs₁]
    refine wp_mono nextKill_spec ?_ fun _ => id
    intro sent s₂ h'
    obtain ⟨hsent, htook⟩ := h'
    rw [show s₁.kernel.answers = s.kernel.answers by rw [hs₁]; rfl] at hsent
    exact ⟨hsent, hm.took htook⟩

def Stopped (busy : Option Int) (r : Ref) (l : Life) (s s' : Sys) : Prop :=
  ∃ sent, Sent s.kernel.answers sent ∧ Moves busy r (l.stopRequested sent) s s'

theorem terminate_spec {E : Sys → Prop} (h : s.tables.Inv busy) (hl : s.tables.fate r = .alive l) (hb : l.boot ≠ .pending)
    (hs : l.state = .running) :
    wp (Job.terminate r) (fun _ s' => Stopped busy r l s (s'.updateJob r fun j => { j with state := .running })) E s := by
  have hset : l.timerSet = false := by
    by_contra ht
    simp only [Bool.not_eq_false] at ht
    have := ((good_of_alive h hl).waits ht).1
    rw [hs] at this
    cases this
  rw [Job.terminate, wp_bind]
  refine wp_mono (killJob_spec h hl _) ?_ fun _ => id
  intro sent s' h'
  obtain ⟨hsent, hm⟩ := h'
  refine ⟨sent, hsent, ?_⟩
  have hboot : l.signal.boot ≠ .pending := by rwa [Life.signal_boot]
  have hpid : l.signal.pid = l.pid := Life.signal_pid
  have hsigterm : l.signal.sigterm = l.sigterm := Life.signal_sigterm
  have hstate : l.signal.state = .running := Life.signal_state.trans hs
  have htimer : l.signal.timerSet = false := Life.signal_timerSet.trans hset
  rw [Life.stopRequested, if_neg (by simp [hs]), ← hpid, ← hsigterm]
  obtain ⟨j, hj, hlj⟩ := fate_eq_alive hm.life
  rw [hlj] at hm hboot hstate htimer ⊢
  have hg := hm.inv.good r j hj
  have hm₁ : Moves busy r { s'.tables.lifeOf r j with sigterm := j.sigterm || (j.pid ≠ 0 && sent) } s'
      (s'.updateJob r fun j => if j.pid ≠ 0 ∧ sent then { j with sigterm := true } else j) := by
    by_cases hp : j.pid ≠ 0 ∧ sent
    · have hg₁ : (s'.tables.lifeOf r { j with sigterm := true }).Good :=
        ⟨hg.childPid, hg.pidChild, hg.timerSet, hg.waits, fun hb' => absurd hb' hboot⟩
      have hf : (if j.pid ≠ 0 ∧ sent then { j with sigterm := true } else j) = { j with sigterm := true } := if_pos hp
      have hput := moves_put hm.inv hj (fun j => if j.pid ≠ 0 ∧ sent then { j with sigterm := true } else j)
        (by rw [hf]; rfl) (by rw [hf]) (.inl (by rw [hf])) (by rw [hf]) (by rw [hf]) (by rw [hf]; exact hg₁)
      rw [hf] at hput
      simpa [hp, lifeOf] using hput
    · have hf : (if j.pid ≠ 0 ∧ sent then { j with sigterm := true } else j) = j := if_neg hp
      have hput := moves_put hm.inv hj (fun j => if j.pid ≠ 0 ∧ sent then { j with sigterm := true } else j)
        (by rw [hf]) (by rw [hf]) (.inl (by rw [hf])) (by rw [hf]) (by rw [hf]) (by rw [hf]; exact hg)
      rw [hf] at hput
      have hfalse : (decide (j.pid ≠ 0) && sent) = false := by simpa using hp
      rw [hfalse, Bool.or_false]
      exact hput
  have hm₂ := moves_state hm₁.inv hm₁.life (by decide : Job.States.running ≠ .unloaded) (by rw [hstate]; simp) htimer hboot
  refine (hm.trans hm₁).trans ?_
  rw [← hstate] at hm₂ ⊢
  exact hm₂

theorem stopRequested_spec {E : Sys → Prop} (h : s.tables.Inv busy) (hl : s.tables.fate r = .alive l) (hb : l.boot ≠ .pending) :
    wp (Job.execute r .stopRequested) (fun _ => Stopped busy r l s) E s := by
  obtain ⟨j, hj, rfl⟩ := fate_eq_alive hl
  by_cases hs : j.state = .running
  · rw [wp_stop_running hj hs]
    exact terminate_spec h hl hb hs
  · rw [wp_stop_ignored hj hs]
    refine ⟨true, .inr rfl, ?_⟩
    rw [Life.stopRequested, if_pos (by simpa using hs)]
    exact Moves.refl h hl

theorem not_set_of_state (h : l.Good) (hs : l.state ≠ .waiting) : l.timerSet = false := by
  by_contra ht
  exact hs (h.waits (by simpa using ht)).1

theorem unloadRequested_spec (h : s.tables.Inv busy) (hl : s.tables.fate r = .alive l) (hb : l.boot ≠ .pending) :
    wp (Job.execute r .unloadRequested) (fun _ => Moves busy r l.unloadTriggered s) (Moves busy r l.unloadTriggered s) s := by
  have hset : l.state ≠ .waiting → l.timerSet = false := not_set_of_state (good_of_alive h hl)
  obtain ⟨j, hj, rfl⟩ := fate_eq_alive hl
  generalize hl₁ : (s.tables.lifeOf r j).unloadTriggered = l₁
  cases hs : j.state with
  | loaded | exited =>
    rw [wp_unload_idle hj (by simp [hs]), ← hl₁, Life.unloadTriggered_unloads (by simp [hs]) (hset (by simp [hs]))]
    exact submitDelete_spec h hl (hset (by simp [hs])) hb (by simp [hs])
  | waiting =>
    rw [wp_unload_waiting hj hs]
    refine wp_mono (cancelTimerIfSet_spec h hl) ?_ ?_
    · intro _ s₁ h'
      obtain ⟨ht, rfl⟩ := h'
      rw [← hl₁, Life.unloadTriggered_unloads (.inr (.inr hs)) ht]
      exact submitDelete_spec h hl ht hb (by simp [hs])
    · intro s₁ h'
      obtain ⟨ht, hm⟩ := h'
      rwa [← hl₁, Life.unloadTriggered_cancels hs ht]
  | running | unloaded =>
    rw [wp_unload_ignored hj (by simp [hs]), ← hl₁, Life.unloadTriggered_ignored (by simp [hs])]
    exact Moves.refl h hl

def UnloadedBy (busy : Option Int) (r : Ref) (l : Life) (lookup : Decode Bool) (force : Bool) (s s' : Sys) : Prop :=
  ∃ sent, Sent s.kernel.answers sent ∧ Moves busy r (l.unload lookup force sent) s s'

theorem unloadJob_spec (h : s.tables.Inv busy) (hl : s.tables.fate r = .alive l) (hb : l.boot ≠ .pending) (force : Bool) :
    wp (Job.unloadJob r force) (fun _ => UnloadedBy busy r l (Job.disabledIn l.manifest s.stateFile) force s)
      (UnloadedBy busy r l (Job.disabledIn l.manifest s.stateFile) force s) s := by
  have hg := good_of_alive h hl
  obtain ⟨j, hj, hlj⟩ := fate_eq_alive hl
  have hj' : s.heap r = some j := hj
  have hstate : l.state = j.state := by rw [hlj]; rfl
  have hflag : l.unloadRequested = j.unloadRequested := by rw [hlj]; rfl
  have hmanifest : l.manifest = j.manifest := by rw [hlj]; rfl
  rw [Job.unloadJob, wp_bind, wp_this hj', ← hstate, ← hflag, wp_ite]
  split
  · rename_i hs
    exact ⟨true, .inr rfl, by rw [Life.unload_ignored (.inl hs)]; exact Moves.refl h hl⟩
  rename_i hs
  rw [wp_ite]
  split
  · rename_i hu
    exact ⟨true, .inr rfl, by rw [Life.unload_ignored (.inr hu)]; exact Moves.refl h hl⟩
  rename_i hu
  replace hu : l.unloadRequested = false := by simpa using hu
  rw [wp_bind, wp_setJob, wp_bind]
  have hg₁ : Life.Good { l with unloadRequested := true } :=
    ⟨hg.childPid, hg.pidChild, hg.timerSet, hg.waits, fun hb' => absurd hb' hb⟩
  have hm : Moves busy r { l with unloadRequested := true } s (s.updateJob r fun j => { j with unloadRequested := true }) := by
    subst hlj
    exact moves_put h hj (fun j => { j with unloadRequested := true }) rfl rfl (.inl rfl) Iff.rfl rfl hg₁
  rw [wp_isDisabled (Sys.updateJob_self hj'), ← hmanifest, Sys.updateJob_stateFile]
  refine wp_ofDecode (fun disabled hd => ?_) fun w hd => ?_
  · rw [wp_ite]
    split
    · rename_i href
      refine ⟨true, .inr rfl, ?_⟩
      rwa [Life.unload_refused hs hu fun d hd' => by rw [hd] at hd'; cases hd'; exact href]
    · rename_i hacc
      rw [wp_bind]
      refine wp_mono (stopRequested_spec hm.inv hm.life hb) ?_ fun _ => id
      intro _ s₁ h'
      obtain ⟨sent, hsent, hm₁⟩ := h'
      have hb₁ : ({ l with unloadRequested := true }.stopRequested sent).boot ≠ .pending := by rwa [Life.stopRequested_boot]
      rw [wp_bind]
      have hun : ∀ s₂, Moves busy r ({ l with unloadRequested := true }.stopRequested sent).unloadTriggered s₁ s₂ →
          UnloadedBy busy r l (Job.disabledIn l.manifest s.stateFile) force s s₂ := by
        intro s₂ hm₂
        refine ⟨sent, hsent, ?_⟩
        rw [Life.unload_accepted hs hu hd (by simpa using hacc)]
        exact (hm.trans hm₁).trans hm₂
      exact wp_mono (unloadRequested_spec hm₁.inv hm₁.life hb₁) (fun _ => hun) hun
  · refine ⟨true, .inr rfl, ?_⟩
    rwa [Life.unload_refused hs hu fun d hd' => by rw [hd] at hd'; cases hd']

end Relaunchd
