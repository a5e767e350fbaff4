/-
  Relaunchd.Properties.Refusals — an unload that is refused, or that fails.

  `unloadJob` marks the job before it looks at what may refuse the unload, and the mark
  stays; with an override it first writes the override that is then the reason to refuse.
-/

import Relaunchd.Properties.Loading
import Relaunchd.Properties.Overrides
import Relaunchd.Properties.Timers

namespace Relaunchd

open Prog EventManager Tables Transition

variable {s s' : Sys} {r : Ref} {j : Job} {doc : Json} {label : String} {force overrideDisabled : Bool}

/-! ## What an unload does -/

def Sys.asked (s : Sys) (r : Ref) : Sys := s.updateJob r fun j => { j with unloadRequested := true }

theorem isDisabled_eq (hj : s.heap r = some j) : Job.isDisabled r s = ofDecode (Job.disabledIn j.manifest s.stateFile) s := by
  rw [Job.isDisabled, bind_ok (this_ok hj)]
  rfl

/-- The part of an unload after all that may refuse it. -/
def carryOut (r : Ref) : M Bool := do
  Job.execute r .stopRequested
  Job.execute r .unloadRequested
  return true

theorem unloadJob_ignored (hj : s.heap r = some j) (h : j.state = .unloaded ∨ j.unloadRequested = true) :
    Job.unloadJob r force s = .ok false s := by
  rw [Job.unloadJob, bind_ok (this_ok hj)]
  by_cases hs : j.state = .unloaded
  · rw [if_pos hs]
    rfl
  · rw [if_neg hs, if_pos (h.resolve_left hs)]
    rfl

theorem unloadJob_eq (hj : s.heap r = some j) (hs : j.state ≠ .unloaded) (hu : j.unloadRequested = false) :
    Job.unloadJob r force s =
      match Job.disabledIn j.manifest s.stateFile with
      | .ok disabled => if disabled && !force then .ok false (s.asked r) else carryOut r (s.asked r)
      | .error (.exn w) => .throw w (s.asked r)
      | .error (.abort w) => .crash w := by
  have hmark : setJob r (fun j => { j with unloadRequested := true }) s = .ok () (s.asked r) := rfl
  have hasked : (s.asked r).heap r = some { j with unloadRequested := true } := Sys.updateJob_self hj
  rw [Job.unloadJob, bind_ok (this_ok hj), if_neg hs, hu, if_neg Bool.false_ne_true, bind_ok hmark]
  show (Job.isDisabled r >>= fun disabled => if disabled && !force then pure false else carryOut r) (s.asked r) = _
  cases hd : Job.disabledIn j.manifest s.stateFile with
  | ok disabled =>
    have hdis : Job.isDisabled r (s.asked r) = .ok disabled (s.asked r) := by
      rw [isDisabled_eq hasked, show Job.disabledIn _ (s.asked r).stateFile = .ok disabled from hd]
      rfl
    rw [bind_ok hdis, ite_run]
    rfl
  | error e =>
    have hdis : Job.isDisabled r (s.asked r) = ofDecode (.error e) (s.asked r) := by
      rw [isDisabled_eq hasked, show Job.disabledIn _ (s.asked r).stateFile = .error e from hd]
    cases e with
    | exn w => exact bind_throw hdis
    | abort w => exact bind_crash hdis

theorem executeNested_eq (hj : s.heap r = some j) (depth : Nat) (trigger : Job.Triggers) :
    Job.executeNested (depth + 1) r trigger s =
      (Fsm.tryTransitions (fun state => setJob r fun j => { j with state }) trigger .noMatchingTrigger
        ((Job.transitions (Job.executeNested depth r) r).filter (·.fromState = j.state)) >>= fun _ => pure ()) s := by
  have hstate : (do return (← this r).state : M Job.States) s = .ok j.state s := bind_ok (this_ok hj)
  rw [Job.executeNested, Fsm.execute, Prog.bind_assoc, bind_ok hstate]

/-- What StopRequested leaves alone. -/
theorem stopRequested_frame {E : Sys → Prop} (hj : s.heap r = some j) : wp (Job.execute r .stopRequested)
    (fun _ s' => ∃ j', s'.heap r = some j' ∧ j'.state = j.state ∧ j'.timerId = j.timerId) E s := by
  by_cases hs : j.state = .running
  · rw [wp_stop_running hj hs, Job.terminate, wp_bind]
    refine wp_mono (Q := fun _ s' => s'.heap r = some j) (E := E) ?_ (fun sent s' hj' => ?_) fun _ => id
    · rw [Job.killJob, wp_bind, wp_this hj, wp_ite]
      split
      · exact hj
      · exact hj
    · have hset := Sys.updateJob_self (f := fun j => if j.pid ≠ 0 ∧ sent then { j with sigterm := true } else j) hj'
      refine ⟨_, Sys.updateJob_self hset, hs.symm, ?_⟩
      dsimp only
      split <;> rfl
  · rw [wp_stop_ignored hj hs]
    exact ⟨j, hj, rfl, rfl⟩

/-- An unload is carried out, unless the job waits for a timer. -/
theorem carryOut_returns {E : Sys → Prop} (hj : s.heap r = some j) (hw : ¬ (j.state = .waiting ∧ j.timerId.isSome)) :
    wp (carryOut r) (fun b _ => b = true) E s := by
  rw [carryOut, wp_bind]
  refine wp_mono (stopRequested_frame hj) (fun _ s₁ h => ?_) fun _ => id
  obtain ⟨j₁, hj₁, hs, ht⟩ := h
  rw [wp_bind]
  have hsubmit : ∀ s, s.heap r = some j₁ → wp (Job.submitDelete r) (fun _ _ => True) E s := fun s hj => by
    rw [Job.submitDelete, wp_bind, wp_this hj]
    trivial
  cases hs' : j.state with
  | loaded | exited =>
    rw [wp_unload_idle hj₁ (by simp [hs, hs'])]
    exact wp_mono (hsubmit s₁ hj₁) (fun _ _ _ => rfl) fun _ => id
  | waiting =>
    have hnone : j₁.timerId.isSome = false := by
      rw [ht]
      exact Bool.eq_false_iff.mpr fun h => hw ⟨hs', h⟩
    rw [wp_unload_waiting hj₁ (hs.trans hs'), Job.cancelTimerIfSet, wp_bind, wp_this hj₁, hnone,
      if_neg Bool.false_ne_true, wp_pure]
    exact wp_mono (hsubmit s₁ hj₁) (fun _ _ _ => rfl) fun _ => id
  | running | unloaded =>
    rw [wp_unload_ignored hj₁ (by simp [hs, hs'])]
    rfl

/-- The timer cannot be cancelled. -/
theorem carryOut_throws {id : Nat} (hj : s.heap r = some j) (hs : j.state = .waiting) (ht : j.timerId = some id)
    (hr : ∀ fd, s.timers.fds.lookup id = some fd → timerEpfd < fd) :
    ∃ w s', carryOut r s = .throw w s' ∧ s'.heap r = some j := by
  have hstop : Job.execute r .stopRequested s = .ok () s := by
    rw [Job.execute, executeNested_eq hj, hs]
    rfl
  obtain ⟨w, s', hdelete, hheap, -⟩ := deleteTimer_throws hr
  have hcancel : Job.cancelTimerIfSet r s = .throw w s' := by
    rw [Job.cancelTimerIfSet, bind_ok (this_ok hj), ht, if_pos Option.isSome_some, Job.cancelTimer, bind_ok (this_ok hj), ht]
    exact bind_throw hdelete
  have hunload : Job.execute r .unloadRequested s = .throw w s' := by
    have haction : (Job.cancelTimerIfSet r >>= fun _ => Job.submitDelete r) s = .throw w s' := bind_throw hcancel
    rw [Job.execute, executeNested_eq hj, hs]
    apply bind_throw
    show ((Job.cancelTimerIfSet r >>= fun _ => Job.submitDelete r) >>= fun _ =>
      setJob r (fun j => { j with state := .unloaded }) >>= fun _ => pure Fsm.Status.success) s = _
    exact bind_throw haction
  exact ⟨w, s', (bind_ok hstop).trans (bind_throw hunload), by rw [hheap]; exact hj⟩

/-! ## What was asked for -/

/-- The job, its timer and the event queue are as they were. -/
structure Untouched (r : Ref) (s s' : Sys) : Prop where
  job : ∀ j, s.heap r = some j → ∃ j', s'.heap r = some j' ∧ j'.state = j.state ∧ j'.pid = j.pid ∧
    j'.timerId = j.timerId ∧ j'.unloadRequested = j.unloadRequested
  timers : s'.timers = s.timers
  pendingEvents : s'.eventmgr.pendingEvents = s.eventmgr.pendingEvents

/-- An unload that returns false or throws leaves the job untouched. -/
def RefusesCleanly (r : Ref) (s : Sys) : Res Sys Bool → Prop
  | .ok true _ => True
  | .ok false s' => Untouched r s s'
  | .throw _ s' => Untouched r s s'
  | .crash _ => True

theorem Untouched.refl (r : Ref) (s : Sys) : Untouched r s s := ⟨fun j hj => ⟨j, hj, rfl, rfl, rfl, rfl⟩, rfl, rfl⟩

/-- A job that was marked is not as it was. -/
theorem not_untouched {s₀ : Sys} {j' : Job} (hj : s₀.heap r = some j) (hu : j.unloadRequested = false) (hj' : s'.heap r = some j')
    (hu' : j'.unloadRequested = true) : ¬ Untouched r s₀ s' := fun h => by
  obtain ⟨j'', hj'', -, -, -, he⟩ := h.job j hj
  cases hj'.symm.trans hj''
  rw [hu, hu'] at he
  cases he

/-- The unload is ignored, or nothing stands in its way. -/
def Settles (j : Job) (state : Json) (force : Bool) : Prop :=
  j.state = .unloaded ∨ j.unloadRequested = true ∨
    (∃ disabled, Job.disabledIn j.manifest state = .ok disabled ∧ (disabled && !force) = false) ∧
      ¬ (j.state = .waiting ∧ j.timerId.isSome)

/-- `s` differs from `s₀` in nothing that concerns jobs and timers. -/
theorem unloadJob_refuses_iff {s₀ : Sys} (hsame : Untouched r s₀ s) (hj₀ : s₀.heap r = some j) (hj : s.heap r = some j)
    (hr : j.state = .waiting → ∀ id fd, s.timers.fds.lookup id = some fd → timerEpfd < fd) :
    RefusesCleanly r s₀ (Job.unloadJob r force s) ↔ Settles j s.stateFile force := by
  by_cases hi : j.state = .unloaded ∨ j.unloadRequested = true
  · rw [unloadJob_ignored hj hi]
    exact iff_of_true hsame (hi.imp id .inl)
  rw [not_or, Bool.not_eq_true] at hi
  have hasked : (s.asked r).heap r = some { j with unloadRequested := true } := Sys.updateJob_self hj
  have hmarked : ∀ s', s'.heap r = some { j with unloadRequested := true } → ¬ Untouched r s₀ s' := fun s' hj' =>
    not_untouched hj₀ hi.2 hj' rfl
  have hsettles : Settles j s.stateFile force ↔
      (∃ disabled, Job.disabledIn j.manifest s.stateFile = .ok disabled ∧ (disabled && !force) = false) ∧
        ¬ (j.state = .waiting ∧ j.timerId.isSome) := by
    rw [Settles, hi.2]
    simp [hi.1]
  rw [unloadJob_eq hj hi.1 hi.2, hsettles]
  cases hd : Job.disabledIn j.manifest s.stateFile with
  | error e => cases e with
    | exn w =>
      refine iff_of_false (hmarked _ hasked) fun h => ?_
      obtain ⟨⟨d, hd', -⟩, -⟩ := h
      cases hd'
    | abort w => exact absurd (disabledIn_faults _ _ hd) (by simp [Json.exceptions])
  | ok disabled =>
    dsimp only
    by_cases href : (disabled && !force) = true
    · rw [if_pos href]
      refine iff_of_false (hmarked _ hasked) fun h => ?_
      obtain ⟨⟨d, hd', hf⟩, -⟩ := h
      cases hd'
      exact absurd (href.symm.trans hf) (by simp)
    · rw [if_neg href]
      by_cases hw : j.state = .waiting ∧ j.timerId.isSome
      · obtain ⟨id, hid⟩ := Option.isSome_iff_exists.mp hw.2
        obtain ⟨w, s', hrun, hj'⟩ := carryOut_throws hasked hw.1 hid fun fd hfd => hr hw.1 id fd hfd
        rw [hrun]
        exact iff_of_false (hmarked s' hj') fun h => h.2 hw
      · have hwp : wp (carryOut r) (fun b _ => b = true) (fun _ => False) (s.asked r) := carryOut_returns hasked hw
        refine iff_of_true ?_ ⟨⟨disabled, rfl, by simpa using href⟩, hw⟩
        unfold wp at hwp
        cases hrun : carryOut r (s.asked r) with
        | ok b s' =>
          rw [hrun] at hwp
          cases hwp
          trivial
        | throw w s' => rw [hrun] at hwp; exact hwp.elim
        | crash w => trivial

/-! ## The manager's calls -/

/-- The job is not loaded, the override cannot be written, or the unload settles after it. -/
def CallSettles (s : Sys) (j : Job) (overrideDisabled force : Bool) : Prop :=
  s.jobs.lookup j.label = none ∨ (overrideDisabled = false ∧ Settles j s.stateFile force) ∨
    (overrideDisabled = true ∧
      ∀ state, Manager.overridden j.label false s.stateFile = .ok state → s.CanRename → Settles j state force)

theorem unloadJobRef_eq (hj : s.heap r = some j) : Manager.unloadJobRef r overrideDisabled force s =
    if (s.jobs.lookup j.label).isSome then
      (if overrideDisabled then Manager.overrideJobEnabled j.label false >>= fun _ => Job.unloadJob r force
        else Job.unloadJob r force) s
    else .ok false s := by
  rw [Manager.unloadJobRef, bind_ok (this_ok hj), get_bind, ite_run]
  cases overrideDisabled <;> rfl

theorem unloadJobRef_refuses_iff (hj : s.heap r = some j)
    (hr : j.state = .waiting → ∀ id fd, s.timers.fds.lookup id = some fd → timerEpfd < fd) :
    RefusesCleanly r s (Manager.unloadJobRef r overrideDisabled force s) ↔ CallSettles s j overrideDisabled force := by
  rw [unloadJobRef_eq hj]
  cases hl : s.jobs.lookup j.label with
  | none => exact iff_of_true (Untouched.refl r s) (.inl hl)
  | some r' =>
    rw [if_pos Option.isSome_some, CallSettles, hl]
    cases overrideDisabled with
    | false =>
      have hiff : RefusesCleanly r s (Job.unloadJob r force s) ↔ Settles j s.stateFile force :=
        unloadJob_refuses_iff (.refl r s) hj hj hr
      rw [if_neg Bool.false_ne_true, hiff]
      simp
    | true =>
      rw [if_pos rfl]
      by_cases hover : ∃ state, Manager.overridden j.label false s.stateFile = .ok state ∧ s.CanRename
      · obtain ⟨state, hstate, hrename⟩ := hover
        have hsame : Untouched r s (s.stores j.label false state) := ⟨fun j hj => ⟨j, hj, rfl, rfl, rfl, rfl⟩, rfl, rfl⟩
        have hiff : RefusesCleanly r s (Job.unloadJob r force (s.stores j.label false state)) ↔ Settles j state force :=
          unloadJob_refuses_iff hsame hj hj hr
        rw [bind_ok (overrideJobEnabled_ok hstate hrename), hiff]
        constructor
        · refine fun hs => .inr (.inr ⟨rfl, fun state' hstate' _ => ?_⟩)
          cases hstate.symm.trans hstate'
          exact hs
        · intro h'
          rcases h' with h | ⟨h, -⟩ | ⟨-, h⟩
          · cases h
          · cases h
          · exact h state hstate hrename
      · have hno : ∀ state, Manager.overridden j.label false s.stateFile = .ok state → ¬ s.CanRename := fun state hs hc =>
          hover ⟨state, hs, hc⟩
        have hsettles : CallSettles s j true force := .inr (.inr ⟨rfl, fun state hs hc => absurd hc (hno state hs)⟩)
        rw [CallSettles, hl] at hsettles
        obtain ⟨w, hw | hw⟩ := overrideJobEnabled_fails hno
        · rw [bind_throw hw]
          exact iff_of_true (Untouched.refl r s) hsettles
        · rw [bind_throw hw]
          exact iff_of_true ⟨fun j hj => ⟨j, hj, rfl, rfl, rfl, rfl⟩, rfl, rfl⟩ hsettles

theorem unloadLabel_eq (hl : s.jobs.lookup label = some r) (hne : label.isEmpty = false) :
    Manager.unloadJob label overrideDisabled force s = Manager.unloadJobRef r overrideDisabled force s := by
  have hexists : Manager.jobExists label s = .ok true s := by
    rw [Manager.jobExists, Label.string, hne]
    show Res.ok (s.jobs.lookup label).isSome s = _
    rw [hl]
    rfl
  have hget : Manager.getJob label s = .ok r s := by
    rw [Manager.getJob, get_bind, hl]
    rfl
  rw [Manager.unloadJob, bind_ok hexists]
  exact bind_ok hget

/-! ## Reachable states -/

theorem reachable_label (h : Reachable s) (hj : s.heap r = some j) : j.label.isEmpty = false := by
  refine (Runs.of_reachable h).lives (Q := fun l => l.manifest.label.isEmpty = false) (fun m hm => hm.label)
    (fun s e r l a _ _ _ _ _ hl => ?_) r (s.tables.lifeOf r j) (fate_alive hj)
  rw [l.next_manifest]
  exact hl

/-- A job that waits for a timer has been bootstrapped, so the manager goes on. -/
theorem waiting_ranged (h : Reachable s) (hj : s.heap r = some j) (hs : j.state = .waiting) :
    ∀ id fd, s.timers.fds.lookup id = some fd → timerEpfd < fd := by
  have hl : s.tables.fate r = .alive (s.tables.lifeOf r j) := fate_alive hj
  rcases (Runs.of_reachable h).cases with hsound | ⟨s₀, e, w, -, hsound, -, -, -, hstill, hf⟩
  · exact fun id fd hfd => hsound.inv.timed.range fd (hsound.inv.timed.fds id fd hfd).2
  · obtain ⟨hw, hb⟩ := hf.life hstill.inv hl
    have hgood := good_of_alive hstill.inv hw
    have hloaded : j.state = .loaded := congrArg (·.state) (hgood.fresh hb)
    rw [hs] at hloaded
    cases hloaded

/-- An unload that returns false or throws leaves the job as it was if and only if it settles. -/
theorem refuses_cleanly_iff (h : Reachable s) (answers : Answers) (hj : s.heap r = some j) (overrideDisabled force : Bool) :
    (RefusesCleanly r (s.given answers) (Job.unloadJob r force (s.given answers)) ↔ Settles j s.stateFile force) ∧
    (RefusesCleanly r (s.given answers) (Manager.unloadJobRef r overrideDisabled force (s.given answers)) ↔
      CallSettles (s.given answers) j overrideDisabled force) ∧
    (∀ label, s.jobs.lookup label = some r →
      (RefusesCleanly r (s.given answers) (Manager.unloadJob label overrideDisabled force (s.given answers)) ↔
        CallSettles (s.given answers) j overrideDisabled force)) := by
  have hj' : (s.given answers).heap r = some j := hj
  have hranged : j.state = .waiting → ∀ id fd, s.timers.fds.lookup id = some fd → timerEpfd < fd := waiting_ranged h hj
  have hr : j.state = .waiting → ∀ id fd, (s.given answers).timers.fds.lookup id = some fd → timerEpfd < fd := hranged
  refine ⟨unloadJob_refuses_iff (.refl r _) hj' hj' hr, unloadJobRef_refuses_iff hj' hr, fun label hl => ?_⟩
  have hlabel : j.label = label := ((reachable_keyed h) label r (.inl hl)).2 j hj
  rw [unloadLabel_eq (show (s.given answers).jobs.lookup label = some r from hl) (hlabel ▸ reachable_label h hj)]
  exact unloadJobRef_refuses_iff hj' hr

/-- A job that is not started is loaded. -/
theorem exists_loaded : ∃ s j, Reachable s ∧ s.jobs.lookup "job" = some 0 ∧ s.heap 0 = some j ∧ j.label = "job" ∧
    j.state = .loaded ∧ j.unloadRequested = false ∧ Job.disabledIn j.manifest s.stateFile = .ok false ∧
    ∃ state, Manager.overridden "job" false s.stateFile = .ok state := by
  obtain ⟨s, hs, hp⟩ := reachable_of_run [startWith [] {}] (fun s => s.jobs.lookup "job" == some 0 &&
    ((Manager.overridden "job" false s.stateFile).toOption.isSome && (s.heap 0).any fun j => j.label == "job" &&
      (j.state == .loaded && (!j.unloadRequested && (Job.disabledIn j.manifest s.stateFile).toOption == some false)))) (by decide +kernel)
  simp only [Bool.and_eq_true, beq_iff_eq, Option.any_eq_true, Bool.not_eq_true'] at hp
  obtain ⟨hjobs, hover, j, hj, hlabel, hstate, hflag, hdis⟩ := hp
  refine ⟨s, j, hs, hjobs, hj, hlabel, hstate, hflag, ?_, ?_⟩
  · cases hd : Job.disabledIn j.manifest s.stateFile with
    | ok d => rw [hd] at hdis; cases hdis; rfl
    | error e => rw [hd] at hdis; cases hdis
  · cases hd : Manager.overridden "job" false s.stateFile with
    | ok state => exact ⟨state, rfl⟩
    | error e => rw [hd] at hover; cases hover

/-- An override that disables the job stands in the way of the unload it comes with. -/
theorem override_unsettles {state : Json} (hs : j.state ≠ .unloaded) (hu : j.unloadRequested = false)
    (hstate : Manager.overridden j.label false doc = .ok state) : ¬ Settles j state false := by
  intro h'
  rcases h' with h | h | ⟨⟨disabled, hd, hr⟩, -⟩
  · exact hs h
  · rw [hu] at h
    cases h
  · cases (disabledIn_overridden hstate).symm.trans hd
    cases hr

/-- The unload of a job with an override is refused, and the job stays marked. -/
theorem refused_marked : ¬ ∀ (s : Sys) (r : Ref) (j : Job) (answers : Answers) (overrideDisabled force : Bool),
    Reachable s → s.heap r = some j →
      RefusesCleanly r (s.given answers) (Job.unloadJob r force (s.given answers)) ∧
      RefusesCleanly r (s.given answers) (Manager.unloadJobRef r overrideDisabled force (s.given answers)) := by
  intro h
  obtain ⟨s, j, hs, hjobs, hj, hlabel, hstate, hflag, -, state, hover⟩ := exists_loaded
  have hj' : (s.given {}).heap 0 = some j := hj
  have hloaded : (s.given {}).jobs.lookup j.label = some 0 := hlabel ▸ hjobs
  have hclean := (h s 0 j {} true false hs hj).2
  rw [unloadJobRef_refuses_iff hj' fun hw => absurd (hstate.symm.trans hw) nofun] at hclean
  rcases hclean with hn | ⟨hn, -⟩ | ⟨-, hsettles⟩
  · cases hn.symm.trans hloaded
  · cases hn
  · have hover' : Manager.overridden j.label false s.stateFile = .ok state := hlabel ▸ hover
    exact override_unsettles (by rw [hstate]; exact nofun) hflag hover' (hsettles state hover' rfl)

/-- A job that runs is asked to unload, and asked again. -/
theorem refuses_cleanly_again : ∃ s s' : Sys, s.jobs.lookup "job" = some 0 ∧
    Manager.unloadJobRef 0 false false (s.given {}) = .ok false s' ∧
    RefusesCleanly 0 (s.given {}) (Manager.unloadJobRef 0 false false (s.given {})) := by
  obtain ⟨s, hs, hp⟩ := reachable_of_run [startWith [("RunAtLoad", .bool true)] {}, requestOf "remove" [("Label", .str "job")]]
    (fun s => s.jobs.lookup "job" == some 0 && ((s.heap 0).any fun j => j.unloadRequested && j.state == .running) &&
      passes (Manager.unloadJobRef 0 false false) (fun unloaded _ => !unloaded) (s.given {})) (by decide +kernel)
  simp only [Bool.and_eq_true, beq_iff_eq, Option.any_eq_true] at hp
  obtain ⟨⟨hjobs, j, hj, hflag, -⟩, hfalse⟩ := hp
  obtain ⟨unloaded, s', hrun, hfalse⟩ := of_passes hfalse
  cases (Bool.not_eq_true' unloaded).mp hfalse
  exact ⟨s, s', hjobs, hrun, (refuses_cleanly_iff hs {} hj false false).2.1.mpr (.inr (.inl ⟨rfl, .inr (.inl hflag)⟩))⟩

/-! ## Unloading with an override -/

/-- The override is stored, and the unload is carried out as it would be without. -/
structure CarriesOut (label : String) (r : Ref) (j : Job) (s s' : Sys) : Prop where
  returns : Manager.unloadJob label true false s = .ok true s'
  stores : Manager.overridden label false s.stateFile = .ok s'.stateFile
  unloads : ∃ j', s'.heap r = some j' ∧
    (j'.state = .unloaded ∧ s'.eventmgr.pendingEvents = s.eventmgr.pendingEvents ++ [.ipc "delete_job" label] ∨
      j'.state = .running ∧ s'.kernel.kills = s.kernel.kills ++ [⟨r, j.pid, SIGTERM, s.child r⟩])
  alike : ∃ s'', Manager.unloadJob label false false s = .ok true s'' ∧ s''.heap r = s'.heap r ∧
    s''.eventmgr = s'.eventmgr ∧ s''.kernel.kills = s'.kernel.kills

theorem unloadJobRef_overridden (hj : s.heap r = some j) (hl : (s.jobs.lookup j.label).isSome) :
    ∀ s', Manager.unloadJobRef r true false s ≠ .ok true s' := by
  intro s' hrun
  rw [unloadJobRef_eq hj, if_pos hl, if_pos rfl] at hrun
  by_cases hover : ∃ state, Manager.overridden j.label false s.stateFile = .ok state ∧ s.CanRename
  · obtain ⟨state, hstate, hrename⟩ := hover
    have hj' : (s.stores j.label false state).heap r = some j := hj
    rw [bind_ok (overrideJobEnabled_ok hstate hrename)] at hrun
    by_cases hi : j.state = .unloaded ∨ j.unloadRequested = true
    · rw [unloadJob_ignored hj' hi] at hrun
      cases hrun
    · rw [not_or, Bool.not_eq_true] at hi
      have hdis : Job.disabledIn j.manifest (s.stores j.label false state).stateFile = .ok true := disabledIn_overridden hstate
      rw [unloadJob_eq hj' hi.1 hi.2, hdis] at hrun
      cases hrun
  · obtain ⟨w, hw | hw⟩ := overrideJobEnabled_fails fun state hs hc => hover ⟨state, hs, hc⟩
    · rw [bind_throw hw] at hrun
      cases hrun
    · rw [bind_throw hw] at hrun
      cases hrun

theorem unloadJob_overridden (h : Reachable s) (answers : Answers) (hl : s.jobs.lookup label = some r) (hj : s.heap r = some j) :
    ∀ s', Manager.unloadJob label true false (s.given answers) ≠ .ok true s' := by
  have hlabel : j.label = label := ((reachable_keyed h) label r (.inl hl)).2 j hj
  have hl' : (s.given answers).jobs.lookup label = some r := hl
  rw [unloadLabel_eq hl' (hlabel ▸ reachable_label h hj)]
  exact unloadJobRef_overridden (show (s.given answers).heap r = some j from hj) (by rw [hlabel, hl']; rfl)

/-- No unload that comes with an override is carried out, unless it is forced. -/
theorem never_carries_out (h : Reachable s) (answers : Answers) (hl : s.jobs.lookup label = some r) (hj : s.heap r = some j) :
    ¬ ∃ s', CarriesOut label r j (s.given answers) s' := fun ⟨s', hc⟩ =>
  unloadJob_overridden h answers hl hj s' hc.returns

theorem never_carries_out_loaded : ∃ (s : Sys) (j : Job), s.heap 0 = some j ∧ ¬ ∃ s', CarriesOut "job" 0 j (s.given {}) s' := by
  obtain ⟨s, j, hs, hjobs, hj, -⟩ := exists_loaded
  exact ⟨s, j, hj, never_carries_out hs {} hjobs hj⟩

/-- A job that was loaded is unloaded with an override, to no effect. -/
theorem override_keeps_loaded : ¬ ∀ (s : Sys) (answers : Answers) (label : String) (r : Ref) (j : Job), Reachable s →
    s.jobs.lookup label = some r → s.heap r = some j → j.state ≠ .unloaded → j.unloadRequested = false →
      Job.disabledIn j.manifest s.stateFile = .ok false → ∃ s', CarriesOut label r j (s.given answers) s' := by
  intro h
  obtain ⟨s, j, hs, hjobs, hj, -, hstate, hflag, hdis, -⟩ := exists_loaded
  obtain ⟨s', hc⟩ := h s {} "job" 0 j hs hjobs hj (by rw [hstate]; exact nofun) hflag hdis
  exact unloadJob_overridden hs {} hjobs hj s' hc.returns

end Relaunchd
