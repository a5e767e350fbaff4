/-
  Relaunchd.Refinement.Timers — setting and cancelling a job's timer.
-/

import Relaunchd.Refinement.Frame

namespace Relaunchd

open Prog EventManager Tables

variable {busy : Option Int} {r : Ref} {l : Life} {s s' : Sys} {j : Job}

/-! ## Fresh ids and descriptors -/

theorem lt_nextTimerIdFrom (used : Nat → Bool) (fuel max : Nat) : max < nextTimerIdFrom used fuel max := by
  induction fuel generalizing max with
  | zero => exact Nat.lt_succ_self max
  | succ fuel ih =>
    rw [nextTimerIdFrom]
    split
    · exact lt_trans (by omega) (ih (max + 2))
    · exact Nat.lt_succ_self max

theorem foldl_max_fd (fds : List Fd) (m : Nat) : m ≤ fds.foldl max m ∧ ∀ fd ∈ fds, fd ≤ fds.foldl max m := by
  induction fds generalizing m with
  | nil => simp
  | cons q fds ih =>
    obtain ⟨h1, h2⟩ := ih (max m q)
    refine ⟨le_trans (le_max_left _ _) h1, fun fd hfd => ?_⟩
    rcases List.mem_cons.mp hfd with rfl | hfd
    · exact le_trans (le_max_right _ _) h1
    · exact h2 fd hfd

theorem freeFd_free (k : Kernel) (want : Fd) : k.timerfds.lookup (k.freeFd want) = none ∧ timerEpfd < k.freeFd want := by
  by_cases h : (timerEpfd < want && (k.timerfds.lookup want).isNone) = true
  · rw [Kernel.freeFd, if_pos h]
    simp only [Bool.and_eq_true, decide_eq_true_eq, Option.isNone_iff_eq_none] at h
    exact ⟨h.2, h.1⟩
  · rw [Kernel.freeFd, if_neg h]
    obtain ⟨h1, h2⟩ := foldl_max_fd k.timerfds.keys timerEpfd
    refine ⟨AList.lookup_eq_none.mpr fun hm => ?_, Nat.lt_succ_of_le h1⟩
    exact absurd (h2 _ hm) (Nat.not_succ_le_self _)

/-! ## Setting a timer -/

def TimerAnswer.fails : TimerAnswer → Bool
  | .watched _ => false
  | _ => true

structure Scheduled (r : Ref) (kind : TimerKind) (arming : Arming) (id : Nat) (s s' : Sys) : Prop where
  fresh : s.eventmgr.timerIdMax < id
  set : ∃ (fd : Fd) (st : TimerState), s.kernel.timerfds.lookup fd = none ∧ timerEpfd < fd ∧ .of st = arming ∧
    s'.tables = s.tables.scheduled id fd st r kind
  keeps : Keeps s s'

structure Unscheduled (busy : Option Int) (s s' : Sys) : Prop where
  inv : s'.tables.Inv busy
  fates : ∀ r, s'.tables.fate r = s.tables.fate r
  keeps : Keeps s s'

theorem getNextTimerId_spec {E : Sys → Prop} :
    wp getNextTimerId (fun id s' => s.eventmgr.timerIdMax < id ∧ s'.kernel = s.kernel ∧ s'.tables = s.tables.bumped id ∧
      Keeps s s') E s := by
  simp only [getNextTimerId, wp_bind, wp_get, wp_modify, wp_pure]
  exact ⟨lt_nextTimerIdFrom .., rfl, rfl, rfl, rfl, rfl, rfl, rfl, rfl, .refl _⟩

theorem timerfdCreate_spec :
    wp timerfdCreate
      (fun c s' => s.kernel.timerfds.lookup c.1 = none ∧ timerEpfd < c.1 ∧
        (c.2 = false → ∃ a ∈ s.kernel.answers.timers, a.fails) ∧ Took s s')
      (fun s' => (∃ a ∈ s.kernel.answers.timers, a.fails) ∧ Took s s') s := by
  rw [timerfdCreate, nextTimer, wp_bind, wp_answer]
  have hm := mem_or_headD s.kernel.answers.timers (.watched 0)
  have hk : Keeps s (s.updateKernel fun k => { k with answers := { k.answers with timers := k.answers.timers.tail } }) :=
    ⟨rfl, rfl, rfl, rfl, rfl, rfl, left_tail.2.2.2.1⟩
  have hfree := freeFd_free s.kernel
  cases ha : s.kernel.answers.timers.headD (.watched 0) with
  | noFd =>
    rw [ha] at hm
    exact ⟨⟨_, hm.resolve_right nofun, rfl⟩, rfl, hk, rfl⟩
  | noWatch want =>
    rw [ha] at hm
    exact ⟨(hfree want).1, (hfree want).2, fun _ => ⟨_, hm.resolve_right nofun, rfl⟩, rfl, hk, rfl⟩
  | watched want => exact ⟨(hfree want).1, (hfree want).2, nofun, rfl, hk, rfl⟩

theorem timespecOf_seconds {k : Int} (h₀ : 0 ≤ k) (h : k < 2 ^ 32) : timespecOf (k * 1000) = (k.bmod (2 ^ 32), 0) := by
  have hmod : k * 1000 % 2 ^ 64 = k * 1000 := Int.emod_eq_of_lt (by omega) (by omega)
  simp only [timespecOf, hmod, Int.mul_ediv_cancel k (by decide : (1000 : Int) ≠ 0), Int.mul_emod_left, Int.zero_mul]

theorem neg_of_failed {now : Nat} {ms : Int} (h : Arming.ofMilliseconds now ms = .failed) : (timespecOf ms).1 < 0 := by
  unfold Arming.ofMilliseconds at h
  by_contra hn
  rw [if_neg hn] at h
  cases hst : timerfdSettime now (timespecOf ms) <;> rw [hst] at h <;> cases h

/-- A descriptor that does not come to be waited for is opened. -/
theorem Unscheduled.leak (h : Unscheduled busy s s') {fd : Fd} (hfd : s'.kernel.timerfds.lookup fd = none)
    (hr : timerEpfd < fd) {st : TimerState} {s'' : Sys} (ht : s''.tables = s'.tables.leaked fd st) (hk : Keeps s' s'') :
    Unscheduled busy s s'' :=
  ⟨ht ▸ h.inv.leaked hfd hr, fun r => by rw [ht, fate_leaked h.inv hfd, h.fates], h.keeps.trans hk⟩

def Tables.withTimer (t : Tables) (fd : Fd) (tfd : TimerFd) : Tables := { t with timerfds := t.timerfds.insert fd tfd }

theorem setTimerfd_spec {E : Sys → Prop} (fd : Fd) (watched : Bool) (st : Kernel → TimerState) :
    wp (setTimerfd fd watched st) (fun _ s' => s'.tables = s.tables.withTimer fd { state := st s.kernel, watched } ∧
      s'.kernel.now = s.kernel.now ∧ Keeps s s') E s :=
  ⟨rfl, rfl, rfl, rfl, rfl, rfl, rfl, rfl, .refl _⟩

def monitored (t : Tables) (timerId : Nat) (fd : Fd) (st : TimerState) : Tables := { t with
  timerfds := t.timerfds.insert fd { state := st, watched := true }
  eventmgr := { t.eventmgr with
    cleanupFds := insert fd t.eventmgr.cleanupFds
    timerfdMap := insertNew timerId fd t.eventmgr.timerfdMap } }

theorem withTimer_leaked {t : Tables} {fd : Fd} {st st' : TimerState} :
    (t.leaked fd st).withTimer fd { state := st', watched := false } = t.leaked fd st' := by
  unfold Tables.withTimer leaked
  rw [AList.insert_insert]

theorem monitorTimer_spec (h : Unscheduled busy s s') (timerId : Nat) (ms : Int) :
    wp (monitorTimer timerId ms)
      (fun _ s'' => Arming.ofMilliseconds s'.kernel.now ms ≠ .failed ∧ ∃ (fd : Fd) (st : TimerState),
        s'.kernel.timerfds.lookup fd = none ∧ timerEpfd < fd ∧ .of st = Arming.ofMilliseconds s'.kernel.now ms ∧
        s''.tables = monitored s'.tables timerId fd st ∧ Keeps s' s'')
      (fun s'' => ((∃ a ∈ s'.kernel.answers.timers, a.fails) ∨ Arming.ofMilliseconds s'.kernel.now ms = .failed) ∧
        Unscheduled busy s s'') s' := by
  rw [monitorTimer, wp_bind]
  refine wp_mono timerfdCreate_spec ?_ fun s₁ hs => ?_
  · rintro ⟨fd, watched⟩ s₁ ⟨hfd, hr, hw, ht₁⟩
    have hfd₁ : s₁.kernel.timerfds.lookup fd = none := (congrArg (fun t => t.timerfds.lookup fd) ht₁.tables).trans hfd
    have h₁ : Unscheduled busy s s₁ := ⟨ht₁.tables ▸ h.inv, fun r => by rw [ht₁.tables, h.fates], h.keeps.trans ht₁.keeps⟩
    dsimp only
    rw [wp_bind]
    refine wp_mono (setTimerfd_spec ..) ?_ fun _ => id
    intro _ s₂ h'
    obtain ⟨ht₂, hn₂, hk₂⟩ := h'
    have hnow : s₂.kernel.now = s'.kernel.now := by rw [hn₂, ← Sys.clock_zero, ht₁.clock, Sys.clock_zero]
    rw [wp_bind, wp_modify]
    obtain ⟨s₃, hs₃⟩ : ∃ s₃, s₃ = s₂.updateEventmgr fun m => { m with cleanupFds := insert fd m.cleanupFds } := ⟨_, rfl⟩
    have ht₃ : s₃.tables = s₁.tables.leaked fd .disarmed := by
      have : s₃.tables = { s₂.tables with eventmgr := { s₂.tables.eventmgr with
        cleanupFds := insert fd s₂.tables.eventmgr.cleanupFds } } := by rw [hs₃]; rfl
      rw [this, ht₂]
      rfl
    have hk₃ : Keeps s₁ s₃ := hs₃ ▸ hk₂.trans ⟨rfl, rfl, rfl, rfl, rfl, rfl, .refl _⟩
    have hnow₃ : s₃.kernel.now = s'.kernel.now := by rw [hs₃]; exact hnow
    rw [← hs₃, wp_ite]
    split
    · rename_i hneg
      exact ⟨.inr (if_pos hneg), h₁.leak hfd₁ hr ht₃ hk₃⟩
    · rename_i hneg
      rw [wp_bind]
      refine wp_mono (setTimerfd_spec ..) ?_ fun _ => id
      intro _ s₄ h'
      obtain ⟨ht₄, hn₄, hk₄⟩ := h'
      rw [ht₃, withTimer_leaked] at ht₄
      rw [wp_ite]
      split
      · rw [wp_bind]
        refine wp_mono (setTimerfd_spec ..) ?_ fun _ => id
        intro _ s₅ h'
        obtain ⟨ht₅, -, hk₅⟩ := h'
        rw [wp_modify]
        refine ⟨fun hf => hneg (neg_of_failed hf), fd, timerfdSettime s₄.kernel.now (timespecOf ms), hfd, hr,
          by rw [hn₄, hnow₃, Arming.ofMilliseconds, if_neg hneg], ?_,
          ht₁.keeps.trans (hk₃.trans (hk₄.trans (hk₅.trans ⟨rfl, rfl, rfl, rfl, rfl, rfl, .refl _⟩)))⟩
        rw [← ht₁.tables]
        have : Sys.tables (s₅.updateEventmgr fun m => { m with timerfdMap := insertNew timerId fd m.timerfdMap }) =
            { s₅.tables with eventmgr := { s₅.tables.eventmgr with
              timerfdMap := insertNew timerId fd s₅.tables.eventmgr.timerfdMap } } := rfl
        rw [this, ht₅, ht₄]
        simp only [Tables.withTimer, leaked, monitored, AList.insert_insert]
      · rename_i hw'
        exact ⟨.inl (hw (by simpa using hw')), h₁.leak hfd₁ hr ht₄ (hk₃.trans hk₄)⟩
  · exact ⟨.inl hs.1, hs.2.tables ▸ h.inv, fun r => by rw [hs.2.tables, h.fates], h.keeps.trans hs.2.keeps⟩

theorem addTimer_spec (h : s.tables.Inv busy) (ms : Int) (r : Ref) (kind : TimerKind) :
    wp (addTimer ms r kind)
      (fun timerId s' => Arming.ofMilliseconds s.kernel.now ms ≠ .failed ∧
        Scheduled r kind (.ofMilliseconds s.kernel.now ms) timerId s s')
      (fun s' => ((∃ a ∈ s.kernel.answers.timers, a.fails) ∨ Arming.ofMilliseconds s.kernel.now ms = .failed) ∧
        Unscheduled busy s s') s := by
  rw [addTimer, wp_bind]
  refine wp_mono getNextTimerId_spec ?_ fun _ => id
  intro timerId s₁ h'
  obtain ⟨hid, hkern, ht₁, hk₁⟩ := h'
  have h₁ : Unscheduled busy s s₁ :=
    ⟨ht₁ ▸ h.bumped (le_of_lt hid), fun r => by rw [ht₁, fate_bumped], hk₁⟩
  rw [wp_bind, ← hkern]
  refine wp_mono (monitorTimer_spec h₁ timerId ms) ?_ fun _ => id
  intro _ s₂ h'
  obtain ⟨hne, fd, st, hfd, hr, hst, ht₂, hk₂⟩ := h'
  rw [wp_bind, wp_modify, wp_pure]
  refine ⟨hne, hid, ⟨fd, st, hkern ▸ hfd, hr, hst, ?_⟩, hk₁.trans (hk₂.trans ⟨rfl, rfl, rfl, rfl, rfl, rfl, .refl _⟩)⟩
  have : Sys.tables (s₂.updateEventmgr fun m => { m with timerCallbacks := insertNew timerId (r, kind) m.timerCallbacks }) =
      { s₂.tables with eventmgr := { s₂.tables.eventmgr with
        timerCallbacks := insertNew timerId (r, kind) s₂.tables.eventmgr.timerCallbacks } } := rfl
  rw [this, ht₂, ht₁]
  rfl

def waitFor (s : Sys) (r : Ref) (timerId : Nat) : Sys :=
  (s.updateJob r fun j => { j with timerId := some timerId }).updateJob r fun j => { j with state := .waiting }

theorem Scheduled.moves (h : s.tables.Inv busy) (hl : s.tables.fate r = .alive l) (hi : l.Idle) (hb : l.boot ≠ .pending)
    (hs : l.state ≠ .unloaded) {kind : TimerKind} {arming : Arming} {timerId : Nat}
    (hsch : Scheduled r kind arming timerId s s') : Moves busy r (l.wait kind arming) s (waitFor s' r timerId) := by
  obtain ⟨j, hj, rfl⟩ := fate_eq_alive hl
  obtain ⟨hid, ⟨fd, st, hfd, hr, rfl, ht⟩, hk⟩ := hsch
  have hnone : j.timerId = none := Option.not_isSome_iff_eq_none.mp (by rw [show j.timerId.isSome = false from hi.2]; exact nofun)
  have hj' : s'.heap r = some j := (congrArg (fun t => t.heap r) ht).trans hj
  have htab : (waitFor s' r timerId).tables =
      (s.tables.scheduled timerId fd st r kind).put r { j with timerId := some timerId, state := .waiting } := by
    rw [waitFor, tables_updateJob (Sys.updateJob_self hj'), tables_updateJob hj', put_put, ht]
  refine ⟨?_, ?_, fun r' hne => ?_, hk.trans ((keeps_updateJob ..).trans (keeps_updateJob ..))⟩ <;> rw [htab]
  · exact h.scheduled hid hfd hr hj hnone hs (Option.map_eq_none_iff.mp hi.1) hb
  · rw [fate_put_self, ← lifeOf_scheduled h hid hnone]
  · rw [fate_put_ne hne, fate_scheduled_ne h hid hfd hne]

theorem wp_elapsed {Q : Int → Sys → Prop} {E : Sys → Prop} (hj : s.heap r = some j)
    (h : Q ((s.tables.lifeOf r j).elapsed (s.clock 1 / 1000)) s.ticked) : wp (Job.elapsed r) Q E s := by
  rw [Job.elapsed, wp_bind, wp_currentTime, wp_bind, wp_this (show s.ticked.heap r = some j from hj)]
  cases hst : j.startedAt with
  | none => trivial
  | some st =>
    rw [Life.elapsed, show (s.tables.lifeOf r j).startedAt = some st from hst] at h
    exact h

theorem wp_shouldThrottle {Q : Bool → Sys → Prop} {E : Sys → Prop} (hj : s.heap r = some j)
    (h : Q ((s.tables.lifeOf r j).throttled (s.clock 1 / 1000)) s.ticked) : wp (Job.shouldThrottle r) Q E s := by
  rw [Job.shouldThrottle, wp_bind]
  apply wp_elapsed hj
  rw [wp_bind, wp_this (show s.ticked.heap r = some j from hj)]
  exact h

theorem Unscheduled.moves (h : Unscheduled busy s s') (hl : s.tables.fate r = .alive l) : Moves busy r l s s' :=
  ⟨h.inv, (h.fates r).trans hl, fun r' _ => h.fates r', h.keeps⟩

section Wait

variable (h : s.tables.Inv busy) (hl : s.tables.fate r = .alive l) (hi : l.Idle) (hb : l.boot ≠ .pending)
  (hs : l.state ≠ .unloaded)

include h hl hi hb hs

theorem startAfterThrottleInterval_spec :
    wp (Job.startAfterThrottleInterval r)
      (fun _ s' => l.throttleArming (s.clock 1) ≠ .failed ∧
        Moves busy r (l.wait .throttle (l.throttleArming (s.clock 1))) s
          (s'.updateJob r fun j => { j with state := .waiting })) (fun _ => True) s := by
  obtain ⟨j, hj, rfl⟩ := fate_eq_alive hl
  rw [Job.startAfterThrottleInterval, wp_bind]
  apply wp_elapsed hj
  rw [wp_bind, wp_this (show s.ticked.heap r = some j from hj), wp_bind]
  refine wp_mono (addTimer_spec (show s.ticked.tables.Inv busy from h) _ r .throttle) ?_ fun _ _ => trivial
  intro timerId s' h'
  obtain ⟨hne, hsch⟩ := h'
  rw [← Sys.clock_one] at hne hsch
  refine ⟨hne, ?_⟩
  refine Moves.after ?_ (show s.ticked.tables = s.tables from rfl) (keeps_ticked s)
  exact Scheduled.moves (s := s.ticked) h hl hi hb hs hsch

theorem schedulePeriodicJob_spec {interval : Nat} (hsi : l.manifest.startInterval = some interval) :
    wp (Job.schedulePeriodicJob r)
      (fun _ s' => Moves busy r (l.wait .periodic (.ofMilliseconds s.kernel.now interval)) s
        (s'.updateJob r fun j => { j with state := .waiting }))
      (fun s' => ((∃ a ∈ s.kernel.answers.timers, a.fails) ∨ Arming.ofMilliseconds s.kernel.now interval = .failed) ∧
        Moves busy r l s s') s := by
  obtain ⟨j, hj, rfl⟩ := fate_eq_alive hl
  have hnone : j.timerId.isSome = false := hi.2
  have hsi' : j.manifest.startInterval = some interval := hsi
  rw [Job.schedulePeriodicJob, wp_bind, wp_this hj, hnone, if_neg Bool.false_ne_true, hsi']
  dsimp only
  rw [wp_bind]
  refine wp_mono (addTimer_spec h _ r .periodic) ?_ fun s' hun => ⟨hun.1, hun.2.moves hl⟩
  intro timerId s' h'
  obtain ⟨-, hsch⟩ := h'
  exact hsch.moves h hl hi hb hs

end Wait

/-! ## Cancelling a timer -/

theorem not_interesting {fd : Fd} (h : timerEpfd < fd) : fd ∉ epfdInterest := by
  have hmax : ∀ fd ∈ epfdInterest, fd ≤ timerEpfd := by decide
  exact fun hm => absurd (hmax fd hm) (Nat.not_le.mpr h)

theorem cancelTimer_spec (h : s.tables.Inv busy) (hl : s.tables.fate r = .alive l) (ht : l.timerSet) :
    wp (Job.cancelTimer r) (fun _ _ => False) (Moves busy r { l with timer := none } s) s := by
  obtain ⟨j, hj, rfl⟩ := fate_eq_alive hl
  obtain ⟨timerId, hid⟩ := Option.isSome_iff_exists.mp ht
  rw [Job.cancelTimer, wp_bind, wp_this hj, hid]
  dsimp only
  rw [wp_bind, deleteTimer, wp_bind, ignoreTimer, wp_bind, wp_get]
  cases hm : s.eventmgr.timerfdMap.lookup timerId with
  | none =>
    -- the timer is not known to the backend any more, so it cannot be armed
    have hnone : s.tables.timerOf r (some timerId) = none := timerOf_no_fd hm
    refine ⟨h, ?_, fun _ _ => rfl, Keeps.refl s⟩
    rw [fate_alive hj]
    congr 1
    unfold lifeOf
    rw [hid, hnone]
  | some fd =>
    obtain ⟨hinv, hlife, hothers⟩ := h.closed hm hj hid
    have hfd : fd ∉ epfdInterest := not_interesting (h.timed.range fd (h.timed.fds timerId fd hm).2)
    dsimp only
    rw [wp_bind, wp_modify, wp_bind, wp_modify, wp_ite, if_neg hfd]
    refine ⟨hinv, ?_, hothers, ⟨rfl, rfl, rfl, rfl, rfl, rfl, .refl _⟩⟩
    exact (fate_alive (show (s.tables.closed timerId fd).heap r = some j from hj)).trans (congrArg Fate.alive hlife)

/-- An action that starts by cancelling the timer, when there is one. -/
theorem cancelTimerIfSet_spec (h : s.tables.Inv busy) (hl : s.tables.fate r = .alive l) :
    wp (Job.cancelTimerIfSet r) (fun _ s' => l.timerSet = false ∧ s' = s)
      (fun s' => l.timerSet ∧ Moves busy r { l with timer := none } s s') s := by
  obtain ⟨j, hj, rfl⟩ := fate_eq_alive hl
  rw [Job.cancelTimerIfSet, wp_bind, wp_this hj, wp_ite]
  split
  · rename_i ht
    exact wp_mono (cancelTimer_spec h hl ht) (fun _ _ => False.elim) fun _ hm => ⟨ht, hm⟩
  · rename_i ht
    exact ⟨Bool.not_eq_true _ ▸ ht, rfl⟩

end Relaunchd
