/-
  Relaunchd.Properties.Periodic — the timer of a job with a `StartInterval`.

  The manual and the throttle count in seconds; `schedulePeriodicJob` hands the number to
  `addTimer` as milliseconds.
-/

import Relaunchd.Properties.Decoding
import Relaunchd.Properties.Timers

namespace Relaunchd

open Prog EventManager

variable {s s' : Sys} {r : Ref} {id N : Nat} {ms : Int} {kind : TimerKind} {j : Job} {m : Manifest}

/-- One timer is set, and waited for. -/
def SetsTimer (spec : Int × Int) (s s' : Sys) : Prop :=
  ∃ fd, s.kernel.timerfds.lookup fd = none ∧
    s'.kernel.timerfds = s.kernel.timerfds.insert fd { state := timerfdSettime s.kernel.now spec, watched := true }

/-- The timer that is set expires so many seconds later. -/
def ExpiresIn (seconds : Nat) (s s' : Sys) : Prop :=
  ∃ fd, s.kernel.timerfds.lookup fd = none ∧
    s'.kernel.timerfds.lookup fd = some { state := .armed (s.kernel.now + seconds * 1000), watched := true }

theorem monitorTimer_sets : wp (monitorTimer id ms) (fun _ s' => SetsTimer (timespecOf ms) s s') (fun _ => True) s := by
  rw [monitorTimer, wp_bind, wp, timerfdCreate_eq]
  cases s.timerAnswer with
  | noFd => trivial
  | noWatch want =>
    dsimp only
    rw [wp_bind, setTimerfd, wp_modify, wp_bind, wp_modify, wp_ite]
    split <;> trivial
  | watched want =>
    dsimp only
    rw [wp_bind, setTimerfd, wp_modify, wp_bind, wp_modify, wp_ite]
    split
    · trivial
    · refine ⟨s.kernel.freeFd want, (freeFd_free s.kernel want).1, ?_⟩
      show ((s.kernel.timerfds.insert _ _).insert _ _).insert _ _ = _
      rw [AList.insert_insert, AList.insert_insert]
      rfl

theorem addTimer_sets : wp (addTimer ms r kind) (fun _ s' => SetsTimer (timespecOf ms) s s') (fun _ => True) s := by
  have hnext : ∃ id, getNextTimerId s = .ok id (s.updateEventmgr fun m => { m with timerIdMax := id }) := ⟨_, rfl⟩
  obtain ⟨id, hid⟩ := hnext
  rw [addTimer, wp_bind, wp, hid]
  dsimp only
  rw [wp_bind]
  exact wp_mono monitorTimer_sets (fun _ _ h => h) fun _ _ => trivial

theorem schedulePeriodicJob_sets (hj : s.heap r = some j) (hi : j.manifest.startInterval = some N) :
    wp (Job.schedulePeriodicJob r) (fun _ s' => SetsTimer (timespecOf N) s s') (fun _ => True) s := by
  rw [Job.schedulePeriodicJob, wp_bind, wp_this hj, wp_ite, hi]
  split
  · trivial
  · rw [wp_bind]
    exact wp_mono addTimer_sets (fun _ _ h => h) fun _ _ => trivial

/-- A job that its Bootstrap has wait for its interval. -/
structure Periodic (s : Sys) (r : Ref) (m : Manifest) : Prop where
  loaded : ∃ j, s.heap r = some j ∧ j.manifest = m ∧ j.state = .loaded
  enabled : Job.disabledIn m s.stateFile = .ok false
  runAtLoad : m.runAtLoad = false
  keepAlive : m.keepAlive = false

theorem bootstrap_sets (hp : Periodic s r m) (hi : m.startInterval = some N) :
    wp (Job.execute r .bootstrap) (fun _ s' => SetsTimer (timespecOf N) s s') (fun _ => True) s := by
  obtain ⟨⟨j, hj, rfl, hs⟩, hd, hrun, hkeep⟩ := hp
  have hset := schedulePeriodicJob_sets hj hi
  have hlook : ∀ {Q : Bool → Sys → Prop} {E : Sys → Prop}, wp (Job.isDisabled r) Q E s = Q false s := by
    intro Q E
    rw [wp_isDisabled hj, hd]
    rfl
  rw [Job.execute, wp_executeNested hj]
  simp only [hs, Job.transitions, List.filter, decide_true, decide_false, reduceCtorEq, Fsm.wp_tryTransitions_cons, wp_bind,
    hlook, wp_ite, Bool.false_eq_true, if_false, wp_this hj, wp_pure, hrun, hkeep, Bool.or_self, hi, Option.isSome_some,
    Bool.not_false, Bool.and_self, if_true]
  exact wp_mono hset (fun _ _ h => h) fun _ _ => trivial

theorem periodic_startInterval {doc v : Json} (hm : Manifest.fromJson doc = .ok m) (hv : doc.member? "StartInterval" = some v)
    (hN : v = .int N ∨ v = .uint N) (hlt : N < 2 ^ 31) : m.startInterval = some N := by
  obtain ⟨-, rfl⟩ := Manifest.fromJson_ok.mp hm
  have hread : v.getUint32 = .ok N := by
    rcases hN with rfl | rfl
    · exact congrArg Except.ok (show ((N : Int) % 2 ^ 32).toNat = N by omega)
    · exact congrArg Except.ok (Nat.mod_eq_of_lt (by omega))
  exact Manifest.stored_eq .startInterval hv hread

theorem timespecOf_milliseconds (hlt : N < 2 ^ 31) : timespecOf N = (((N / 1000 : Nat) : Int), ((N % 1000 * 1000000 : Nat) : Int)) := by
  have hmod : (N : Int) % 2 ^ 64 = N := Int.emod_eq_of_lt (by omega) (by omega)
  have hbmod : ((N : Int) / 1000).bmod (2 ^ 32) = (N : Int) / 1000 := Int.bmod_eq_of_le (by omega) (by omega)
  simp only [timespecOf, hmod, hbmod]
  rfl

/-- So many milliseconds are what the timer is set to. -/
theorem timerfdSettime_milliseconds (now : Nat) (hpos : 0 < N) (hlt : N < 2 ^ 31) :
    timerfdSettime now (timespecOf N) = .armed (now + N) := by
  have hne : ¬ (((N / 1000 : Nat) : Int), ((N % 1000 * 1000000 : Nat) : Int)) = (0, 0) := by
    intro h
    obtain ⟨hsec, hnsec⟩ := Prod.mk.inj h
    omega
  rw [timespecOf_milliseconds hlt, timerfdSettime, if_neg hne]
  have hsum : N / 1000 * 1000 + N % 1000 * 1000000 / 1000000 = N := by omega
  exact congrArg TimerState.armed ((Nat.add_assoc ..).trans (congrArg (now + ·) hsum))

/-- The timer of a periodic job does not expire after its interval, whatever that is. -/
theorem periodic_never {doc v : Json} (hm : Manifest.fromJson doc = .ok m) (hv : doc.member? "StartInterval" = some v)
    (hN : v = .int N ∨ v = .uint N) (hpos : 0 < N) (hlt : N < 2 ^ 31) (hp : Periodic s r m)
    (hrun : Job.execute r .bootstrap s = .ok () s') : ¬ ExpiresIn N s s' := by
  have hsets : wp (Job.execute r .bootstrap) (fun _ s' => SetsTimer (timespecOf N) s s') (fun _ => True) s :=
    bootstrap_sets hp (periodic_startInterval hm hv hN hlt)
  obtain ⟨fd, hfd, hset⟩ := wp_ok hsets hrun
  intro h
  obtain ⟨fd', hfd', hexp⟩ := h
  rw [hset] at hexp
  by_cases e : fd' = fd
  · subst e
    rw [AList.lookup_insert, timerfdSettime_milliseconds _ hpos hlt] at hexp
    injection hexp with hexp
    injection hexp with hstate
    injection hstate with hdue
    omega
  · rw [AList.lookup_insert_ne e, hfd'] at hexp
    cases hexp

def everySecond : Json := Manifest.jobWith [("StartInterval", .uint 1)]

def everySecondManifest : Manifest :=
  { label := "job", program := some "/bin/job", programArguments := ["/bin/job"], startInterval := some 1 }

theorem everySecond_decoded : Manifest.fromJson everySecond = .ok everySecondManifest := by decide +kernel

def everySecondLoaded : Sys := newManager.pends everySecondManifest "job.json"

theorem everySecond_periodic : Periodic everySecondLoaded 0 everySecondManifest :=
  ⟨⟨_, rfl, rfl, rfl⟩, by decide +kernel, rfl, rfl⟩

theorem everySecond_booted : ∃ s', Job.execute 0 .bootstrap everySecondLoaded = .ok () s' := by
  have h : (final? (Job.execute 0 .bootstrap) everySecondLoaded).isSome := by decide +kernel
  obtain ⟨s', hs⟩ := Option.isSome_iff_exists.mp h
  obtain ⟨u, hs⟩ := final?_eq_some.mp hs
  exact ⟨s', hs⟩

theorem periodic_never_second : ∃ s', Job.execute 0 .bootstrap everySecondLoaded = .ok () s' ∧
    ¬ ExpiresIn 1 everySecondLoaded s' := by
  obtain ⟨s', hs⟩ := everySecond_booted
  exact ⟨s', hs, periodic_never (N := 1) everySecond_decoded rfl (.inr rfl) (by decide) (by decide) everySecond_periodic hs⟩

/-- The timer of a job that is to start every second expires after a millisecond. -/
theorem second_is_millisecond : ¬ ∀ (doc v : Json) (m : Manifest) (N : Nat) (s s' : Sys) (r : Ref),
    Manifest.fromJson doc = .ok m → doc.member? "StartInterval" = some v → (v = .int N ∨ v = .uint N) → 0 < N → N < 2 ^ 31 →
    Periodic s r m → Job.execute r .bootstrap s = .ok () s' → ExpiresIn N s s' := by
  intro h
  obtain ⟨s', hs⟩ := everySecond_booted
  obtain ⟨fd, hfd, hexp⟩ := h _ _ _ 1 _ _ _ everySecond_decoded rfl (.inr rfl) (by decide) (by decide) everySecond_periodic hs
  have hsets : wp (Job.execute 0 .bootstrap) (fun _ s' => SetsTimer (timespecOf (1 : Nat)) everySecondLoaded s') (fun _ => True)
      everySecondLoaded := bootstrap_sets everySecond_periodic rfl
  obtain ⟨fd', hfd', hset⟩ := wp_ok hsets hs
  rw [hset] at hexp
  by_cases e : fd = fd'
  · subst e
    rw [AList.lookup_insert] at hexp
    exact absurd hexp (by decide +kernel)
  · rw [AList.lookup_insert_ne e, hfd] at hexp
    cases hexp

end Relaunchd
