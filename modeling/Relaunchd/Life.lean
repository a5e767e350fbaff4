/-
  Relaunchd.Life — the life of one job, without the tables it is spread over.

  A `Life` is what one job amounts to at a moment: its state, its child, the timer it waits
  for, and how often it was started, signalled and told of an exit. A `Turn` is one thing
  that happens to it, with the answers the system gave; `Life.next` says what becomes of
  the life then. `Relaunchd.Refinement` proves that every step of the program gives every
  job such turns and nothing else, so a property of all lives is a property of the program.
-/

import Relaunchd.Run

namespace Relaunchd

inductive Start where
  | noPipe
  | noFork
  | noExec
  /-- The program runs, but `addProcess` throws. -/
  | unwatched (pid : Int)
  | started (pid : Int)
  deriving DecidableEq, Repr

def Start.throws : Start → Bool
  | .noPipe | .unwatched _ => true
  | _ => false

inductive Arming where
  | failed
  /-- The timer is registered but will not expire. -/
  | disarmed
  | armed (due : Nat)
  deriving DecidableEq, Repr

def Arming.of : TimerState → Arming
  | .disarmed => .disarmed
  | .armed deadline => .armed deadline

/-- What becomes of a timer set for so many milliseconds, short of a failing system call. -/
def Arming.ofMilliseconds (now : Nat) (ms : Int) : Arming :=
  if (timespecOf ms).1 < 0 then .failed else .of (EventManager.timerfdSettime now (timespecOf ms))

structure History where
  /-- The child: the program runs, and its exit was not dispatched. -/
  child : Option Int := none
  /-- How many processes were forked for the job. -/
  forks : Nat := 0
  /-- When they were, in order, by the clock's milliseconds. -/
  forkedAt : List Nat := []
  /-- How many exits were dispatched. -/
  exits : Nat := 0
  /-- The pids that went to `kill(2)`. -/
  kills : List Int := []

structure Life extends History where
  manifest : Manifest
  state : Job.States := .loaded
  pid : Int := 0
  startedAt : Option Nat := none
  unloadRequested : Bool := false
  boot : Boot := .pending
  sigterm : Bool := false
  /-- `timer_id` is set. -/
  timerSet : Bool := false
  /-- The callback of the timer `timer_id` names, if that timer is still to expire, and when. -/
  timer : Option (TimerKind × Nat) := none

/-- `clock n` is what the clock shows, in milliseconds, when the turn takes time for the
    `n`-th time. -/
inductive Turn where
  | boot (lookup : Decode Bool) (clock : Nat → Nat) (start : Start) (arming : Arming)
  | exit (clock : Nat → Nat) (start : Start)
  | throttleFires (clock : Nat → Nat) (start : Start)
  | periodicFires (clock : Nat → Nat) (start : Start)
  | unload (lookup : Decode Bool) (force sent : Bool)
  | kill

def Start.Sound : Start → Prop
  | .unwatched pid | .started pid => 0 < pid
  | _ => True

namespace Life

/-! ## What happens to a life -/

/-- `startJob`; the clock is read on entry and after the fork. -/
def start (clock : Nat → Nat) : Start → Life → Life
  | .noPipe, l => { l with startedAt := some (clock 1 / 1000) }
  | .noFork, l => { l with startedAt := some (clock 1 / 1000), pid := -1 }
  | .noExec, l =>
    { l with
      startedAt := some (clock 3 / 1000), pid := 0, sigterm := false
      forks := l.forks + 1, forkedAt := l.forkedAt ++ [clock 2] }
  | .unwatched pid, l | .started pid, l =>
    { l with
      startedAt := some (clock 3 / 1000), pid, sigterm := false, child := some pid
      forks := l.forks + 1, forkedAt := l.forkedAt ++ [clock 2] }

def enter (state : Job.States) (how : Start) (l : Life) : Life := if how.throws then l else { l with state }

def wait (kind : TimerKind) : Arming → Life → Life
  | .failed, l => l
  | .disarmed, l => { l with state := .waiting, timerSet := true }
  | .armed due, l => { l with state := .waiting, timerSet := true, timer := some (kind, due) }

def elapsed (l : Life) (t : Nat) : Int := t - l.startedAt.getD 0

/-- `shouldThrottle`, when the clock reads `t`. -/
def throttled (l : Life) (t : Nat) : Bool := l.elapsed t < l.manifest.throttleInterval

/-- The timer `startAfterThrottleInterval` sets, when the clock shows `now`. -/
def throttleArming (l : Life) (now : Nat) : Arming :=
  .ofMilliseconds now ((l.manifest.throttleInterval - l.elapsed (now / 1000)) * 1000)

def bootTriggered (lookup : Decode Bool) (clock : Nat → Nat) (how : Start) (arming : Arming) (l : Life) : Life :=
  match lookup with
  | .ok false =>
    if l.manifest.runAtLoad || l.manifest.keepAlive then (l.start clock how).enter .running how
    else if l.manifest.startInterval.isSome then l.wait .periodic arming
    else l
  | _ => l

/-- Bootstrap starts the job, or has it wait, or leaves it. -/
theorem bootTriggered_cases {P : Life → Prop} {l : Life} (lookup : Decode Bool) (clock : Nat → Nat) (how : Start) (arming : Arming)
    (ignored : P l)
    (started : lookup = .ok false → (l.manifest.runAtLoad || l.manifest.keepAlive) = true →
      P ((l.start clock how).enter .running how))
    (waited : lookup = .ok false → (l.manifest.runAtLoad || l.manifest.keepAlive) = false → l.manifest.startInterval.isSome →
      P (l.wait .periodic arming)) : P (l.bootTriggered lookup clock how arming) := by
  unfold bootTriggered
  split
  · split
    · exact started rfl ‹_›
    · split
      · exact waited rfl (by simpa using ‹¬ (l.manifest.runAtLoad || l.manifest.keepAlive) = true›) ‹_›
      · exact ignored
  · exact ignored

def bootstrap (lookup : Decode Bool) (clock : Nat → Nat) (how : Start) (arming : Arming) (l : Life) : Life :=
  bootTriggered lookup clock how arming { l with boot := Manager.bootOf lookup }

/-- The exit of the child is dispatched to the job. -/
def reap (l : Life) : Life := { l with pid := 0, child := none, exits := l.exits + 1 }

@[simp] theorem reap_state (l : Life) : l.reap.state = l.state := rfl
@[simp] theorem reap_manifest (l : Life) : l.reap.manifest = l.manifest := rfl
@[simp] theorem reap_unloadRequested (l : Life) : l.reap.unloadRequested = l.unloadRequested := rfl
@[simp] theorem reap_throttled (l : Life) (t : Nat) : l.reap.throttled t = l.throttled t := rfl

/-- The exit is followed by a start, when the clock reads `t` then. -/
def restarts (t : Nat) (l : Life) : Bool :=
  l.state = .running && l.manifest.keepAlive && !l.throttled t && !l.unloadRequested

/-- The exit is followed by a wait, when the clock reads `t₁` and then `t₂`. -/
def awaits (t₁ t₂ : Nat) (l : Life) : Bool :=
  l.state = .running && l.manifest.keepAlive && l.throttled t₁ && l.throttled t₂ && !l.unloadRequested

theorem restarts_iff {l : Life} {t : Nat} : l.restarts t ↔
    l.state = .running ∧ l.manifest.keepAlive ∧ l.throttled t = false ∧ l.unloadRequested = false := by
  simp [restarts, and_assoc]

theorem awaits_iff {l : Life} {t₁ t₂ : Nat} : l.awaits t₁ t₂ ↔
    l.state = .running ∧ l.manifest.keepAlive ∧ l.throttled t₁ ∧ l.throttled t₂ ∧ l.unloadRequested = false := by
  simp [awaits, and_assoc]

/-- The trigger ProcessExited: the guards are tried in the order of the table. -/
def processExited (clock : Nat → Nat) (how : Start) (l : Life) : Life :=
  if l.state ≠ .running then l
  else if !l.manifest.keepAlive && !l.manifest.startInterval.isSome && !l.unloadRequested then
    { l with state := .exited }
  else if l.manifest.keepAlive && !l.throttled (clock 1 / 1000) && !l.unloadRequested then
    l.start (fun n => clock (n + 1)) how
  else if l.manifest.keepAlive && l.throttled (clock 2 / 1000) && !l.unloadRequested then
    l.wait .throttle (l.throttleArming (clock 3))
  else if l.unloadRequested then { l with state := .unloaded }
  else l

section ProcessExited

variable {clock : Nat → Nat} {how : Start} {l : Life}

theorem processExited_not_running (hs : l.state ≠ .running) : l.processExited clock how = l := if_pos hs

theorem processExited_unloadRequested (hs : l.state = .running) (hu : l.unloadRequested) :
    l.processExited clock how = { l with state := .unloaded } := by
  simp [processExited, hs, hu]

theorem processExited_exited (hs : l.state = .running) (hk : l.manifest.keepAlive = false)
    (hi : l.manifest.startInterval = none) (hu : l.unloadRequested = false) :
    l.processExited clock how = { l with state := .exited } := by
  simp [processExited, hs, hk, hi, hu]

/-- No transition is for the exit of a periodic job. -/
theorem processExited_periodic (hs : l.state = .running) (hk : l.manifest.keepAlive = false)
    (hi : l.manifest.startInterval.isSome) (hu : l.unloadRequested = false) : l.processExited clock how = l := by
  simp [processExited, hs, hk, hi, hu]

theorem processExited_restarts (h : l.restarts (clock 1 / 1000)) :
    l.processExited clock how = l.start (fun n => clock (n + 1)) how := by
  obtain ⟨hs, hk, ht, hu⟩ := restarts_iff.mp h
  simp [processExited, hs, hk, ht, hu]

theorem processExited_waits (hs : l.state = .running) (hk : l.manifest.keepAlive) (hu : l.unloadRequested = false)
    (h₁ : l.throttled (clock 1 / 1000)) (h₂ : l.throttled (clock 2 / 1000)) :
    l.processExited clock how = l.wait .throttle (l.throttleArming (clock 3)) := by
  simp [processExited, hs, hk, hu, h₁, h₂]

/-- The first guard finds that the job must wait, and the second that it need not. -/
theorem processExited_missed (hs : l.state = .running) (hk : l.manifest.keepAlive) (hu : l.unloadRequested = false)
    (h₁ : l.throttled (clock 1 / 1000)) (h₂ : l.throttled (clock 2 / 1000) = false) : l.processExited clock how = l := by
  simp [processExited, hs, hk, hu, h₁, h₂]

/-- One of five things follows an exit. -/
theorem processExited_cases {P : Life → Prop} (clock : Nat → Nat) (how : Start)
    (ignored : (l.state ≠ .running ∨ l.unloadRequested = false ∧
      (l.manifest.keepAlive = false ∧ l.manifest.startInterval.isSome ∨
        l.manifest.keepAlive ∧ l.throttled (clock 1 / 1000) ∧ l.throttled (clock 2 / 1000) = false)) → P l)
    (exited : l.state = .running → l.manifest.keepAlive = false → l.manifest.startInterval = none →
      l.unloadRequested = false → P { l with state := .exited })
    (started : l.restarts (clock 1 / 1000) → P (l.start (fun n => clock (n + 1)) how))
    (waited : l.awaits (clock 1 / 1000) (clock 2 / 1000) → P (l.wait .throttle (l.throttleArming (clock 3))))
    (unloaded : l.state = .running → l.unloadRequested → P { l with state := .unloaded }) :
    P (l.processExited clock how) := by
  by_cases hs : l.state = .running
  swap
  · rw [processExited_not_running hs]
    exact ignored (.inl hs)
  cases hu : l.unloadRequested with
  | true =>
    rw [processExited_unloadRequested hs hu]
    exact unloaded hs hu
  | false =>
    cases hk : l.manifest.keepAlive with
    | false =>
      cases hi : l.manifest.startInterval with
      | none =>
        rw [processExited_exited hs hk hi hu]
        exact exited hs hk hi hu
      | some interval =>
        rw [processExited_periodic hs hk (by rw [hi]; rfl) hu]
        exact ignored (.inr ⟨hu, .inl ⟨hk, by rw [hi]; rfl⟩⟩)
    | true =>
      cases h₁ : l.throttled (clock 1 / 1000) with
      | false =>
        have hr : l.restarts (clock 1 / 1000) := restarts_iff.mpr ⟨hs, hk, h₁, hu⟩
        rw [processExited_restarts hr]
        exact started hr
      | true =>
        cases h₂ : l.throttled (clock 2 / 1000) with
        | false =>
          rw [processExited_missed hs hk hu h₁ h₂]
          exact ignored (.inr ⟨hu, .inr ⟨hk, h₁, h₂⟩⟩)
        | true =>
          rw [processExited_waits hs hk hu h₁ h₂]
          exact waited (awaits_iff.mpr ⟨hs, hk, h₁, h₂, hu⟩)

end ProcessExited

theorem reap_restarts {l : Life} {t : Nat} (hs : l.state = .running) (hk : l.manifest.keepAlive) (hu : l.unloadRequested = false)
    (ht : l.throttled t = false) : l.reap.restarts t :=
  restarts_iff.mpr ⟨hs, hk, ht, hu⟩

theorem reap_awaits {l : Life} {t₁ t₂ : Nat} (hs : l.state = .running) (hk : l.manifest.keepAlive)
    (hu : l.unloadRequested = false) (h₁ : l.throttled t₁) (h₂ : l.throttled t₂) : l.reap.awaits t₁ t₂ :=
  awaits_iff.mpr ⟨hs, hk, h₁, h₂, hu⟩

theorem wait_state {l : Life} (kind : TimerKind) (arming : Arming) :
    (l.wait kind arming).state = l.state ∨ (l.wait kind arming).state = .waiting := by
  cases arming with
  | failed => exact .inl rfl
  | disarmed | armed => exact .inr rfl

/-- The callback of a timer resets `timer_id` first. -/
def fire (l : Life) : Life := { l with timerSet := false, timer := none }

/-- `killJob` -/
def signal (l : Life) : Life := if l.pid = 0 then l else { l with kills := l.kills ++ [l.pid] }

def stopRequested (sent : Bool) (l : Life) : Life :=
  if l.state ≠ .running then l
  else { l.signal with sigterm := l.sigterm || (l.pid ≠ 0 && sent) }

/-- The trigger UnloadRequested. Cancelling a timer closes it and throws. -/
def unloadTriggered (l : Life) : Life :=
  match l.state with
  | .loaded | .exited => { l with state := .unloaded }
  | .waiting => if l.timerSet then { l with timer := none } else { l with state := .unloaded }
  | _ => l

section UnloadTriggered

variable {l : Life}

theorem unloadTriggered_unloads (hs : l.state = .loaded ∨ l.state = .exited ∨ l.state = .waiting) (ht : l.timerSet = false) :
    l.unloadTriggered = { l with state := .unloaded } := by
  rcases hs with hs | hs | hs <;> simp [unloadTriggered, hs, ht]

theorem unloadTriggered_cancels (hs : l.state = .waiting) (ht : l.timerSet) :
    l.unloadTriggered = { l with timer := none } := by
  simp [unloadTriggered, hs, ht]

theorem unloadTriggered_ignored (hs : l.state = .running ∨ l.state = .unloaded) : l.unloadTriggered = l := by
  rcases hs with hs | hs <;> simp [unloadTriggered, hs]

theorem unloadTriggered_history : l.unloadTriggered.toHistory = l.toHistory := by
  unfold unloadTriggered
  split
  · rfl
  · rfl
  · split <;> rfl
  · rfl

theorem unloadTriggered_child : l.unloadTriggered.child = l.child := congrArg History.child unloadTriggered_history

theorem unloadTriggered_forks : l.unloadTriggered.forks = l.forks := congrArg History.forks unloadTriggered_history

end UnloadTriggered

def unload (lookup : Decode Bool) (force sent : Bool) (l : Life) : Life :=
  if l.state = .unloaded || l.unloadRequested then l
  else
    let l := { l with unloadRequested := true }
    match lookup with
    | .ok disabled => if disabled && !force then l else (l.stopRequested sent).unloadTriggered
    | .error _ => l

section Unload

variable {lookup : Decode Bool} {force sent : Bool} {l : Life}

theorem unload_ignored (h : l.state = .unloaded ∨ l.unloadRequested) : l.unload lookup force sent = l := by
  unfold unload
  exact if_pos (by simpa using h)

/-- The job is disabled, or its state cannot be looked up: only the flag is set. -/
theorem unload_refused (hs : l.state ≠ .unloaded) (hu : l.unloadRequested = false)
    (h : ∀ disabled, lookup = .ok disabled → (disabled && !force) = true) :
    l.unload lookup force sent = { l with unloadRequested := true } := by
  unfold unload
  rw [if_neg (by simp [hs, hu])]
  cases lookup with
  | ok disabled => exact if_pos (h disabled rfl)
  | error e => rfl

theorem unload_accepted (hs : l.state ≠ .unloaded) (hu : l.unloadRequested = false) {disabled : Bool}
    (hl : lookup = .ok disabled) (h : (disabled && !force) = false) :
    l.unload lookup force sent = ({ l with unloadRequested := true }.stopRequested sent).unloadTriggered := by
  subst hl
  unfold unload
  rw [if_neg (by simp [hs, hu])]
  exact if_neg (by simp [h])

end Unload

/-! ### What a signal and an unload change -/

section Changes

variable {l : Life}

theorem signal_eq (l : Life) : ∃ kills, l.signal = { l with kills } := by
  unfold signal
  split
  · exact ⟨l.kills, rfl⟩
  · exact ⟨_, rfl⟩

theorem stopRequested_eq (sent : Bool) (l : Life) : ∃ kills sigterm, l.stopRequested sent = { l with kills, sigterm } := by
  unfold stopRequested
  split
  · exact ⟨l.kills, l.sigterm, rfl⟩
  · obtain ⟨kills, e⟩ := signal_eq l
    rw [e]
    exact ⟨kills, _, rfl⟩

theorem stopRequested_running {l : Life} (hs : l.state = .running) (hp : l.pid ≠ 0) :
    ∃ kills, l.stopRequested true = { l with kills, sigterm := true } := by
  obtain ⟨kills, e⟩ := signal_eq l
  refine ⟨kills, ?_⟩
  rw [stopRequested, if_neg (not_not_intro hs), e]
  simp [hp]

/-- An unload is ignored, or sets the flag, and goes on or not. -/
theorem unload_cases {P : Life → Prop} (lookup : Decode Bool) (force sent : Bool)
    (ignored : l.state = .unloaded ∨ l.unloadRequested → P l)
    (refused : l.state ≠ .unloaded → l.unloadRequested = false → P { l with unloadRequested := true })
    (accepted : ∀ kills sigterm, l.state ≠ .unloaded → l.unloadRequested = false →
      P ({ l with unloadRequested := true, kills, sigterm } : Life).unloadTriggered) :
    P (l.unload lookup force sent) := by
  by_cases hi : l.state = .unloaded ∨ l.unloadRequested
  · rw [unload_ignored hi]
    exact ignored hi
  obtain ⟨hs, hu⟩ := not_or.mp hi
  rw [Bool.not_eq_true] at hu
  by_cases hl : ∃ disabled, lookup = .ok disabled ∧ (disabled && !force) = false
  · obtain ⟨disabled, hl, hd⟩ := hl
    rw [unload_accepted hs hu hl hd]
    obtain ⟨kills, sigterm, e⟩ := stopRequested_eq sent { l with unloadRequested := true }
    rw [e]
    exact accepted kills sigterm hs hu
  · rw [unload_refused hs hu fun disabled e => by
      by_contra hd
      exact hl ⟨disabled, e, by simpa using hd⟩]
    exact refused hs hu

theorem unload_flagged (lookup : Decode Bool) (force sent : Bool) (l : Life) :
    (l.unload lookup force sent).state = .unloaded ∨ (l.unload lookup force sent).unloadRequested := by
  refine unload_cases (P := fun l => l.state = .unloaded ∨ l.unloadRequested) lookup force sent id (fun _ _ => .inr rfl)
    fun kills sigterm _ _ => .inr ?_
  unfold unloadTriggered
  split
  · rfl
  · rfl
  · split <;> rfl
  · rfl

theorem enter_eq (state : Job.States) (how : Start) (l : Life) : ∃ state', l.enter state how = { l with state := state' } := by
  unfold enter
  split
  · exact ⟨l.state, rfl⟩
  · exact ⟨state, rfl⟩

/-- An unload ends the job, or keeps its timer from expiring, or does neither. -/
theorem unloadTriggered_eq (l : Life) : ∃ state timer, (timer = l.timer ∨ timer = none) ∧
    l.unloadTriggered = { l with state, timer } := by
  unfold unloadTriggered
  split
  · exact ⟨_, _, .inl rfl, rfl⟩
  · exact ⟨_, _, .inl rfl, rfl⟩
  · split
    · exact ⟨_, _, .inr rfl, rfl⟩
    · exact ⟨_, _, .inl rfl, rfl⟩
  · exact ⟨_, _, .inl rfl, rfl⟩

def fixed (l : Life) : Manifest × Boot × Bool := (l.manifest, l.boot, l.unloadRequested)

theorem start_fixed {clock : Nat → Nat} {how : Start} : (l.start clock how).fixed = l.fixed := by cases how <;> rfl

theorem wait_fixed {kind : TimerKind} {arming : Arming} : (l.wait kind arming).fixed = l.fixed := by cases arming <;> rfl

theorem enter_fixed {state : Job.States} {how : Start} : (l.enter state how).fixed = l.fixed := by
  obtain ⟨_, e⟩ := enter_eq state how l
  rw [e]
  rfl

theorem unloadTriggered_fixed : l.unloadTriggered.fixed = l.fixed := by
  obtain ⟨_, _, -, e⟩ := unloadTriggered_eq l
  rw [e]
  rfl

theorem bootTriggered_fixed (lookup : Decode Bool) (clock : Nat → Nat) (how : Start) (arming : Arming) :
    (l.bootTriggered lookup clock how arming).fixed = l.fixed :=
  bootTriggered_cases (P := fun l' => l'.fixed = l.fixed) lookup clock how arming rfl (fun _ _ => enter_fixed.trans start_fixed)
    fun _ _ _ => wait_fixed

theorem processExited_fixed (clock : Nat → Nat) (how : Start) : (l.processExited clock how).fixed = l.fixed :=
  processExited_cases (P := fun l' => l'.fixed = l.fixed) clock how (fun _ => rfl) (fun _ _ _ _ => rfl) (fun _ => start_fixed)
    (fun _ => wait_fixed) fun _ _ => rfl

/-- An unload sets the flag, or is ignored as it is set already or the job is Unloaded. -/
theorem unload_fixed (lookup : Decode Bool) (force sent : Bool) (l : Life) :
    (l.unload lookup force sent).fixed = l.fixed ∨ (l.unload lookup force sent).fixed = (l.manifest, l.boot, true) :=
  unload_cases (P := fun l' => l'.fixed = l.fixed ∨ l'.fixed = (l.manifest, l.boot, true)) lookup force sent (fun _ => .inl rfl)
    (fun _ _ => .inr rfl) fun _ _ _ _ => .inr unloadTriggered_fixed

end Changes

def next (l : Life) : Turn → Life
  | .boot lookup clock how arming => l.bootstrap lookup clock how arming
  | .exit clock how => l.reap.processExited clock how
  | .throttleFires clock how => (l.fire.start clock how).enter .running how
  | .periodicFires clock how => l.fire.start clock how
  | .unload lookup force sent => l.unload lookup force sent
  | .kill => l.signal

/-- A turn changes neither the manifest nor, once it was bootstrapped, what became of the
    job's Bootstrap, and never takes a request to unload back. -/
theorem next_fixed (l : Life) (a : Turn) : (l.next a).manifest = l.manifest ∧
    ((l.next a).boot = l.boot ∨ ∃ lookup clock how arming, a = .boot lookup clock how arming) ∧
    (l.unloadRequested → (l.next a).unloadRequested) := by
  have hsame : ∀ {l' : Life}, l'.fixed = l.fixed → l'.manifest = l.manifest ∧
      (l'.boot = l.boot ∨ ∃ lookup clock how arming, a = .boot lookup clock how arming) ∧
      (l.unloadRequested → l'.unloadRequested) := fun e =>
    ⟨congrArg (·.1) e, .inl (congrArg (·.2.1) e), fun h => (congrArg (·.2.2) e).trans h⟩
  cases a with
  | boot lookup clock how arming =>
    have e := bootTriggered_fixed (l := { l with boot := Manager.bootOf lookup }) lookup clock how arming
    exact ⟨congrArg (·.1) e, .inr ⟨_, _, _, _, rfl⟩, fun h => (congrArg (·.2.2) e).trans h⟩
  | exit clock how => exact hsame (processExited_fixed (l := l.reap) clock how)
  | throttleFires clock how => exact hsame (enter_fixed.trans start_fixed)
  | periodicFires clock how => exact hsame start_fixed
  | unload lookup force sent =>
    rcases unload_fixed lookup force sent l with e | e
    · exact hsame e
    · exact ⟨congrArg (·.1) e, .inl (congrArg (·.2.1) e), fun _ => congrArg (·.2.2) e⟩
  | kill =>
    obtain ⟨_, e⟩ := l.signal_eq
    rw [next, e]
    exact hsame rfl

theorem next_manifest (l : Life) (a : Turn) : (l.next a).manifest = l.manifest := (l.next_fixed a).1

/-- The expiry of the job's timer is dispatched, and its start does not throw. -/
structure Fires (l : Life) (kind : TimerKind) (clock : Nat → Nat) (how : Start) : Prop where
  timer : ∃ due ≤ clock 1, l.timer = some (kind, due)
  sound : how.Sound
  returns : how.throws = false
  clock : Monotone clock

theorem Fires.isSome {l : Life} {kind : TimerKind} {clock : Nat → Nat} {how : Start} (h : l.Fires kind clock how) :
    l.timer.isSome := by
  obtain ⟨due, -, h⟩ := h.timer
  rw [h]
  rfl

/-- When a turn can come. An exception in a callback ends the program. -/
def Enabled (l : Life) : Turn → Prop
  | .boot _ clock how arming =>
    l.boot = .pending ∧ how.Sound ∧ Monotone clock ∧ (arming = .failed ∨
      ∀ interval, l.manifest.startInterval = some interval → ∃ now, arming = .ofMilliseconds now interval)
  | .exit clock how => l.child.isSome ∧ how.Sound ∧ how.throws = false ∧ Monotone clock ∧
    (l.reap.awaits (clock 1 / 1000) (clock 2 / 1000) → l.reap.throttleArming (clock 3) ≠ .failed)
  | .throttleFires clock how => l.Fires .throttle clock how
  | .periodicFires clock how => l.Fires .periodic clock how
  | .unload _ _ _ => l.boot ≠ .pending
  | .kill => l.boot ≠ .pending

/-! ## What holds of every life -/

structure Good (l : Life) : Prop where
  childPid : ∀ pid, l.child = some pid → 0 < pid ∧ l.pid = pid
  pidChild : 0 < l.pid → l.child = some l.pid
  timerSet : l.timer.isSome → l.timerSet
  waits : l.timerSet → l.state = .waiting ∧ l.child = none
  fresh : l.boot = .pending → l = { manifest := l.manifest }

variable {l : Life}

/-- Nothing runs for the job and nothing is about to. -/
def Idle (l : Life) : Prop := l.child = none ∧ l.timerSet = false

theorem Good.idle_of_fire (h : l.Good) (ht : l.timer.isSome) : l.fire.Idle := ⟨(h.waits (h.timerSet ht)).2, rfl⟩

theorem Good.not_set_of_child (h : l.Good) (hc : l.child.isSome) : l.timerSet = false := by
  by_contra hs
  simp only [Bool.not_eq_false] at hs
  rw [(h.waits hs).2] at hc
  cases hc

theorem Good.timer_none (h : l.Good) (hs : l.timerSet = false) : l.timer = none := by
  cases ht : l.timer with
  | none => rfl
  | some k => have := h.timerSet (by rw [ht]; rfl); rw [hs] at this; cases this

theorem Good.idle_of_reap (h : l.Good) (hc : l.child.isSome) : l.reap.Idle := ⟨rfl, h.not_set_of_child hc⟩

theorem Good.idle_of_pending (h : l.Good) (hb : l.boot = .pending) : l.Idle := by
  rw [h.fresh hb]
  exact ⟨rfl, rfl⟩

theorem Good.not_pending_of_child (h : l.Good) (hc : l.child.isSome) : l.boot ≠ .pending := by
  intro hb
  rw [(h.idle_of_pending hb).1] at hc
  cases hc

theorem Good.not_pending_of_timer (h : l.Good) (ht : l.timer.isSome) : l.boot ≠ .pending := by
  intro hb
  have := h.timerSet ht
  rw [(h.idle_of_pending hb).2] at this
  cases this

theorem good_start {clock : Nat → Nat} {how : Start} (h : l.Good) (hi : l.Idle) (hb : l.boot ≠ .pending) (hs : how.Sound) :
    (l.start clock how).Good := by
  have hp : ¬ 0 < l.pid := fun hp => by have := h.pidChild hp; rw [hi.1] at this; cases this
  have ht : l.timer = none := h.timer_none hi.2
  cases how with
  | noPipe | noFork | noExec =>
    refine ⟨fun pid hc => ?_, fun hp' => ?_, fun ht' => ?_, fun hs' => ?_, fun hb' => absurd hb' hb⟩
    · simp [start, hi.1] at hc
    · simp only [start] at hp'; omega
    · simp [start, ht] at ht'
    · simp [start, hi.2] at hs'
  | unwatched pid | started pid =>
    refine ⟨fun pid' hc => ?_, fun _ => rfl, fun ht' => ?_, fun hs' => ?_, fun hb' => absurd hb' hb⟩
    · obtain rfl : pid = pid' := by simpa [start] using hc
      exact ⟨hs, rfl⟩
    · simp [start, ht] at ht'
    · simp [start, hi.2] at hs'

theorem good_state {state : Job.States} (h : l.Good) (hs : l.timerSet = false) (hb : l.boot ≠ .pending) :
    Good { l with state } :=
  ⟨h.childPid, h.pidChild, h.timerSet, fun hs' => absurd hs' (by simp [hs]), fun hb' => absurd hb' hb⟩

theorem good_wait {kind : TimerKind} {arming : Arming} (h : l.Good) (hi : l.Idle) (hb : l.boot ≠ .pending) :
    (l.wait kind arming).Good := by
  cases arming with
  | failed => exact h
  | disarmed =>
    exact ⟨h.childPid, h.pidChild, fun _ => rfl, fun _ => ⟨rfl, hi.1⟩, fun hb' => absurd hb' hb⟩
  | armed => exact ⟨h.childPid, h.pidChild, fun _ => rfl, fun _ => ⟨rfl, hi.1⟩, fun hb' => absurd hb' hb⟩

theorem good_reap (h : l.Good) (hc : l.child.isSome) : l.reap.Good := by
  have hs := h.not_set_of_child hc
  refine ⟨fun pid hc' => (nomatch hc'), fun hp => absurd hp (by simp [reap]), fun ht => ?_, fun hs' => ?_, fun hb => ?_⟩
  · simp [reap, h.timer_none hs] at ht
  · simp [reap, hs] at hs'
  · exact absurd hb (h.not_pending_of_child hc)

theorem good_fire (h : l.Good) (ht : l.timer.isSome) : l.fire.Good :=
  ⟨h.childPid, h.pidChild, fun ht' => by simp [fire] at ht', fun hs' => by simp [fire] at hs',
    fun hb => absurd hb (h.not_pending_of_timer ht)⟩

theorem good_signal (h : l.Good) (hb : l.boot ≠ .pending) : l.signal.Good := by
  unfold signal
  split
  · exact h
  · exact ⟨h.childPid, h.pidChild, h.timerSet, h.waits, fun hb' => absurd hb' hb⟩

theorem signal_boot : l.signal.boot = l.boot := by unfold signal; split <;> rfl
theorem signal_pid : l.signal.pid = l.pid := by unfold signal; split <;> rfl
theorem signal_sigterm : l.signal.sigterm = l.sigterm := by unfold signal; split <;> rfl
theorem signal_state : l.signal.state = l.state := by unfold signal; split <;> rfl
theorem signal_timerSet : l.signal.timerSet = l.timerSet := by unfold signal; split <;> rfl

theorem enter_self {how : Start} {state : Job.States} (hs : l.state = state) : l.enter state how = l := by
  subst hs
  exact ite_self _

theorem start_timerSet {clock : Nat → Nat} {how : Start} : (l.start clock how).timerSet = l.timerSet := by
  cases how <;> rfl

theorem start_state {clock : Nat → Nat} {how : Start} : (l.start clock how).state = l.state := by cases how <;> rfl

theorem start_boot {clock : Nat → Nat} {how : Start} : (l.start clock how).boot = l.boot := by cases how <;> rfl

theorem good_enter_start {clock : Nat → Nat} {how : Start} {state : Job.States} (h : l.Good) (hi : l.Idle)
    (hb : l.boot ≠ .pending) (hs : how.Sound) : ((l.start clock how).enter state how).Good := by
  have hg : (l.start clock how).Good := good_start h hi hb hs
  unfold enter
  split
  · exact hg
  · exact good_state hg (start_timerSet.trans hi.2) (by rwa [start_boot])

theorem good_bootTriggered {lookup : Decode Bool} {clock : Nat → Nat} {how : Start} {arming : Arming} (h : l.Good)
    (hi : l.Idle) (hb : l.boot ≠ .pending) (hs : how.Sound) : (l.bootTriggered lookup clock how arming).Good :=
  bootTriggered_cases lookup clock how arming h (fun _ _ => good_enter_start h hi hb hs) fun _ _ _ => good_wait h hi hb

theorem bootOf_ne_pending (lookup : Decode Bool) : Manager.bootOf lookup ≠ .pending := by
  unfold Manager.bootOf
  split <;> exact nofun

theorem good_bootstrap {lookup : Decode Bool} {clock : Nat → Nat} {how : Start} {arming : Arming} (h : l.Good)
    (hb : l.boot = .pending) (hs : how.Sound) : (l.bootstrap lookup clock how arming).Good :=
  good_bootTriggered ⟨h.childPid, h.pidChild, h.timerSet, h.waits, fun hb' => absurd hb' (bootOf_ne_pending lookup)⟩
    (h.idle_of_pending hb) (bootOf_ne_pending lookup) hs

theorem good_processExited {clock : Nat → Nat} {how : Start} (h : l.Good) (hi : l.Idle) (hb : l.boot ≠ .pending)
    (hs : how.Sound) : (l.processExited clock how).Good :=
  processExited_cases clock how (fun _ => h) (fun _ _ _ _ => good_state h hi.2 hb) (fun _ => good_start h hi hb hs)
    (fun _ => good_wait h hi hb) fun _ _ => good_state h hi.2 hb

theorem good_stopRequested {sent : Bool} (h : l.Good) (hb : l.boot ≠ .pending) : (l.stopRequested sent).Good := by
  unfold stopRequested
  split
  · exact h
  · have hg := good_signal h hb
    have hb' : l.signal.boot ≠ .pending := by rwa [signal_boot]
    exact ⟨hg.childPid, hg.pidChild, hg.timerSet, hg.waits, fun hb'' => absurd hb'' hb'⟩

theorem stopRequested_boot {sent : Bool} : (l.stopRequested sent).boot = l.boot := by
  unfold stopRequested signal
  split
  · rfl
  · split <;> rfl

theorem good_unloadTriggered (h : l.Good) (hb : l.boot ≠ .pending) : l.unloadTriggered.Good := by
  have hset : ∀ state, l.timerSet = false → Good { l with state } := fun state hs => good_state h hs hb
  unfold unloadTriggered
  split
  · rename_i hl
    exact hset _ (by by_contra hs; simp only [Bool.not_eq_false] at hs; have := (h.waits hs).1; rw [hl] at this; cases this)
  · rename_i hl
    exact hset _ (by by_contra hs; simp only [Bool.not_eq_false] at hs; have := (h.waits hs).1; rw [hl] at this; cases this)
  · split
    · exact ⟨h.childPid, h.pidChild, fun ht => by simp at ht, h.waits, fun hb' => absurd hb' hb⟩
    · rename_i hs
      exact hset _ (by simpa using hs)
  · exact h

theorem good_unload {lookup : Decode Bool} {force sent : Bool} (h : l.Good) (hb : l.boot ≠ .pending) :
    (l.unload lookup force sent).Good := by
  have hg : Good { l with unloadRequested := true } :=
    ⟨h.childPid, h.pidChild, h.timerSet, h.waits, fun hb' => absurd hb' hb⟩
  unfold unload
  split
  · exact h
  dsimp only
  split
  · split
    · exact hg
    · exact good_unloadTriggered (good_stopRequested hg hb) (by rwa [stopRequested_boot])
  · exact hg

/-- Every turn keeps a life good. -/
theorem good_next {a : Turn} (h : l.Good) (ha : l.Enabled a) : (l.next a).Good := by
  cases a with
  | boot lookup clock how arming => exact good_bootstrap h ha.1 ha.2.1
  | exit clock how =>
    exact good_processExited (good_reap h ha.1) (h.idle_of_reap ha.1) (h.not_pending_of_child ha.1) ha.2.1
  | throttleFires clock how =>
    exact good_enter_start (good_fire h ha.isSome) (h.idle_of_fire ha.isSome) (h.not_pending_of_timer ha.isSome) ha.sound
  | periodicFires clock how =>
    exact good_start (good_fire h ha.isSome) (h.idle_of_fire ha.isSome) (h.not_pending_of_timer ha.isSome) ha.sound
  | unload lookup force sent => exact good_unload h ha
  | kill => exact good_signal h ha

theorem good_new (manifest : Manifest) : Good { manifest } :=
  ⟨nofun, fun hp => absurd hp (lt_irrefl _), nofun, nofun, fun _ => rfl⟩

end Life

/-! ## Fates -/

inductive Fate where
  | unborn
  | alive (l : Life)
  /-- The job is destroyed. -/
  | gone (history : History)

/-- One thing that happens to a job: its turns meet `P`, and its destruction `D`. -/
inductive Fate.Step (P : Life → Turn → Prop) (D : Life → Prop) : Fate → Fate → Prop
  | created (manifest : Manifest) : manifest.Decoded → Fate.Step P D .unborn (.alive { manifest })
  | turn (l : Life) (a : Turn) : l.Enabled a → P l a → Fate.Step P D (.alive l) (.alive (l.next a))
  | destroyed (l : Life) : l.state = .unloaded → D l → Fate.Step P D (.alive l) (.gone l.toHistory)

def Fate.Steps (P : Life → Turn → Prop) (D : Life → Prop) : Fate → Fate → Prop := Relation.ReflTransGen (Fate.Step P D)

namespace Fate.Steps

variable {P P' : Life → Turn → Prop} {D D' : Life → Prop} {f f' : Fate}

theorem mono (h : Fate.Steps P D f f') (hP : ∀ l a, P l a → P' l a) (hD : ∀ l, D l → D' l) : Fate.Steps P' D' f f' := by
  induction h with
  | refl => exact .refl
  | tail _ hs ih =>
    apply ih.tail
    cases hs with
    | created m hm => exact .created m hm
    | turn l a he hp => exact .turn l a he (hP l a hp)
    | destroyed l hl hd => exact .destroyed l hl (hD l hd)

/-- A property of fates that all these things keep. -/
theorem keeps {Q : Fate → Prop} (h : Fate.Steps P D f f')
    (h0 : ∀ manifest : Manifest, manifest.Decoded → Q .unborn → Q (.alive { manifest }))
    (hQ : ∀ l a, Q (.alive l) → l.Enabled a → P l a → Q (.alive (l.next a)))
    (hD : ∀ l, Q (.alive l) → l.state = .unloaded → D l → Q (.gone l.toHistory)) (hf : Q f) : Q f' := by
  induction h with
  | refl => exact hf
  | tail _ hs ih =>
    cases hs with
    | created m hm => exact h0 m hm ih
    | turn l a he hp => exact hQ l a ih he hp
    | destroyed l hl hd => exact hD l ih hl hd

/-- Along the way, every fate has the property. -/
theorem along {Q : Fate → Prop} (h : Fate.Steps P D f f')
    (h0 : ∀ manifest : Manifest, manifest.Decoded → Q .unborn → Q (.alive { manifest }))
    (hQ : ∀ l a, Q (.alive l) → l.Enabled a → P l a → Q (.alive (l.next a)))
    (hD : ∀ l, Q (.alive l) → l.state = .unloaded → D l → Q (.gone l.toHistory)) (hf : Q f) :
    Fate.Steps (fun l a => P l a ∧ l.Enabled a ∧ Q (.alive l)) D f f' := by
  induction h with
  | refl => exact .refl
  | tail hsteps hs ih =>
    have hmid := Fate.Steps.keeps hsteps h0 hQ hD hf
    apply ih.tail
    cases hs with
    | created m hm => exact .created m hm
    | turn l a he hp => exact .turn l a he ⟨hp, he, hmid⟩
    | destroyed l hl hd => exact .destroyed l hl hd

/-- A property of lives that a new life has and every turn keeps. -/
theorem alive {Q : Life → Prop} (h : Fate.Steps P D f f') (h0 : ∀ manifest : Manifest, manifest.Decoded → Q { manifest })
    (hQ : ∀ l a, Q l → l.Enabled a → P l a → Q (l.next a)) (hf : ∀ l, f = .alive l → Q l) : ∀ l, f' = .alive l → Q l := by
  refine h.keeps (Q := fun f => ∀ l, f = .alive l → Q l) (fun m hm _ l e => ?_) (fun l a hl he hp l' e => ?_)
    (fun _ _ _ _ _ e => nomatch e) hf
  · cases e
    exact h0 m hm
  · cases e
    exact hQ l a (hl l rfl) he hp

end Fate.Steps

end Relaunchd
