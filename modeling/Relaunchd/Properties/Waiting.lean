/-
  Relaunchd.Properties.Waiting — the two backends' `waitForEvent` (`src/event.h`), each a loop
  around a wait of the kernel.

  The kqueue backend goes on waiting when a signal interrupts it; the epoll one does not.
-/

import Relaunchd.Runs

namespace Relaunchd

open Prog EventManager

/-- What one wait of the kernel comes to. -/
inductive Outcome where
  /-- EINTR -/
  | interrupted
  | timedOut
  | ready (event : Event)

/-! ## The backends -/

/-- A wait of the epoll backend: what the kernel does in the meantime, and what it reports. The
    wait on a nested descriptor that follows finds what made the outer one ready. -/
structure Round where
  during : Kernel → Kernel
  wakeup : Wakeup

/-- `EpollImplementation::waitForEvent`: nothing where it still waits after these rounds. The
    queue, which the source looks at once, stays empty as long as it waits. -/
def Epoll.waitForEvent (timeout : Option Nat) : List Round → M (Option (Option Event))
  | [] => do
    match ← getPendingEvent with
    | some event => return some (some event)
    | none => return none
  | round :: rounds => do
    modify (·.updateKernel round.during)
    match ← nextEvent round.wakeup with
    | some event => return some (some event)
    | none => if timeout.isSome then return some none else Epoll.waitForEvent timeout rounds

namespace Kqueue

/-- The loop around `kevent(2)`; the filter and the ident it reports name the event. -/
def wait (timeout : Option Nat) : List Outcome → Option (Option Event)
  | [] => none
  | .ready event :: _ => some (some event)
  | .timedOut :: outcomes => if timeout.isSome then some none else wait timeout outcomes
  | .interrupted :: outcomes => wait timeout outcomes

def waitForEvent (pending : List Event) (timeout : Option Nat) (outcomes : List Outcome) : Option (Option Event) :=
  match pending with
  | event :: _ => some (some event)
  | [] => wait timeout outcomes

end Kqueue

/-! ## Outcomes -/

/-- The epoll backend's rounds have these outcomes. What follows a ready event is not waited for. -/
inductive Shows : Sys → List Round → List Outcome → Prop
  | nil (s : Sys) : Shows s [] []
  | interrupted {s : Sys} {during : Kernel → Kernel} {rounds : List Round} {outcomes : List Outcome} :
      Shows (s.updateKernel during) rounds outcomes → Shows s (⟨during, .interrupted⟩ :: rounds) (.interrupted :: outcomes)
  | timedOut {s : Sys} {during : Kernel → Kernel} {rounds : List Round} {outcomes : List Outcome} :
      Shows (s.updateKernel during) rounds outcomes → Shows s (⟨during, .nothing⟩ :: rounds) (.timedOut :: outcomes)
  | ready {s u : Sys} {during : Kernel → Kernel} {wakeup : Wakeup} {event : Event} (rounds : List Round) (outcomes : List Outcome) :
      nextEvent wakeup (s.updateKernel during) = .ok (some event) u → Shows s (⟨during, wakeup⟩ :: rounds) (.ready event :: outcomes)

def Outcome.undecided (timeout : Option Nat) : Outcome → Bool
  | .interrupted => true
  | .timedOut => timeout.isNone
  | .ready _ => false

/-- A wait is interrupted before anything else ends the loop. -/
def Interrupted (timeout : Option Nat) (outcomes : List Outcome) : Prop :=
  .interrupted ∈ outcomes.takeWhile (·.undecided timeout)

/-- The epoll backend returns, without a throw, what the kqueue backend does. -/
def Agree (s : Sys) (timeout : Option Nat) (rounds : List Round) (outcomes : List Outcome) : Prop :=
  ∃ s', Epoll.waitForEvent timeout rounds s = .ok (Kqueue.waitForEvent s.eventmgr.pendingEvents timeout outcomes) s'

variable {s : Sys} {timeout : Option Nat} {rounds : List Round} {outcomes : List Outcome} {event : Event} {rest : List Event}

/-! ## The loops -/

theorem Epoll.waitForEvent_cons (during : Kernel → Kernel) (wakeup : Wakeup) :
    Epoll.waitForEvent timeout (⟨during, wakeup⟩ :: rounds) s = (nextEvent wakeup >>= fun event => match event with
      | some event => return some (some event)
      | none => if timeout.isSome then return some none else Epoll.waitForEvent timeout rounds)
    (s.updateKernel during) := rfl

/-- Neither backend waits for what is queued. -/
theorem agree_queued (h : s.eventmgr.pendingEvents = event :: rest) : Agree s timeout rounds outcomes := by
  unfold Agree Kqueue.waitForEvent
  rw [h]
  cases rounds with
  | nil => exact ⟨_, (bind_ok (getPendingEvent_queued h)).trans rfl⟩
  | cons round rounds =>
    rw [Epoll.waitForEvent_cons]
    exact ⟨_, (bind_ok (nextEvent_queued (s := s.updateKernel round.during) h round.wakeup)).trans rfl⟩

theorem agree_idle (h : s.eventmgr.pendingEvents = []) : Agree s timeout rounds outcomes ↔
    ∃ s', Epoll.waitForEvent timeout rounds s = .ok (Kqueue.wait timeout outcomes) s' := by
  unfold Agree Kqueue.waitForEvent
  rw [h]

theorem agree_iff_idle (hs : Shows s rounds outcomes) (h : s.eventmgr.pendingEvents = []) :
    Agree s timeout rounds outcomes ↔ ¬ Interrupted timeout outcomes := by
  rw [agree_idle h]
  induction hs with
  | nil s =>
    refine iff_of_true ⟨s, ?_⟩ nofun
    exact (bind_ok (getPendingEvent_empty h)).trans rfl
  | @interrupted s during rounds outcomes hs ih =>
    -- the one difference: a throw, where kqueue waits again
    refine iff_of_false ?_ fun hn => hn List.mem_cons_self
    intro h'
    obtain ⟨s', hs'⟩ := h'
    rw [Epoll.waitForEvent_cons, bind_throw (nextEvent_interrupted (s := s.updateKernel during) h)] at hs'
    cases hs'
  | @timedOut s during rounds outcomes hs ih =>
    rw [Epoll.waitForEvent_cons, bind_ok (nextEvent_nothing (s := s.updateKernel during) h)]
    cases timeout with
    | some ms => exact iff_of_true ⟨_, rfl⟩ nofun
    | none =>
      refine (ih h).trans (not_congr ?_)
      have hskip : Interrupted none (.timedOut :: outcomes) ↔
          .interrupted ∈ Outcome.timedOut :: outcomes.takeWhile (·.undecided none) := Iff.rfl
      rw [hskip, List.mem_cons]
      exact (or_iff_right nofun).symm
  | @ready s u during wakeup event rounds outcomes hn =>
    refine iff_of_true ⟨u, ?_⟩ nofun
    rw [Epoll.waitForEvent_cons]
    exact (bind_ok hn).trans rfl

/-- The backends agree when an event is queued, or no wait is interrupted before the loop is
    over. -/
theorem agree_iff (hs : Shows s rounds outcomes) (timeout : Option Nat) :
    Agree s timeout rounds outcomes ↔ (s.eventmgr.pendingEvents = [] → ¬ Interrupted timeout outcomes) := by
  cases h : s.eventmgr.pendingEvents with
  | nil => exact (agree_iff_idle hs h).trans ⟨fun hn _ => hn, fun hn => hn rfl⟩
  | cons event rest => exact iff_of_true (agree_queued h) nofun

/-- The daemon is stopped and continued, and then told to shut down. -/
theorem shows_stopped : Shows newManager
    [⟨id, .interrupted⟩, ⟨fun k => k.raise .sigterm, .signal [] []⟩] [.interrupted, .ready (.signal .sigterm)] :=
  .interrupted (.ready [] [] rfl)

theorem agree_iff_stopped : Agree newManager none
    [⟨id, .interrupted⟩, ⟨fun k => k.raise .sigterm, .signal [] []⟩] [.interrupted, .ready (.signal .sigterm)] ↔
    (newManager.eventmgr.pendingEvents = [] → ¬ Interrupted none [.interrupted, .ready (.signal .sigterm)]) :=
  agree_iff shows_stopped none

/-- The epoll backend throws when it is. -/
theorem stopped_throws : ¬ ∀ s timeout rounds outcomes, Shows s rounds outcomes → Agree s timeout rounds outcomes := by
  intro h
  obtain ⟨s', hs'⟩ := h _ none _ _ shows_stopped
  cases hs'

end Relaunchd
