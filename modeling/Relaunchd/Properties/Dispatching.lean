/-
  Relaunchd.Properties.Dispatching — every event that the backend returns has a callback.

  The look-ups of `EventManager::waitForEvent` use `at`, and nothing catches what it throws:
  an event without an entry in its table ends the manager.
-/

import Relaunchd.Runs

namespace Relaunchd

open Prog EventManager Tables

variable {s u w : Sys} {event : Event}

/-- The look-ups of `waitForEvent`. The signals' callbacks are those of `setupSignalHandlers`,
    the only IPC method is the constructor's, and the one socket has its callback from
    `startRpcServer` on. -/
def callbackOf (s : Sys) : Event → Option (M Unit)
  | .ipc method arg => if method = "delete_job" then some (Manager.deleteJob arg) else none
  | .signal sig => if sig = .sigchld then none else some (Manager.signalCallback sig)
  | .proc pid status child => (s.eventmgr.processCallbacks.lookup pid).map fun r => do
    Job.processCallback r status child
    deleteProcess pid
  | .socket message => if s.listening then some (Rpc.rpcDispatch message) else none
  | .timer timerId => (s.eventmgr.timerCallbacks.lookup timerId).map fun cb => Job.timerCallback cb.1 cb.2

/-- What is found is called. -/
theorem dispatch_callback {callback : M Unit} (h : callbackOf s event = some callback) : dispatch event s = callback s := by
  cases event with
  | ipc method arg =>
    by_cases hm : method = "delete_job"
    · rw [callbackOf, if_pos hm] at h
      cases h
      rw [dispatch, if_pos hm]
    · rw [callbackOf, if_neg hm] at h
      cases h
  | signal sig =>
    by_cases hsig : sig = .sigchld
    · rw [callbackOf, if_pos hsig] at h
      cases h
    · rw [callbackOf, if_neg hsig] at h
      cases h
      rfl
  | proc pid status child =>
    obtain ⟨r, hr, rfl⟩ := Option.map_eq_some_iff.mp h
    simp only [dispatch, get_bind, hr]
  | socket message =>
    by_cases hl : s.listening = true
    · rw [callbackOf, if_pos hl] at h
      cases h
      rfl
    · rw [callbackOf, if_neg hl] at h
      cases h
  | timer timerId =>
    obtain ⟨cb, hcb, rfl⟩ := Option.map_eq_some_iff.mp h
    simp only [dispatch, get_bind, hcb]

/-- A queued event has a callback while it waits, and when it is taken. -/
theorem queued_callback {rest : List Event} (h : w.tables.Inv none) (hq : w.eventmgr.pendingEvents = event :: rest) :
    (callbackOf (w.popped rest) event).isSome := by
  have hmem : event ∈ w.tables.eventmgr.pendingEvents := by
    rw [show w.tables.eventmgr.pendingEvents = event :: rest from hq]
    exact List.mem_cons_self
  have hkind := h.kinds event hmem
  cases event with
  | ipc method arg =>
    have hm : method = "delete_job" := hkind
    rw [callbackOf, if_pos hm]
    rfl
  | signal sig =>
    have hsig : sig ≠ .sigchld := hkind
    rw [callbackOf, if_neg hsig]
    rfl
  | proc pid status child =>
    obtain ⟨-, c, -, -, -, -, hr⟩ := h.registry.queued pid status child hmem
    have hr' : (w.popped rest).eventmgr.processCallbacks.lookup pid = some c.job := hr
    rw [callbackOf, hr']
    rfl
  | socket | timer => exact hkind.elim

theorem takes_callback (h : s.tables.Inv none) (ht : Takes s event u) : (callbackOf u event).isSome := by
  cases ht with
  | queued hw hq => exact queued_callback hw.inv hq
  | socket message hl =>
    rw [callbackOf, if_pos hl]
    rfl
  | @timer fd timerId deadline hfd hdue hid =>
    obtain ⟨cb, hcb⟩ := Option.ne_none_iff_exists'.mp (h.timed.fds timerId fd hid).1
    have hcb' : (s.updateKernel fun k => { k with timerfds := k.timerfds.insert fd { state := .disarmed, watched := true } }
      ).eventmgr.timerCallbacks.lookup timerId = some cb := hcb
    rw [callbackOf, hcb']
    rfl

/-- In every reachable state that takes events, what the backend returns has its callback,
    and that is what `waitForEvent` calls. -/
theorem event_callback {wakeup : Wakeup} {answers : Answers} (h : Reachable s)
    (hs : s.state = .running ∨ s.state = .gracefulShutdown)
    (hn : nextEvent wakeup (s.given answers) = .ok (some event) u) :
    ∃ callback, callbackOf u event = some callback ∧ waitForEvent wakeup (s.given answers) = callback u := by
  have hsound : Sound s := (Runs.of_reachable h).sound fun hf => by rcases hs with e | e <;> rw [hf] at e <;> cases e
  have ht : Waits (s.given answers) (some event) u := wp_ok (nextEvent_spec (s := s.given answers) hsound.inv wakeup) hn
  obtain ⟨callback, hc⟩ := Option.isSome_iff_exists.mp (takes_callback (s := s.given answers) hsound.inv ht)
  refine ⟨callback, hc, ?_⟩
  rw [← dispatch_callback hc]
  simp only [waitForEvent, bind, andThen, hn]

def takesNext (wakeup : Wakeup) (p : Event → Bool) (s : Sys) : Bool := s.state == .running &&
  match nextEvent wakeup (s.given {}) with
  | .ok (some event) _ => p event
  | _ => false

theorem of_takesNext {wakeup : Wakeup} {p : Event → Bool} (h : takesNext wakeup p s) :
    s.state = .running ∧ ∃ event u, nextEvent wakeup (s.given {}) = .ok (some event) u ∧ p event := by
  unfold takesNext at h
  obtain ⟨hs, hn⟩ := (Bool.and_eq_true ..).mp h
  split at hn
  · rename_i event u hu
    exact ⟨beq_iff_eq.mp hs, event, u, hu, hn⟩
  · cases hn

def exitOf (child : Nat) : Event → Bool
  | .proc _ _ i => i == child
  | .signal _ | .socket _ | .timer _ | .ipc _ _ => false

/-- The child of a job exits, and so does the next, which has the same pid. -/
theorem event_callback_exit : ∃ s event u, Reachable s ∧ s.kernel.procs.map (·.pid) = [2, 2] ∧
    nextEvent (.signal [.sigchld] [1]) (s.given {}) = .ok (some event) u ∧ ∃ callback, callbackOf u event = some callback ∧
      waitForEvent (.signal [.sigchld] [1]) (s.given {}) = callback u := by
  let again : Answers := { forks := [.started 2 true] }
  obtain ⟨s, hr, hp⟩ := reachable_of_run
    [startWith [("KeepAlive", .bool true), ("ThrottleInterval", .uint 1)] again, .childExits 0 (.exited 0),
      .handleEvent (.signal [.sigchld] [0]) {}, .timePasses 1000, .handleEvent (.timer 7) again, .childExits 1 (.exited 0)]
    (fun s => s.kernel.procs.map (·.pid) == [2, 2] && takesNext (.signal [.sigchld] [1]) (exitOf 1) s) (by decide +kernel)
  obtain ⟨hpids, hn⟩ := (Bool.and_eq_true ..).mp hp
  obtain ⟨hs, event, u, hu, -⟩ := of_takesNext hn
  exact ⟨s, event, u, hr, eq_of_beq hpids, hu, event_callback hr (.inl hs) hu⟩

end Relaunchd
