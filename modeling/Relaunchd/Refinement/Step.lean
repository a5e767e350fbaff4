/-
  Relaunchd.Refinement.Step — everything one step of the program can do. Each step leaves
  the jobs as they are, or gives one job the turn its event is for, or handles a request, or
  shuts the manager down. Every invariant of the runs is proved from `next_cases`.
-/

import Relaunchd.Refinement.Callbacks
import Relaunchd.Refinement.Shutdown

namespace Relaunchd

open Prog EventManager Tables

variable {s s' s'' : Sys}

/-! ## Steps that leave the jobs as they are -/

structure Still (s s' : Sys) : Prop where
  inv : s'.tables.Inv none
  fates : ∀ r, s'.tables.fate r = s.tables.fate r
  heap : s'.heap = s.heap
  jobs : s'.jobs = s.jobs
  pendingJobs : s'.pendingJobs = s.pendingJobs
  state : s'.state = s.state
  listening : s'.listening = s.listening
  stateFile : s'.stateFile = s.stateFile
  starts : s'.starts = s.starts
  kills : s'.kernel.kills = s.kernel.kills
  groupKills : s'.kernel.groupKills = s.kernel.groupKills
  procs : Fading s.kernel.procs s'.kernel.procs

theorem Still.refl (h : s.tables.Inv none) : Still s s :=
  ⟨h, fun _ => rfl, rfl, rfl, rfl, rfl, rfl, rfl, rfl, rfl, rfl, .refl _⟩

theorem Still.trans (h : Still s s') (h' : Still s' s'') : Still s s'' :=
  ⟨h'.inv, fun r => (h'.fates r).trans (h.fates r), h'.heap.trans h.heap, h'.jobs.trans h.jobs,
    h'.pendingJobs.trans h.pendingJobs, h'.state.trans h.state, h'.listening.trans h.listening,
    h'.stateFile.trans h.stateFile, h'.starts.trans h.starts, h'.kills.trans h.kills, h'.groupKills.trans h.groupKills,
    h.procs.trans h'.procs⟩

/-- A step that leaves the tables alone. -/
theorem Still.of_tables (h : s.tables.Inv none) (ht : s'.tables = s.tables) (hs : s'.state = s.state)
    (hl : s'.listening = s.listening) (hf : s'.stateFile = s.stateFile) : Still s s' where
  inv := ht ▸ h
  fates r := by rw [ht]
  heap := congrArg Tables.heap ht
  jobs := congrArg Tables.jobs ht
  pendingJobs := congrArg Tables.pendingJobs ht
  state := hs
  listening := hl
  stateFile := hf
  starts := congrArg Tables.starts ht
  kills := congrArg Tables.kills ht
  groupKills := congrArg Tables.groupKills ht
  procs := by rw [show s'.kernel.procs = s.kernel.procs from congrArg Tables.procs ht]; exact .refl _

/-! ### The environment -/

theorem raise_eq (k : Kernel) (sig : Signal) : ∃ signals, k.raise sig = { k with signals } := by
  unfold Kernel.raise
  split
  · exact ⟨k.signals, rfl⟩
  · exact ⟨_, rfl⟩

theorem childExits_eq (k : Kernel) (i : Nat) (st : WaitStatus) :
    (∃ c signals, k.procs[i]? = some c ∧ c.state = .running ∧
      k.childExits i st = { k with procs := k.procs.modify i fun p => { p with state := .zombie st }, signals }) ∨
    k.childExits i st = k := by
  unfold Kernel.childExits
  split
  · rename_i hc
    obtain ⟨signals, hs⟩ := raise_eq { k with procs := k.procs.modify i fun p => { p with state := .zombie st } } .sigchld
    exact .inl ⟨_, signals, hc, rfl, hs⟩
  · exact .inr rfl

theorem updateKernel_of {f : Kernel → Kernel} {kernel : Kernel} (h : f s.kernel = kernel) :
    s.updateKernel f = { s with kernel } := by
  rw [Sys.updateKernel, h]

theorem childExits_still (h : s.tables.Inv none) (i : Nat) (st : WaitStatus) :
    Still s (s.updateKernel (·.childExits i st)) := by
  rcases childExits_eq s.kernel i st with ⟨c, signals, hc, hs, e⟩ | e
  · rw [updateKernel_of e]
    obtain ⟨hinv, hfates⟩ := h.exits (t := s.tables) hc hs st
    refine ⟨hinv, hfates, rfl, rfl, rfl, rfl, rfl, rfl, rfl, rfl, rfl, Fading.modify fun p hp => ?_⟩
    rw [hc] at hp
    cases hp
    exact ⟨rfl, rfl, fun _ => by simp [Proc.held, hs]⟩
  · rw [updateKernel_of e]
    exact .refl h

theorem signalSent_still (h : s.tables.Inv none) (sig : Signal) : Still s (s.updateKernel (·.raise sig)) := by
  obtain ⟨signals, e⟩ := raise_eq s.kernel sig
  rw [updateKernel_of e]
  exact .of_tables h rfl rfl rfl rfl

/-! ### Waiting -/

/-- The state in which an event is taken: the answers, the clock and the databases are
    those the step began with. -/
structure Woken (s s' : Sys) : Prop extends Still s s' where
  answers : s'.kernel.answers = s.kernel.answers
  now : s'.kernel.now = s.kernel.now
  users : s'.kernel.users = s.kernel.users

theorem Woken.refl (h : s.tables.Inv none) : Woken s s := ⟨.refl h, rfl, rfl, rfl⟩

theorem Woken.trans (h : Woken s s') (h' : Woken s' s'') : Woken s s'' :=
  ⟨h.toStill.trans h'.toStill, h'.answers.trans h.answers, h'.now.trans h.now, h'.users.trans h.users⟩

theorem Woken.clock (h : Woken s s') : s'.clock = s.clock := by
  funext n
  rw [Sys.clock, Sys.clock, h.answers, h.now]

/-- Signals are queued. -/
theorem queueSignals_woken (h : s.tables.Inv none) {signals : List Signal} (hs : ∀ sig ∈ signals, sig ≠ .sigchld) :
    Woken s (s.updateEventmgr fun m => { m with pendingEvents := m.pendingEvents ++ signals.map .signal }) :=
  ⟨⟨h.queueSignals hs, fun r => fate_withQueue (t := s.tables) _ r, rfl, rfl, rfl, rfl, rfl, rfl, rfl, rfl, rfl, .refl _⟩,
    rfl, rfl, rfl⟩

theorem reapOne_eq (child : Nat) (s : Sys) :
    (∃ c st, s.kernel.procs[child]? = some c ∧ c.held ∧
      (EventManager.reapOne child s).tables = s.tables.reapOne child c.pid st ∧
      Keeps s (EventManager.reapOne child s) ∧ (EventManager.reapOne child s).kernel.answers = s.kernel.answers ∧
      (EventManager.reapOne child s).kernel.now = s.kernel.now ∧
      (EventManager.reapOne child s).kernel.users = s.kernel.users) ∨
    EventManager.reapOne child s = s := by
  unfold EventManager.reapOne
  split
  · rename_i pid _ _ st _ _ _ hc
    refine .inl ⟨_, st, hc, rfl, ?_⟩
    by_cases hw : pid ∈ s.eventmgr.watchPids
    · dsimp only
      rw [if_pos (show pid ∈ (s.updateKernel _).eventmgr.watchPids from hw)]
      refine ⟨?_, ⟨rfl, rfl, rfl, rfl, rfl, rfl, .refl _⟩, rfl, rfl, rfl⟩
      unfold Tables.reapOne
      rw [if_pos (show pid ∈ s.tables.eventmgr.watchPids from hw)]
      rfl
    · dsimp only
      rw [if_neg (show pid ∉ (s.updateKernel _).eventmgr.watchPids from hw)]
      refine ⟨?_, ⟨rfl, rfl, rfl, rfl, rfl, rfl, .refl _⟩, rfl, rfl, rfl⟩
      unfold Tables.reapOne
      rw [if_neg (show pid ∉ s.tables.eventmgr.watchPids from hw)]
      rfl
  · exact .inr rfl

theorem reapOne_woken (h : s.tables.Inv none) (hd : s.tables.Drained) (child : Nat) :
    Woken s (EventManager.reapOne child s) ∧ (EventManager.reapOne child s).tables.Drained := by
  rcases reapOne_eq child s with ⟨c, st, hc, hh, ht, hk, ha, hn, hu⟩ | e
  · obtain ⟨hinv, hd'⟩ := h.reapOne st hd hc hh
    rw [← ht] at hinv hd'
    refine ⟨⟨⟨hinv, fun r => ?_, ?_, hk.jobs, hk.pendingJobs, hk.state, hk.listening, hk.stateFile, ?_, ?_, ?_, ?_⟩, ha, hn, hu⟩, hd'⟩
    · rw [ht, fate_reapOne]
    · exact congrArg Tables.heap ht
    · exact congrArg Tables.starts ht
    · exact congrArg Tables.kills ht
    · exact congrArg Tables.groupKills ht
    · rw [show (EventManager.reapOne child s).kernel.procs = _ from congrArg Tables.procs ht]
      exact .reaped _ _
  · rw [e]
    exact ⟨.refl h, hd⟩

theorem reapAll_woken (h : s.tables.Inv none) (hd : s.tables.Drained) (children : List Nat) :
    Woken s (children.foldl (fun s child => EventManager.reapOne child s) s) := by
  induction children generalizing s with
  | nil => exact .refl h
  | cons child rest ih =>
    obtain ⟨hw, hd'⟩ := reapOne_woken h hd child
    exact hw.trans (ih hw.inv hd')

/-- A batch of signals is read when the queue is empty. -/
theorem getSignalEvents_spec {E : Sys → Prop} (h : s.tables.Inv none) (hq : s.eventmgr.pendingEvents = [])
    (signals : List Signal) (children : List Nat) :
    wp (getSignalEvents signals children) (fun _ => Woken s) E s := by
  rw [getSignalEvents, wp_bind, wp_get]
  dsimp only
  generalize (if signals.isPerm s.kernel.signals then signals else s.kernel.signals) = taken
  rw [wp_bind, wp_modify, wp_bind, wp_modify]
  obtain ⟨s₁, hs₁⟩ : ∃ s₁, s₁ = (s.updateKernel fun k => { k with signals := [] }).updateEventmgr fun m =>
    { m with pendingEvents := m.pendingEvents ++ (taken.filter (· ≠ .sigchld)).map .signal } := ⟨_, rfl⟩
  have hw : Woken s s₁ := by
    have hquiet : Woken s (s.updateKernel fun k => { k with signals := [] }) :=
      ⟨.of_tables h rfl rfl rfl rfl, rfl, rfl, rfl⟩
    exact hs₁ ▸ hquiet.trans (queueSignals_woken hquiet.inv fun sig hsig => of_decide_eq_true (List.mem_filter.mp hsig).2)
  have hd : s₁.tables.Drained := by
    intro p st i hm
    rw [hs₁, show (Sys.tables _).eventmgr.pendingEvents = s.eventmgr.pendingEvents ++ (taken.filter (· ≠ .sigchld)).map .signal
      from rfl, hq, List.nil_append] at hm
    obtain ⟨sig, -, e⟩ := List.mem_map.mp hm
    cases e
  rw [← hs₁, wp_ite]
  split
  · rw [wp_bind, wp_get, wp_modify]
    exact hw.trans (reapAll_woken hw.inv hd _)
  · exact hw

/-! ### Taking an event -/

/-- An event was taken: from the queue, from the socket, or from a timer that expired. -/
inductive Takes (s : Sys) : Event → Sys → Prop
  | queued {w : Sys} {event : Event} {rest : List Event} : Woken s w → w.eventmgr.pendingEvents = event :: rest →
      Takes s event (w.popped rest)
  | socket (message : Option Json) : s.listening → Takes s (.socket message) s
  | timer {fd : Fd} {timerId deadline : Nat} :
      s.kernel.timerfds.lookup fd = some { state := .armed deadline, watched := true } → deadline ≤ s.kernel.now →
      s.eventmgr.timerfdMap.lookup timerId = some fd → Takes s (.timer timerId)
        (s.updateKernel fun k => { k with timerfds := k.timerfds.insert fd { state := .disarmed, watched := true } })

def Waits (s : Sys) : Option Event → Sys → Prop
  | none, s' => Woken s s'
  | some event, s' => Takes s event s'

theorem getPendingEvent_queued {event : Event} {rest : List Event} (h : s.eventmgr.pendingEvents = event :: rest) :
    getPendingEvent s = .ok (some event) (s.popped rest) := by
  rw [getPendingEvent, get_bind, h]
  rfl

theorem getPendingEvent_empty (h : s.eventmgr.pendingEvents = []) : getPendingEvent s = .ok none s := by
  rw [getPendingEvent, get_bind, h]
  rfl

/-- What is queued is taken, whatever the kernel reports. -/
theorem nextEvent_queued {event : Event} {rest : List Event} (h : s.eventmgr.pendingEvents = event :: rest) (wakeup : Wakeup) :
    nextEvent wakeup s = .ok (some event) (s.popped rest) := by
  unfold nextEvent
  exact (bind_ok (getPendingEvent_queued h)).trans rfl

theorem nextEvent_interrupted (h : s.eventmgr.pendingEvents = []) : nextEvent .interrupted s = .throw "epoll_wait" s := by
  unfold nextEvent
  exact (bind_ok (getPendingEvent_empty h)).trans rfl

theorem nextEvent_nothing (h : s.eventmgr.pendingEvents = []) : nextEvent .nothing s = .ok none s := by
  unfold nextEvent
  exact (bind_ok (getPendingEvent_empty h)).trans rfl

theorem nextEvent_socket {message : Option Json} (h : s.eventmgr.pendingEvents = []) (hl : s.listening) :
    nextEvent (.socket message) s = .ok (some (.socket message)) s := by
  unfold nextEvent
  rw [bind_ok (getPendingEvent_empty h)]
  dsimp only
  rw [bind_ok (show Prog.get s = .ok s s from rfl), if_pos hl]
  rfl

theorem getPendingEvent_spec {w : Sys} {E : Sys → Prop} (hw : Woken s w) :
    wp getPendingEvent (fun event s' => match event with
      | none => s' = w ∧ w.eventmgr.pendingEvents = []
      | some event => Takes s event s') E w := by
  rw [getPendingEvent, wp_bind, wp_get]
  cases hq : w.eventmgr.pendingEvents with
  | nil => exact ⟨rfl, rfl⟩
  | cons event rest => exact .queued hw hq

theorem readTimer_spec (h : s.tables.Inv none) (fd : Fd) : wp (EventManager.readTimer fd) (Waits s) (fun _ => True) s := by
  rw [EventManager.readTimer, wp_bind, wp_get]
  split
  · rename_i deadline hfd
    rw [wp_bind, wp_get, wp_ite]
    split
    · exact Woken.refl h
    rename_i hdue
    rw [wp_bind, wp_modify, wp_bind, wp_get]
    split
    · rename_i timerId _ hfind
      refine .timer hfd (Nat.not_lt.mp hdue) ?_
      have hmem := List.mem_of_find?_eq_some hfind
      have heq := List.find?_some hfind
      simp only [beq_iff_eq] at heq
      rw [heq] at hmem
      exact AList.mem_lookup_iff.mpr hmem
    · trivial
  · exact Woken.refl h

theorem nextEvent_spec (h : s.tables.Inv none) (wakeup : Wakeup) :
    wp (nextEvent wakeup) (Waits s) (fun _ => True) s := by
  unfold nextEvent
  rw [wp_bind]
  refine wp_mono (getPendingEvent_spec (.refl h)) (fun event s' hs' => ?_) fun _ => id
  cases event with
  | some event => exact hs'
  | none =>
    obtain ⟨rfl, hq⟩ := hs'
    cases wakeup with
    | interrupted => trivial
    | nothing => exact Woken.refl h
    | signal signals children =>
      dsimp only
      rw [wp_bind]
      refine wp_mono (getSignalEvents_spec h hq signals children) (fun _ w hw => ?_) fun _ => id
      refine wp_mono (getPendingEvent_spec hw) (fun event s'' hs'' => ?_) fun _ => id
      cases event with
      | none => exact hs''.1 ▸ hw
      | some event => exact hs''
    | socket message =>
      dsimp only
      rw [wp_bind, wp_get]
      split
      · rename_i hl
        exact Takes.socket message hl
      · exact Woken.refl h
    | timer fd => exact readTimer_spec h fd

/-! ## What a step does -/

/-- What holds of a manager between two events. -/
structure Sound (s : Sys) : Prop where
  inv : s.tables.Inv none
  listening : s.listening → s.state = .running

def Sys.given (s : Sys) (answers : Answers) : Sys := s.updateKernel fun k => { k with answers }

def Ev.dispatched (s : Sys) : Ev → Option Event
  | .handleEvent wakeup answers =>
    if s.state = .gracefulShutdown ∧ s.jobs.keys.isEmpty then none
    else match nextEvent wakeup (s.given answers) with
      | .ok event _ => event
      | _ => none
  | _ => none

/-- An event that is dispatched was taken by a call of `handleEvent`. -/
theorem Sound.takes {e : Ev} {event : Event} (h : Sound s) (he : e.dispatched s = some event) :
    ∃ wakeup answers u, e = .handleEvent wakeup answers ∧ Takes (s.given answers) event u := by
  cases e with
  | timePasses | childExits | signalSent | startRunning => cases he
  | handleEvent wakeup answers =>
    rw [Ev.dispatched] at he
    split at he
    · cases he
    cases hn : nextEvent wakeup (s.given answers) with
    | ok event' u =>
      rw [hn] at he
      subst he
      have ht : Waits (s.given answers) (some event) u := wp_ok (nextEvent_spec (s := s.given answers) h.inv wakeup) hn
      exact ⟨wakeup, answers, u, rfl, ht⟩
    | throw | crash => rw [hn] at he; cases he

/-- The manager starts: it loads its domain's jobs and boots them. -/
structure Starts (answers : Answers) (s s' : Sys) : Prop where
  inv : s'.tables.Inv none
  fates : ∀ r, Fate.Steps (fun l => Request.load.Gives answers l) (fun _ => False) (s.tables.fate r) (s'.tables.fate r)
  stored : ∀ label r, s.jobs.lookup label = some r → s'.jobs.lookup label = some r
  state : s'.state = .running
  listening : s'.listening = true

/-- The signals that ask the manager to shut down. -/
def Signal.shutsDown : Signal → Bool
  | .sigint | .sigusr1 | .sigusr2 | .sigterm => true
  | .sigchld | .sigpipe => false

inductive Happens (s : Sys) (e : Ev) (s' : Sys) : Prop
  | still : Still s s' → Happens s e s'
  | starts (paths : List String) (answers : Answers) : e = .startRunning paths answers → s.state = .unconfigured →
      Starts answers s s' → Happens s e s'
  | exit (wakeup : Wakeup) (answers : Answers) (w : Sys) (p : Int) (st : WaitStatus) (i : Nat) (r : Ref) (l : Life)
      (how : Start) : e = .handleEvent wakeup answers → e.dispatched s = some (.proc p st i) → Woken (s.given answers) w →
      ExitSpec p i w r l how s' → Happens s e s'
  | timer (wakeup : Wakeup) (answers : Answers) (timerId : Nat) (r : Ref) (l : Life) (kind : TimerKind) (how : Start) :
      e = .handleEvent wakeup answers → e.dispatched s = some (.timer timerId) →
      TimerSpec timerId (s.given answers) r l kind how s' → Happens s e s'
  | delete (wakeup : Wakeup) (answers : Answers) (w : Sys) (label : String) (r : Ref) (l : Life) :
      e = .handleEvent wakeup answers → e.dispatched s = some (.ipc "delete_job" label) → Woken (s.given answers) w →
      DeleteSpec label w r l s' → Happens s e s'
  | request (wakeup : Wakeup) (answers : Answers) (message : Option Json) : e = .handleEvent wakeup answers →
      e.dispatched s = some (.socket message) → s.state = .running → Does (.of answers.files message) (s.given answers) s' →
      Happens s e s'
  | shutsDown (wakeup : Wakeup) (answers : Answers) (w : Sys) (sig : Signal) : e = .handleEvent wakeup answers →
      e.dispatched s = some (.signal sig) → sig.shutsDown → s.state = .running → Woken (s.given answers) w →
      ShutsDown w s' → Happens s e s'
  | forced (wakeup : Wakeup) (answers : Answers) (w : Sys) (sig : Signal) : e = .handleEvent wakeup answers →
      e.dispatched s = some (.signal sig) → sig.shutsDown → s.state = .gracefulShutdown → Woken (s.given answers) w →
      Forced w s' → Happens s e s'
  | finished (wakeup : Wakeup) (answers : Answers) : e = .handleEvent wakeup answers → s.state = .gracefulShutdown →
      s.jobs.keys.isEmpty → s' = { s.given answers with state := .finished } → Happens s e s'

theorem given_woken (h : s.tables.Inv none) (answers : Answers) : Still s (s.given answers) := .of_tables h rfl rfl rfl rfl

/-- A shutdown signal, once it is taken from the queue. -/
theorem handleShutdownSignal_spec {w : Sys} (h : w.tables.Inv none) :
    wp Manager.handleShutdownSignal (fun _ s' => match w.state with
      | .running => ShutsDown w s'
      | .gracefulShutdown => Forced w s'
      | _ => True) (fun _ => True) w := by
  rw [Manager.handleShutdownSignal, wp_bind, wp_get]
  cases hs : w.state with
  | unconfigured => exact wp_of_ok (fun _ _ _ => trivial) fun _ _ _ => trivial
  | running => exact shutdown_spec h hs
  | gracefulShutdown => exact forced_spec h hs
  | finished => trivial

theorem popped_woken {w : Sys} {event : Event} {rest : List Event} (hw : Woken s w)
    (hq : w.eventmgr.pendingEvents = event :: rest) (he : event.child? = none) (hd : ∀ l, event.deletes l = false) :
    Woken s (w.popped rest) := by
  have hinv : (w.popped rest).tables.Inv none := hw.inv.pop (t := w.tables) hq he hd
  refine hw.trans ⟨⟨hinv, fun r => fate_withQueue (t := w.tables) rest r, rfl, rfl, rfl, rfl, rfl, rfl, rfl, rfl, rfl, .refl _⟩,
    rfl, rfl, rfl⟩

/-- An event is dispatched. -/
theorem dispatch_spec (h : Sound s) {wakeup : Wakeup} {answers : Answers} {event : Event} {u : Sys}
    (he : (Ev.handleEvent wakeup answers).dispatched s = some event) (ht : Takes (s.given answers) event u)
    (hstate : s.state = .running ∨ s.state = .gracefulShutdown) :
    wp (EventManager.dispatch event) (fun _ s' => Happens s (.handleEvent wakeup answers) s') (fun _ => True) u := by
  have hs₀ := given_woken h.inv answers
  cases ht with
  | @queued w event rest hw hq =>
    have hkind : event.Queued := hw.inv.kinds event (by rw [show w.tables.eventmgr.pendingEvents = _ from hq]; exact List.mem_cons_self)
    cases event with
    | proc p st i =>
      refine wp_mono (exit_spec hw.inv hq) (fun _ s' hs' => ?_) fun _ => id
      obtain ⟨r, l, how, hspec⟩ := hs'
      exact .exit wakeup answers w p st i r l how rfl he hw hspec
    | signal sig =>
      have hu : Woken (s.given answers) (w.popped rest) := popped_woken hw hq rfl fun _ => rfl
      have hshut : sig.shutsDown → ∀ result : ManagerResult, wp (do
          modify fun s => { s with pendingResult := result }
          Manager.handleShutdownSignal) (fun _ s' => Happens s (.handleEvent wakeup answers) s') (fun _ => True)
          (w.popped rest) := by
        intro hsig result
        rw [wp_bind, wp_modify]
        have hu' : Woken (s.given answers) { w.popped rest with pendingResult := result } :=
          hu.trans ⟨.of_tables hu.inv rfl rfl rfl rfl, rfl, rfl, rfl⟩
        generalize ({ w.popped rest with pendingResult := result } : Sys) = v at hu' ⊢
        have hst : v.state = s.state := hu'.state
        refine wp_mono (handleShutdownSignal_spec hu'.inv) (fun _ s' hs' => ?_) fun _ => id
        rcases hstate with hrun | hgrace
        · rw [hst, hrun] at hs'
          exact .shutsDown wakeup answers v sig rfl he hsig hrun hu' hs'
        · rw [hst, hgrace] at hs'
          exact .forced wakeup answers v sig rfl he hsig hgrace hu' hs'
      cases sig with
      | sigchld => trivial
      | sigpipe => exact .still (hs₀.trans hu.toStill)
      | sigint => exact hshut rfl .reboot
      | sigusr1 => exact hshut rfl .halt
      | sigusr2 => exact hshut rfl .haltAndPowerDown
      | sigterm => exact hshut rfl .singleUserMode
    | ipc method label =>
      obtain rfl : method = "delete_job" := hkind
      refine wp_mono (delete_spec hw.inv hq) (fun _ s' hs' => ?_) fun _ => id
      obtain ⟨r, l, hspec⟩ := hs'
      exact .delete wakeup answers w label r l rfl he hw hspec
    | socket message => exact hkind.elim
    | timer timerId => exact hkind.elim
  | socket message hl =>
    have hrun : s.state = .running := h.listening hl
    exact wp_mono (rpcDispatch_spec (s := s.given answers) ⟨hs₀.inv, hrun, rfl⟩ message)
      (fun _ s' hd => .request wakeup answers message rfl he hrun hd) fun _ => id
  | @timer fd timerId deadline hfd hdue hid =>
    refine wp_mono (timer_spec hs₀.inv hfd hdue hid) (fun _ s' hs' => ?_) fun _ => id
    obtain ⟨r, l, kind, how, hspec⟩ := hs'
    exact .timer wakeup answers timerId r l kind how rfl he hspec

theorem waitForEvent_spec (h : Sound s) (wakeup : Wakeup) (answers : Answers)
    (hstate : s.state = .running ∨ s.state = .gracefulShutdown ∧ ¬ s.jobs.keys.isEmpty) :
    wp (waitForEvent wakeup) (fun _ s' => Happens s (.handleEvent wakeup answers) s') (fun _ => True) (s.given answers) := by
  have hs₀ := given_woken h.inv answers
  have hif : ¬ (s.state = .gracefulShutdown ∧ s.jobs.keys.isEmpty) := by
    intro h'
    obtain ⟨hg, he⟩ := h'
    rcases hstate with hr | hr
    · rw [hg] at hr
      cases hr
    · exact hr.2 he
  rw [waitForEvent, wp_bind]
  refine wp_mono (wp_self (nextEvent_spec hs₀.inv wakeup)) (fun event u hu => ?_) fun _ => id
  obtain ⟨hnext, hu⟩ := hu
  cases event with
  | none => exact .still (hs₀.trans hu.toStill)
  | some event =>
    exact dispatch_spec h (by rw [Ev.dispatched, if_neg hif, hnext]) hu (hstate.imp_right And.left)

theorem handleEvent_spec (h : Sound s) (wakeup : Wakeup) (answers : Answers) :
    wp (Manager.handleEvent wakeup) (fun _ s' => Happens s (.handleEvent wakeup answers) s') (fun _ => True)
      (s.given answers) := by
  rw [Manager.handleEvent, wp_bind, wp_get, show (s.given answers).state = s.state from rfl]
  cases hs : s.state with
  | unconfigured => trivial
  | running => exact waitForEvent_spec h wakeup answers (.inl hs)
  | gracefulShutdown =>
    dsimp only
    rw [wp_bind, wp_get, wp_ite]
    split
    · rename_i hempty
      rw [execute_allJobsExited (s := s.given answers) hs]
      exact .finished wakeup answers rfl hs hempty rfl
    · rename_i hempty
      exact waitForEvent_spec h wakeup answers (.inr ⟨hs, hempty⟩)
  | finished => exact .still (given_woken h.inv answers)

theorem startRunning_spec (h : Sound s) (hs : s.state = .unconfigured) (paths : List String) (answers : Answers) :
    wp (Manager.startRunning paths) (fun _ => Starts answers s) (fun _ => True) (s.given answers) := by
  have hserve : Serving .unconfigured answers.files { s.given answers with listening := true } := ⟨h.inv, hs, rfl⟩
  have hgiven : (s.given answers).state = .unconfigured := hs
  rw [wp_congr (startRunning_eq hgiven paths), ← Prog.bind_assoc, wp_bind]
  refine wp_mono (Serves.bind (loadEachPath_serves paths) (fun _ => startAllJobs_serves) _ hserve) (fun _ s' hd => ?_)
    fun _ _ => trivial
  exact ⟨hd.inv, hd.fates, hd.stored, rfl, hd.listening⟩

/-- Everything a step can do. -/
theorem next_cases {e : Ev} (h : Sound s) (hn : Next s e s') : Happens s e s' := by
  obtain ⟨-, hstep⟩ := hn
  cases e with
  | timePasses ms =>
    cases hstep
    exact .still (.of_tables h.inv rfl rfl rfl rfl)
  | childExits child status =>
    cases hstep
    exact .still (childExits_still h.inv child status)
  | signalSent sig =>
    cases hstep
    exact .still (signalSent_still h.inv sig)
  | startRunning paths answers =>
    have hspec : wp (step (.startRunning paths answers)) (fun _ s' => Happens s (.startRunning paths answers) s')
        (fun _ => True) s := by
      rw [step, wp_bind, wp_modify, wp_bind, wp_get, wp_ite]
      split
      · rename_i hs
        exact wp_mono (startRunning_spec h hs paths answers) (fun _ s' hst => .starts paths answers rfl hs hst) fun _ => id
      · exact .still (given_woken h.inv answers)
    have := wp_ok hspec hstep
    exact this
  | handleEvent wakeup answers =>
    have hspec : wp (step (.handleEvent wakeup answers)) (fun _ s' => Happens s (.handleEvent wakeup answers) s')
        (fun _ => True) s := by
      rw [step, wp_bind, wp_modify]
      exact handleEvent_spec h wakeup answers
    have := wp_ok hspec hstep
    exact this

end Relaunchd
