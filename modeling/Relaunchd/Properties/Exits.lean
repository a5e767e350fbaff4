/-
  Relaunchd.Properties.Exits — how often, and to whom, the exit of a child is dispatched.
-/

import Relaunchd.Runs
import Relaunchd.Writes

namespace Relaunchd

open Prog EventManager Tables Transition

variable {s s' : Sys} {e : Ev}

/-! ## What is on the way -/

def Sys.queuedExits (s : Sys) : List Nat := s.eventmgr.pendingEvents.filterMap Event.child?

/-- The exit of the process at place `i` is still to be dispatched. -/
structure Awaited (s : Sys) (i : Nat) (c : Proc) : Prop where
  registered : s.eventmgr.processCallbacks.lookup c.pid = some c.job
  held : c.held → c.pid ∈ s.eventmgr.watchPids ∧ i ∉ s.queuedExits
  reaped : c.held = false → s.queuedExits.count i = 1

/-- The exit of every child `addProcess` took is awaited, or it was dispatched once, and to
    the child's job. -/
def ExitsOnce (s : Sys) : Prop := ∀ i ∈ s.eventmgr.added, ∃ c, s.kernel.procs[i]? = some c ∧
  (c.dispatched = [] ∧ Awaited s i c ∨ c.dispatched = [c.job] ∧ i ∉ s.queuedExits)

/-- Events are dispatched in the order they were queued, and the dispatch of an exit hands
    it to the job of the child that exited. -/
structure DispatchesExits (s : Sys) (e : Ev) (s' : Sys) : Prop where
  head : ∀ event rest wakeup answers, e = .handleEvent wakeup answers → s.eventmgr.pendingEvents = event :: rest →
    s.state = .running ∨ s.state = .gracefulShutdown ∧ ¬ s.jobs.keys.isEmpty → e.dispatched s = some event
  exit : ∀ p st i, e.dispatched s = some (.proc p st i) → ∃ c c', s.kernel.procs[i]? = some c ∧ c.pid = p ∧
    c.dispatched = [] ∧ s'.kernel.procs[i]? = some c' ∧ c'.job = c.job ∧ c'.dispatched = [c.job]

theorem mem_queuedExits {i : Nat} : i ∈ s.queuedExits ↔ ∃ p st, Event.proc p st i ∈ s.eventmgr.pendingEvents := by
  rw [Sys.queuedExits, List.mem_filterMap]
  constructor
  · intro h
    obtain ⟨event, hm, he⟩ := h
    cases event with
    | proc p st child =>
      cases he
      exact ⟨p, st, hm⟩
    | signal | socket | timer | ipc => cases he
  · intro h
    obtain ⟨p, st, hm⟩ := h
    exact ⟨_, hm, rfl⟩

theorem Sound.exitsOnce (h : Sound s) (hp : ∀ c ∈ s.kernel.procs, c.stale = false) : ExitsOnce s := by
  intro i hi
  obtain ⟨c, hc, hexec, htracked⟩ := h.inv.registry.tracked hp i hi
  refine ⟨c, hc, ?_⟩
  have hqueued : i ∈ s.queuedExits → c.held = false ∧ c.live := fun hm => by
    obtain ⟨p, st, hm⟩ := mem_queuedExits.mp hm
    obtain ⟨-, c', hc', -, hh, hl, -⟩ := h.inv.registry.queued p st i hm
    obtain rfl : c' = c := Option.some.inj (hc'.symm.trans hc)
    exact ⟨hh, hl⟩
  rcases h.inv.forked.own c (List.mem_of_getElem? hc) with hd | hd
  · obtain ⟨-, hreg, hwatch⟩ := htracked hd
    have hlive : c.live := by simp [Proc.live, hexec, hd]
    refine .inl ⟨hd, hreg, fun hh => ⟨hwatch hh, fun hm => ?_⟩, fun hh => ?_⟩
    · rw [(hqueued hm).1] at hh
      cases hh
    · obtain ⟨i', c', hc', hj, -, hl, -, hq⟩ := h.inv.registry.registered c.pid c.job hreg (by simp)
      obtain rfl : i' = i := h.inv.forked.oneChild i' i c' c hc' hc hl hlive hj
      obtain rfl : c' = c := Option.some.inj (hc'.symm.trans hc)
      obtain ⟨st, hm⟩ := hq hh
      exact List.count_eq_one_of_mem h.inv.registry.once (mem_queuedExits.mpr ⟨_, st, hm⟩)
  · refine .inr ⟨hd, fun hm => ?_⟩
    have hl := (hqueued hm).2
    rw [Proc.live, hd] at hl
    simp at hl

/-! ## The dispatch -/

/-- The callback records the exit first, and takes no record back. -/
theorem dispatch_proc {p : Int} {st : WaitStatus} {i : Nat} {r : Ref} {c : Proc}
    (hr : s.eventmgr.processCallbacks.lookup p = some r) (hc : s.kernel.procs[i]? = some c) :
    wp (EventManager.dispatch (.proc p st i)) (fun _ s' => ∃ c', s'.kernel.procs[i]? = some c' ∧ c'.job = c.job ∧
      c.dispatched ++ [r] <+: c'.dispatched) (fun _ => True) s := by
  have hrest : Traced anyEffect ((Job.reapChildProcess r st >>= fun _ => Job.execute r .processExited) >>= fun _ => deleteProcess p) :=
    ((Traced.reapChildProcess trivial trivial r st).bind fun _ => .executeNested 2 r _).bind fun _ => .deleteProcess p
  rw [EventManager.dispatch, wp_bind, wp_get, hr]
  dsimp only
  rw [wp_bind, Job.processCallback, wp_bind]
  refine wp_this_of fun _ _ => ?_
  rw [wp_bind, wp_modify]
  have hmarked : (s.updateKernel (·.dispatch i r)).kernel.procs[i]? = some { c with dispatched := c.dispatched ++ [r] } :=
    (List.getElem?_modify_eq ..).trans (by rw [hc]; rfl)
  generalize s.updateKernel (·.dispatch i r) = u at hmarked ⊢
  rw [← wp_bind]
  refine wp_mono (hrest u trivial) (fun _ s' hw => ?_) fun _ _ => trivial
  obtain ⟨c', hc', hf⟩ := hw.proc hmarked
  exact ⟨c', hc', hf.job, hf.dispatched⟩

theorem Sound.dispatches_exit (h : Sound s) (hn : Next s e s') {p : Int} {st : WaitStatus} {i : Nat}
    (he : e.dispatched s = some (.proc p st i)) : ∃ c c', s.kernel.procs[i]? = some c ∧ c.pid = p ∧
      c.dispatched = [] ∧ s'.kernel.procs[i]? = some c' ∧ c'.job = c.job ∧ c'.dispatched = [c.job] := by
  obtain ⟨wakeup, answers, u, rfl, hw, hd⟩ := hn.dispatches he
  have hsound : Sound s' := by
    rcases next_lives h hn with hl | ⟨w, ⟨-, sig, -, hsig⟩, -⟩
    · exact hl.1
    · rw [he] at hsig
      cases hsig
  cases wp_ok (nextEvent_spec (s := s.given answers) h.inv wakeup) hw with
  | @queued w _ rest hwoken hq =>
    obtain ⟨-, c, hc, hp, -, hl, hr⟩ := hwoken.inv.registry.queued p st i (by
      rw [show w.tables.eventmgr.pendingEvents = _ from hq]; exact List.mem_cons_self)
    obtain ⟨c', hc', hj, hpre⟩ := wp_ok (dispatch_proc (s := w.popped rest) hr hc) hd
    obtain ⟨c₀, hc₀, hf⟩ := hwoken.procs.get hc
    have hnil : c.dispatched = [] := by simpa [Proc.live] using (Bool.and_eq_true_iff.mp hl).2
    refine ⟨c₀, c', hc₀, hf.pid ▸ hp, hf.dispatched ▸ hnil, hc', hj.trans hf.job, ?_⟩
    rw [hnil, List.nil_append] at hpre
    rcases hsound.inv.forked.own c' (List.mem_of_getElem? hc') with hown | hown
    · rw [hown] at hpre
      simp at hpre
    · rw [hown, hj, hf.job]

theorem Sound.dispatchesExits (h : Sound s) (hn : Next s e s') : DispatchesExits s e s' where
  head event rest wakeup answers he hq hstate := by
    subst he
    have hif : ¬ (s.state = .gracefulShutdown ∧ s.jobs.keys.isEmpty) := by
      intro h'
      obtain ⟨hg, hempty⟩ := h'
      rcases hstate with hr | hr
      · rw [hg] at hr
        cases hr
      · exact hr.2 hempty
    have hnext : nextEvent wakeup (s.given answers) = .ok (some event) ((s.given answers).popped rest) :=
      nextEvent_queued (s := s.given answers) hq wakeup
    rw [Ev.dispatched, if_neg hif, hnext]
  exit _ _ _ := h.dispatches_exit hn

/-- As long as no pid is reused while it is registered, the exit of every child is dispatched
    once and to its own job, and is awaited until then. -/
theorem exits_once (h : Reachable s) (hs : s.state ≠ .finished) (hp : ∀ c ∈ s.kernel.procs, c.stale = false) :
    ExitsOnce s ∧ ∀ e s', Next s e s' → DispatchesExits s e s' := by
  have hsound : Sound s := Runs.sound (.of_reachable h) hs
  exact ⟨hsound.exitsOnce hp, fun e s' hn => hsound.dispatchesExits hn⟩

def startTwo : Ev :=
  .startRunning ["a.json", "b.json"] { files := fun path => .file (some (.obj
    [("Label", .str path), ("Program", .str "/bin/job"), ("RunAtLoad", .bool true)])) }

def batchRun : List Ev :=
  [startTwo, .childExits 0 (.exited 0), .childExits 1 (.exited 0), .handleEvent (.signal [.sigchld] [0, 1]) {}]

/-- The exit of the second child is queued, and its pid is no longer in `watch_pids`. -/
theorem exit_unwatched : ¬ ∀ s, Reachable s → ∀ i ∈ s.eventmgr.added, ∀ c, s.kernel.procs[i]? = some c →
    c.dispatched = [] → c.pid ∈ s.eventmgr.watchPids ∧ s.eventmgr.processCallbacks.lookup c.pid = some c.job := by
  intro h
  obtain ⟨s, hs, hp⟩ := reachable_of_run batchRun (fun s => s.eventmgr.added.contains 1 &&
    s.kernel.procs[1]?.any fun c => c.dispatched == [] && !(c.pid ∈ s.eventmgr.watchPids : Bool)) (by decide +kernel)
  rw [Bool.and_eq_true, Option.any_eq_true] at hp
  obtain ⟨ha, c, hc, hcd⟩ := hp
  simp only [Bool.and_eq_true, beq_iff_eq, Bool.not_eq_true', decide_eq_false_iff_not] at hcd
  exact hcd.2 (h s hs 1 (List.contains_iff_mem.mp ha) c hc hcd.1).1

theorem exits_once_batch : ∃ s, Reachable s ∧ s.queuedExits = [1] ∧ ExitsOnce s ∧ ∀ e s', Next s e s' → DispatchesExits s e s' := by
  obtain ⟨s, hs, hp⟩ := reachable_of_run batchRun (fun s => s.state == .running && s.queuedExits == [1] &&
    s.kernel.procs.all fun c => !c.stale) (by decide +kernel)
  simp only [Bool.and_eq_true, beq_iff_eq, List.all_eq_true, Bool.not_eq_true'] at hp
  exact ⟨s, hs, hp.1.2, exits_once hs (by rw [hp.1.1]; nofun) hp.2⟩

end Relaunchd
