/-
  Relaunchd.Properties.Starting — when a job is started: never while it has a child, or a
  timer that is still to start it. Whether the state Running means that there is a child.
-/

import Relaunchd.Runs

namespace Relaunchd

open Prog EventManager Tables Transition

variable {s s' : Sys} {e : Ev}

/-! ## One child at a time -/

/-- `startJob` was only entered for jobs with no child and no armed timer, and of the
    processes forked for a job only one runs its program or waits to be reaped. -/
def Alone (s : Sys) : Prop :=
  (∀ c ∈ s.starts, c.child = false ∧ c.timer = false) ∧
  ∀ (i k : Nat) (p q : Proc), s.kernel.procs[i]? = some p → s.kernel.procs[k]? = some q → p.job = q.job →
    p.live ∨ p.held → q.live ∨ q.held → i = k

theorem Sound.alone (h : Sound s) : Alone s := by
  have hlive : ∀ {i : Nat} {p : Proc}, s.kernel.procs[i]? = some p → p.live ∨ p.held → p.live := fun hp hl =>
    hl.elim id (h.inv.forked.live_of_held (List.mem_of_getElem? hp))
  exact ⟨h.inv.started, fun i k p q hp hq hj hlp hlq => h.inv.forked.oneChild i k p q hp hq (hlive hp hlp) (hlive hq hlq) hj⟩

theorem Alone.forced {w : Sys} (h : Alone w) (hf : Forced w s) : Alone s := by
  refine ⟨fun c hc => h.1 c (hf.starts ▸ hc), fun i k p q hp hq hj hlp hlq => ?_⟩
  obtain ⟨p', hp', fp⟩ := hf.procs.get hp
  obtain ⟨q', hq', fq⟩ := hf.procs.get hq
  refine h.2 i k p' q' hp' hq' (by rw [← fp.job, ← fq.job, hj]) ?_ ?_
  · exact hlp.imp (fun hl => fp.live ▸ hl) fp.2.2
  · exact hlq.imp (fun hl => fq.live ▸ hl) fq.2.2

/-- In every state reached, a job was never started while it had a child or an armed timer. -/
theorem startJob_alone (h : Reachable s) : Alone s := by
  rcases (Runs.of_reachable h).cases with hs | ⟨s₀, e, w, -, hs₀, -, -, -, hw, hf⟩
  · exact hs.alone
  · exact (hs₀.still hw).alone.forced hf

def restartRun : List Ev :=
  [startWith [("KeepAlive", .bool true), ("ThrottleInterval", .uint 0)] { forks := [.started 7 true] },
    .childExits 0 (.exited 0), .handleEvent (.signal [.sigchld] [0]) { forks := [.started 8 true] }]

theorem startJob_alone_restart : ∃ s, Reachable s ∧ s.starts.length = 2 ∧ Alone s := by
  obtain ⟨s, hs, hl⟩ := reachable_of_run restartRun (fun s => s.starts.length == 2) (by decide +kernel)
  exact ⟨s, hs, by simpa using hl, startJob_alone hs⟩

/-! ## Running means that there is a child -/

/-- A job is Running exactly while it has a child, and has a pid only then. -/
def InStep (s : Sys) : Prop := ∀ r j, s.heap r = some j →
  (j.state = .running ↔ 0 < j.pid ∧ ∃ c ∈ s.kernel.procs, c.job = r ∧ c.pid = j.pid ∧ c.live) ∧
  (j.state ≠ .running → j.pid = 0)

def Life.InStep (l : Life) : Prop := (l.state = .running ↔ l.child.isSome) ∧ (l.state ≠ .running → l.pid = 0)

theorem Life.InStep.sys (h : ∀ r l, s.tables.fate r = .alive l → l.Good ∧ l.InStep) : Relaunchd.InStep s := by
  intro r j hj
  obtain ⟨hg, hrun, hpid⟩ := h r _ (fate_alive (t := s.tables) hj)
  refine ⟨hrun.trans ⟨fun hc => ?_, fun ⟨hp, _⟩ => ?_⟩, hpid⟩
  · obtain ⟨pid, hchild⟩ := Option.isSome_iff_exists.mp hc
    obtain ⟨hpos, e⟩ := hg.childPid pid hchild
    obtain ⟨c, hc, rfl⟩ := Option.map_eq_some_iff.mp hchild
    obtain ⟨hm, hj, hl⟩ := childOf_some hc
    exact ⟨(show j.pid = c.pid from e) ▸ hpos, c, hm, hj, e.symm, hl⟩
  · rw [hg.pidChild hp]
    rfl

/-- The fork and the `execve(2)` succeed, unless no fork is tried. -/
def ForkAnswer.launches : ForkAnswer → Bool
  | .noFork | .noExec _ => false
  | .noPipe | .started _ _ => true

/-- Every start a step makes has its program run and watched. -/
def Answers.Launch (a : Answers) : Prop := (∀ f ∈ a.forks, f.launches) ∧ ∀ probe ∈ a.probes, probe = true

/-- What a step must meet to keep the jobs in step: no start fails half-way, no periodic timer
    starts its job, no periodic job exits, and the clock does not tick between the two guards
    of an exit. -/
def KeepsStep (s : Sys) : Ev → Prop
  | .startRunning _ answers => answers.Launch
  | .handleEvent wakeup answers =>
    match (Ev.handleEvent wakeup answers).dispatched s with
    | some (.socket _) => answers.Launch
    | some (.proc _ _ i) => ∀ c l, s.kernel.procs[i]? = some c → s.tables.fate c.job = .alive l → l.unloadRequested = false →
      if l.manifest.keepAlive then
        if l.throttled ((s.given answers).clock 1 / 1000) then l.throttled ((s.given answers).clock 2 / 1000)
        else answers.nextFork.launches
      else l.manifest.startInterval = none
    | some (.timer id) => ∀ r kind, s.eventmgr.timerCallbacks.lookup id = some (r, kind) →
      match kind with
      | .throttle => answers.nextFork.launches
      | .periodic => answers.nextFork = .noPipe ∨ ∃ pid, answers.nextFork = .noExec pid
    | _ => True
  | _ => True

theorem Start.From.launched {a : Answers} {how : Start} (h : how.From a) (ha : a.Launch) :
    how = .noPipe ∨ ∃ pid, how = .started pid := by
  obtain ⟨fork, probe, hf, hp, ho⟩ := h
  have hfork : fork.launches := by
    rcases hf with hf | rfl
    · exact ha.1 fork hf
    · rfl
  obtain rfl : probe = true := hp.elim (ha.2 probe) id
  cases fork with
  | noPipe => exact .inl ho
  | noFork | noExec => cases hfork
  | started => exact .inr ho

/-- A start in a callback: one that throws ends the program. -/
theorem Start.Of.launched {fork : ForkAnswer} {probe : Bool} {how : Start} (h : how.Of fork probe) (hf : fork.launches)
    (ht : how.throws = false) : ∃ pid, how = .started pid := by
  cases fork with
  | noPipe => cases h; cases ht
  | noFork | noExec => cases hf
  | started want getpgid =>
    cases probe with
    | true => exact h
    | false => obtain ⟨pid, rfl⟩ := h; cases ht

namespace Life

variable {l : Life}

theorem InStep.new (manifest : Manifest) : InStep { manifest } := ⟨iff_of_false nofun nofun, fun _ => rfl⟩

theorem inStep_started {clock : Nat → Nat} {pid : Int} (hs : l.state = .running) : (l.start clock (.started pid)).InStep :=
  ⟨iff_of_true hs rfl, fun h => absurd hs h⟩

theorem InStep.enter {clock : Nat → Nat} {how : Start} (h : l.InStep) (hc : l.child = none)
    (hhow : how = .noPipe ∨ ∃ pid, how = .started pid) : ((l.start clock how).enter .running how).InStep := by
  have hs : l.state ≠ .running := fun hs => by have := h.1.mp hs; rw [hc] at this; cases this
  rcases hhow with rfl | ⟨pid, rfl⟩
  · exact ⟨iff_of_false hs (by simp [start, Life.enter, Start.throws, hc]), fun _ => h.2 hs⟩
  · exact ⟨iff_of_true rfl rfl, fun h => absurd rfl h⟩

theorem InStep.boots {lookup : Decode Bool} {clock : Nat → Nat} {how : Start} {arming : Arming} (h : l.InStep)
    (hc : l.child = none) (hhow : how = .noPipe ∨ ∃ pid, how = .started pid) :
    (l.bootTriggered lookup clock how arming).InStep := by
  have hs : l.state ≠ .running := fun hs => by have := h.1.mp hs; rw [hc] at this; cases this
  unfold bootTriggered
  split
  · split
    · exact h.enter hc hhow
    · split
      · cases arming with
        | failed => exact h
        | disarmed | armed => exact ⟨iff_of_false (fun h => by cases h) (by simp [wait, hc]), fun _ => h.2 hs⟩
      · exact h
  · exact h

theorem InStep.unloadTriggered (h : l.InStep) : l.unloadTriggered.InStep := by
  by_cases hs : l.state = .running ∨ l.state = .unloaded
  · rwa [unloadTriggered_ignored hs]
  obtain ⟨hr, -⟩ := not_or.mp hs
  have hu : InStep { l with state := .unloaded } := ⟨iff_of_false nofun fun hc => hr (h.1.mpr hc), fun _ => h.2 hr⟩
  unfold Life.unloadTriggered
  split
  · exact hu
  · exact hu
  · split
    · exact h
    · exact hu
  · exact h

theorem InStep.exits {clock : Nat → Nat} {how : Start} (hs : l.state = .running)
    (hkeep : l.unloadRequested = false → if l.manifest.keepAlive then
        if l.throttled (clock 1 / 1000) then l.throttled (clock 2 / 1000) = true ∧ l.throttleArming (clock 3) ≠ .failed else ∃ pid, how = .started pid
      else l.manifest.startInterval = none) : (l.reap.processExited clock how).InStep := by
  have hleft : ∀ state, state ≠ .running → InStep { l.reap with state } := fun state h => ⟨iff_of_false h nofun, fun _ => rfl⟩
  cases hu : l.unloadRequested with
  | true =>
    rw [processExited_unloadRequested (l := l.reap) hs hu]
    exact hleft _ nofun
  | false =>
    replace hkeep := hkeep hu
    cases hk : l.manifest.keepAlive with
    | false =>
      rw [hk, if_neg nofun] at hkeep
      rw [processExited_exited (l := l.reap) hs hk hkeep hu]
      exact hleft _ nofun
    | true =>
      rw [hk, if_pos rfl] at hkeep
      cases h₁ : l.throttled (clock 1 / 1000) with
      | false =>
        rw [h₁, if_neg nofun] at hkeep
        obtain ⟨pid, rfl⟩ := hkeep
        rw [processExited_restarts (reap_restarts hs hk hu h₁)]
        exact inStep_started hs
      | true =>
        rw [h₁, if_pos rfl] at hkeep
        rw [processExited_waits (l := l.reap) hs hk hu h₁ hkeep.1]
        cases ha : l.reap.throttleArming (clock 3) with
        | failed => exact absurd ha hkeep.2
        | disarmed | armed => exact hleft _ nofun

end Life

theorem Life.InStep.next {r : Ref} {l : Life} {a : Turn} (hC : KeepsStep s e) (ha : Given s e r l a) (he : l.Enabled a)
    (hg : l.Good) (h : l.InStep) : (l.next a).InStep := by
  cases ha with
  | starts hs hq =>
    obtain ⟨lookup, clock, how, arming, rfl, hhow, -⟩ := boot_of_load hq
    exact InStep.boots (l := { l with boot := Manager.bootOf lookup }) h (hg.idle_of_pending he.1).1 (hhow.launched hC)
  | load hd hs hload hq =>
    obtain ⟨lookup, clock, how, arming, rfl, hhow, -⟩ := boot_of_load hq
    rw [KeepsStep, hd] at hC
    exact InStep.boots (l := { l with boot := Manager.bootOf lookup }) h (hg.idle_of_pending he.1).1 (hhow.launched hC)
  | kill =>
    obtain ⟨kills, e⟩ := signal_eq l
    rw [Life.next, e]
    exact h
  | unload => exact unload_cases _ _ _ (fun _ => h) (fun _ _ => h) fun _ _ _ _ => InStep.unloadTriggered h
  | @exit wakeup answers p st i r l how hd hproc hl hchild hof =>
    obtain ⟨c, hc, rfl⟩ := hproc
    rw [KeepsStep, hd] at hC
    replace hC := hC c l hc hl
    have hs : l.state = .running := h.1.mpr (by rw [hchild]; rfl)
    refine InStep.exits hs fun hu => ?_
    replace hC := hC hu
    split at hC
    · rename_i hk
      rw [if_pos hk]
      split at hC
      · rename_i h₁
        rw [if_pos h₁]
        exact ⟨hC, he.2.2.2.2 (reap_awaits hs hk hu h₁ hC)⟩
      · rename_i h₁
        rw [if_neg h₁]
        exact (hof (reap_restarts hs hk hu (by simpa using h₁))).launched hC he.2.2.1
    · rename_i hk
      rwa [if_neg hk]
  | @timer wakeup answers timerId r l kind how hd hcb hl hof =>
    rw [KeepsStep, hd] at hC
    replace hC := hC r kind hcb
    have hw : l.Fires kind (s.given answers).clock how := enabled_fires.mp he
    obtain ⟨hwaits, hc, -⟩ := hg.waiting hw.isSome
    cases kind with
    | throttle => exact InStep.enter (l := l.fire) h hc (.inr (hof.launched hC hw.returns))
    | periodic =>
      have hs : l.state ≠ .running := by rw [hwaits]; simp
      rcases hC with hC | ⟨pid, hC⟩
      · rw [hC] at hof
        cases hof
        cases hw.returns
      · rw [hC] at hof
        cases hof
        refine ⟨iff_of_false hs fun hc' => ?_, fun _ => rfl⟩
        rw [show (l.next _).child = l.child from rfl, hc] at hc'
        cases hc'
  | shutsDown hd hsig hrun hl hsent =>
    exact unload_cases _ _ _ (fun _ => h) (fun _ _ => h) fun _ _ _ _ => InStep.unloadTriggered h

end Relaunchd
