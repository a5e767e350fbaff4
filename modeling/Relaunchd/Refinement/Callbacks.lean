/-
  Relaunchd.Refinement.Callbacks — the callbacks the event manager runs for a job: an exit,
  a timer that expired, the deletion of the job.
-/

import Relaunchd.Refinement.Machine

namespace Relaunchd

open Prog EventManager Tables

variable {busy : Option Int} {r : Ref} {l : Life} {s s' : Sys} {j : Job}

def Sys.popped (s : Sys) (rest : List Event) : Sys := s.updateEventmgr fun m => { m with pendingEvents := rest }

/-! ## An exit -/

/-- The process group of the job is reaped; the exit of its leader is being handled. -/
theorem killProcessGroup_spec {p : Int} {E : Sys → Prop} (h : s.tables.Inv (some p)) (hj : s.heap r = some j)
    (hp : j.pgid = p ∨ j.pgid = -1) :
    wp (Job.killProcessGroup r) (fun _ s' => s'.tables.Inv (some p) ∧ (∀ r', s'.tables.fate r' = s.tables.fate r') ∧
      Keeps s s' ∧ s'.clock = s.clock ∧ s'.kernel.answers = s.kernel.answers) E s := by
  have hq : s.tables.Inv (some p) ∧ (∀ r', s.tables.fate r' = s.tables.fate r') ∧ Keeps s s ∧
      s.clock = s.clock ∧ s.kernel.answers = s.kernel.answers := ⟨h, fun _ => rfl, Keeps.refl s, rfl, rfl⟩
  rw [Job.killProcessGroup, wp_bind, wp_this hj, wp_ite]
  split
  · exact hq
  rename_i hneg
  rw [wp_ite]
  split
  · exact hq
  rw [wp_bind, Job.logGroupKill, wp_modify, wp_bind, wp_modify, wp_pure]
  have hlogged := h.logGroupKill r j.pgid
  have hf : Fading s.tables.procs (s.tables.procs.map fun c => if c.pid == j.pgid then { c with state := .reaped } else c) :=
    Fading.map fun c _ => by
      split
      · exact Proc.fades_reaped c
      · exact Proc.Fades.refl c
  refine ⟨hlogged.fading hf fun i c c' hc hc' hh hh' _ => ?_, fun r' => fate_fading hf r', ⟨rfl, rfl, rfl, rfl, rfl, rfl, .refl _⟩,
    rfl, rfl⟩
  have hc'' : c' = if c.pid == j.pgid then { c with state := .reaped } else c := by
    have hmap : (s.tables.procs.map fun c => if c.pid == j.pgid then { c with state := .reaped } else c)[i]? = some c' := hc'
    have hc₀ : s.tables.procs[i]? = some c := hc
    rw [List.getElem?_map, hc₀] at hmap
    exact (Option.some.inj hmap).symm
  by_cases e : c.pid = j.pgid
  · rw [e]
    exact congrArg some ((hp.resolve_right fun e' => hneg (by rw [e']; decide)).symm)
  · rw [if_neg (by simpa using e)] at hc''
    rw [hc'', hh] at hh'
    cases hh'

theorem recordExit_eq (st : WaitStatus) (j : Job) :
    ∃ a b, Job.recordExit st j = { j with lastExitStatus := a, termSignal := b } := by
  cases st with
  | exited code => exact ⟨_, _, rfl⟩
  | signaled sig => exact ⟨_, _, rfl⟩

structure ExitSpec (p : Int) (i : Nat) (s : Sys) (r : Ref) (l : Life) (how : Start) (s' : Sys) : Prop where
  alive : s.tables.fate r = .alive l
  child : l.child = some p
  proc : ∃ c, s.kernel.procs[i]? = some c ∧ c.job = r ∧ c.pid = p ∧ c.live
  returns : how.throws = false
  sound : how.Sound
  answer : l.reap.restarts (s.clock 1 / 1000) → how.Of s.kernel.answers.nextFork s.kernel.answers.nextProbe
  armed : l.reap.awaits (s.clock 1 / 1000) (s.clock 2 / 1000) → l.reap.throttleArming (s.clock 3) ≠ .failed
  moves : Moves none r (l.reap.processExited s.clock how) s s'

theorem exit_spec (h : s.tables.Inv none) {p : Int} {st : WaitStatus} {i : Nat} {rest : List Event}
    (hq : s.eventmgr.pendingEvents = .proc p st i :: rest) :
    wp (EventManager.dispatch (.proc p st i)) (fun _ s' => ∃ r l how, ExitSpec p i s r l how s') (fun _ => True)
      (s.popped rest) := by
  obtain ⟨-, c, hc, hp, hh, hlive, hcb⟩ := h.registry.queued p st i (by
    rw [show s.tables.eventmgr.pendingEvents = _ from hq]; exact List.mem_cons_self)
  rw [EventManager.dispatch, wp_bind, wp_get]
  rw [show (s.popped rest).eventmgr.processCallbacks.lookup p = some c.job from hcb]
  dsimp only
  rw [wp_bind, Job.processCallback, wp_bind]
  refine wp_this_of fun j hj => ?_
  rw [wp_bind, wp_modify, wp_bind, Job.reapChildProcess, wp_bind, wp_setJob, wp_bind, wp_setJob, wp_bind]
  have hj' : s.heap c.job = some j := hj
  obtain ⟨s₁, hs₁⟩ : ∃ s₁, s₁ = (s.popped rest).updateKernel (·.dispatch i c.job) := ⟨_, rfl⟩
  have hj₁ : s₁.heap c.job = some j := by rw [hs₁]; exact hj
  have ht₁ : s₁.tables = s.tables.dispatched i c.job rest := by rw [hs₁]; rfl
  have hk₁ : Keeps s s₁ := by rw [hs₁]; exact ⟨rfl, rfl, rfl, rfl, rfl, rfl, .refl _⟩
  have hans : s₁.kernel.answers = s.kernel.answers := by rw [hs₁]; rfl
  have hnow : s₁.clock = s.clock := by rw [hs₁]; rfl
  rw [← hs₁]
  obtain ⟨a, b, hrec⟩ := recordExit_eq st j
  obtain ⟨s₂, hs₂⟩ : ∃ s₂, s₂ = (s₁.updateJob c.job (Job.recordExit st)).updateJob c.job fun j => { j with pid := 0 } :=
    ⟨_, rfl⟩
  have ht₂ : s₂.tables = (s.tables.dispatched i c.job rest).put c.job { j with lastExitStatus := a, termSignal := b, pid := 0 } := by
    rw [hs₂, tables_updateJob (Sys.updateJob_self hj₁), tables_updateJob hj₁, put_put, hrec, ht₁]
  have hk₂ : Keeps s s₂ := hk₁.trans (hs₂ ▸ (keeps_updateJob ..).trans (keeps_updateJob ..))
  have hlife : (s.tables.dispatched i c.job rest).lifeOf c.job { j with lastExitStatus := a, termSignal := b, pid := 0 } =
      (s.tables.lifeOf c.job j).reap := by
    unfold lifeOf
    rw [history_dispatched_self rest h.forked hc hlive]
    rfl
  have hg := h.good c.job j hj'
  have hchild : (s.tables.lifeOf c.job j).child = some p := by
    rw [← hp]
    exact congrArg (Option.map (·.pid)) (h.forked.childOf_eq hc hlive)
  have hsome : (s.tables.lifeOf c.job j).child.isSome := by rw [hchild]; rfl
  have hinv : s₂.tables.Inv (some p) := ht₂ ▸ h.dispatched _ hq hc hj' rfl rfl rfl rfl (hlife ▸ Life.good_reap hg hsome)
  have hj₂ : s₂.heap c.job = some { j with lastExitStatus := a, termSignal := b, pid := 0 } :=
    (congrArg (fun t => t.heap c.job) ht₂).trans put_heap_self
  have hfate₂ : s₂.tables.fate c.job = .alive (s.tables.lifeOf c.job j).reap := by rw [ht₂, fate_put_self, hlife]
  have hgroup : j.pgid = p ∨ j.pgid = -1 := hp ▸ h.group c.job j c hj' (h.forked.childOf_eq hc hlive)
  rw [← hs₂]
  refine wp_mono (killProcessGroup_spec hinv hj₂ hgroup) ?_ fun _ => id
  intro _ s₃ h'
  obtain ⟨hinv₃, hfates₃, hk₃, hclock₃, hans₃⟩ := h'
  rw [wp_pure]
  refine wp_mono (processExited_spec hinv₃ ((hfates₃ _).trans hfate₂) (hg.idle_of_reap hsome) (hg.not_pending_of_child hsome))
    ?_ fun _ => id
  intro _ s₄ h'
  obtain ⟨how, hret, hsound, hof, harmed, hm⟩ := h'
  rw [deleteProcess, wp_modify]
  have hans₂ : s₂.kernel.answers = s.kernel.answers := by rw [hs₂]; exact hans
  have hclock₂ : s₂.clock = s.clock := by rw [hs₂]; exact hnow
  simp only [hclock₃, hclock₂, hans₃, hans₂] at hof harmed hm
  refine ⟨c.job, s.tables.lifeOf c.job j, how, fate_alive hj', hchild, ⟨c, hc, rfl, hp, hlive⟩, hret, hsound, hof, harmed, ?_⟩
  refine ⟨hm.inv.unregister, (fate_unregister p _).trans hm.life, fun r' hne => ?_, ?_⟩
  · refine (fate_unregister p _).trans ((hm.others r' hne).trans ?_)
    rw [hfates₃, ht₂, fate_put_ne hne, fate_dispatched_ne hc (Ne.symm hne)]
  · exact (hk₂.trans (hk₃.trans hm.keeps)).trans ⟨rfl, rfl, rfl, rfl, rfl, rfl, .refl _⟩

/-! ## A timer -/

def Turn.fires (kind : TimerKind) (clock : Nat → Nat) (how : Start) : Turn :=
  match kind with
  | .throttle => .throttleFires clock how
  | .periodic => .periodicFires clock how

namespace Life

variable {clock : Nat → Nat} {kind : TimerKind} {how : Start}

theorem next_throttle : l.next (.fires .throttle clock how) = (l.fire.start clock how).enter .running how := rfl

theorem next_periodic : l.next (.fires .periodic clock how) = l.fire.start clock how := rfl

theorem enabled_fires : l.Enabled (.fires kind clock how) ↔ l.Fires kind clock how := by cases kind <;> rfl

/-- A job whose timer expires was waiting for it. -/
theorem Good.waiting (h : l.Good) (ht : l.timer.isSome) : l.state = .waiting ∧ l.child = none ∧ l.boot ≠ .pending :=
  ⟨(h.waits (h.timerSet ht)).1, (h.waits (h.timerSet ht)).2, h.not_pending_of_timer ht⟩

end Life

structure TimerSpec (timerId : Nat) (s : Sys) (r : Ref) (l : Life) (kind : TimerKind) (how : Start) (s' : Sys) : Prop where
  alive : s.tables.fate r = .alive l
  timer : ∃ due ≤ s.kernel.now, l.timer = some (kind, due)
  callback : s.eventmgr.timerCallbacks.lookup timerId = some (r, kind)
  returns : how.throws = false
  sound : how.Sound
  answer : how.Of s.kernel.answers.nextFork s.kernel.answers.nextProbe
  moves : Moves none r (l.next (.fires kind s.clock how)) s s'

/-- An expired timer is read: its id is dispatched next. -/
theorem timer_spec (h : s.tables.Inv none) {fd : Fd} {timerId deadline : Nat}
    (hfd : s.kernel.timerfds.lookup fd = some { state := .armed deadline, watched := true }) (hdue : deadline ≤ s.kernel.now)
    (hid : s.eventmgr.timerfdMap.lookup timerId = some fd) :
    wp (EventManager.dispatch (.timer timerId)) (fun _ s' => ∃ r l kind how, TimerSpec timerId s r l kind how s')
      (fun _ => True)
      (s.updateKernel fun k => { k with timerfds := k.timerfds.insert fd { state := .disarmed, watched := true } }) := by
  obtain ⟨cb, hcb⟩ := Option.ne_none_iff_exists'.mp (h.timed.fds timerId fd hid).1
  obtain ⟨r, kind⟩ := cb
  have hdeadline : s.tables.eventmgr.timerOf s.tables.timerfds r timerId = some (kind, deadline) := timerOf_of hcb hid hfd
  have harmed : s.tables.eventmgr.armedFor s.tables.timerfds r timerId := by
    rw [EventManager.armedFor, hdeadline]
    rfl
  obtain ⟨j, hj, hji⟩ := h.timed.armed r timerId harmed
  obtain ⟨hinv, hlife, hothers⟩ := h.readTimer hid hj hji
  have hsilent := (silenced_readTimer h.timed hid).silent
  have hg := h.good r j hj
  have htimer : (s.tables.lifeOf r j).timer = some (kind, deadline) := by
    unfold lifeOf
    rw [hji]
    exact hdeadline
  have hsome : (s.tables.lifeOf r j).timer.isSome := by rw [htimer]; rfl
  obtain ⟨s₁, hs₁⟩ : ∃ s₁, s₁ = s.updateKernel fun k =>
    { k with timerfds := k.timerfds.insert fd { state := .disarmed, watched := true } } := ⟨_, rfl⟩
  have ht₁ : s₁.tables = s.tables.readTimer fd := by rw [hs₁]; rfl
  have hk₁ : Keeps s s₁ := by rw [hs₁]; exact ⟨rfl, rfl, rfl, rfl, rfl, rfl, .refl _⟩
  have hj₁ : s₁.heap r = some j := (congrArg (fun t => t.heap r) ht₁).trans hj
  rw [← ht₁] at hinv hlife hothers
  have hnone : ∀ id, s₁.tables.eventmgr.armedFor s₁.tables.timerfds r id = false := by
    intro id
    by_contra ha
    obtain ⟨k, hk, hki⟩ := hinv.timed.armed r id (by simpa using ha)
    have e : j = k := Option.some.inj (hj₁.symm.trans hk)
    rw [← e, hji] at hki
    cases hki
    rw [ht₁, EventManager.armedFor, hsilent r] at ha
    exact ha rfl
  have hfire : s₁.tables.lifeOf r { j with timerId := none } = (s.tables.lifeOf r j).fire := by
    have : s₁.tables.history r = s.tables.history r := by rw [ht₁]; rfl
    simp only [lifeOf, this, Life.fire]
    rfl
  have hm₁ : Moves none r (s.tables.lifeOf r j).fire s (s₁.updateJob r fun j => { j with timerId := none }) := by
    have := moves_put hinv hj₁ (fun j => { j with timerId := none }) rfl rfl (.inr ⟨rfl, hnone⟩) Iff.rfl rfl
      (hfire ▸ Life.good_fire hg hsome)
    rw [hfire] at this
    exact ⟨this.inv, this.life, fun r' hne => (this.others r' hne).trans (hothers r' hne), hk₁.trans this.keeps⟩
  have hclock : (s₁.updateJob r fun j => { j with timerId := none }).clock = s.clock := by rw [hs₁]; rfl
  have hans : (s₁.updateJob r fun j => { j with timerId := none }).kernel.answers = s.kernel.answers := by rw [hs₁]; rfl
  have hidle := hg.idle_of_fire hsome
  have hb := hg.not_pending_of_timer hsome
  have hwaits := (hg.waits (hg.timerSet hsome)).1
  rw [← hs₁, EventManager.dispatch, wp_bind, wp_get,
    show s₁.eventmgr.timerCallbacks.lookup timerId = some (r, kind) by rw [hs₁]; exact hcb]
  dsimp only
  cases kind with
  | throttle =>
    rw [Job.timerCallback, wp_bind, wp_this hj₁, wp_bind, wp_setJob]
    refine wp_mono (startRequested_spec 1 hm₁.inv hm₁.life hidle hb (.inr hwaits)) ?_ fun _ _ => trivial
    intro _ s' h'
    obtain ⟨how, hret, hs, hof, hm⟩ := h'
    rw [hclock] at hm
    rw [hans] at hof
    exact ⟨r, _, _, how, fate_alive hj, ⟨deadline, hdue, htimer⟩, hcb, hret, hs, hof, hm₁.trans hm⟩
  | periodic =>
    rw [Job.timerCallback, wp_bind, wp_this hj₁, wp_bind, wp_setJob]
    refine wp_mono (startJob_spec hm₁.inv hm₁.life hidle hb) ?_ fun _ _ => trivial
    intro _ s' h'
    obtain ⟨how, hret, hs, hof, hm⟩ := h'
    rw [hclock] at hm
    rw [hans] at hof
    exact ⟨r, _, _, how, fate_alive hj, ⟨deadline, hdue, htimer⟩, hcb, hret, hs, hof, hm₁.trans hm⟩

/-! ## A deletion -/

structure DeleteSpec (label : String) (s : Sys) (r : Ref) (l : Life) (s' : Sys) : Prop where
  stored : s.jobs.lookup label = some r
  alive : s.tables.fate r = .alive l
  unloaded : l.state = .unloaded
  inv : s'.tables.Inv none
  gone : s'.tables.fate r = .gone l.toHistory
  others : ∀ r', r' ≠ r → s'.tables.fate r' = s.tables.fate r'
  jobs : s'.jobs = s.jobs.erase label
  state : s'.state = s.state
  listening : s'.listening = s.listening

theorem delete_spec (h : s.tables.Inv none) {label : String} {rest : List Event}
    (hq : s.eventmgr.pendingEvents = .ipc "delete_job" label :: rest) :
    wp (EventManager.dispatch (.ipc "delete_job" label)) (fun _ s' => ∃ r l, DeleteSpec label s r l s') (fun _ => True)
      (s.popped rest) := by
  obtain ⟨r, j, hr, hj, hs⟩ := h.unloaded_of_delete hq
  have hlt := h.owned.allocated r j hj
  rw [EventManager.dispatch, if_pos rfl, Manager.deleteJob, wp_modify,
    show (s.popped rest).jobs.lookup label = some r from hr]
  refine ⟨r, s.tables.lifeOf r j, hr, fate_alive hj, hs, h.destroy hq hr hj hs, fate_destroy_self hlt, fun r' hne => ?_,
    rfl, rfl, rfl⟩
  exact fate_destroy_ne (t := s.tables) hne

end Relaunchd
