/-
  Relaunchd.Properties.Unloading — the end of a job: its `delete_job` event, what is left of
  it when it is destroyed, and what a shutdown leaves.
-/

import Relaunchd.Runs

namespace Relaunchd

open Prog EventManager Tables Transition

variable {s s' : Sys} {e : Ev}

/-! ## The deletion of a job -/

/-- A `delete_job` event is queued for a label, once, exactly while the job stored there is
    Unloaded. -/
def DeletionsMatch (s : Sys) : Prop := ∀ label,
  (s.tables.Unloaded label → s.tables.deletions label = 1) ∧ (¬ s.tables.Unloaded label → s.tables.deletions label = 0)

/-- A step takes a job from under its label only when it dispatches its deletion, and the
    job is Unloaded. -/
def DeletesOwn (s : Sys) (e : Ev) (s' : Sys) : Prop :=
  ∀ label r, s.jobs.lookup label = some r → s'.jobs.lookup label ≠ some r →
    e.dispatched s = some (.ipc "delete_job" label) ∧ ∃ j, s.heap r = some j ∧ j.state = .unloaded

theorem deletesOwn_of_jobs (hj : s'.jobs = s.jobs) : DeletesOwn s e s' :=
  fun _ _ hr hn => absurd (hj ▸ hr) hn

theorem next_deletesOwn (h : Sound s) (hn : Next s e s') (hf : ¬ Forces s e) : DeletesOwn s e s' := by
  cases next_cases h hn with
  | still hs => exact deletesOwn_of_jobs hs.jobs
  | starts paths answers he hs hst => exact fun label r hr hne => absurd (hst.stored label r hr) hne
  | exit wakeup answers w p st i r l how he hd hw hx => exact deletesOwn_of_jobs (hx.moves.keeps.jobs.trans hw.jobs)
  | timer wakeup answers timerId r l kind how he hd hx => exact deletesOwn_of_jobs hx.moves.keeps.jobs
  | delete wakeup answers w label r l he hd hw hx =>
    intro label' r' hr' hne
    have hs : Still s w := (given_woken h.inv answers).trans hw.toStill
    obtain rfl : label' = label := by
      by_contra hl
      rw [hx.jobs, hs.jobs, AList.lookup_erase_ne hl] at hne
      exact hne hr'
    have hr := hx.stored
    rw [hs.jobs, hr'] at hr
    cases hr
    obtain ⟨j, hj, rfl⟩ := fate_eq_alive ((hs.fates _).symm.trans hx.alive)
    exact ⟨hd, j, hj, hx.unloaded⟩
  | request wakeup answers message he hd hs hx => exact fun label r hr hne => absurd (hx.stored label r hr) hne
  | shutsDown wakeup answers w sig he hd hsig hrun hw hx => exact deletesOwn_of_jobs (hx.jobs.trans hw.jobs)
  | forced wakeup answers w sig he hd hsig hg hw hx => exact absurd ⟨hg, sig, hsig, hd⟩ hf
  | finished wakeup answers he hg hempty hs' =>
    subst hs'
    exact deletesOwn_of_jobs rfl

/-- As long as no jobs were destroyed by force, deletions match the Unloaded jobs, and each
    deletes the job it was queued for. -/
theorem deletions_match (h : Runs (fun s e => ¬ Forces s e) s) :
    DeletionsMatch s ∧ ∀ e s', Next s e s' → ¬ Forces s e → DeletesOwn s e s' := by
  have hs : Sound s := by
    rcases h.cases with hs | ⟨s₀, e, w, -, -, hf, -, hf', -⟩
    · exact hs
    · exact absurd hf' hf
  exact ⟨hs.inv.deleted, fun e s' => next_deletesOwn hs⟩

def removeRun : List Ev := [startWith [] {}, requestOf "remove" [("Label", .str "job")]]

theorem deletions_match_removed : ∃ s, Runs (fun s e => ¬ Forces s e) s ∧ s.tables.deletions "job" = 1 ∧
    DeletionsMatch s ∧ ∀ e s', Next s e s' → ¬ Forces s e → DeletesOwn s e s' := by
  obtain ⟨s, hs, hp⟩ := runs_of_run (C := fun s e => ¬ Forces s e) (fun s _ => s.state != .gracefulShutdown) removeRun
    (fun s => s.tables.deletions "job" == 1) (fun s e _ hc hf => by simp [hf.1] at hc) (by decide +kernel)
  exact ⟨s, hs, by simpa using hp, deletions_match hs⟩

/-! ## What is left of a destroyed job -/

/-- Only a Running job has a child when it is first asked to unload. -/
def UnloadsIdle (s : Sys) (e : Ev) : Prop := ∀ r l, s.tables.fate r = .alive l → Asks s e l → l.unloadRequested = false →
  l.state ≠ .running → l.child = none

/-- An Unloaded job has no child, and a job that is gone left none. -/
def Fate.Ended : Fate → Prop
  | .unborn => True
  | .alive l => l.Good ∧ (l.state = .unloaded → l.child = none)
  | .gone history => history.child = none

theorem Life.wait_not_unloaded {l : Life} (kind : TimerKind) (arming : Arming) (h : l.state ≠ .unloaded) :
    (l.wait kind arming).state ≠ .unloaded := by
  rcases wait_state (l := l) kind arming with e | e <;> rw [e]
  · exact h
  · nofun

theorem Life.enter_not_unloaded {l : Life} {clock : Nat → Nat} {how : Start} (h : l.state ≠ .unloaded) :
    ((l.start clock how).enter .running how).state ≠ .unloaded := by
  unfold enter
  split
  · rwa [start_state]
  · nofun

theorem Fate.Ended.next {r : Ref} {l : Life} {a : Turn} (hC : UnloadsIdle s e) (ha : Given s e r l a) (he : l.Enabled a)
    (h : (Fate.alive l).Ended) : (Fate.alive (l.next a)).Ended := by
  obtain ⟨hg, hend⟩ := h
  refine ⟨Life.good_next hg he, ?_⟩
  have hboots : ∀ lookup clock how arming, l.boot = .pending → (l.bootstrap lookup clock how arming).state ≠ .unloaded := by
    intro lookup clock how arming hb
    have hs : l.state ≠ .unloaded := by rw [hg.fresh hb]; simp
    exact Life.bootTriggered_cases (P := fun l => l.state ≠ .unloaded) (l := { l with boot := Manager.bootOf lookup })
      lookup clock how arming hs
      (fun _ _ => Life.enter_not_unloaded hs) fun _ _ _ => Life.wait_not_unloaded _ _ hs
  have hunload : ∀ lookup force sent, (l.unloadRequested = false → l.state ≠ .running → l.child = none) →
      (l.unload lookup force sent).state = .unloaded → (l.unload lookup force sent).child = none := by
    intro lookup force sent hidle
    refine Life.unload_cases (P := fun l' => l'.state = .unloaded → l'.child = none) lookup force sent (fun _ => hend)
      (fun _ _ => hend) fun kills sigterm hs hu hu' => ?_
    by_cases hr : l.state = .running
    · rw [Life.unloadTriggered_ignored (l := { l with unloadRequested := true, kills, sigterm }) (.inl hr)] at hu'
      exact absurd hu' hs
    · exact Life.unloadTriggered_child.trans (hidle hu hr)
  cases ha with
  | starts hs hq =>
    obtain ⟨lookup, clock, how, arming, rfl, -⟩ := boot_of_load hq
    exact fun hu => absurd hu (hboots _ _ _ _ he.1)
  | load hd hs hload hq =>
    obtain ⟨lookup, clock, how, arming, rfl, -⟩ := boot_of_load hq
    exact fun hu => absurd hu (hboots _ _ _ _ he.1)
  | kill =>
    obtain ⟨kills, e⟩ := l.signal_eq
    rw [Life.next, e]
    exact hend
  | unload hd hs hq hlabel hsent hl =>
    refine hunload _ _ _ fun hu hr => ?_
    rcases hl with hl | hl | hl
    · exact hC _ l hl (.request hd hs hq hlabel) hu hr
    · exact hend hl
    · rw [hu] at hl
      cases hl
  | exit hd hproc hl hchild hof =>
    refine Life.processExited_cases (P := fun l => l.state = .unloaded → l.child = none) _ _ (fun _ _ => rfl)
      (fun _ _ _ _ _ => rfl) (fun hr hu => ?_) (fun hw hu => ?_) fun _ _ _ => rfl
    · rw [Life.start_state, (Life.restarts_iff.mp hr).1] at hu
      cases hu
    · exact absurd hu (Life.wait_not_unloaded _ _ (by rw [(Life.awaits_iff.mp hw).1]; simp))
  | @timer wakeup answers timerId r l kind how hd hcb hl hof =>
    have hs : l.fire.state ≠ .unloaded := by rw [show l.fire.state = l.state from rfl, (hg.waiting (Life.enabled_fires.mp he).isSome).1]; simp
    cases kind with
    | throttle => exact fun hu => absurd hu (Life.enter_not_unloaded hs)
    | periodic =>
      rw [Life.next_periodic, Life.start_state]
      exact fun hu => absurd hu hs
  | shutsDown hd hsig hrun hl hsent => exact hunload _ _ _ fun hu hr => hC _ l hl (.shutdown hd hsig hrun) hu hr

/-- Every process callback, and every callback of a timer that is still to expire, belongs
    to a job the manager stores, and no deletion finds its job with a child or a timer. -/
structure Backed (s : Sys) : Prop where
  processes : ∀ pid r, s.eventmgr.processCallbacks.lookup pid = some r → ∃ label, s.jobs.lookup label = some r
  timers : ∀ r id, s.armedFor r id → ∃ label, s.jobs.lookup label = some r
  deletions : ∀ (e : Ev) label r, e.dispatched s = some (.ipc "delete_job" label) → s.jobs.lookup label = some r →
    s.hasChild r = false ∧ s.hasTimer r = false

/-- A job whose deletion is dispatched is Unloaded. -/
theorem Sound.unloaded (h : Sound s) {label : String} {r : Ref} (he : e.dispatched s = some (.ipc "delete_job" label))
    (hr : s.jobs.lookup label = some r) : ∃ j, s.heap r = some j ∧ j.state = .unloaded := by
  obtain ⟨wakeup, answers, u, rfl, ht⟩ := h.takes he
  cases ht with
  | @queued w _ rest hw hq =>
    obtain ⟨r', j, hr', hj, hu⟩ := hw.inv.unloaded_of_delete (t := w.tables) hq
    rw [show w.tables.jobs = s.jobs from hw.jobs, hr] at hr'
    cases hr'
    exact ⟨j, (show w.tables.heap = s.heap from hw.heap) ▸ hj, hu⟩

theorem Sound.backed (h : Sound s) (hend : ∀ r, (s.tables.fate r).Ended) : Backed s where
  processes pid r hr := by
    obtain ⟨i, c, hc, hcr, -, hl, -⟩ := h.inv.registry.registered pid r hr nofun
    subst hcr
    have hchild : (s.tables.history c.job).child = some c.pid :=
      congrArg (Option.map Proc.pid) (h.inv.forked.childOf_eq hc hl)
    cases hj : s.heap c.job with
    | none =>
      have hgone : s.tables.fate c.job = .gone (s.tables.history c.job) := by
        rw [fate, show s.tables.heap c.job = none from hj]
        exact if_pos (h.inv.forked.forkedFor c (List.mem_of_getElem? hc))
      have := hend c.job
      rw [hgone, Fate.Ended, hchild] at this
      cases this
    | some j =>
      refine ⟨j.label, h.stored hj fun hb => ?_⟩
      have := ((h.inv.good c.job j hj).idle_of_pending hb).1
      rw [lifeOf_history, hchild] at this
      cases this
  timers r id ha := by
    obtain ⟨j, hj, hid⟩ := h.inv.timed.armed r id ha
    refine ⟨j.label, h.stored hj fun hb => ?_⟩
    have := ((h.inv.good r j hj).idle_of_pending hb).2
    rw [lifeOf_timerSet, hid] at this
    cases this
  deletions e label r he hr := by
    obtain ⟨j, hj, hu⟩ := h.unloaded he hr
    obtain ⟨hg, hchild⟩ : (Fate.alive (s.tables.lifeOf r j)).Ended := fate_alive (t := s.tables) hj ▸ hend r
    refine ⟨hasChildIn_eq_false h.inv.forked (Option.map_eq_none_iff.mp (hchild hu)), hasTimer_eq_false fun id => ?_⟩
    by_contra ha
    rw [Bool.not_eq_false] at ha
    obtain ⟨k, hk, hid⟩ := h.inv.timed.armed r id ha
    rw [show s.tables.heap r = some j from hj] at hk
    cases hk
    have hw := (hg.waits (by rw [lifeOf_timerSet, hid]; rfl)).1
    rw [lifeOf_state, hu] at hw
    cases hw

/-- In a run where only Running jobs have a child when they are asked to unload, the
    callbacks belong to stored jobs. -/
theorem callbacks_backed (h : Runs UnloadsIdle s) (hs : s.state ≠ .finished) : Backed s := by
  refine (h.sound hs).backed (h.fates (Q := Fate.Ended) trivial (fun m _ => ⟨Life.good_new m, nofun⟩) ?_ ?_ hs)
  · exact fun s e r l a _ _ hC ha he hl => hl.next hC ha he
  · exact fun s e r l _ _ _ _ hu hl => hl.2 hu

def orphanRun : List Ev :=
  [startWith [("StartInterval", .uint 1)] {}, .timePasses 1, .handleEvent (.timer 7) {},
    requestOf "remove" [("Label", .str "job")], .handleEvent .nothing {}]

theorem callback_orphaned : ¬ ∀ s, Reachable s → s.state = .running → Backed s := by
  intro h
  obtain ⟨s, hs, hp⟩ := reachable_of_run orphanRun (fun s => s.state == .running && s.jobs.keys.isEmpty &&
    s.eventmgr.processCallbacks.lookup 2 == some 0) (by decide +kernel)
  simp only [Bool.and_eq_true, beq_iff_eq, List.isEmpty_iff] at hp
  obtain ⟨⟨hrun, hempty⟩, hcb⟩ := hp
  obtain ⟨label, hr⟩ := (h s hs hrun).processes 2 0 hcb
  have hm : label ∈ s.jobs.keys := AList.mem_keys.mp (AList.lookup_isSome.mp (by rw [hr]; rfl))
  rw [hempty] at hm
  cases hm

def idleRun (s : Sys) (_ : Ev) : Bool := s.kernel.procs.all fun p => !p.live || (s.heap p.job).all (·.state == .running)

theorem UnloadsIdle.of_idleRun (h : idleRun s e) : UnloadsIdle s e := by
  intro r l hl _ _ hs
  by_contra hc
  obtain ⟨j, hj, rfl⟩ := fate_eq_alive hl
  obtain ⟨c, hm, hcr, hlive⟩ := child_isSome.mp (Option.isSome_iff_ne_none.mpr hc)
  have hrun := List.all_eq_true.mp h c hm
  rw [hlive, hcr, show s.heap r = some j from hj] at hrun
  exact hs (by simpa using hrun)

def removedRun : List Ev :=
  [startWith [("RunAtLoad", .bool true)] { forks := [.started 7 true] }, requestOf "remove" [("Label", .str "job")],
    .childExits 0 (.signaled 15), .handleEvent (.signal [.sigchld] [0]) {}, .handleEvent .nothing {},
    loadWith { forks := [.started 8 true] }]

theorem callbacks_backed_removed : ∃ s, Runs UnloadsIdle s ∧ s.state ≠ .finished ∧ s.heap 0 = none ∧
    s.jobs.lookup "job" = some 1 ∧ s.eventmgr.processCallbacks.lookup 8 = some 1 ∧ Backed s := by
  obtain ⟨s, hs, hp⟩ := runs_of_run (C := UnloadsIdle) idleRun removedRun
    (fun s => s.state == .running && (s.heap 0).isNone && s.jobs.lookup "job" == some 1 &&
      s.eventmgr.processCallbacks.lookup 8 == some 1) (fun s e _ hc => .of_idleRun hc) (by decide +kernel)
  simp only [Bool.and_eq_true, beq_iff_eq, Option.isNone_iff_eq_none] at hp
  obtain ⟨⟨⟨hrun, hgone⟩, hjob⟩, hcb⟩ := hp
  have hf : s.state ≠ .finished := by simp [hrun]
  exact ⟨s, hs, hf, hgone, hjob, hcb, callbacks_backed hs hf⟩

/-! ## No start after an unload -/

def Sys.forks (s : Sys) (r : Ref) : Nat := s.kernel.procs.countP (·.job == r)

/-- No timer starts a job that was asked to unload. -/
def HonoursUnload (s : Sys) : Ev → Prop
  | .handleEvent wakeup answers => ∀ id r kind j, (Ev.handleEvent wakeup answers).dispatched s = some (.timer id) →
      s.eventmgr.timerCallbacks.lookup id = some (r, kind) → s.heap r = some j → j.unloadRequested →
      answers.nextFork = .noPipe ∨ answers.nextFork = .noFork
  | _ => True

namespace Life

variable {l : Life} {a : Turn}

/-- A request to unload is never taken back. -/
theorem flagged_next (h : l.unloadRequested) : (l.next a).unloadRequested := (l.next_fixed a).2.2 h

theorem unload_forks (lookup : Decode Bool) (force sent : Bool) : (l.unload lookup force sent).forks = l.forks :=
  unload_cases (P := fun l' => l'.forks = l.forks) lookup force sent (fun _ => rfl) (fun _ _ => rfl)
    fun _ _ _ _ => unloadTriggered_forks

/-- The exit of a job that was asked to unload is followed by no start. -/
theorem exit_forks {clock : Nat → Nat} {how : Start} (h : l.unloadRequested) : (l.next (.exit clock how)).forks = l.forks := by
  refine processExited_cases (P := fun l' => l'.forks = l.forks) clock how (fun _ => rfl) (fun _ _ _ _ => rfl) (fun hr => ?_)
    (fun hw => ?_) fun _ _ => rfl
  · have := (restarts_iff.mp hr).2.2.2
    rw [reap_unloadRequested, h] at this
    cases this
  · have := (awaits_iff.mp hw).2.2.2.2
    rw [reap_unloadRequested, h] at this
    cases this

end Life

def Fate.forks : Fate → Nat
  | .unborn => 0
  | .alive l => l.forks
  | .gone history => history.forks

theorem Sound.forks (h : Sound s) (r : Ref) : s.forks r = (s.tables.fate r).forks := by
  unfold fate
  split
  · rfl
  · split
    · rfl
    · rename_i hr
      refine List.countP_eq_zero.mpr fun p hp hj => hr ?_
      rw [← beq_iff_eq.mp hj]
      exact h.inv.forked.forkedFor p hp

/-- A job that is not to be started again: it was asked to unload, or the manager shuts down
    and it was not bootstrapped. -/
def Fate.Shut (closing : Prop) : Fate → Prop
  | .unborn => closing
  | .alive l => l.Good ∧ (l.unloadRequested ∨ closing ∧ l.boot = .pending)
  | .gone _ => True

/-- The turn is no Bootstrap while the manager shuts down. -/
theorem Fate.Shut.next {closing : Prop} {r : Ref} {l : Life} {a : Turn} (hs : closing → s.state = .gracefulShutdown)
    (ha : Given s e r l a) (he : l.Enabled a) (h : (Fate.alive l).Shut closing) :
    l.unloadRequested ∧ (Fate.alive (l.next a)).Shut closing := by
  obtain ⟨hg, hu | ⟨hc, hb⟩⟩ := h
  · exact ⟨hu, Life.good_next hg he, .inl (Life.flagged_next hu)⟩
  · exfalso
    replace hs := hs hc
    cases ha with
    | starts hs' => rw [hs] at hs'; cases hs'
    | load hd hs' => rw [hs] at hs'; cases hs'
    | kill hd hs' => rw [hs] at hs'; cases hs'
    | unload hd hs' => rw [hs] at hs'; cases hs'
    | exit => exact hg.not_pending_of_child he.1 hb
    | timer => exact (hg.waiting (Life.enabled_fires.mp he).isSome).2.2 hb
    | shutsDown hd hsig hs' => rw [hs] at hs'; cases hs'

/-- A step that honours the unloads forks no process for such a job. -/
theorem Fate.Shut.steps {closing : Prop} {r : Ref} {f f' : Fate} (hs : closing → s.state = .gracefulShutdown)
    (h : f.Shut closing) (hsteps : Fate.Steps (Given s e r) (Deleted s e r) f f') :
    f'.Shut closing ∧ (HonoursUnload s e → f'.forks = f.forks) := by
  refine hsteps.keeps (Q := fun g => g.Shut closing ∧ (HonoursUnload s e → g.forks = f.forks)) ?_ ?_ ?_ ⟨h, fun _ => rfl⟩
  · exact fun m _ hu => ⟨⟨Life.good_new m, .inr ⟨hu.1, rfl⟩⟩, hu.2⟩
  · intro l a hl he ha
    obtain ⟨hflag, hnext⟩ := hl.1.next hs ha he
    refine ⟨hnext, fun hC => Eq.trans ?_ (hl.2 hC)⟩
    show (l.next a).forks = l.forks
    have hpending : l.boot ≠ .pending := fun hb => by
      have := congrArg Life.unloadRequested (hl.1.1.fresh hb)
      rw [hflag] at this
      cases this
    cases ha with
    | starts hs hq =>
      obtain ⟨lookup, clock, how, arming, rfl, -⟩ := boot_of_load hq
      exact absurd he.1 hpending
    | load hd hs hload hq =>
      obtain ⟨lookup, clock, how, arming, rfl, -⟩ := boot_of_load hq
      exact absurd he.1 hpending
    | kill =>
      obtain ⟨kills, e⟩ := l.signal_eq
      rw [Life.next, e]
    | unload => exact Life.unload_forks ..
    | exit => exact Life.exit_forks hflag
    | @timer wakeup answers timerId r l kind how hd hcb hlife hof =>
      obtain ⟨j, hj, rfl⟩ := fate_eq_alive hlife
      replace hC := hC timerId r kind j hd hcb hj hflag
      have hhow : how = .noPipe ∨ how = .noFork := by
        rcases hC with hC | hC <;> rw [hC] at hof <;> cases hof
        · exact .inl rfl
        · exact .inr rfl
      cases kind with
      | throttle =>
        rw [Life.next_throttle]
        rcases hhow with rfl | rfl <;> rfl
      | periodic =>
        rw [Life.next_periodic]
        rcases hhow with rfl | rfl <;> rfl
    | shutsDown => exact Life.unload_forks ..
  · exact fun l hl _ _ => ⟨trivial, hl.2⟩

/-- While the manager shuts down, it goes on to shut down or is finished. -/
theorem next_closing (h : Sound s) (hn : Next s e s') (hs : s.state = .gracefulShutdown) :
    s'.state = .gracefulShutdown ∨ s'.state = .finished := by
  cases next_cases h hn with
  | still hst => exact .inl (hst.state.trans hs)
  | starts paths answers he hu => rw [hs] at hu; cases hu
  | exit wakeup answers w p st i r l how he hd hw hx => exact .inl (hx.moves.keeps.state.trans (hw.state.trans hs))
  | timer wakeup answers timerId r l kind how he hd hx => exact .inl (hx.moves.keeps.state.trans hs)
  | delete wakeup answers w label r l he hd hw hx => exact .inl (hx.state.trans (hw.state.trans hs))
  | request wakeup answers message he hd hrun => rw [hs] at hrun; cases hrun
  | shutsDown wakeup answers w sig he hd hsig hrun => rw [hs] at hrun; cases hrun
  | forced wakeup answers w sig he hd hsig hg hw hx => exact .inr hx.state
  | finished wakeup answers he hg hempty hs' => exact .inr (by rw [hs'])

/-- In a run that honours the unloads, a job that is not to be started again is not. -/
theorem Runs.shut (closing : Prop) {r : Ref} (h : Runs HonoursUnload s) (hs : closing → s.state = .gracefulShutdown)
    (hf : s.state ≠ .finished → (s.tables.fate r).Shut closing) {t : Sys} (hl : Later (Under Next HonoursUnload) s t) :
    t.forks r = s.forks r ∧ (t.state ≠ .finished → (t.tables.fate r).Shut closing ∧ (closing → t.state = .gracefulShutdown)) := by
  induction hl with
  | refl => exact ⟨rfl, fun ht => ⟨hf ht, hs⟩⟩
  | @tail t u hst hn ih =>
    obtain ⟨e, hn, hC⟩ := hn
    obtain ⟨hforks, ht⟩ := ih
    obtain ⟨hshut, hclosing⟩ := ht hn.1
    have hsound : Sound t := Runs.sound (h.later hst) hn.1
    rcases next_lives hsound hn with ⟨hsound', hsteps⟩ | ⟨w, -, hw, hfo⟩
    · obtain ⟨hshut', hforks'⟩ := hshut.steps hclosing (hsteps r)
      refine ⟨?_, fun hu => ⟨hshut', fun hc => (next_closing hsound hn (hclosing hc)).resolve_right hu⟩⟩
      rw [hsound'.forks, hforks' hC, ← hsound.forks, hforks]
    · refine ⟨?_, fun hu => absurd hfo.state hu⟩
      rw [← hforks]
      have hfade : Fading t.kernel.procs u.kernel.procs := hw.procs.trans hfo.procs
      exact congrArg History.forks (show Tables.history { t.tables with procs := u.kernel.procs } r = t.tables.history r from
        history_congr hfade.faces rfl)

/-- A job is Unloaded only after it was asked to. -/
theorem Life.unloaded_next {l : Life} {a : Turn} (hg : l.Good) (he : l.Enabled a) (h : l.state = .unloaded → l.unloadRequested)
    (hu : (l.next a).state = .unloaded) : (l.next a).unloadRequested := by
  cases a with
  | boot lookup clock how arming =>
    have hs : l.state ≠ .unloaded := by rw [hg.fresh he.1]; nofun
    exact absurd hu (bootTriggered_cases (P := fun l => l.state ≠ .unloaded) (l := { l with boot := Manager.bootOf lookup }) lookup
      clock how arming hs (fun _ _ => enter_not_unloaded hs) fun _ _ _ => wait_not_unloaded _ _ hs)
  | exit clock how =>
    revert hu
    refine processExited_cases (P := fun l => l.state = .unloaded → l.unloadRequested) (l := l.reap) clock how (fun _ => h)
      (fun _ _ _ _ hu => nomatch hu) (fun hr hu => ?_) (fun hw hu => ?_) fun _ hflag _ => hflag
    · rw [start_state, (restarts_iff.mp hr).1] at hu
      cases hu
    · exact absurd hu (wait_not_unloaded _ _ (by rw [(awaits_iff.mp hw).1]; nofun))
  | throttleFires clock how =>
    have hs : l.fire.state ≠ .unloaded := by rw [show l.fire.state = l.state from rfl, (hg.waiting (Fires.isSome he)).1]; nofun
    exact absurd hu (enter_not_unloaded hs)
  | periodicFires clock how =>
    have hs : l.fire.state ≠ .unloaded := by rw [show l.fire.state = l.state from rfl, (hg.waiting (Fires.isSome he)).1]; nofun
    exact absurd (start_state.symm.trans hu) hs
  | unload lookup force sent =>
    revert hu
    exact unload_cases (P := fun l => l.state = .unloaded → l.unloadRequested) lookup force sent (fun _ => h) (fun _ _ _ => rfl)
      fun _ _ _ _ _ => congrArg (·.2.2) unloadTriggered_fixed
  | kill =>
    obtain ⟨kills, e⟩ := l.signal_eq
    rw [next, e] at hu ⊢
    exact h hu

theorem Runs.unloaded_flagged {C : Sys → Ev → Prop} (h : Runs C s) {r : Ref} {l : Life} (hl : s.tables.fate r = .alive l) :
    l.state = .unloaded → l.unloadRequested := by
  refine (h.lives (Q := fun l => l.Good ∧ (l.state = .unloaded → l.unloadRequested)) (fun m _ => ⟨Life.good_new m, nofun⟩)
    (fun s e r l a _ _ _ _ he hl => ⟨Life.good_next hl.1 he, Life.unloaded_next hl.1 he hl.2⟩) r l hl).2

/-- A property that the shutdown gives every job, and that the turns keep while the manager
    shuts down. A job that was not bootstrapped then is not bootstrapped any more. -/
theorem Runs.closing {C : Sys → Ev → Prop} {Q : Fate → Prop} (hn : Q .unborn) (hgone : ∀ history, Q (.gone history))
    (hb : ∀ l : Life, l.Good → l.boot = .pending → Q (.alive l))
    (hshut : ∀ s wakeup answers sig label r l sent, Runs C s → C s (.handleEvent wakeup answers) →
      (Ev.handleEvent wakeup answers).dispatched s = some (.signal sig) → sig.shutsDown → s.state = .running →
      s.jobs.lookup label = some r → s.tables.fate r = .alive l → l.Good → Sent answers sent →
      Q (.alive (l.unload (Job.disabledIn l.manifest s.stateFile) true sent)))
    (hQ : ∀ s e r l a, s.state = .gracefulShutdown → Given s e r l a → l.Enabled a → Q (.alive l) → Q (.alive (l.next a)))
    (h : Runs C s) (hs : s.state = .gracefulShutdown) (r : Ref) : Q (s.tables.fate r) := by
  induction h with
  | init hi =>
    obtain ⟨stateFile, now, users, rfl⟩ := hi
    cases hs
  | @step s s' e hr hn' ih =>
    have hsound : Sound s := Runs.sound hr hn'.1.1
    by_cases hg : s.state = .gracefulShutdown
    · rcases next_lives hsound hn'.1 with ⟨-, hsteps⟩ | ⟨w, -, -, hf⟩
      · exact (hsteps r).keeps (fun m _ _ => hb _ (Life.good_new m) rfl) (fun l a hl he ha => hQ s e r l a hg ha he hl)
          (fun _ _ _ _ => hgone _) (ih hg)
      · rw [hf.state] at hs
        cases hs
    cases next_cases hsound hn'.1 with
    | still hst => exact absurd (hst.state ▸ hs) hg
    | starts paths answers he hu hst =>
      rw [hst.state] at hs
      cases hs
    | exit wakeup answers w p st i r l how he hd hw hx =>
      exact absurd ((hx.moves.keeps.state.trans hw.state).symm.trans hs) hg
    | timer wakeup answers timerId r l kind how he hd hx => exact absurd (hx.moves.keeps.state.symm.trans hs) hg
    | delete wakeup answers w label r l he hd hw hx => exact absurd ((hx.state.trans hw.state).symm.trans hs) hg
    | request wakeup answers message he hd hrun hx => exact absurd (hx.state.symm.trans hs) hg
    | shutsDown wakeup answers w sig he hd hsig hrun hw hx =>
      subst he
      have hst : Still s w := (given_woken hsound.inv answers).trans hw.toStill
      by_cases hstored : ∃ label, w.jobs.lookup label = some r
      · obtain ⟨label, hlabel⟩ := hstored
        obtain ⟨l, hl, -, -⟩ := stored_alive hst.inv hlabel
        obtain ⟨sent, hsent, hlife⟩ := hx.unloaded label r l hlabel hl
        rw [hw.answers] at hsent
        rw [hlife, hst.stateFile]
        exact hshut s wakeup answers sig label r l sent hr hn'.2 hd hsig hrun (hst.jobs ▸ hlabel) ((hst.fates r).symm.trans hl)
          (good_of_alive hst.inv hl) hsent
      · rw [hx.others r fun label hlabel => hstored ⟨label, hlabel⟩]
        cases hj : w.heap r with
        | none =>
          rw [fate, show w.tables.heap r = none from hj]
          dsimp only
          split
          · exact hgone _
          · exact hn
        | some j =>
          rw [fate_alive (t := w.tables) hj]
          apply hb _ (hst.inv.good r j hj)
          by_contra hb'
          exact hstored ⟨j.label, (hsound.still hst).stored hj hb'⟩
    | forced wakeup answers w sig he hd hsig hg' => exact absurd hg' hg
    | finished wakeup answers he hg' => exact absurd hg' hg

/-- While the manager shuts down, every job was asked to unload or was not bootstrapped. -/
theorem Runs.closing_shut {C : Sys → Ev → Prop} (h : Runs C s) (hs : s.state = .gracefulShutdown) (r : Ref) :
    (s.tables.fate r).Shut True := by
  refine h.closing (Q := Fate.Shut True) trivial (fun _ => trivial) (fun l hg hb => ⟨hg, .inr ⟨trivial, hb⟩⟩) ?_
    (fun s e r l a hs ha he hl => (hl.next (fun _ => hs) ha he).2) hs r
  intro s wakeup answers sig label r l sent hr _ hd hsig hrun hlabel hl hg _
  obtain ⟨l', hl', -, hb⟩ := stored_alive (hr.sound (by rw [hrun]; nofun)).inv hlabel
  rw [hl] at hl'
  cases hl'
  have hflag := l.unload_flagged (Job.disabledIn l.manifest s.stateFile) true sent
  exact ⟨Life.good_unload hg hb, .inl (hflag.elim
    (Life.unloaded_next (a := .unload _ true sent) hg hb (hr.unloaded_flagged hl)) id)⟩

/-- In a run that honours the unloads, a job that was asked to unload is not started again,
    and no job is once the manager shuts down. -/
theorem no_fork_after_unload {t : Sys} (h : Runs HonoursUnload s) (hl : Later (Under Next HonoursUnload) s t) :
    (∀ r j, s.heap r = some j → j.unloadRequested → t.forks r = s.forks r) ∧
    (s.state = .gracefulShutdown → ∀ r, t.forks r = s.forks r) := by
  refine ⟨fun r j hj hu => ?_, fun hs r => (h.shut True (fun _ => hs) (fun _ => h.closing_shut hs r) hl).1⟩
  refine (h.shut False False.elim (fun hf => ?_) hl).1
  rw [fate_alive (t := s.tables) hj]
  exact ⟨(h.sound hf).inv.good r j hj, .inl hu⟩

def refusedRun : List Ev :=
  [startWith [("StartInterval", .uint 1)] {}, requestOf "disable" [("Label", .str "job")],
    requestOf "remove" [("Label", .str "job")]]

theorem fork_after_unload : ¬ ∀ s t, Reachable s → Later Next s t →
    (∀ r j, s.heap r = some j → j.unloadRequested → t.forks r = s.forks r) ∧
    (s.state = .gracefulShutdown → ∀ r, t.forks r = s.forks r) := by
  intro h
  obtain ⟨s, t, hs, hl, hp⟩ := reachable_then_of_run refusedRun
    [.timePasses 1, .handleEvent (.timer 7) {}]
    (fun s t => (s.heap 0).any (·.unloadRequested) && t.forks 0 != s.forks 0) (by decide +kernel)
  simp only [Bool.and_eq_true, bne_iff_ne] at hp
  obtain ⟨j, hj, hu⟩ := (Option.any_eq_true ..).mp hp.1
  exact hp.2 ((h s t hs hl).1 0 j hj hu)

def forklessRun (s : Sys) : Ev → Bool
  | .handleEvent wakeup answers =>
    match (Ev.handleEvent wakeup answers).dispatched s with
    | some (.timer _) => answers.nextFork == .noFork
    | _ => true
  | _ => true

theorem HonoursUnload.of_forklessRun (h : forklessRun s e) : HonoursUnload s e := by
  cases e with
  | timePasses | childExits | signalSent | startRunning => trivial
  | handleEvent wakeup answers =>
    intro id r kind j hd _ _ _
    rw [forklessRun, hd] at h
    exact .inr (beq_iff_eq.mp h)

def removedBoth : List Ev :=
  [.startRunning ["a.json", "b.json"] { forks := [.started 7 true], files := fun path => .file (some (.obj (
      if path = "a.json" then [("Label", .str "a"), ("Program", .str "/bin/a"), ("RunAtLoad", .bool true)]
      else [("Label", .str "b"), ("Program", .str "/bin/b"), ("StartInterval", .uint 1)]))) },
    requestOf "disable" [("Label", .str "b")], requestOf "remove" [("Label", .str "b")], requestOf "remove" [("Label", .str "a")]]

def afterBoth : List Ev :=
  [.childExits 0 (.signaled 15), .handleEvent (.signal [.sigchld] [0]) {}, .handleEvent .nothing {}, requestOf "list" [],
    .timePasses 1, .handleEvent (.timer 7) { forks := [.noFork] }]

theorem no_fork_after_unload_removed : ∃ s t, Runs HonoursUnload s ∧ Later (Under Next HonoursUnload) s t ∧
    (∃ j, s.heap 0 = some j ∧ j.unloadRequested) ∧ (∃ j, s.heap 1 = some j ∧ j.unloadRequested) ∧
    t.heap 0 = none ∧ (∃ j, t.heap 1 = some j ∧ j.pid = -1) ∧ t.forks 0 = s.forks 0 ∧ t.forks 1 = s.forks 1 := by
  obtain ⟨s, t, hs, hl, hp⟩ := runs_then_of_run (C := HonoursUnload) forklessRun removedBoth afterBoth
    (fun s t => (s.heap 0).any (·.unloadRequested) && (s.heap 1).any (·.unloadRequested) && (t.heap 0).isNone &&
      (t.heap 1).any (·.pid == -1)) (fun s e _ hc => .of_forklessRun hc) (by decide +kernel)
  simp only [Bool.and_eq_true, Option.isNone_iff_eq_none] at hp
  obtain ⟨⟨⟨ha, hb⟩, hgone⟩, hfailed⟩ := hp
  obtain ⟨j, hj, hu⟩ := (Option.any_eq_true ..).mp ha
  obtain ⟨k, hk, hv⟩ := (Option.any_eq_true ..).mp hb
  obtain ⟨k', hk', hpid⟩ := (Option.any_eq_true ..).mp hfailed
  have hforks := (no_fork_after_unload hs hl).1
  exact ⟨s, t, hs, hl, ⟨j, hj, hu⟩, ⟨k, hk, hv⟩, hgone, ⟨k', hk', beq_iff_eq.mp hpid⟩, hforks 0 j hj hu, hforks 1 k hk hv⟩

/-! ## What a shutdown waits for -/

/-- A stored job is Unloaded, its deletion queued, or its child was sent SIGTERM by an unload. -/
def Draining (s : Sys) : Prop := ∀ label r j, s.jobs.lookup label = some r → s.heap r = some j →
  j.state = .unloaded ∧ s.tables.deletions label = 1 ∨
  j.state = .running ∧ j.unloadRequested ∧ j.sigterm ∧ (s.child r).isSome

/-- Once the children are gone and the queue is empty, the jobs are gone, and the next call
    of `handleEvent` finishes the manager. -/
def Drains (s : Sys) : Prop := s.eventmgr.pendingEvents = [] → (∀ label r, s.jobs.lookup label = some r → s.child r = none) →
  s.jobs = ∅ ∧ ∀ wakeup answers, ∃ s', Next s (.handleEvent wakeup answers) s' ∧ s'.state = .finished

/-- A job whose unload by a shutdown goes through: it is unloaded already, its child was sent
    SIGTERM already, or no unload was asked for, its disabled state can be looked up, and it
    is Running with a child or it has neither a timer nor the state Running. -/
def Life.Unloads (lookup : Decode Bool) (l : Life) : Prop :=
  l.state = .unloaded ∨ l.state = .running ∧ l.unloadRequested ∧ l.sigterm ∧ l.child.isSome ∨
  l.unloadRequested = false ∧ (∃ disabled, lookup = .ok disabled) ∧
    (l.state = .running ∧ l.child.isSome ∨ l.state ≠ .running ∧ l.timerSet = false)

/-- A shutdown signal finds every job able to unload, and the signals it sends arrive. -/
def UnloadsAll (s : Sys) : Ev → Prop
  | .handleEvent wakeup answers => ∀ sig, (Ev.handleEvent wakeup answers).dispatched s = some (.signal sig) →
      sig.shutsDown → s.state = .running → (∀ sent ∈ answers.kills, sent = true) ∧
      ∀ label r l, s.jobs.lookup label = some r → s.tables.fate r = .alive l → l.Unloads (Job.disabledIn l.manifest s.stateFile)
  | _ => True

def Life.Drained (l : Life) : Prop :=
  l.state = .unloaded ∨ l.state = .running ∧ l.unloadRequested ∧ l.sigterm ∧ l.child.isSome

theorem Life.Unloads.drained {lookup : Decode Bool} {l : Life} (hg : l.Good) (h : l.Unloads lookup) :
    (l.unload lookup true true).Drained := by
  rcases h with hs | h | ⟨hu, ⟨disabled, hl⟩, h⟩
  · rw [unload_ignored (.inl hs)]
    exact .inl hs
  · rw [unload_ignored (.inr h.2.1)]
    exact .inr h
  by_cases hun : l.state = .unloaded
  · rw [unload_ignored (.inl hun)]
    exact .inl hun
  rw [unload_accepted hun hu hl (by simp)]
  rcases h with ⟨hs, hc⟩ | ⟨hs, ht⟩
  · obtain ⟨pid, hpid⟩ := Option.isSome_iff_exists.mp hc
    obtain ⟨hpos, rfl⟩ := hg.childPid pid hpid
    obtain ⟨kills, e⟩ := stopRequested_running (l := { l with unloadRequested := true }) hs (show l.pid ≠ 0 by omega)
    rw [e, unloadTriggered_ignored (l := { l with unloadRequested := true, kills, sigterm := true }) (.inl hs)]
    exact .inr ⟨hs, rfl, rfl, hc⟩
  · have hstop : ({ l with unloadRequested := true } : Life).stopRequested true = { l with unloadRequested := true } := if_pos hs
    rw [hstop, unloadTriggered_unloads (l := { l with unloadRequested := true }) _ ht]
    · exact .inl rfl
    · cases hl : l.state <;> simp [hl] at hs hun ⊢

def Fate.Drained : Fate → Prop
  | .alive l => l.Good ∧ (l.boot = .pending ∨ l.Drained)
  | _ => True

theorem Fate.Drained.next {r : Ref} {l : Life} {a : Turn} (hs : s.state = .gracefulShutdown) (ha : Given s e r l a)
    (he : l.Enabled a) (h : (Fate.alive l).Drained) : (Fate.alive (l.next a)).Drained := by
  obtain ⟨hg, h⟩ := h
  refine ⟨Life.good_next hg he, ?_⟩
  cases ha with
  | starts hs' => rw [hs] at hs'; cases hs'
  | load hd hs' => rw [hs] at hs'; cases hs'
  | kill hd hs' => rw [hs] at hs'; cases hs'
  | unload hd hs' => rw [hs] at hs'; cases hs'
  | exit hd hproc hl hchild hof =>
    rcases h with hb | hu | ⟨hr, hu, -, -⟩
    · exact absurd hb (hg.not_pending_of_child he.1)
    · refine .inr (.inl ?_)
      rw [Life.next, Life.processExited_not_running (by rw [Life.reap_state, hu]; simp)]
      exact hu
    · refine .inr (.inl ?_)
      rw [Life.next, Life.processExited_unloadRequested (l := l.reap) hr hu]
  | timer hd hcb hl hof =>
    obtain ⟨hwaits, -, hboot⟩ := hg.waiting (Life.enabled_fires.mp he).isSome
    rcases h with hb | hu | ⟨hr, -⟩
    · exact absurd hb hboot
    · rw [hwaits] at hu
      cases hu
    · rw [hwaits] at hr
      cases hr
  | shutsDown hd hsig hs' => rw [hs] at hs'; cases hs'

theorem Draining.drains (h : Sound s) (hs : s.state = .gracefulShutdown) (hd : Draining s) : Drains s := by
  intro hq hc
  have hempty : s.jobs = ∅ := by
    refine AList.ext (List.eq_nil_iff_forall_not_mem.mpr fun x hx => ?_)
    obtain ⟨label, r⟩ := x
    have hr : s.jobs.lookup label = some r := AList.mem_lookup_iff.mpr hx
    obtain ⟨j, hj, -, -⟩ := h.inv.owned.stored label r hr
    rcases hd label r j hr hj with ⟨-, hdel⟩ | ⟨-, -, -, hchild⟩
    · rw [deletions, show s.tables.eventmgr.pendingEvents = [] from hq] at hdel
      cases hdel
    · rw [hc label r hr] at hchild
      cases hchild
  refine ⟨hempty, fun wakeup answers => ⟨{ s.given answers with state := .finished }, ⟨by rw [hs]; simp, ?_⟩, rfl⟩⟩
  cases s
  subst hs hempty
  rfl

/-- In a run where every shutdown signal finds the jobs able to unload, the shutdown drains
    them and ends. -/
theorem shutdown_drains (h : Runs UnloadsAll s) (hs : s.state = .gracefulShutdown) : Draining s ∧ Drains s := by
  have hsound : Sound s := h.sound (by rw [hs]; nofun)
  have hfates : ∀ r, (s.tables.fate r).Drained := h.closing (Q := Fate.Drained) trivial (fun _ => trivial)
    (fun l hg hb => ⟨hg, .inl hb⟩) (fun s wakeup answers sig label r l sent hr hC hd hsig hrun hlabel hl hg hsent => by
      obtain ⟨hkills, hall⟩ := hC sig hd hsig hrun
      obtain ⟨l', hl', -, hb⟩ := stored_alive (hr.sound (by rw [hrun]; nofun)).inv hlabel
      rw [hl] at hl'
      cases hl'
      obtain rfl : sent = true := hsent.elim (hkills sent) id
      exact ⟨Life.good_unload hg hb, .inr ((hall label r l hlabel hl).drained hg)⟩)
    (fun s e r l a hs ha he hl => hl.next hs ha he) hs
  have hdraining : Draining s := by
    intro label r j hr hj
    obtain ⟨k, hk, -, hb⟩ := hsound.inv.owned.stored label r hr
    rw [show s.tables.heap r = some j from hj] at hk
    cases hk
    have hd := hfates r
    rw [fate_alive (t := s.tables) hj] at hd
    rcases hd.2 with hp | hu | ⟨hrun, hu, hterm, hc⟩
    · exact absurd hp hb
    · exact .inl ⟨hu, (hsound.inv.deleted label).1 ⟨r, j, hr, hj, hu⟩⟩
    · refine .inr ⟨hrun, hu, hterm, ?_⟩
      have hchild : (childPid s.tables.procs r).isSome := hc
      rwa [childPid, Option.isSome_map] at hchild
  exact ⟨hdraining, hdraining.drains hsound hs⟩

def stuckRun : List Ev :=
  [startWith [("StartInterval", .uint 1)] {}, .signalSent .sigterm, .handleEvent (.signal [.sigterm] []) {}]

theorem shutdown_stuck : ¬ ∀ s, Reachable s → s.state = .gracefulShutdown → Draining s ∧ Drains s := by
  intro h
  obtain ⟨s, hs, hp⟩ := reachable_of_run stuckRun (fun s => s.state == .gracefulShutdown && s.jobs.lookup "job" == some 0 &&
    (s.heap 0).any (·.state == .waiting)) (by decide +kernel)
  simp only [Bool.and_eq_true, beq_iff_eq] at hp
  obtain ⟨⟨hg, hr⟩, hw⟩ := hp
  obtain ⟨j, hj, hw⟩ := (Option.any_eq_true ..).mp hw
  rw [beq_iff_eq] at hw
  rcases (h s hs hg).1 "job" 0 j hr hj with ⟨hu, -⟩ | ⟨hu, -⟩ <;> rw [hw] at hu <;> cases hu

def allRun (s : Sys) : Ev → Bool
  | .handleEvent _ answers => answers.kills.isEmpty && s.jobs.entries.all fun e => (s.heap e.2).any fun j =>
      j.state == .running && !j.unloadRequested && (s.child e.2).isSome && (Job.disabledIn j.manifest s.stateFile).isOk
  | _ => true

theorem UnloadsAll.of_allRun (h : allRun s e) : UnloadsAll s e := by
  cases e with
  | timePasses | childExits | signalSent | startRunning => trivial
  | handleEvent wakeup answers =>
    intro sig _ _ _
    simp only [allRun, Bool.and_eq_true, List.isEmpty_iff, List.all_eq_true] at h
    refine ⟨by rw [h.1]; nofun, fun label r l hr hl => ?_⟩
    obtain ⟨j, hj, rfl⟩ := fate_eq_alive hl
    obtain ⟨k, hk, hall⟩ := (Option.any_eq_true ..).mp (h.2 ⟨label, r⟩ (AList.mem_lookup_iff.mp hr))
    rw [show s.heap r = some j from hj] at hk
    cases hk
    simp only [Bool.and_eq_true, beq_iff_eq, Bool.not_eq_true'] at hall
    obtain ⟨⟨⟨hs, hu⟩, hc⟩, hd⟩ := hall
    refine .inr (.inr ⟨hu, ?_, .inl ⟨hs, ?_⟩⟩)
    · cases hok : Job.disabledIn j.manifest s.stateFile with
      | ok disabled => exact ⟨disabled, by rw [lifeOf_manifest, hok]⟩
      | error => rw [hok] at hd; cases hd
    · show (childPid s.tables.procs r).isSome
      rw [childPid, Option.isSome_map]
      exact hc

theorem shutdown_drains_running : ∃ s, Runs UnloadsAll s ∧ s.state = .gracefulShutdown ∧ s.jobs.lookup "job" = some 0 ∧
    Draining s ∧ Drains s := by
  obtain ⟨s, hs, hp⟩ := runs_of_run (C := UnloadsAll) allRun
    [startWith [("RunAtLoad", .bool true)] {}, .signalSent .sigterm, .handleEvent (.signal [.sigterm] []) {}]
    (fun s => s.state == .gracefulShutdown && s.jobs.lookup "job" == some 0) (fun s e _ hc => .of_allRun hc) (by decide +kernel)
  simp only [Bool.and_eq_true, beq_iff_eq] at hp
  exact ⟨s, hs, hp.1, hp.2, shutdown_drains hs hp.1⟩

end Relaunchd
