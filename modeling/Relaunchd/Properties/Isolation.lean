/-
  Relaunchd.Properties.Isolation — the steps the manager takes for a job, and what a job's
  configuration can make of them: a user or a group that is not there, or a timer that the
  kernel does not take.
-/

import Relaunchd.Properties.Malformed

namespace Relaunchd

open Prog EventManager Tables Transition

variable {s s' : Sys} {e : Ev}

/-! ## The steps -/

/-- No system call of the step fails of itself. -/
def Calmly (_ : Sys) : Ev → Prop
  | .startRunning _ answers | .handleEvent _ answers => answers.Calm
  | .timePasses _ | .childExits _ _ | .signalSent _ => True

/-- The step boots jobs: the documents it reads as manifests, whether it enables the jobs it
    loads, and whether it loads disabled ones as well. -/
inductive Loads (s : Sys) : Ev → List Json → Bool → Bool → Prop
  | starts {paths : List String} {answers : Answers} : s.state = .unconfigured →
      Loads s (.startRunning paths answers) (paths.flatMap (Rpc.docsAt answers.files)) false false
  | requests {wakeup : Wakeup} {answers : Answers} {message : Json} {method : String} :
      (Ev.handleEvent wakeup answers).dispatched s = some (.socket (some message)) →
      message.atIndex 0 >>= Json.getString = .ok method → method = "load" ∨ method = "submit" →
      (∀ why, Rpc.reading message method ≠ .error (.abort why)) →
      Loads s (.handleEvent wakeup answers) (Rpc.documents answers.files message method) (Rpc.enables message method)
        (Rpc.forces message method)

/-- The step is taken for a job: it is booted, its child exits, or its timer expires. -/
inductive ForJob (s : Sys) : Ev → Prop
  | boots {e : Ev} {docs : List Json} {enables forces : Bool} : Loads s e docs enables forces →
      (∀ doc ∈ docs, ∀ why, Manifest.fromJson doc ≠ .error (.abort why)) → ForJob s e
  | exits {e : Ev} {p : Int} {st : WaitStatus} {i : Nat} : e.dispatched s = some (.proc p st i) → ForJob s e
  | expires {e : Ev} {timerId : Nat} : e.dispatched s = some (.timer timerId) → ForJob s e

/-- What the step does for a job can be done: a job that it starts has its user and its
    group, a timer that puts a restart off is set for a valid time, and a job whose child
    exits is still there. -/
structure Harmless (s : Sys) (e : Ev) : Prop where
  pending : ∀ docs enables forces, Loads s e docs enables forces → ∀ label r j,
    s.pendingJobs.lookup label = some (some r) → s.heap r = some j → Fit enables s j.manifest
  loaded : ∀ docs enables forces, Loads s e docs enables forces → ∀ doc ∈ docs, ∀ m, Manifest.fromJson doc = .ok m →
    s.jobs.lookup m.label = none → s.pendingJobs.lookup m.label = none → (m.disabled && !forces) = false → Fit enables s m
  exits : ∀ wakeup answers p st i c, e = .handleEvent wakeup answers → e.dispatched s = some (.proc p st i) →
    s.kernel.procs[i]? = some c → ∃ l, s.tables.fate c.job = .alive l ∧
      (l.reap.restarts ((s.given answers).clock 1 / 1000) → Known s.kernel.users l.manifest) ∧
      (l.reap.awaits ((s.given answers).clock 1 / 1000) ((s.given answers).clock 2 / 1000) →
        l.reap.throttleArming ((s.given answers).clock 3) ≠ .failed)
  expires : ∀ timerId r kind j, e.dispatched s = some (.timer timerId) →
    s.eventmgr.timerCallbacks.lookup timerId = some (r, kind) → s.heap r = some j → Known s.kernel.users j.manifest

/-! ## The start -/

section Start

variable {files : String → Node}

def Blank (s : Sys) : Prop := s.state = .unconfigured → (∀ r, s.heap r = none) ∧ s.pendingJobs = ∅

theorem Next.blank (h : Sound s) (hb : Blank s) (hn : Next s e s') : Blank s' := by
  have hasleep : ∀ {event}, e.dispatched s = some event → s.state ≠ .unconfigured := fun hd hs => by
    rcases hn.awake hd with hs' | hs'
    · rw [hs] at hs'
      cases hs'
    · rw [hs] at hs'
      cases hs'
  have hkept : ∀ {event}, e.dispatched s = some event → s'.state = s.state → Blank s' := fun hd hs hu =>
    absurd (hs ▸ hu) (hasleep hd)
  cases next_cases h hn with
  | still hs => exact fun hu => by rw [hs.heap, hs.pendingJobs]; exact hb (hs.state ▸ hu)
  | starts _ _ _ _ hst => exact fun hu => nomatch hst.state.symm.trans hu
  | exit _ _ _ _ _ _ _ _ _ _ hd hw hx => exact hkept hd (hx.moves.keeps.state.trans hw.state)
  | timer _ _ _ _ _ _ _ _ hd hx => exact hkept hd hx.moves.keeps.state
  | delete _ _ _ _ _ _ _ hd hw hx => exact hkept hd (hx.state.trans hw.state)
  | request _ _ _ _ hd _ hx => exact hkept hd hx.state
  | shutsDown _ _ _ _ _ _ _ _ _ hx => exact fun hu => nomatch hx.state.symm.trans hu
  | forced _ _ _ _ _ _ _ _ _ hx => exact fun hu => nomatch hx.state.symm.trans hu
  | finished _ _ _ _ _ hs => exact fun hu => by rw [hs] at hu; cases hu

theorem runs_blank {C : Sys → Ev → Prop} (h : Runs C s) : Blank s := by
  induction h with
  | init hi =>
    obtain ⟨stateFile, now, users, rfl⟩ := hi
    exact fun _ => ⟨fun _ => rfl, rfl⟩
  | @step s s' e hr hn ih => exact hn.1.blank (Runs.sound hr hn.1.1) ih

/-- The manager comes up. -/
theorem startRunning_returns {paths : List String} {answers : Answers} (h : Sound s) (hb : Blank s) (hs : s.state = .unconfigured)
    (hc : answers.Calm)
    (hd : ∀ doc ∈ paths.flatMap (Rpc.docsAt answers.files), ∀ why, Manifest.fromJson doc ≠ .error (.abort why))
    (hl : Loadable s false false (paths.flatMap (Rpc.docsAt answers.files))) :
    ∃ s', step (.startRunning paths answers) s = .ok () s' := by
  obtain ⟨hheap, hpend⟩ := hb hs
  have hgiven : (s.given answers).state = .unconfigured := hs
  have hrun : step (.startRunning paths answers) s = Manager.startRunning paths (s.given answers) := by
    show (if (s.given answers).state = .unconfigured then Manager.startRunning paths else return ()) (s.given answers) = _
    rw [if_pos hgiven]
  obtain ⟨u, hu⟩ : ∃ u, u = { s.given answers with listening := true } := ⟨_, rfl⟩
  have hserving : Serving .unconfigured answers.files u := hu ▸ ⟨h.inv, hs, rfl⟩
  have hempty : u.pendingJobs = ∅ := hu ▸ hpend
  have hnone : ∀ r, u.heap r = none := hu ▸ hheap
  have hloadable : Loadable u false false (paths.flatMap (Rpc.docsAt answers.files)) :=
    hl.of_eq (hu ▸ rfl) (hu ▸ rfl) (hu ▸ rfl) (hu ▸ rfl)
  have hstart : Prepared .unconfigured answers.files false false u [] u :=
    .start hserving fun label r j _ hj => nomatch (hnone r).symm.trans hj
  have hidle : Manager.States.unconfigured ≠ .gracefulShutdown := by simp
  have htraced : Traced NoBoot (Manager.loadEachPath paths) := .loops paths fun _ =>
    (Traced.loadAllManifests nofun _).bind fun _ => .done _
  have hprepares : wp (Manager.loadEachPath paths) (fun _ w => ∃ done, Prepared .unconfigured answers.files false false u done w)
      (fun _ => False) u :=
    wp_mono (wp_iff_ends.mpr ((Prepared.inTurn hloadable hidle).loadEachPath ⟨rfl, rfl⟩ ⟨[], rfl, hstart⟩))
      (fun _ _ ⟨done, _, h⟩ => ⟨done, h⟩) fun _ => id
  have hload : ends (fun _ => False) (Manager.loadEachPath paths)
      (fun _ w => (∃ done, Prepared .unconfigured answers.files false false u done w) ∧ Does .load u w ∧ Writes NoBoot u w)
      (fun _ => False) u :=
    ends_mono (ends_and ((decoded_inTurn hidle false false).loadEachPath ⟨rfl, rfl⟩ ⟨hserving, hd⟩)
      (wp_and hprepares (wp_and (loadEachPath_serves paths u hserving) (htraced u trivial)))) (fun _ => id) (fun _ _ hw => hw.2)
      fun _ hw => hw.1
  have hboot : ∀ w, (∃ done, Prepared .unconfigured answers.files false false u done w) ∧ Does .load u w ∧ Writes NoBoot u w →
      ends (fun _ => False) Manager.startAllJobs (fun _ _ => True) (fun _ => False) w := by
    intro w h'
    obtain ⟨⟨_, hprep⟩, hdoes, hwrites⟩ := h'
    have hapart : Apart w := hwrites.apart (.of_empty hempty)
    have hbootable : Bootable w :=
      ⟨hdoes.inv, (hu ▸ hc : u.kernel.answers.Calm).left hdoes.answers, hwrites.keeps (fun _ _ hw => hw.pendingLookUp) fun label hm => by
        rw [hempty] at hm
        exact absurd hm (AList.notMem_empty label), hdoes.decoded fun r j hj => nomatch (hnone r).symm.trans hj⟩
    exact ends_mono (ends_and (startAllJobs_survives hdoes.inv hapart hprep.pending)
      (startAllJobs_calm hbootable)) (fun _ => id) (fun _ _ _ => trivial) fun _ hw => hw.2
  have hstarted : ends (fun _ => False) (do
      Manager.loadEachPath paths
      Manager.startAllJobs
      Prog.modify fun s => { s with state := .running }) (fun _ _ => True) (fun _ => False) u := by
    rw [ends_bind]
    refine ends_mono hload (fun _ => id) (fun _ w hw => ?_) fun _ => id
    rw [ends_bind]
    exact ends_mono (hboot w hw) (fun _ => id) (fun _ _ _ => trivial) fun _ => id
  obtain ⟨_, s', hok, -⟩ := ends_returns hstarted
  exact ⟨s', by rw [hrun, startRunning_eq hgiven, ← hu]; exact hok⟩

end Start

/-! ## Exits and timers -/

namespace Life

def Stamped (l : Life) : Prop := l.child.isSome → l.startedAt.isSome

theorem stamped_start {l : Life} {clock : Nat → Nat} (how : Start) : (l.start clock how).Stamped := by
  intro _
  cases how <;> rfl

theorem Stamped.next {l : Life} (h : l.Stamped) (a : Turn) : (l.next a).Stamped := by
  have henter : ∀ {l : Life} {state : Job.States} {how : Start}, l.Stamped → (l.enter state how).Stamped := by
    intro l state how hl
    obtain ⟨_, e⟩ := enter_eq state how l
    rwa [e]
  have hwait : ∀ {l : Life} (kind : TimerKind) (arming : Arming), l.Stamped → (l.wait kind arming).Stamped := by
    intro l kind arming hl
    cases arming <;> exact hl
  cases a with
  | boot lookup clock how arming =>
    have hmarked : Stamped { l with boot := Manager.bootOf lookup } := h
    exact bootTriggered_cases (P := Stamped) lookup clock how arming h (fun _ _ => henter (stamped_start how)) fun _ _ _ =>
      hwait _ _ hmarked
  | exit clock how =>
    exact processExited_cases (P := Stamped) clock how (fun _ => nofun) (fun _ _ _ _ => nofun) (fun _ => stamped_start how)
      (fun _ => hwait _ _ nofun) fun _ _ => nofun
  | throttleFires clock how => exact henter (stamped_start how)
  | periodicFires clock how => exact stamped_start how
  | unload lookup force sent =>
    refine unload_cases (P := Stamped) lookup force sent (fun _ => h) (fun _ _ => h) fun kills sigterm _ _ => ?_
    obtain ⟨_, _, -, e⟩ := unloadTriggered_eq { l with unloadRequested := true, kills, sigterm }
    rw [e]
    exact h
  | kill =>
    obtain ⟨_, e⟩ := l.signal_eq
    rw [Life.next, e]
    exact h

end Life

theorem Runs.stamped {C : Sys → Ev → Prop} (h : Runs C s) : ∀ r l, s.tables.fate r = .alive l → l.Stamped :=
  h.lives (fun _ _ => nofun) fun _ _ _ _ a _ _ _ _ _ hl => hl.next a

/-- What a step that dispatches an event comes to, when its callback returns. -/
theorem returns_of_dispatch {event : Event} (h : Sound s) (he : e.dispatched s = some event)
    (hs : s.state = .running ∨ s.state = .gracefulShutdown)
    (hd : ∀ wakeup answers u, e = .handleEvent wakeup answers → Takes (s.given answers) event u →
      ends (fun _ => False) (EventManager.dispatch event) (fun _ _ => True) (fun _ => False) u) : ∃ s', step e s = .ok () s' := by
  obtain ⟨wakeup, answers, u, rfl, hnext, hstep⟩ := step_dispatched he hs
  have htakes : Takes (s.given answers) event u :=
    wp_ok (Q := Waits (s.given answers)) (nextEvent_spec (s := s.given answers) h.inv wakeup) hnext
  obtain ⟨_, s', hok, -⟩ := ends_returns (hd wakeup answers u rfl htakes)
  exact ⟨s', hstep.trans hok⟩

/-- The exit that is taken is that of a child whose job is there. -/
theorem exit_taken {wakeup : Wakeup} {answers : Answers} {p : Int} {st : WaitStatus} {i : Nat} {u : Sys}
    (hm : Harmless s (.handleEvent wakeup answers)) (he : (Ev.handleEvent wakeup answers).dispatched s = some (.proc p st i))
    (ht : Takes (s.given answers) (.proc p st i) u) :
    ∃ w rest c l, Woken (s.given answers) w ∧ w.eventmgr.pendingEvents = .proc p st i :: rest ∧ u = w.popped rest ∧
      w.kernel.procs[i]? = some c ∧ c.live ∧ s.tables.fate c.job = .alive l ∧
      (l.reap.restarts ((s.given answers).clock 1 / 1000) → Known s.kernel.users l.manifest) ∧
      (l.reap.awaits ((s.given answers).clock 1 / 1000) ((s.given answers).clock 2 / 1000) →
        l.reap.throttleArming ((s.given answers).clock 3) ≠ .failed) := by
  cases ht with
  | @queued w _ rest hw hq =>
    obtain ⟨-, c, hproc, -, -, hlive, -⟩ := hw.inv.registry.queued p st i (by
      rw [show w.tables.eventmgr.pendingEvents = _ from hq]
      exact List.mem_cons_self)
    obtain ⟨c₀, hc₀, hf⟩ := hw.procs.get hproc
    obtain ⟨l, hl, hrestart, hawait⟩ := hm.exits wakeup answers p st i c₀ rfl he hc₀
    exact ⟨w, rest, c, l, hw, hq, rfl, hproc, hlive, hf.job ▸ hl, hrestart, hawait⟩

/-- A manager that has a job is awake, unless it is finished. -/
theorem Blank.awake {r : Ref} {j : Job} (h : Blank s) (hf : s.state ≠ .finished) (hj : s.heap r = some j) :
    s.state = .running ∨ s.state = .gracefulShutdown := by
  cases hs : s.state with
  | unconfigured => exact nomatch ((h hs).1 r).symm.trans hj
  | running => exact .inl rfl
  | gracefulShutdown => exact .inr rfl
  | finished => exact absurd hs hf

/-- The callback of an exit returns. -/
theorem exit_returns {p : Int} {st : WaitStatus} {i : Nat} (h : Runs Calmly s) (hf : s.state ≠ .finished) (hc : Calmly s e)
    (hm : Harmless s e) (he : e.dispatched s = some (.proc p st i)) : ∃ s', step e s = .ok () s' := by
  have hawake : s.state = .running ∨ s.state = .gracefulShutdown := by
    obtain ⟨wakeup, answers, u, rfl, htakes⟩ := (h.sound hf).takes he
    obtain ⟨w, rest, c, l, -, -, -, -, -, hl, -⟩ := exit_taken hm he htakes
    obtain ⟨j, hj, -⟩ := fate_eq_alive hl
    exact (runs_blank h).awake hf hj
  refine returns_of_dispatch (h.sound hf) he hawake fun wakeup answers u e' htakes => ?_
  subst e'
  obtain ⟨w, rest, c, l, hw, hq, rfl, hproc, hlive, hl, hrestart, hawait⟩ := exit_taken hm he htakes
  have hl' : w.tables.fate c.job = .alive l := (hw.fates c.job).trans hl
  have hchild : l.child.isSome := by
    obtain ⟨j, -, rfl⟩ := fate_eq_alive hl'
    exact Tables.child_isSome.mpr ⟨c, List.mem_of_getElem? hproc, rfl, hlive⟩
  refine exit_ends (E := False) hw.inv hq hproc hl' (fun _ => h.stamped _ _ hl hchild) (fun hr => .inl ?_)
    (.inr ⟨hw.answers ▸ hc, fun ha => ?_⟩)
  · rw [hw.users]
    rw [hw.clock] at hr
    exact hrestart hr
  · rw [hw.clock] at ha ⊢
    exact hawait ha

/-- The callback of a timer returns. -/
theorem timer_returns {timerId : Nat} (h : Runs Calmly s) (hf : s.state ≠ .finished) (hc : Calmly s e) (hm : Harmless s e)
    (he : e.dispatched s = some (.timer timerId)) : ∃ s', step e s = .ok () s' := by
  have hsound : Sound s := h.sound hf
  have hread : ∀ wakeup answers u, e = .handleEvent wakeup answers → Takes (s.given answers) (.timer timerId) u →
      ∃ fd deadline, s.kernel.timerfds.lookup fd = some { state := .armed deadline, watched := true } ∧
        s.eventmgr.timerfdMap.lookup timerId = some fd ∧ u = ((s.given answers).updateKernel fun k =>
          { k with timerfds := k.timerfds.insert fd { state := .disarmed, watched := true } }) := by
    intro wakeup answers u _ htakes
    cases htakes with
    | @queued w _ rest hw hq =>
      have hkind : (Event.timer timerId).Queued := hw.inv.kinds _ (by
        rw [show w.tables.eventmgr.pendingEvents = _ from hq]
        exact List.mem_cons_self)
      exact hkind.elim
    | timer hfd hdue hid => exact ⟨_, _, hfd, hid, rfl⟩
  have hawake : s.state = .running ∨ s.state = .gracefulShutdown := by
    obtain ⟨wakeup, answers, u, e', htakes⟩ := hsound.takes he
    obtain ⟨fd, deadline, hfd, hid, -⟩ := hread wakeup answers u e' htakes
    obtain ⟨⟨r, kind⟩, hcb⟩ := Option.ne_none_iff_exists'.mp (hsound.inv.timed.fds timerId fd hid).1
    have hdeadline : s.tables.eventmgr.timerOf s.tables.timerfds r timerId = some (kind, deadline) := timerOf_of hcb hid hfd
    have harmed : s.tables.eventmgr.armedFor s.tables.timerfds r timerId := by
      rw [EventManager.armedFor, hdeadline]
      rfl
    obtain ⟨j, hj, -⟩ := hsound.inv.timed.armed r timerId harmed
    exact (runs_blank h).awake hf hj
  refine returns_of_dispatch hsound he hawake fun wakeup answers u e' htakes => ?_
  obtain ⟨fd, deadline, hfd, hid, rfl⟩ := hread wakeup answers u e' htakes
  subst e'
  exact timer_ends (E := False) (s := s.given answers) hsound.inv hfd hid
    (fun r kind j hcb hj => .inl (hm.expires timerId r kind j he hcb hj)) (.inr hc)

/-! ## Isolation -/

/-- A request that boots jobs returns. -/
theorem request_returns {wakeup : Wakeup} {answers : Answers} {message : Json} {method : String} (h : Runs Calmly s)
    (hsound : Sound s) (hd : (Ev.handleEvent wakeup answers).dispatched s = some (.socket (some message)))
    (hmethod : message.atIndex 0 >>= Json.getString = .ok method) (hread : ∀ why, Rpc.reading message method ≠ .error (.abort why))
    (hdecoded : ∀ doc ∈ Rpc.documents answers.files message method, ∀ why, Manifest.fromJson doc ≠ .error (.abort why))
    (hb : method = "load" ∨ method = "submit") (hm : Harmless s (.handleEvent wakeup answers)) :
    ∃ s', step (.handleEvent wakeup answers) s = .ok () s' := by
  have hloads := Loads.requests hd hmethod hb hread
  have honly : ∀ method', message.atIndex 0 >>= Json.getString = .ok method' → method' = method := fun method' hm' =>
    Except.ok.inj (hm'.symm.trans hmethod)
  obtain ⟨_, answers', _, e', htakes⟩ := hsound.takes hd
  cases e'
  have hrun : s.state = .running := (hsound.ofSocket htakes).2
  have hwell : WellFormed answers.files message :=
    ⟨fun method' hm' => honly method' hm' ▸ hread, fun method' hm' => honly method' hm' ▸ hdecoded⟩
  have happart : Apart s := Runs.apart (h.mono fun _ _ _ hn => ⟨hn.1, fun _ _ _ e' _ _ => by
    have hcalm := hn.2
    rw [e'] at hcalm
    exact hcalm⟩)
  have hlaunchable : Launchable answers.files message s := by
    refine ⟨happart, fun label r j hr hj hd => ?_, fun method' hm' => ?_⟩
    · exact hm.pending _ _ _ hloads label r j hr hj (.inr (hd.resolve_left nofun))
    · rw [honly method' hm']
      exact .of_fit (hm.loaded _ _ _ hloads)
  obtain ⟨s', hok, -⟩ := wellFormed_contained h.reachable hrun hd hwell fun _ => hlaunchable
  exact ⟨s', hok⟩

/-- Where the system calls of a run fail for nothing else than what they are asked, and what
    a step does for a job can be done, the step returns, whatever the job's manifest holds. -/
theorem steps_isolated (h : Runs Calmly s) (hc : Calmly s e) (hj : ForJob s e) (hm : Harmless s e) :
    ∃ s', step e s = .ok () s' := by
  by_cases hf : s.state = .finished
  · exact step_finished hf e
  have hsound : Sound s := h.sound hf
  have hblank : Blank s := runs_blank h
  cases hj with
  | boots hloads hdecoded =>
    cases hloads with
    | starts hs =>
      exact startRunning_returns hsound hblank hs hc hdecoded (.of_fit (hm.loaded _ _ _ (.starts hs)))
    | requests hd hmethod hb hread => exact request_returns h hsound hd hmethod hread hdecoded hb hm
  | exits he => exact exit_returns h hf hc hm he
  | expires he => exact timer_returns h hf hc hm he

/-- Every job can be started where every user and every group is there. -/
theorem known_newManager (m : Manifest) : Known newManager.kernel.users m := by
  unfold Known Job.executionContext
  cases m.userName with
  | none => rfl
  | some user => cases m.groupName <;> rfl

/-- The manager starts with one manifest, whose members fail no assertion. -/
theorem startWith_forJob {keys : List (String × Json)} {answers : Answers} (hs : s.state = .unconfigured)
    (h : (Manifest.fromJson (manifestWith keys)).isOk = true) : ForJob s (startWith keys answers) := by
  refine .boots (.starts hs) fun doc hm why habort => ?_
  obtain rfl : doc = manifestWith keys := List.mem_singleton.mp hm
  rw [habort] at h
  cases h

def endsSafely (s : Sys) (e : Ev) : Bool :=
  match e.dispatched s with
  | some (.proc _ _ i) => s.kernel.procs[i]?.any fun c => (s.heap c.job).any fun j =>
    (Job.executionContext s.kernel.users j.manifest []).isSome &&
      (s.tables.lifeOf c.job j).reap.throttleArming ((s.given {}).clock 3) != .failed
  | _ => false

/-- A job that runs as a user is booted; its child exits, and the job waits for its next start. -/
theorem steps_isolated_throttled :
    (∃ s', step (startWith [("KeepAlive", .bool true), ("UserName", .str "root")] {}) newManager = .ok () s') ∧
    ∃ s s' : Sys, (s.heap 0).any (·.manifest.userName = some "root") ∧
      step (.handleEvent (.signal [.sigchld] [0]) {}) s = .ok () s' ∧ (s'.heap 0).any (·.state = .waiting) := by
  constructor
  · obtain ⟨starts, hstarts⟩ : ∃ starts, starts = startWith [("KeepAlive", .bool true), ("UserName", .str "root")] {} := ⟨_, rfl⟩
    have hcalm : Calmly newManager starts := hstarts ▸ ⟨nofun, nofun, nofun⟩
    have hjob : ForJob newManager starts := hstarts ▸ startWith_forJob rfl (by decide +kernel)
    have hharmless : Harmless newManager starts := by
      refine ⟨fun _ _ _ _ label r j hr => (by cases hr), fun _ _ _ _ _ _ m _ _ _ _ _ _ => known_newManager m,
        fun _ _ _ _ _ _ he => ?_, fun _ _ _ _ he => ?_⟩
      · rw [hstarts, startWith] at he
        cases he
      · rw [hstarts, startWith] at he
        cases he
    obtain ⟨s', hok⟩ := steps_isolated (.init init_newManager) hcalm hjob hharmless
    exact ⟨s', hstarts ▸ hok⟩
  obtain ⟨exits, hexits⟩ : ∃ exits : Ev, exits = .handleEvent (.signal [.sigchld] [0]) {} := ⟨_, rfl⟩
  obtain ⟨s, hs, hp⟩ := runs_of_run (C := Calmly) (fun _ _ => true)
    [startWith [("KeepAlive", .bool true), ("UserName", .str "root")] {}, .childExits 0 (.exited 1)]
    (fun s => (s.heap 0).any (·.manifest.userName = some "root") && endsSafely s exits &&
      (final? (step exits) s).any fun s' => (s'.heap 0).any (·.state = .waiting))
    (fun s e he _ => by
      simp only [List.mem_cons, List.not_mem_nil, or_false] at he
      rcases he with rfl | rfl
      · exact ⟨nofun, nofun, nofun⟩
      · trivial) (by rw [hexits]; decide +kernel)
  simp only [Bool.and_eq_true] at hp
  obtain ⟨⟨huser, hsafe⟩, hwaits⟩ := hp
  unfold endsSafely at hsafe
  split at hsafe
  swap
  · cases hsafe
  rename_i p st i hd
  have hharmless : Harmless s exits := by
    have hno : ∀ docs enables forces, ¬ Loads s exits docs enables forces := by
      intro docs enables forces hl
      rw [hexits] at hl hd
      cases hl with
      | requests hd' => cases hd.symm.trans hd'
    refine ⟨fun _ _ _ hl => absurd hl (hno _ _ _), fun _ _ _ hl => absurd hl (hno _ _ _), fun wakeup answers p' st' i' c e hd' hc => ?_,
      fun _ _ _ _ hd' => by cases hd.symm.trans hd'⟩
    rw [hexits] at e
    cases e
    cases hd.symm.trans hd'
    simp only [hc, Option.any_some, Option.any_eq_true, Bool.and_eq_true, bne_iff_ne] at hsafe
    obtain ⟨j, hj, hknown, harm⟩ := hsafe
    exact ⟨_, fate_alive hj, fun _ => hknown, fun _ => harm⟩
  have hcalm : Calmly s exits := hexits ▸ ⟨nofun, nofun, nofun⟩
  obtain ⟨s', hok⟩ := steps_isolated hs hcalm (.exits hd) hharmless
  rw [final?, hok] at hwaits
  rw [hexits] at hok
  exact ⟨s, s', huser, hok, hwaits⟩

/-- The user of a job is not in the database. -/
theorem unknown_user : ¬ ∀ s e, Runs Calmly s → Calmly s e → ForJob s e → ∃ s', step e s = .ok () s' := by
  intro h
  obtain ⟨s, hs⟩ : ∃ s : Sys, s = { newManager with kernel := { now := 0, users := ⟨fun _ => none, fun _ => none⟩ } } := ⟨_, rfl⟩
  obtain ⟨s', hok⟩ := h s (startWith [("RunAtLoad", .bool true), ("UserName", .str "nobody")] {})
    (.init ⟨_, _, _, hs⟩) ⟨nofun, nofun, nofun⟩ (startWith_forJob (hs ▸ rfl) (by decide +kernel))
  have hcrash : crashed? (step (startWith [("RunAtLoad", .bool true), ("UserName", .str "nobody")] {}) s) =
      some "null passwd entry" := by
    rw [hs]
    decide +kernel
  rw [hok] at hcrash
  cases hcrash

end Relaunchd
