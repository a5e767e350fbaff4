/-
  Relaunchd.Runs — what every run does to the jobs, as turns of their lives: the invariants
  of the runs are properties of lives that every turn keeps.
-/

import Relaunchd.Refinement.Step

namespace Relaunchd

open Prog EventManager Tables Transition

variable {s s' : Sys} {e : Ev}

/-! ## The turns a step gives -/

/-- A load gives a job its Bootstrap and no other turn. -/
theorem boot_of_load {answers : Answers} {l : Life} {a : Turn} (h : Request.load.Gives answers l a) :
    ∃ lookup clock how arming, a = .boot lookup clock how arming ∧ how.From answers ∧
      ((∃ t ∈ answers.timers, t.fails) ∧ arming = .failed ∨
        ∀ interval, l.manifest.startInterval = some interval → ∃ now, arming = .ofMilliseconds now interval) := by
  cases a with
  | boot lookup clock how arming => exact ⟨lookup, clock, how, arming, rfl, h⟩
  | exit | throttleFires | periodicFires | unload | kill => exact h.elim

/-- The step `e`, taken in the state `s`, gives the job `r` the turn `a` in its life `l`. -/
inductive Given (s : Sys) : Ev → Ref → Life → Turn → Prop
  | starts {paths : List String} {answers : Answers} {r : Ref} {l : Life} {a : Turn} : s.state = .unconfigured →
      Request.load.Gives answers l a → Given s (.startRunning paths answers) r l a
  | load {wakeup : Wakeup} {answers : Answers} {message : Option Json} {r : Ref} {l : Life} {a : Turn} :
      (Ev.handleEvent wakeup answers).dispatched s = some (.socket message) → s.state = .running →
      Request.of answers.files message = .load → Request.load.Gives answers l a → Given s (.handleEvent wakeup answers) r l a
  | kill {wakeup : Wakeup} {answers : Answers} {message : Option Json} {label : String} {r : Ref} {l l₀ : Life} :
      (Ev.handleEvent wakeup answers).dispatched s = some (.socket message) → s.state = .running →
      Request.of answers.files message = .kill label → l.manifest.label = label → s.tables.fate r = .alive l₀ →
      l.pid = l₀.pid → l.manifest = l₀.manifest → Given s (.handleEvent wakeup answers) r l .kill
  | unload {wakeup : Wakeup} {answers : Answers} {message : Option Json} {labels : List String} {r : Ref} {l : Life}
      {lookup : Decode Bool} {force sent : Bool} :
      (Ev.handleEvent wakeup answers).dispatched s = some (.socket message) → s.state = .running →
      Request.of answers.files message = .unload labels → l.manifest.label ∈ labels → Sent answers sent →
      -- only the first unload of a job finds it as the step does
      s.tables.fate r = .alive l ∨ l.state = .unloaded ∨ l.unloadRequested →
      Given s (.handleEvent wakeup answers) r l (.unload lookup force sent)
  | exit {wakeup : Wakeup} {answers : Answers} {p : Int} {st : WaitStatus} {i : Nat} {r : Ref} {l : Life} {how : Start} :
      (Ev.handleEvent wakeup answers).dispatched s = some (.proc p st i) → (∃ c, s.kernel.procs[i]? = some c ∧ c.job = r) →
      s.tables.fate r = .alive l → l.child = some p →
      (l.reap.restarts ((s.given answers).clock 1 / 1000) → how.Of answers.nextFork answers.nextProbe) →
      Given s (.handleEvent wakeup answers) r l (.exit (s.given answers).clock how)
  | timer {wakeup : Wakeup} {answers : Answers} {timerId : Nat} {r : Ref} {l : Life} {kind : TimerKind} {how : Start} :
      (Ev.handleEvent wakeup answers).dispatched s = some (.timer timerId) →
      s.eventmgr.timerCallbacks.lookup timerId = some (r, kind) → s.tables.fate r = .alive l →
      how.Of answers.nextFork answers.nextProbe →
      Given s (.handleEvent wakeup answers) r l (.fires kind (s.given answers).clock how)
  | shutsDown {wakeup : Wakeup} {answers : Answers} {sig : Signal} {r : Ref} {l : Life} {sent : Bool} :
      (Ev.handleEvent wakeup answers).dispatched s = some (.signal sig) → sig.shutsDown → s.state = .running →
      s.tables.fate r = .alive l → Sent answers sent →
      Given s (.handleEvent wakeup answers) r l (.unload (Job.disabledIn l.manifest s.stateFile) true sent)

/-- Only the dispatch of its exit makes a child exit. -/
theorem Given.of_exit {r : Ref} {l : Life} {clock : Nat → Nat} {how : Start} (h : Given s e r l (.exit clock how)) :
    s.tables.fate r = .alive l ∧ ∃ wakeup answers p st i c, e = .handleEvent wakeup answers ∧
      e.dispatched s = some (.proc p st i) ∧ s.kernel.procs[i]? = some c ∧ c.job = r ∧ clock = (s.given answers).clock := by
  generalize ha : Turn.exit clock how = a at h
  cases h with
  | starts _ hq => subst ha; exact hq.elim
  | load _ _ _ hq => subst ha; exact hq.elim
  | @exit wakeup answers p st i _ _ _ hd hproc hl =>
    cases ha
    obtain ⟨c, hc, hcr⟩ := hproc
    exact ⟨hl, wakeup, answers, p, st, i, c, rfl, hd, hc, hcr, rfl⟩
  | @timer _ _ _ _ _ kind => cases kind <;> cases ha
  | kill | unload | shutsDown => cases ha

/-- The step `e`, taken in the state `s`, deletes the job `r`, which then has the life `l`. -/
def Deleted (s : Sys) (e : Ev) (r : Ref) (l : Life) : Prop :=
  ∃ label, e.dispatched s = some (.ipc "delete_job" label) ∧ s.jobs.lookup label = some r ∧ s.tables.fate r = .alive l

/-- The step executes `forceUnloadAllJobs`: a shutdown signal comes while the manager shuts down. -/
def Forces (s : Sys) (e : Ev) : Prop :=
  s.state = .gracefulShutdown ∧ ∃ sig : Signal, sig.shutsDown ∧ e.dispatched s = some (.signal sig)

/-- The step asks a job that has the life `l` to unload. -/
inductive Asks (s : Sys) : Ev → Life → Prop
  | request {wakeup : Wakeup} {answers : Answers} {message : Option Json} {labels : List String} {l : Life} :
      (Ev.handleEvent wakeup answers).dispatched s = some (.socket message) → s.state = .running →
      Request.of answers.files message = .unload labels → l.manifest.label ∈ labels → Asks s (.handleEvent wakeup answers) l
  | shutdown {wakeup : Wakeup} {answers : Answers} {sig : Signal} {l : Life} :
      (Ev.handleEvent wakeup answers).dispatched s = some (.signal sig) → sig.shutsDown → s.state = .running →
      Asks s (.handleEvent wakeup answers) l

/-- What a request gives a job, as far as the life it finds goes. -/
theorem given_request {wakeup : Wakeup} {answers : Answers} {message : Option Json} {f f' : Fate} {D : Life → Prop} {r : Ref}
    (hd : (Ev.handleEvent wakeup answers).dispatched s = some (.socket message)) (hs : s.state = .running)
    (hf : s.tables.fate r = f)
    (h : Fate.Steps (fun l => (Request.of answers.files message).Gives answers l) (fun _ => False) f f') :
    Fate.Steps (Given s (.handleEvent wakeup answers) r) D f f' := by
  cases hq : Request.of answers.files message with
  | load =>
    rw [hq] at h
    exact h.mono (fun l a hg => .load hd hs hq hg) fun _ => False.elim
  | kill label =>
    rw [hq] at h
    refine (h.along (Q := fun g => ∀ l, g = .alive l → l.boot = .pending ∨
      ∃ l₀, f = .alive l₀ ∧ l.pid = l₀.pid ∧ l.manifest = l₀.manifest) (fun m _ _ l e => ?_)
      (fun l a hl he hg l' e => ?_) (fun _ _ _ hd => hd.elim) fun l e => .inr ⟨l, e, rfl, rfl⟩).mono
      (fun l a hgiven => ?_) fun _ => False.elim
    · cases e
      exact .inl rfl
    · cases e
      cases a with
      | kill =>
        obtain ⟨l₀, hl₀, hp, hm⟩ := (hl l rfl).resolve_left he
        obtain ⟨kills, e⟩ := l.signal_eq
        rw [Life.next, e]
        exact .inr ⟨l₀, hl₀, hp, hm⟩
      | boot | exit | throttleFires | periodicFires | unload => exact hg.elim
    · obtain ⟨hg, he, hl⟩ := hgiven
      cases a with
      | kill =>
        obtain ⟨l₀, hl₀, hp, hm⟩ := (hl l rfl).resolve_left he
        exact .kill hd hs hq hg (hf.trans hl₀) hp hm
      | boot | exit | throttleFires | periodicFires | unload => exact hg.elim
  | unload labels =>
    rw [hq] at h
    refine (h.along (Q := fun g => ∀ l, g = .alive l → l.boot = .pending ∨ f = .alive l ∨ l.state = .unloaded ∨
      l.unloadRequested) (fun m _ _ l e => ?_) (fun l a hl he hg l' e => ?_) (fun _ _ _ hd => hd.elim) fun l e => .inr (.inl e)).mono
      (fun l a hgiven => ?_) fun _ => False.elim
    · cases e
      exact .inl rfl
    · cases e
      cases a with
      | unload lookup force sent => exact .inr (.inr (l.unload_flagged lookup force sent))
      | boot | exit | throttleFires | periodicFires | kill => exact hg.elim
    · obtain ⟨hg, he, hl⟩ := hgiven
      cases a with
      | unload lookup force sent =>
        rcases (hl l rfl).resolve_left he with e | hl
        · exact .unload hd hs hq hg.1 hg.2 (.inl (hf.trans e))
        · exact .unload hd hs hq hg.1 hg.2 (.inr hl)
      | boot | exit | throttleFires | periodicFires | kill => exact hg.elim

/-- One job has a turn, and the others none. -/
theorem Moves.steps {w : Sys} {r : Ref} {l : Life} {a : Turn} {P : Ref → Life → Turn → Prop} {D : Ref → Life → Prop}
    (hl : w.tables.fate r = .alive l)
    (hm : Moves none r (l.next a) w s') (he : l.Enabled a) (hp : P r l a) (r' : Ref) :
    Fate.Steps (P r') (D r') (w.tables.fate r') (s'.tables.fate r') := by
  by_cases e : r' = r
  · subst e
    rw [hl, hm.life]
    exact .single (.turn l a he hp)
  · rw [hm.others r' e]
    exact .refl

/-- A job that was bootstrapped is stored under its label. -/
theorem Sound.stored (h : Sound s) {r : Ref} {j : Job} (hj : s.heap r = some j) (hb : j.boot ≠ .pending) :
    s.jobs.lookup j.label = some r := by
  rcases h.inv.owned.owned r j hj with hl | hl
  · exact hl
  · obtain ⟨k, hk, -, hkb⟩ := h.inv.owned.pended _ _ hl
    rw [show s.tables.heap r = some j from hj] at hk
    cases hk
    exact absurd hkb hb

theorem Sound.still (h : Sound s) (hs : Still s s') : Sound s' :=
  ⟨hs.inv, fun hl => hs.state.trans (h.listening (hs.listening ▸ hl))⟩

theorem Sound.moves {w : Sys} {r : Ref} {l : Life} (h : Sound w) (hm : Moves none r l w s') : Sound s' :=
  ⟨hm.inv, fun hl => hm.keeps.state.trans (h.listening (hm.keeps.listening ▸ hl))⟩

/-- A step keeps the manager sound and gives the jobs turns, unless it destroys them all. -/
theorem next_lives (h : Sound s) (hn : Next s e s') :
    (Sound s' ∧ ∀ r, Fate.Steps (Given s e r) (Deleted s e r) (s.tables.fate r) (s'.tables.fate r)) ∨
    ∃ w, Forces s e ∧ Still s w ∧ Forced w s' := by
  cases next_cases h hn with
  | still hs => exact .inl ⟨h.still hs, fun r => by rw [hs.fates r]; exact .refl⟩
  | starts paths answers he hs hst =>
    subst he
    exact .inl ⟨⟨hst.inv, fun _ => hst.state⟩, fun r => (hst.fates r).mono (fun _ _ hg => .starts hs hg) fun _ => False.elim⟩
  | exit wakeup answers w p st i r l how he hd hw hx =>
    subst he
    have hs : Still s w := (given_woken h.inv answers).trans hw.toStill
    have hx' := hx.moves
    rw [hw.clock] at hx'
    refine .inl ⟨(h.still hs).moves hx', fun r' => ?_⟩
    rw [← hs.fates r']
    refine hx'.steps (a := .exit _ how) hx.alive
      ⟨by rw [hx.child]; rfl, hx.sound, hx.returns, (s.given answers).clock_mono, ?_⟩ ?_ r'
    · have ha := hx.armed
      rwa [hw.clock] at ha
    have ha := hx.answer
    rw [hw.clock, hw.answers] at ha
    obtain ⟨c, hc, hcr, -, -⟩ := hx.proc
    obtain ⟨c', hc', hf⟩ := hs.procs.get hc
    exact .exit hd ⟨c', hc', hf.job ▸ hcr⟩ ((hs.fates r).symm.trans hx.alive) hx.child ha
  | timer wakeup answers timerId r l kind how he hd hx =>
    subst he
    have hs : Still s (s.given answers) := given_woken h.inv answers
    refine .inl ⟨(h.still hs).moves hx.moves, fun r' => ?_⟩
    refine hx.moves.steps hx.alive (Life.enabled_fires.mpr ?_) (.timer hd hx.callback hx.alive hx.answer) r'
    obtain ⟨due, hdue, htimer⟩ := hx.timer
    have hle : (s.given answers).kernel.now ≤ (s.given answers).clock 1 :=
      (s.given answers).clock_zero ▸ (s.given answers).clock_mono (Nat.zero_le 1)
    exact ⟨⟨due, hdue.trans hle, htimer⟩, hx.sound, hx.returns, (s.given answers).clock_mono⟩
  | delete wakeup answers w label r l he hd hw hx =>
    subst he
    have hs : Still s w := (given_woken h.inv answers).trans hw.toStill
    refine .inl ⟨⟨hx.inv, fun hl => ?_⟩, fun r' => ?_⟩
    · exact hx.state.trans ((h.still hs).listening (hx.listening ▸ hl))
    · rw [← hs.fates r']
      by_cases e : r' = r
      · subst e
        rw [hx.alive, hx.gone]
        exact .single (.destroyed l hx.unloaded ⟨label, hd, hs.jobs ▸ hx.stored, (hs.fates r').symm.trans hx.alive⟩)
      · rw [hx.others r' e]
        exact .refl
  | request wakeup answers message he hd hs hx =>
    subst he
    refine .inl ⟨⟨hx.inv, fun _ => hx.state.trans hs⟩, fun r => ?_⟩
    exact given_request hd hs rfl (hx.fates r)
  | shutsDown wakeup answers w sig he hd hsig hrun hw hx =>
    subst he
    have hs : Still s w := (given_woken h.inv answers).trans hw.toStill
    refine .inl ⟨⟨hx.inv, fun hl => ?_⟩, fun r => ?_⟩
    · rw [hx.listening] at hl
      cases hl
    · rw [← hs.fates r]
      by_cases hr : ∃ label, w.jobs.lookup label = some r
      · obtain ⟨label, hr⟩ := hr
        obtain ⟨l, hl, -, hb⟩ := stored_alive hs.inv hr
        obtain ⟨sent, hsent, hlife⟩ := hx.unloaded label r l hr hl
        rw [hw.answers] at hsent
        rw [hl, hlife, hs.stateFile]
        exact .single (.turn l (.unload _ true sent) hb (.shutsDown hd hsig hrun ((hs.fates r).symm.trans hl) hsent))
      · rw [hx.others r fun label hlabel => hr ⟨label, hlabel⟩]
        exact .refl
  | forced wakeup answers w sig he hd hsig hg hw hx =>
    subst he
    exact .inr ⟨w, ⟨hg, sig, hsig, hd⟩, (given_woken h.inv answers).trans hw.toStill, hx⟩
  | finished wakeup answers he hg hempty hs' =>
    subst hs'
    refine .inl ⟨⟨h.inv, fun hl => ?_⟩, fun r => .refl⟩
    have := h.listening hl
    rw [hg] at this
    cases this

/-! ## The dispatch -/

theorem handleEvent_eq (s : Sys) (wakeup : Wakeup) : Manager.handleEvent wakeup s =
    (match s.state with
      | .unconfigured => throw "unsupported state"
      | .running => waitForEvent wakeup
      | .gracefulShutdown =>
        if s.jobs.keys.isEmpty then Manager.execute [] .allJobsExited else waitForEvent wakeup
      | .finished => return ()) s := by
  show (match s.state with
    | .unconfigured => throw "unsupported state"
    | .running => waitForEvent wakeup
    | .gracefulShutdown => do
      if (← get).jobs.keys.isEmpty then Manager.execute [] .allJobsExited
      else waitForEvent wakeup
    | .finished => return ()) s = _
  cases s.state <;> rfl

/-- A step that dispatches an event is its callback. -/
theorem step_dispatched {event : Event} (he : e.dispatched s = some event) (hs : s.state = .running ∨ s.state = .gracefulShutdown) :
    ∃ wakeup answers u, e = .handleEvent wakeup answers ∧ nextEvent wakeup (s.given answers) = .ok (some event) u ∧
      step e s = EventManager.dispatch event u := by
  cases e with
  | timePasses | childExits | signalSent | startRunning => cases he
  | handleEvent wakeup answers =>
    rw [Ev.dispatched] at he
    split at he
    · cases he
    rename_i hempty
    cases hw : nextEvent wakeup (s.given answers) with
    | throw | crash => rw [hw] at he; cases he
    | ok event' u =>
      rw [hw] at he
      subst he
      refine ⟨wakeup, answers, u, rfl, hw, ?_⟩
      have hwait : waitForEvent wakeup (s.given answers) = EventManager.dispatch event u := by
        simp only [waitForEvent, bind, andThen, hw]
      have hhandle : step (.handleEvent wakeup answers) s = Manager.handleEvent wakeup (s.given answers) := rfl
      rw [hhandle, handleEvent_eq, ← hwait]
      simp only [show (s.given answers).state = s.state from rfl, show (s.given answers).jobs = s.jobs from rfl]
      rcases hs with hs | hs
      · rw [hs]
      · rw [hs]
        dsimp only
        rw [if_neg fun hj => hempty ⟨hs, hj⟩]

/-- Events are dispatched while the manager runs, or shuts down. -/
theorem Next.awake {event : Event} (hn : Next s e s') (he : e.dispatched s = some event) :
    s.state = .running ∨ s.state = .gracefulShutdown := by
  obtain ⟨hf, hstep⟩ := hn
  cases hs : s.state with
  | unconfigured =>
    cases e with
    | timePasses | childExits | signalSent | startRunning => cases he
    | handleEvent wakeup answers =>
      have hhandle : Manager.handleEvent wakeup (s.given answers) = .ok () s' := hstep
      rw [handleEvent_eq, show (s.given answers).state = s.state from rfl, hs] at hhandle
      cases hhandle
  | running => exact .inl rfl
  | gracefulShutdown => exact .inr rfl
  | finished => exact absurd hs hf

theorem Next.dispatches {event : Event} (hn : Next s e s') (he : e.dispatched s = some event) :
    ∃ wakeup answers u, e = .handleEvent wakeup answers ∧ nextEvent wakeup (s.given answers) = .ok (some event) u ∧
      EventManager.dispatch event u = .ok () s' := by
  obtain ⟨wakeup, answers, u, e', hnext, hstep⟩ := step_dispatched he (hn.awake he)
  exact ⟨wakeup, answers, u, e', hnext, hstep.symm.trans hn.2⟩

/-! ## Runs -/

theorem init_sound (h : Init s) : Sound s := by
  obtain ⟨stateFile, now, users, rfl⟩ := h
  exact ⟨new_inv, nofun⟩

abbrev Runs (C : Sys → Ev → Prop) (s : Sys) : Prop := Reach Init (Under Next C) s

/-- Every state reached is sound, or all jobs have just been destroyed. -/
theorem Runs.cases {C : Sys → Ev → Prop} (h : Runs C s) :
    Sound s ∨ ∃ s₀ e w, Runs C s₀ ∧ Sound s₀ ∧ C s₀ e ∧ Next s₀ e s ∧ Forces s₀ e ∧ Still s₀ w ∧ Forced w s := by
  induction h with
  | init hi => exact .inl (init_sound hi)
  | @step s s' e hr hs ih =>
    rcases ih with hsound | ⟨s₀, e₀, w, -, -, -, -, -, -, hforced⟩
    · rcases next_lives hsound hs.1 with hl | ⟨w, hg, hw, hf⟩
      · exact .inl hl.1
      · exact .inr ⟨s, e, w, hr, hsound, hs.2, hs.1, hg, hw, hf⟩
    · exact absurd hforced.state hs.1.1

theorem Runs.sound {C : Sys → Ev → Prop} (h : Runs C s) (hs : s.state ≠ .finished) : Sound s := by
  rcases h.cases with hs' | ⟨_, _, w, _, _, _, _, _, _, hf⟩
  · exact hs'
  · exact absurd hf.state hs

/-- The jobs left when all are destroyed were never bootstrapped. -/
theorem Forced.life {w : Sys} (h : w.tables.Inv none) (hf : Forced w s) {r : Ref} {l : Life}
    (hl : s.tables.fate r = .alive l) : w.tables.fate r = .alive l ∧ l.boot = .pending := by
  obtain ⟨j, hj, rfl⟩ := fate_eq_alive hl
  obtain ⟨hjw, hb⟩ := (hf.heap r j).mp hj
  refine ⟨?_, hb⟩
  have hfresh := lifeOf_fresh h hjw hb
  have hkills : (s.tables.kills.filter (·.job == r)).map (·.pid) = (w.tables.history r).kills := by
    rw [show (w.tables.history r).kills = [] from congrArg (·.kills) hfresh, List.map_eq_nil_iff, List.filter_eq_nil_iff]
    intro k hk hkr
    obtain rfl : k.job = r := by simpa using hkr
    rcases hf.kills k hk with hk | ⟨j', hj', hb', -⟩
    · have hmem : k.pid ∈ (w.tables.history k.job).kills :=
        List.mem_map_of_mem (List.mem_filter.mpr ⟨hk, by simp⟩)
      rw [show (w.tables.history k.job).kills = [] from congrArg (·.kills) hfresh] at hmem
      cases hmem
    · rw [hjw] at hj'
      cases hj'
      exact hb' hb
  have hhistory : s.tables.history r = w.tables.history r := by
    have hcongr : Tables.history { s.tables with kills := w.tables.kills } r = w.tables.history r :=
      history_congr hf.procs.faces rfl
    rw [← hcongr] at hkills ⊢
    rw [history, hkills]
    rfl
  have hnone : j.timerId = none := Option.not_isSome_iff_eq_none.mp (by
    rw [show j.timerId.isSome = false from congrArg (·.timerSet) hfresh]
    simp)
  rw [fate_alive hjw]
  unfold lifeOf
  rw [hhistory, hnone]
  rfl

/-- A property of lives that a new life has and every turn keeps holds of every life in
    every state a run reaches. -/
theorem Runs.lives {C : Sys → Ev → Prop} {Q : Life → Prop} (h0 : ∀ manifest : Manifest, manifest.Decoded → Q { manifest })
    (hQ : ∀ s e r l a, Runs C s → Sound s → C s e → Given s e r l a → l.Enabled a → Q l → Q (l.next a)) (h : Runs C s) :
    ∀ r l, s.tables.fate r = .alive l → Q l := by
  induction h with
  | init hi =>
    obtain ⟨stateFile, now, users, rfl⟩ := hi
    exact fun r l hl => nomatch hl
  | @step s s' e hr hs ih =>
    intro r l hl
    have hsound : Sound s := Runs.sound hr hs.1.1
    rcases next_lives hsound hs.1 with ⟨-, hsteps⟩ | ⟨w, -, hw, hf⟩
    · exact (hsteps r).alive h0 (fun l a hl he hg => hQ s e r l a hr hsound hs.2 hg he hl) (ih r) l hl
    · exact ih r l ((hw.fates r).symm.trans (hf.life hw.inv hl).1)

/-- A property of fates that is true of a new manager and that turns keep holds in every
    state a run reaches, or did before all jobs were destroyed. -/
theorem Runs.fates_cases {C : Sys → Ev → Prop} {Q : Fate → Prop} (h0 : Q .unborn)
    (hm : ∀ manifest : Manifest, manifest.Decoded → Q (.alive { manifest }))
    (hQ : ∀ s e r l a, Runs C s → Sound s → C s e → Given s e r l a → l.Enabled a → Q (.alive l) → Q (.alive (l.next a)))
    (hD : ∀ s e r l, Runs C s → Sound s → C s e → Deleted s e r l → l.state = .unloaded → Q (.alive l) → Q (.gone l.toHistory))
    (h : Runs C s) : (Sound s ∧ ∀ r, Q (s.tables.fate r)) ∨
      ∃ s₀ e w, Sound s₀ ∧ C s₀ e ∧ Forces s₀ e ∧ Still s₀ w ∧ Forced w s ∧ ∀ r, Q (s₀.tables.fate r) := by
  induction h with
  | init hi =>
    obtain ⟨stateFile, now, users, rfl⟩ := hi
    exact .inl ⟨init_sound ⟨_, _, _, rfl⟩, fun r => h0⟩
  | @step s s' e hr hn ih =>
    rcases ih with ⟨hsound, ih⟩ | ⟨s₀, e₀, w, -, -, -, -, hforced, -⟩
    · rcases next_lives hsound hn.1 with ⟨hsound', hsteps⟩ | ⟨w, hg, hw, hf⟩
      · refine .inl ⟨hsound', fun r => ?_⟩
        exact (hsteps r).keeps (fun m hdec _ => hm m hdec) (fun l a hl he hg => hQ s e r l a hr hsound hn.2 hg he hl)
          (fun l hl hu hd => hD s e r l hr hsound hn.2 hd hu hl) (ih r)
      · exact .inr ⟨s, e, w, hsound, hn.2, hg, hw, hf, ih⟩
    · exact absurd hforced.state hn.1.1

/-- A property of fates, as long as the manager is not finished. -/
theorem Runs.fates {C : Sys → Ev → Prop} {Q : Fate → Prop} (h0 : Q .unborn)
    (hm : ∀ manifest : Manifest, manifest.Decoded → Q (.alive { manifest }))
    (hQ : ∀ s e r l a, Runs C s → Sound s → C s e → Given s e r l a → l.Enabled a → Q (.alive l) → Q (.alive (l.next a)))
    (hD : ∀ s e r l, Runs C s → Sound s → C s e → Deleted s e r l → l.state = .unloaded → Q (.alive l) → Q (.gone l.toHistory))
    (h : Runs C s) (hs : s.state ≠ .finished) : ∀ r, Q (s.tables.fate r) := by
  rcases h.fates_cases h0 hm hQ hD with ⟨-, hfates⟩ | ⟨_, _, w, -, -, -, -, hf, -⟩
  · exact hfates
  · exact absurd hf.state hs

/-- A list of events that run makes a run. -/
theorem later_of_run {C : Sys → Ev → Prop} {check : Sys → Ev → Bool} {events : List Ev}
    (hC : ∀ s e, e ∈ events → check s e → C s e) (hr : run check s events = some s') : Later (Under Next C) s s' := by
  induction events generalizing s with
  | nil =>
    cases hr
    exact .refl
  | cons e es ih =>
    rw [run] at hr
    split at hr
    · cases hr
    rename_i hf
    split at hr
    swap
    · cases hr
    rename_i hc
    obtain ⟨s₁, hs₁, hr⟩ := Option.bind_eq_some_iff.mp hr
    refine .head ⟨e, ⟨hf, ?_⟩, hC s e List.mem_cons_self hc⟩ (ih (fun s e he => hC s e (List.mem_cons_of_mem _ he)) hr)
    obtain ⟨u, hs₁⟩ := final?_eq_some.mp hs₁
    exact hs₁

theorem Runs.reachable {C : Sys → Ev → Prop} (h : Runs C s) : Reachable s := h.of_under

theorem Runs.of_reachable (h : Reachable s) : Runs (fun _ _ => True) s := h.mono fun _ _ _ hs => ⟨hs, trivial⟩

/-! ### Runs of one job -/

/-- A new manager, where no override is stored and every user is known. -/
def newManager : Sys :=
  { stateFile := .obj [("Overrides", .obj [])]
    kernel := { now := 0, users := ⟨fun _ => some ⟨0, 0⟩, fun _ => some 0⟩ } }

def manifestWith (keys : List (String × Json)) : Json := .obj (("Label", .str "job") :: ("Program", .str "/bin/job") :: keys)

def startWith (keys : List (String × Json)) (answers : Answers) : Ev :=
  .startRunning ["job.json"] { answers with files := fun _ => .file (some (manifestWith keys)) }

def requestOf (method : String) (members : List (String × Json)) : Ev :=
  .handleEvent (.socket (some (.arr [.str method, .obj members]))) {}

def loadWith (answers : Answers) : Ev :=
  .handleEvent (.socket (some (.arr [.str "load",
    .obj [("Force", .bool false), ("OverrideDisabled", .bool false), ("Paths", .arr [.str "job.json"])]])))
    { answers with files := fun _ => .file (some (manifestWith [("RunAtLoad", .bool true)])) }

theorem init_newManager : Init newManager := ⟨_, _, _, rfl⟩

/-- A fact about two states of a run that evaluates. -/
theorem runs_then_of_run {C : Sys → Ev → Prop} (check : Sys → Ev → Bool) (first rest : List Ev) (p : Sys → Sys → Bool)
    (hC : ∀ s e, e ∈ first ++ rest → check s e → C s e)
    (h : (run check newManager first).any fun s => (run check s rest).any (p s)) :
    ∃ s t, Runs C s ∧ Later (Under Next C) s t ∧ p s t := by
  obtain ⟨s, hs, h⟩ := (Option.any_eq_true ..).mp h
  obtain ⟨t, ht, h⟩ := (Option.any_eq_true ..).mp h
  have hl : Later (Under Next C) newManager s := later_of_run (fun s e he => hC s e (List.mem_append_left _ he)) hs
  exact ⟨s, t, .later (.init init_newManager) hl, later_of_run (fun s e he => hC s e (List.mem_append_right _ he)) ht, h⟩

theorem runs_of_run {C : Sys → Ev → Prop} (check : Sys → Ev → Bool) (events : List Ev) (p : Sys → Bool)
    (hC : ∀ s e, e ∈ events → check s e → C s e) (h : (run check newManager events).any p) : ∃ s, Runs C s ∧ p s := by
  obtain ⟨s, hs, hp⟩ := (Option.any_eq_true ..).mp h
  exact ⟨s, .later (.init init_newManager) (later_of_run hC hs), hp⟩

theorem reachable_of_run (events : List Ev) (p : Sys → Bool) (h : (run (fun _ _ => true) newManager events).any p) :
    ∃ s, Reachable s ∧ p s := by
  obtain ⟨s, hs, hp⟩ := runs_of_run (C := fun _ _ => True) _ events p (fun _ _ _ _ => trivial) h
  exact ⟨s, hs.reachable, hp⟩

theorem reachable_then_of_run (first rest : List Ev) (p : Sys → Sys → Bool)
    (h : (run (fun _ _ => true) newManager first).any fun s => (run (fun _ _ => true) s rest).any (p s)) :
    ∃ s t, Reachable s ∧ Later Next s t ∧ p s t := by
  obtain ⟨s, t, hs, hl, hp⟩ := runs_then_of_run (C := fun _ _ => True) _ first rest p (fun _ _ _ _ => trivial) h
  exact ⟨s, t, hs.reachable, hl.mono fun _ _ _ hs => hs.1, hp⟩

end Relaunchd
