/-
  Relaunchd.Properties.Contained — exactly which requests the manager outlives, whatever the
  system answers while it deals with them.

  What was proved enough is needed too. A job unfit to be booted is started under some
  answers: no system call of a boot fails, so that nothing ends the loop before the job's
  turn; and where the request enables its jobs, the state file cannot be renamed until the
  job's own document is loaded, so that none before it takes the label.
-/

import Relaunchd.Properties.Malformed

namespace Relaunchd

open Prog EventManager Tables Transition

variable {s s' s₀ : Sys} {files : String → Node} {message doc : Json} {label path : String} {r : Ref} {j : Job} {m : Manifest}
  {enables forces : Bool}

/-! ## A boot that ends the program -/

/-- The manager dies when it comes to boot the label. -/
inductive Doomed (label : String) (s : Sys) : Prop
  | booted : label ∈ s.pendingJobs → label ∈ s.jobs → Doomed label s
  | moved : s.pendingJobs.lookup label = some none → Doomed label s
  | unfit {r : Ref} {j : Job} : s.pendingJobs.lookup label = some (some r) → s.heap r = some j → ¬ Fit false s j.manifest →
      Doomed label s

theorem Doomed.pending (h : Doomed label s) : label ∈ s.pendingJobs := by
  cases h with
  | booted hp => exact hp
  | moved hp => exact AList.lookup_isSome.mp (by rw [hp]; rfl)
  | unfit hp => exact AList.lookup_isSome.mp (by rw [hp]; rfl)

theorem lookUpUser_crashes (hj : s.heap r = some j) (hu : ¬ Known s.kernel.users j.manifest) {Q : Unit → Sys → Prop}
    {E : Sys → Prop} : ends (fun _ => True) (Job.lookUpUser r) Q E s := by
  simp only [Job.lookUpUser, ends_bind, ends_this hj, ends_get]
  unfold Known Job.executionContext at hu
  cases hn : j.manifest.userName with
  | none => simp [hn] at hu
  | some user =>
    simp only [hn] at hu ⊢
    cases hp : s.kernel.users.getpwnam user with
    | none => simp
    | some pwent =>
      cases hg : j.manifest.groupName with
      | none => simp [hp, hg] at hu
      | some group =>
        cases hgr : s.kernel.users.getgrnam group with
        | none => simp [hgr]
        | some gid => simp [hp, hg, hgr] at hu

theorem startJob_crashes (hj : s.heap r = some j) (hu : ¬ Known s.kernel.users j.manifest) {Q : Unit → Sys → Prop}
    {E : Sys → Prop} : ends (fun _ => True) (Job.startJob r) Q E s := by
  simp only [Job.startJob, ends_bind, ends_modify, ends_currentTime, ends_setJob, Job.run]
  exact lookUpUser_crashes (Sys.updateJob_self (by exact hj)) (by exact hu)

theorem bootstrap_crashes (hj : s.heap r = some j) (hs : j.state = .loaded)
    (hd : Job.disabledIn j.manifest s.stateFile = .ok false) (hruns : j.manifest.runAtLoad || j.manifest.keepAlive)
    (hu : ¬ Known s.kernel.users j.manifest) {Q : Unit → Sys → Prop} {E : Sys → Prop} :
    ends (fun _ => True) (Job.execute r .bootstrap) Q E s := by
  have hstart : ∀ {Q : Unit → Sys → Prop}, ends (fun _ => True) (Job.executeNested 1 r .startRequested) Q E s := by
    intro Q
    rw [ends_executeNested hj]
    simp only [hs, Job.transitions, List.filter, decide_true, decide_false, reduceCtorEq]
    rw [Fsm.ends_tryTransitions_skip, Fsm.ends_tryTransitions_skip, Fsm.ends_tryTransitions_cons]
    · exact startJob_crashes hj hu
    · rfl
    · simp
    · simp
  rw [Job.execute, ends_executeNested hj, hs]
  simp only [Job.transitions, List.filter, decide_true, decide_false, reduceCtorEq]
  rw [Fsm.ends_tryTransitions_cons]
  · simp only [ends_bind, ends_isDisabled hj, hd]
    show ends (fun _ => True) (if false = true then (return false : M Bool) else _) _ _ s
    simp only [Bool.false_eq_true, if_false, ends_bind, ends_this hj, ends_pure, hruns, if_true]
    exact hstart
  · rfl

theorem Doomed.crashes (h : Doomed label s) (hi : s.tables.Inv none) :
    ends (fun _ => True) (Manager.startPending label) (fun _ _ => False) (fun _ => False) s := by
  rw [Manager.startPending, ends_bind, ends_get, ends_ite]
  split
  · trivial
  cases h with
  | booted _ hm => exact absurd (AList.lookup_isSome.mpr hm) ‹_›
  | moved hp =>
    rw [hp]
    trivial
  | @unfit r j hr hj hfit =>
    rw [hr]
    dsimp only
    obtain ⟨j', hj', -, hboot⟩ := hi.owned.pended label r hr
    cases hj'.symm.trans hj
    have hloaded : j.state = .loaded := congrArg Life.state (lifeOf_fresh hi hj hboot)
    unfold Fit Startable at hfit
    simp only [Bool.false_eq_true, false_or, Classical.not_imp] at hfit
    obtain ⟨hd, hruns, hu⟩ := hfit
    rw [ends_bind, ends_modify, ends_bind, Manager.markBootstrap, ends_bind, ends_this (j := j) (by exact hj), ends_bind, ends_get,
      ends_setJob]
    exact bootstrap_crashes (Sys.updateJob_self (by exact hj)) (by exact hloaded) (by exact hd) (by exact hruns) (by exact hu)

/-- A boot of another label that throws nothing leaves it so. -/
theorem Doomed.startPending {other : String} (h : Doomed label s) (hb : Bootable s) (hne : label ≠ other) :
    wp (Manager.startPending other) (fun _ s' => Bootable s' ∧ Doomed label s') (fun _ => False) s := by
  have htraced : Traced (Effect.boot = ·) (Manager.startPending other) := Traced.startPending rfl other
  refine wp_mono (wp_and (startPending_calm hb) (wp_and (startPending_spec hb.inv other) (htraced s trivial))) ?_ fun _ hf => hf.1
  intro _ s' h'
  obtain ⟨hb', ⟨hdoes, hpend⟩, hwrites⟩ := h'
  refine ⟨hb', ?_⟩
  have hlook : s'.pendingJobs.lookup label = s.pendingJobs.lookup label := by rw [hpend, AList.lookup_insert_ne hne]
  cases h with
  | booted hp hj =>
    obtain ⟨r, hr⟩ := Option.isSome_iff_exists.mp (AList.lookup_isSome.mpr hj)
    refine .booted (AList.lookup_isSome.mp ?_) (AList.lookup_isSome.mp ?_)
    · rw [hlook]
      exact AList.lookup_isSome.mpr hp
    · rw [hdoes.stored label r hr]
      rfl
  | moved hp => exact .moved (hlook.trans hp)
  | @unfit r j hr hj hfit =>
    have hr' : s'.pendingJobs.lookup label = some (some r) := hlook.trans hr
    obtain ⟨j', hj', -, -⟩ := hb'.inv.owned.pended label r hr'
    obtain ⟨j₀, hj₀, hm⟩ := Writes.manifest hwrites (hb.inv.owned.allocated r j hj) hj'
    cases hj₀.symm.trans hj
    refine .unfit hr' hj' fun hfit' => hfit ?_
    unfold Fit at hfit' ⊢
    rwa [hm, Writes.users hwrites, Writes.stateFile (by simp) hwrites] at hfit'

/-- The loop comes to the label, or dies before. -/
theorem startEach_crashes {order : List String} (h : Doomed label s) (hb : Bootable s) (hm : label ∈ order) :
    ends (fun _ => True) (forEach Manager.startPending order) (fun _ _ => False) (fun _ => False) s := by
  induction order generalizing s with
  | nil => cases hm
  | cons other rest ih =>
    rw [forEach, ends_bind]
    by_cases e : label = other
    · subst e
      exact ends_mono (h.crashes hb.inv) (fun _ => id) (fun _ _ hf => hf.elim) fun _ => id
    · have hrest : label ∈ rest := (List.mem_cons.mp hm).resolve_left e
      exact ends_mono (wp_iff_ends.mp (h.startPending hb e)) (fun _ => id) (fun _ _ h' => ih h'.2 h'.1 hrest) fun _ => id

theorem Doomed.took (h : Doomed label s) (ht : Took s s') (hu : s'.kernel.users = s.kernel.users) : Doomed label s' := by
  have hpend : s'.pendingJobs = s.pendingJobs := ht.keeps.pendingJobs
  have hjobs : s'.jobs = s.jobs := ht.keeps.jobs
  have hheap : s'.heap = s.heap := congrArg Tables.heap ht.tables
  cases h with
  | booted hp hj => exact .booted (hpend ▸ hp) (hjobs ▸ hj)
  | moved hp => exact .moved (hpend ▸ hp)
  | unfit hr hj hfit =>
    refine .unfit (hpend ▸ hr) (hheap ▸ hj) fun hfit' => hfit ?_
    unfold Fit at hfit' ⊢
    rwa [hu, show s'.stateFile = s.stateFile from ht.keeps.stateFile] at hfit'

theorem startLoaded_crashes (h : Doomed label s) (hp : Primed files s) :
    ends (fun _ => True) Manager.startLoaded (fun _ _ => False) (fun _ => False) s := by
  have hkey : label ∈ s.pendingJobs.keys := h.pending
  have hsome : ¬ s.pendingJobs.keys.isEmpty := fun he => by
    rw [List.isEmpty_iff.mp he] at hkey
    cases hkey
  rw [ends_congr (startLoaded_eq hp.serving.state), ends_ite, if_neg hsome, ends_bind, Manager.startAllJobs, ends_bind, ends_get,
    ends_bind]
  have htraced : Traced (fun _ => False) (visiting s.pendingJobs.keys) := .visits _
  refine ends_mono (wp_iff_ends.mp (wp_and visiting_spec (htraced s trivial))) (fun _ => id) ?_ fun _ hf => hf.1
  intro order u h'
  obtain ⟨⟨hperm, htook⟩, hwrites⟩ := h'
  rw [ends_bind]
  exact ends_mono (startEach_crashes (h.took htook (Writes.users hwrites)) (hp.bootable.of_took htook) (hperm.mem_iff.mpr hkey)) (fun _ => id)
    (fun _ _ hf => hf.elim) fun _ => id

/-! ## Loading on the way to it -/

/-- A load for another label leaves it so. -/
theorem Doomed.loads {b : Option Bool} (h : Doomed label s) (hi : s.tables.Inv none)
    (hto : LoadsTo s doc path enables forces b s') : Doomed label s' := by
  have hopened : ∀ {m state}, Fresh s doc m → AfterOverride s m enables state → Doomed label (s.opened m enables state) := by
    intro m state hf ha
    cases h with
    | booted hp hj => exact .booted (by simpa using hp) (by simpa using hj)
    | moved hp => exact .moved (by simpa using hp)
    | unfit hr hj hfit =>
      exact .unfit (by simpa using hr) (by simpa using hj) fun hfit' => hfit ((fit_opened hi hf ha hr hj).mp hfit')
  cases hto with
  | unfit | unwritable => exact h
  | unrenamed =>
    cases h with
    | booted hp hj => exact .booted hp hj
    | moved hp => exact .moved hp
    | unfit hr hj hfit => exact .unfit hr hj hfit
  | disabled hf ha | unreadable hf ha | overridden hf ha => exact hopened hf ha
  | @admitted m state b hf ha =>
    have hi' : (s.opened m enables state).tables.Inv none := by rwa [Sys.opened_tables]
    cases hopened hf ha with
    | booted hp hj =>
      obtain ⟨p, hp⟩ := Option.isSome_iff_exists.mp (AList.lookup_isSome.mpr hp)
      exact .booted (AList.lookup_isSome.mp (by rw [Sys.pends, lookup_insertNew_some hp]; rfl)) hj
    | moved hp => exact .moved (lookup_insertNew_some hp)
    | @unfit r j hr hj hfit =>
      have hne : r ≠ (s.opened m enables state).nextRef := Nat.ne_of_lt (hi'.owned.allocated r j hj)
      exact .unfit (lookup_insertNew_some hr) ((Function.update_of_ne hne _ _).trans hj) hfit

/-- What each load keeps, whatever it ends in, the loads of a request keep. -/
theorem primed_inTurn {P : List Json → Sys → Prop} (hP : ∀ {doc rest path b s s'}, Primed files s → P (doc :: rest) s →
    LoadsTo s doc path enables forces b s' → P rest s') :
    InTurn (fun _ => True) files enables forces fun rest s => Primed files s ∧ P rest s where
  files hj := hj.1.serving.files
  state hj := hj.1.serving.state ▸ nofun
  load {doc rest s} path hj := by
    obtain ⟨hp, hj⟩ := hj
    have hload : ends (fun _ => True) (Manager.loadManifestDoc doc path enables forces)
        (fun b => LoadsTo s doc path enables forces (some b)) (LoadsTo s doc path enables forces none) s :=
      loadManifestDoc_ends (Q := LoadsTo s doc path enables forces) (fun _ _ _ => trivial) fun _ _ => id
    have htraced : Traced anyEffect (Manager.loadManifestDoc doc path enables forces) := .loadManifestDoc fun _ _ _ => trivial
    exact ends_mono (ends_and hload (hp.loads (loadManifestDoc_serves doc path _ _) htraced)) (fun _ => id)
      (fun _ _ h => ⟨h.2, hP hp hj h.1⟩) fun _ h => ⟨h.2, hP hp hj h.1⟩

/-- A request whose loads come to a job that cannot be booted ends the program, where it
    comes to boot its jobs. -/
theorem launches_crashes {P : List Json → Sys → Prop} (hl : Rpc.Launches message s) (hp : Primed files s)
    (hP : ∀ method, message.atIndex 0 >>= Json.getString = .ok method → P (Rpc.documents files message method) s ∧
      ∀ {doc rest path b s s'}, Primed files s → P (doc :: rest) s →
        LoadsTo s doc path (Rpc.enables message method) (Rpc.forces message method) b s' → P rest s')
    (hdoomed : ∀ s, P [] s → ∃ label, Doomed label s) : Crashes (Rpc.rpcDispatch (some message)) s := by
  have hstart : ∀ {α : Type} {f : Unit → M α} {u : Sys}, Primed files u ∧ P [] u →
      ends (fun _ => True) (Manager.startLoaded >>= f) (fun _ _ => False) (fun _ => False) u := by
    intro α f u h
    obtain ⟨label, h'⟩ := hdoomed u h.2
    rw [ends_bind]
    exact ends_mono (startLoaded_crashes h' h.1) (fun _ => id) (fun _ _ hf => hf.elim) fun _ => id
  rcases hl with ⟨hm, force, overrideDisabled, paths, hargs, hstrings⟩ | ⟨hm, doc, hdoc, hlook⟩
  · obtain ⟨hforce, hoverride, hpaths⟩ := Rpc.readPaths_ok.mp hargs
    obtain ⟨hdocs, henables, hforces⟩ := Rpc.documents_load files hargs
    obtain ⟨h₀, hstep⟩ := hP "load" hm
    rw [hdocs] at h₀
    rw [henables, hforces] at hstep
    refine .dispatched hm rfl (.decoded hforce (.decoded hoverride (.decoded hpaths ?_)))
    have hends : ends (fun _ => True) (Rpc.loadPaths overrideDisabled force false paths.elements >>= fun error =>
        Manager.startLoaded >>= fun _ => return Rpc.errorReply error) (fun _ _ => False) (fun _ => False) s := by
      rw [ends_bind]
      exact ends_mono ((primed_inTurn hstep).loadPaths ⟨hp, h₀⟩ false) (fun _ => id) (fun _ _ h => hstart h.1) fun _ h =>
        h.2 hstrings
    obtain ⟨w, hw, -⟩ := ends_crashes hends
    exact ⟨w, hw⟩
  · obtain ⟨h₀, hstep⟩ := hP "submit" hm
    rw [Rpc.documents_submit files hdoc] at h₀
    refine .dispatched hm rfl (.decoded hdoc ?_)
    have hload : ends (fun _ => True) (Manager.loadManifestDoc doc "/dev/null" false false)
        (fun b => LoadsTo s doc "/dev/null" false false (some b)) (LoadsTo s doc "/dev/null" false false none) s :=
      loadManifestDoc_ends (Q := LoadsTo s doc "/dev/null" false false) (fun _ _ _ => trivial) fun _ _ => id
    have hthrows : ∀ s', ¬ LoadsTo s doc "/dev/null" false false none s' := by
      intro s' hto
      cases hto with
      | unwritable _ he | unrenamed _ he => cases he
      | @unreadable m state hf ha hd hb =>
        obtain rfl := ha
        refine hb (hlook m hf ?_)
        cases hm : m.disabled with
        | false => rfl
        | true => exact absurd (hd hm) Bool.false_ne_true
    have htraced : Traced anyEffect (Manager.loadManifestDoc doc "/dev/null" false false) := .loadManifestDoc fun _ _ _ => trivial
    have hends : ends (fun _ => True) (Manager.loadManifestDoc doc "/dev/null" false false >>= fun ok =>
        Manager.startLoaded >>= fun _ => return Rpc.errorReply ok) (fun _ _ => False) (fun _ => False) s := by
      rw [ends_bind]
      exact ends_mono (ends_and hload (hp.loads (loadManifestDoc_serves doc "/dev/null" false false) htraced)) (fun _ => id)
        (fun _ _ h => hstart ⟨h.2, hstep hp h₀ h.1⟩) fun s' h => hthrows s' h.1
    obtain ⟨w, hw, -⟩ := ends_crashes hends
    exact ⟨w, hw⟩

/-! ## A document that the request takes on -/

/-- Loading the document has the state file written, where the request enables its jobs. -/
def Sys.rewrites (s : Sys) (doc : Json) : Bool :=
  match Manifest.fromJson doc with
  | .ok m => (s.jobs.lookup m.label).isNone && (s.pendingJobs.lookup m.label).isNone &&
      (Manager.overridden m.label true s.stateFile).toOption.isSome
  | .error _ => false

theorem rewrites_congr (hj : s'.jobs = s.jobs) (hp : s'.pendingJobs = s.pendingJobs) (hf : s'.stateFile = s.stateFile) :
    s'.rewrites doc = s.rewrites doc := by
  unfold Sys.rewrites
  rw [hj, hp, hf]

theorem rewrites_fresh (h : Fresh s doc m) :
    s.rewrites doc = true ↔ ∃ state, Manager.overridden m.label true s.stateFile = .ok state := by
  unfold Sys.rewrites
  rw [h.decoded]
  dsimp only
  rw [h.loaded, h.pending]
  cases Manager.overridden m.label true s.stateFile with
  | ok state => exact iff_of_true rfl ⟨state, rfl⟩
  | error e => simp [Except.toOption]

theorem rewrites_unfit (h : Unfit s doc) (hs : s.state ≠ .gracefulShutdown) : s.rewrites doc = false := by
  unfold Sys.rewrites
  cases h with
  | stopping hg => exact absurd hg hs
  | malformed w hw => rw [hw]
  | duplicate m hm hdup =>
    rw [hm]
    dsimp only
    rcases hdup with hj | hp
    · obtain ⟨r, hr⟩ := Option.isSome_iff_exists.mp hj
      rw [hr]
      rfl
    · obtain ⟨p, hp⟩ := Option.isSome_iff_exists.mp hp
      rw [hp]
      simp

/-- The documents `before` come first, and none of them takes the label of `m`: each rewrite
    of the state file fails, or those of the label are refused. -/
structure Coming (s₀ : Sys) (enables forces : Bool) (m : Manifest) (before : List Json) (s : Sys) : Prop where
  users : s.kernel.users = s₀.kernel.users
  jobs : s.jobs = s₀.jobs
  stateFile : s.stateFile = s₀.stateFile
  free : s.pendingJobs.lookup m.label = none
  failing : enables = true → s.pendingJobs = s₀.pendingJobs ∧
    s.kernel.answers.renames = List.replicate (before.countP s₀.rewrites) false
  first : enables = false → ∀ doc ∈ before, ∀ m', Manifest.fromJson doc = .ok m' → m'.label = m.label →
    m'.disabled = true ∧ forces = false

namespace Coming

variable {before : List Json} {b : Option Bool}

/-- Where a rewrite is to fail, none succeeds. -/
theorem cannotRename (h : Coming s₀ true forces m (doc :: before) s) (hr : s.rewrites doc = true) : ¬ s.CanRename := by
  obtain ⟨hp, hrenames⟩ := h.failing rfl
  rw [rewrites_congr h.jobs hp h.stateFile] at hr
  rw [List.countP_cons_of_pos hr] at hrenames
  unfold Sys.CanRename
  rw [hrenames]
  simp [List.replicate_succ]

/-- A document that changes nothing but the answers. -/
theorem passed (h : Coming s₀ enables forces m (doc :: before) s)
    (hf : enables = true → s.rewrites doc = false) : Coming s₀ enables forces m before s where
  users := h.users
  jobs := h.jobs
  stateFile := h.stateFile
  free := h.free
  failing he := by
    obtain ⟨hp, hrenames⟩ := h.failing he
    refine ⟨hp, ?_⟩
    have hno : ¬ s₀.rewrites doc = true := by
      rw [← rewrites_congr h.jobs hp h.stateFile, hf he]
      exact Bool.false_ne_true
    rwa [List.countP_cons_of_neg hno] at hrenames
  first he d hd := h.first he d (List.mem_cons_of_mem _ hd)

theorem load (h : Coming s₀ enables forces m (doc :: before) s) (hs : s.state ≠ .gracefulShutdown)
    (hto : LoadsTo s doc path enables forces b s') : Coming s₀ enables forces m before s' := by
  have hwritten : ∀ {m' state}, Fresh s doc m' → AfterOverride s m' enables state → enables = false := by
    intro m' state hf ha
    cases he : enables with
    | false => rfl
    | true =>
      subst he
      exact absurd ha.2 (h.cannotRename ((rewrites_fresh hf).mpr ⟨state, ha.1⟩))
  cases hto with
  | unfit hu => exact h.passed fun _ => rewrites_unfit hu hs
  | unwritable hf _ hd => exact h.passed fun _ => Bool.eq_false_iff.mpr fun hr => hd ((rewrites_fresh hf).mp hr)
  | unrenamed hf he hd =>
    subst he
    obtain ⟨hp, hrenames⟩ := h.failing rfl
    have hr : s₀.rewrites doc = true := by
      rw [← rewrites_congr h.jobs hp h.stateFile]
      exact (rewrites_fresh hf).mpr ⟨_, hd⟩
    rw [List.countP_cons_of_pos hr] at hrenames
    refine ⟨h.users, h.jobs, h.stateFile, h.free, fun _ => ⟨hp, ?_⟩, nofun⟩
    show s.kernel.answers.renames.tail = _
    rw [hrenames]
    rfl
  | disabled hf ha | unreadable hf ha | overridden hf ha =>
    obtain rfl := hwritten hf ha
    exact h.passed nofun
  | @admitted m' state b hf ha hallowed =>
    obtain rfl := hwritten hf ha
    have hne : m.label ≠ m'.label := fun e => by
      obtain ⟨hdisabled, hforces⟩ := h.first rfl doc List.mem_cons_self m' hf.decoded e.symm
      exact absurd (hforces.symm.trans (hallowed hdisabled)) Bool.false_ne_true
    have hpassed : Coming s₀ false forces m before s := h.passed nofun
    refine ⟨hpassed.users, hpassed.jobs, hpassed.stateFile, ?_, nofun, hpassed.first⟩
    show (insertNew m'.label _ s.pendingJobs).lookup m.label = none
    rw [lookup_insertNew, if_neg hne]
    exact h.free

/-- The document's own turn: its job is taken on, and unfit. -/
theorem arrive {taken : List Json} (h : Coming s₀ enables forces m [] s) (hs : s.state ≠ .gracefulShutdown)
    (ht : TakesOn s₀ enables forces taken m) (hm : Manifest.fromJson doc = .ok m) (hu : ¬ Startable s₀.kernel.users m)
    (hto : LoadsTo s doc path enables forces b s') : Doomed m.label s' := by
  have hfresh : Fresh s doc m := ⟨hs, hm, h.jobs ▸ ht.loaded, h.free⟩
  have hsame : ∀ {m'}, Fresh s doc m' → m' = m := fun hf => Except.ok.inj (hf.decoded.symm.trans hm)
  have hrename : enables = true → s.CanRename := fun he => by
    unfold Sys.CanRename
    rw [(h.failing he).2]
    rfl
  have henabled : ∀ {state}, AfterOverride s m enables state → Job.disabledIn m state = .ok false := by
    intro state ha
    cases he : enables with
    | true =>
      subst he
      exact disabledIn_overridden ha.1
    | false =>
      subst he
      obtain rfl := ha
      rw [h.stateFile]
      exact ht.enabled rfl
  cases hto with
  | unfit hu' => exact absurd hfresh hu'.not_fresh
  | unwritable hf he hd =>
    cases hsame hf
    rw [h.stateFile] at hd
    exact absurd (ht.overridden he) hd
  | unrenamed hf he _ hr => exact absurd (hrename he) hr
  | disabled hf _ hd hforces =>
    cases hsame hf
    exact absurd (hforces.symm.trans (ht.allowed hd)) Bool.false_ne_true
  | unreadable hf ha _ hb =>
    cases hsame hf
    exact absurd ⟨_, overrideDisables_of_disabledIn (henabled ha)⟩ hb
  | overridden hf ha _ hb =>
    cases hsame hf
    cases hb.symm.trans (overrideDisables_of_disabledIn (henabled ha))
  | @admitted m' state b hf ha =>
    cases hsame hf
    refine .unfit (r := (s.opened m enables state).nextRef) (j := { manifest := m, manifestPath := path }) ?_
      (Function.update_self ..) fun hfit => hu ?_
    · show (insertNew m.label _ (s.opened m enables state).pendingJobs).lookup m.label = _
      rw [lookup_insertNew, if_pos rfl, Sys.opened_pendingJobs, hf.pending]
      rfl
    · have husers : ((s.opened m enables state).pends m path).kernel.users = s₀.kernel.users := by
        rw [← h.users]
        cases enables <;> rfl
      rw [← husers]
      exact hfit (.inr (by rw [show ((s.opened m enables state).pends m path).stateFile = state from ha.opened]; exact henabled ha))

end Coming

/-! ## Exactly what is survived -/

/-- A request that the manager outlives, whatever the system answers, finds jobs that can be
    booted. -/
theorem launchable_of_safe (hlaunch : Rpc.Launches message s)
    (hprimed : ∀ renames : List Bool, Primed files (s.given { files, renames }))
    (hsafe : ∀ renames : List Bool, ¬ Crashes (Rpc.rpcDispatch (some message)) (s.given { files, renames })) :
    Launchable files message s := by
  have hlaunch' : ∀ renames : List Bool, Rpc.Launches message (s.given { files, renames }) := fun _ =>
    hlaunch.imp_right fun ⟨hm, doc, hdoc, hlook⟩ =>
      ⟨hm, doc, hdoc, fun m hf => hlook m ⟨hf.running, hf.decoded, hf.loaded, hf.pending⟩⟩
  have hnever : ∀ label, ¬ Doomed label (s.given { files }) := fun label hd =>
    hsafe [] (launches_crashes (P := fun _ => Doomed label) (hlaunch' []) (hprimed [])
      (fun _ _ => ⟨hd, fun hp h hto => h.loads hp.serving.inv hto⟩) fun _ h => ⟨label, h⟩)
  refine ⟨⟨fun label hj hp => hnever label (.booted hp hj), fun label hn => hnever label (.moved hn)⟩,
    fun label r j hr hj => ?_, fun method hm before doc after m hdocs hdecode ht => ?_⟩
  · by_contra hfit
    exact hnever label (.unfit hr hj hfit)
  · by_contra hu
    obtain ⟨k, hk⟩ : ∃ k, k = List.replicate (before.countP s.rewrites) false := ⟨_, rfl⟩
    have hstart : Coming s (Rpc.enables message method) (Rpc.forces message method) m before (s.given { files, renames := k }) :=
      ⟨rfl, rfl, rfl, ht.pending, fun _ => ⟨rfl, hk⟩, ht.first⟩
    have honly : ∀ {method'}, message.atIndex 0 >>= Json.getString = .ok method' → method' = method := fun hm' =>
      Except.ok.inj (hm'.symm.trans hm)
    refine hsafe k (launches_crashes (P := fun rest u => Doomed m.label u ∨ ∃ before, rest = before ++ doc :: after ∧
      Coming s (Rpc.enables message method) (Rpc.forces message method) m before u) (hlaunch' k) (hprimed k) (fun method' hm' => ?_)
      fun u h => ⟨m.label, h.resolve_right fun ⟨before, e, _⟩ => by simp at e⟩)
    obtain rfl := honly hm'
    refine ⟨.inr ⟨before, hdocs, hstart⟩, fun {d rest path b u u'} hp h hto => ?_⟩
    have hrun : u.state ≠ .gracefulShutdown := hp.serving.state ▸ nofun
    rcases h with h | ⟨before', e, h⟩
    · exact .inl (h.loads hp.serving.inv hto)
    cases before' with
    | nil =>
      cases e
      exact .inl (h.arrive hrun ht hdecode hu hto)
    | cons d' before' =>
      cases e
      exact .inr ⟨before', rfl, h.load hrun hto⟩

/-- Whatever the system answers, the manager outlives a request if and only if nothing that
    the request has read fails an assertion, and the jobs it boots can be booted. -/
theorem contained_iff {wakeup : Wakeup} (h : Reachable s) (hs : s.state = .running)
    (hd : ∀ answers, (Ev.handleEvent wakeup answers).dispatched s = some (.socket (some message))) :
    (∀ answers, answers.files = files → Contained s (.handleEvent wakeup answers)) ↔
      WellFormed files message ∧ (Rpc.Launches message s → Launchable files message s) := by
  constructor
  · intro hc
    have hwell : WellFormed files message := contained_wellFormed h hs (hd { files }) (hc { files } rfl)
    refine ⟨hwell, fun hlaunch => launchable_of_safe hlaunch (fun renames => ?_) fun renames ⟨w, hw⟩ => ?_⟩
    · obtain ⟨hserving, -, -⟩ := serving_request h hs (hd { files, renames })
      have hlook : PendingLookUp s := reachable_pendingLookUp h
      have hdecoded := Runs.decoded (.of_reachable h)
      exact ⟨hserving, hserving.inv, ⟨nofun, nofun, nofun⟩, hlook, hdecoded⟩
    · obtain ⟨-, -, hstep⟩ := serving_request h hs (hd { files, renames })
      obtain ⟨s', hok, -⟩ := hc { files, renames } rfl
      rw [hstep, hw] at hok
      cases hok
  · intro ⟨hw, hl⟩ answers hfiles
    subst hfiles
    exact wellFormed_contained h hs (hd answers) hw hl

/-- A request that ends after the method's name. -/
theorem short_request : ¬ ∀ s wakeup answers message, Reachable s → s.state = .running →
    (Ev.handleEvent wakeup answers).dispatched s = some (.socket (some message)) → Contained s (.handleEvent wakeup answers) := by
  intro h
  obtain ⟨s, hs, hrun, hl, hq, hcrash⟩ := exists_listening
  obtain ⟨s', hok, -⟩ := h s _ {} _ hs hrun (dispatched_request hrun hl hq)
  rw [hcrash] at hok
  cases hok

def loadRequest : Json := .arr [.str "load",
  .obj [("Force", .bool false), ("OverrideDisabled", .bool false), ("Paths", .arr [.str "job.json"])]]

def userJob : Json := manifestWith [("RunAtLoad", .bool true), ("UserName", .str "nobody")]

theorem userJob_wellFormed : WellFormed (fun _ => .file (some userJob)) loadRequest := by
  have hload : ∀ {method}, loadRequest.atIndex 0 >>= Json.getString = .ok method → method = "load" := fun hm => by
    cases hm
    rfl
  refine ⟨fun method hm why => ?_, fun method hm doc hdoc why => ?_⟩
  · cases hload hm
    exact nofun
  · cases hload hm
    have hdocs : Rpc.documents (fun _ => .file (some userJob)) loadRequest "load" = [userJob] := rfl
    rw [hdocs, List.mem_singleton] at hdoc
    subst hdoc
    have hdecoded : (Manifest.fromJson userJob).toOption.isSome := by decide +kernel
    intro habort
    rw [habort] at hdecoded
    cases hdecoded

/-- The request is survived, since the user is there. -/
theorem contained_iff_load : ∃ s, Reachable s ∧ s.state = .running ∧ ∀ answers, answers.files = (fun _ => .file (some userJob)) →
    Contained s (.handleEvent (.socket (some loadRequest)) answers) := by
  obtain ⟨s, hs, hp⟩ := reachable_of_run [.startRunning [] {}] (fun s => s.state == .running && s.listening &&
    s.eventmgr.pendingEvents.isEmpty && s.pendingJobs.keys.isEmpty && (s.kernel.users.getpwnam "nobody").isSome) (by decide +kernel)
  simp only [Bool.and_eq_true, beq_iff_eq, List.isEmpty_iff] at hp
  obtain ⟨⟨⟨⟨hrun, hl⟩, hq⟩, hkeys⟩, huser⟩ := hp
  have hnone : ∀ label, s.pendingJobs.lookup label = none := fun label => AList.lookup_eq_none.mpr fun hm => by
    rw [AList.mem_keys, hkeys] at hm
    cases hm
  have hapart : Apart s := ⟨fun label _ hm => absurd (AList.lookup_isSome.mpr hm) (by rw [hnone]; simp), fun label hn => by
    rw [hnone] at hn
    cases hn⟩
  have hpending : ∀ label r j, s.pendingJobs.lookup label = some (some r) → s.heap r = some j → Fit false s j.manifest := by
    intro label r j hr
    rw [hnone] at hr
    cases hr
  refine ⟨s, hs, hrun, (contained_iff hs hrun fun answers => dispatched_request hrun hl hq).mpr ⟨userJob_wellFormed, fun _ =>
    ⟨hapart, hpending, fun method hm => .of_fit fun doc hdoc m hdecode _ _ _ _ _ => ?_⟩⟩⟩
  cases hm
  have hdocs : Rpc.documents (fun _ => .file (some userJob)) loadRequest "load" = [userJob] := rfl
  rw [hdocs, List.mem_singleton] at hdoc
  subst hdoc
  have hnames : (Manifest.fromJson userJob).toOption.map (fun m => (m.userName, m.groupName)) = some (some "nobody", none) := by
    decide +kernel
  rw [hdecode] at hnames
  obtain ⟨huserName, hgroupName⟩ := Prod.mk.inj (Option.some.inj hnames)
  obtain ⟨pwent, hpwent⟩ := Option.isSome_iff_exists.mp huser
  simp [Known, Job.executionContext, huserName, hgroupName, hpwent]

end Relaunchd
