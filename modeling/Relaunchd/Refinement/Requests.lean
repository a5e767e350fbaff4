/-
  Relaunchd.Refinement.Requests — what the requests of `launchctl` do to the jobs: a load
  creates and boots some, a kill or an unload signals those it names, and nothing else
  happens to any.
-/

import Relaunchd.Refinement.Machine

namespace Relaunchd

open Prog EventManager Tables

/-! ## What a request asks for -/

/-- A request, as far as it concerns the jobs. One that concerns none counts as a load. -/
inductive Request where
  | load
  | kill (label : String)
  | unload (labels : List String)

namespace Request

def labelAt (files : String → Node) (path : String) : Option String :=
  if extension path = ".json" then
    match files path with
    | .file (some doc) => (doc.atKey "Label" >>= Json.getString >>= Label.make).toOption
    | _ => none
  else none

def labelsAt (files : String → Node) (path : String) : List String :=
  match files path with
  | .missing => []
  | .directory entries => entries.filterMap (labelAt files)
  | .file _ => (labelAt files path).toList

def labelsIn (files : String → Node) (paths : List Json) : List String :=
  paths.flatMap fun path => (path.getString.toOption.map (labelsAt files)).getD []

def ofKill (args : Json) : Request :=
  match Rpc.labelArgument args, Rpc.argument args "Signal" >>= Json.getString with
  | .ok label, .ok name => if (getSignalByName name).isSome then .kill label else .load
  | _, _ => .load

def ofRemove (args : Json) : Request := .unload (Rpc.labelArgument args).toOption.toList

def ofUnload (files : String → Node) (args : Json) : Request :=
  .unload (((Rpc.argument args "Paths").toOption.map fun paths => labelsIn files paths.elements).getD [])

def of (files : String → Node) : Option Json → Request
  | none => .load
  | some args =>
    match args.atIndex 0 >>= Json.getString with
    | .ok method =>
      if method = "kill" then ofKill args
      else if method = "remove" then ofRemove args
      else if method = "unload" then ofUnload files args
      else .load
    | .error _ => .load

/-- The turns a request gives a job with the life `l`, when the system answers with `a`. -/
def Gives (a : Answers) (l : Life) : Request → Turn → Prop
  | .load, .boot _ _ how arming => how.From a ∧
    ((∃ t ∈ a.timers, t.fails) ∧ arming = .failed ∨
      ∀ interval, l.manifest.startInterval = some interval → ∃ now, arming = .ofMilliseconds now interval)
  | .kill label, .kill => l.manifest.label = label
  | .unload labels, .unload _ _ sent => l.manifest.label ∈ labels ∧ Sent a sent
  | _, _ => False

theorem Gives.mono {q : Request} {a b : Answers} {l : Life} {t : Turn} (hab : a.Left b) (h : q.Gives b l t) :
    q.Gives a l t := by
  unfold Gives at h ⊢
  split at h
  · exact ⟨h.1.mono hab, h.2.imp_left fun ⟨⟨x, hx, hf⟩, e⟩ => ⟨⟨x, hab.timers hx, hf⟩, e⟩⟩
  · exact h
  · exact ⟨h.1, h.2.imp_left fun hm => hab.kills hm⟩
  · exact h.elim

end Request

/-! ## Programs that leave the jobs alone -/

structure Quiet (s s' : Sys) : Prop where
  tables : s'.tables = s.tables
  state : s'.state = s.state
  listening : s'.listening = s.listening
  answers : s.kernel.answers.Left s'.kernel.answers

theorem Quiet.refl (s : Sys) : Quiet s s := ⟨rfl, rfl, rfl, .refl _⟩

theorem Quiet.trans {s s' s'' : Sys} (h : Quiet s s') (h' : Quiet s' s'') : Quiet s s'' :=
  ⟨h'.tables.trans h.tables, h'.state.trans h.state, h'.listening.trans h.listening, h.answers.trans h'.answers⟩

abbrev Quietly (x : M α) : Prop := Within (fun _ => True) Quiet x

namespace Quietly

variable {α β : Type}

theorem bind {x : M α} {f : α → M β} (hx : Quietly x) (hf : ∀ a, Quietly (f a)) : Quietly (x >>= f) :=
  Within.bind (fun _ _ _ _ => trivial) (fun _ _ _ h h' => h.trans h') hx hf

theorem same {x : M α} (h : ∀ s, wp x (fun _ s' => s' = s) (fun s' => s' = s) s) : Quietly x :=
  Within.of_same (fun s _ => .refl s) h

theorem done (a : α) : Quietly (pure a) := same fun _ => rfl

theorem throws (w : String) : Quietly (throw w : M α) := same fun _ => rfl

theorem reads (f : Sys → α) : Quietly (gets f) := same fun _ => rfl

theorem readsAll : Quietly (get : M Sys) := same fun _ => rfl

theorem derefs (r : Ref) : Quietly (this r) := same fun _ => wp_this_of fun _ _ => rfl

theorem decodes (d : Decode α) : Quietly (ofDecode d) := same fun _ => wp_ofDecode (fun _ _ => rfl) fun _ _ => rfl

theorem branches (c : Prop) [Decidable c] {x y : M α} (hx : Quietly x) (hy : Quietly y) :
    Quietly (if c then x else y) := by
  split
  · exact hx
  · exact hy

/-- Answers to system calls that no job is concerned with. -/
theorem answers {field : Answers → List α} {rest : Answers → List α → Answers} {success : α}
    (ha : ∀ (a : Answers) (as : List α), (rest a as).forks = a.forks ∧ (rest a as).probes = a.probes ∧
      (rest a as).timers = a.timers ∧ (rest a as).kills = a.kills ∧ (rest a as).files = a.files) :
    Quietly (answer field rest success) := fun s _ => by
  obtain ⟨h1, h2, h3, h4, h5⟩ := ha s.kernel.answers (field s.kernel.answers).tail
  exact ⟨rfl, rfl, rfl, h1 ▸ List.Subset.refl _, h2 ▸ List.Subset.refl _, h3 ▸ List.Subset.refl _,
    h4 ▸ List.Subset.refl _, h5⟩

theorem visits (keys : List String) : Quietly (visiting keys) :=
  bind (answers fun _ _ => ⟨rfl, rfl, rfl, rfl, rfl⟩) fun _ => done _

theorem setValue (value : Json) : Quietly (StateFile.setValue value) :=
  bind (answers fun _ _ => ⟨rfl, rfl, rfl, rfl, rfl⟩) fun _ =>
    branches _ (fun _ _ => ⟨rfl, rfl, rfl, .refl _⟩) (throws _)

theorem overrideJobEnabled (label : String) (enabled : Bool) : Quietly (Manager.overrideJobEnabled label enabled) :=
  bind readsAll fun _ => bind (decodes _) fun _ => bind (setValue _) fun _ => fun _ _ => ⟨rfl, rfl, rfl, .refl _⟩

theorem jobExists (label : String) : Quietly (Manager.jobExists label) := bind (decodes _) fun _ => reads _

theorem listJob (label : String) : Quietly (Manager.listJob label) :=
  bind readsAll fun s => by
    cases s.jobs.lookup label with
    | none => exact done _
    | some r => exact bind (derefs r) fun j => bind (decodes _) fun _ => done _

theorem listRows (rows : List Json) (labels : List String) : Quietly (Manager.listRows rows labels) := by
  induction labels generalizing rows with
  | nil => exact done _
  | cons label rest ih => exact bind (listJob label) fun row => ih _

theorem listJobs : Quietly Manager.listJobs :=
  bind readsAll fun _ => bind (visits _) fun _ => bind (listRows _ _) fun _ => done _

theorem writeMessage (reply : Json) : Quietly (Rpc.writeMessage reply) :=
  bind (answers fun _ _ => ⟨rfl, rfl, rfl, rfl, rfl⟩) fun _ =>
    branches _ (fun _ _ => ⟨rfl, rfl, rfl, .refl _⟩) (throws _)

end Quietly

/-- A parsed manifest is what the path's file holds. -/
theorem wp_parse {path : String} {s : Sys} {Q : Json → Sys → Prop} {E : Sys → Prop}
    (h : ∀ doc, extension path = ".json" → s.kernel.answers.files path = .file (some doc) → Q doc s) (hE : E s) :
    wp (Manifest.parse path) Q E s := by
  rw [Manifest.parse, wp_ite]
  split
  · rename_i he
    rw [wp_bind, wp_get]
    split
    · rename_i doc hf
      exact h doc he hf
    · exact hE
  · exact hE

theorem Took.quiet {s s' : Sys} (h : Took s s') : Quiet s s' :=
  ⟨h.tables, h.keeps.state, h.keeps.listening, h.keeps.answers⟩

/-- A loop over the keys of a map visits each of them once, in some order. -/
theorem visiting_spec {keys : List String} {s : Sys} {E : Sys → Prop} :
    wp (visiting keys) (fun order s' => order.Perm keys ∧ Took s s') E s := by
  rw [visiting, wp_bind, nextOrder, wp_answer, wp_pure]
  refine ⟨?_, rfl, ⟨rfl, rfl, rfl, rfl, rfl, rfl, ?_⟩, rfl⟩
  · split
    · rename_i hp
      exact List.isPerm_iff.mp hp
    · exact .refl _
  · exact ⟨List.Subset.refl _, List.Subset.refl _, List.Subset.refl _, List.Subset.refl _, rfl⟩

/-! ## Programs that handle a request -/

structure Serving (state : Manager.States) (files : String → Node) (s : Sys) : Prop where
  inv : s.tables.Inv none
  state : s.state = state
  files : s.kernel.answers.files = files

structure Does (q : Request) (s s' : Sys) : Prop where
  inv : s'.tables.Inv none
  fates : ∀ r, Fate.Steps (fun l => q.Gives s.kernel.answers l) (fun _ => False) (s.tables.fate r) (s'.tables.fate r)
  stored : ∀ label r, s.jobs.lookup label = some r → s'.jobs.lookup label = some r
  state : s'.state = s.state
  listening : s'.listening = s.listening
  answers : s.kernel.answers.Left s'.kernel.answers

section Does

variable {q : Request} {s s' s'' : Sys}

theorem Does.quiet (h : s.tables.Inv none) (hq : Quiet s s') : Does q s s' where
  inv := hq.tables ▸ h
  fates r := by rw [hq.tables]; exact .refl
  stored label r := by rw [show s'.jobs = s.jobs from congrArg Tables.jobs hq.tables]; exact id
  state := hq.state
  listening := hq.listening
  answers := hq.answers

theorem Does.refl (h : s.tables.Inv none) : Does q s s := .quiet h (.refl s)

theorem Does.trans (h : Does q s s') (h' : Does q s' s'') : Does q s s'' where
  inv := h'.inv
  fates r := (h.fates r).trans ((h'.fates r).mono (fun _ _ => .mono h.answers) fun _ => id)
  stored _ _ hr := h'.stored _ _ (h.stored _ _ hr)
  state := h'.state.trans h.state
  listening := h'.listening.trans h.listening
  answers := h.answers.trans h'.answers

theorem Does.serving {state : Manager.States} {files : String → Node} (h : Does q s s') (hs : Serving state files s) :
    Serving state files s' :=
  ⟨h.inv, h.state.trans hs.state, h.answers.files.trans hs.files⟩

/-- One job has one turn. -/
theorem Does.turn {r : Ref} {l : Life} {a : Turn} (hl : s.tables.fate r = .alive l) (hm : Moves none r (l.next a) s s')
    (he : l.Enabled a) (hq : q.Gives s.kernel.answers l a) : Does q s s' where
  inv := hm.inv
  fates r' := by
    by_cases e : r' = r
    · subst e
      rw [hl, hm.life]
      exact .single (.turn l a he hq)
    · rw [hm.others r' e]
      exact .refl
  stored _ _ := by rw [hm.keeps.jobs]; exact id
  state := hm.keeps.state
  listening := hm.keeps.listening
  answers := hm.keeps.answers

end Does

abbrev Serves (state : Manager.States) (files : String → Node) (q : Request) (x : M α) : Prop :=
  Within (Serving state files) (Does q) x

section Serves

variable {α β : Type} {state : Manager.States} {files : String → Node} {q : Request}

theorem Quietly.serves {x : M α} (h : Quietly x) : Serves state files q x := fun s hs =>
  wp_mono (h s trivial) (fun _ _ hq => .quiet hs.inv hq) fun _ hq => .quiet hs.inv hq

namespace Serves

theorem bind {x : M α} {f : α → M β} (hx : Serves state files q x) (hf : ∀ a, Serves state files q (f a)) :
    Serves state files q (x >>= f) :=
  Within.bind (fun _ _ hs h => h.serving hs) (fun _ _ _ h h' => h.trans h') hx hf

theorem catches {x : M α} {h : String → M α} (hx : Serves state files q x) (hh : ∀ w, Serves state files q (h w)) :
    Serves state files q (tryCatch x h) :=
  Within.tryCatch (fun _ _ hs h => h.serving hs) (fun _ _ _ h h' => h.trans h') hx hh

theorem loops {f : β → M Unit} (bs : List β) (hf : ∀ b, Serves state files q (f b)) :
    Serves state files q (forEach f bs) :=
  Within.forEach (fun _ hs => .refl hs.inv) (fun _ _ hs h => h.serving hs) (fun _ _ _ h h' => h.trans h') bs hf

theorem decodes (d : Decode β) {f : β → M α} (hf : ∀ b, d = .ok b → Serves state files q (f b)) :
    Serves state files q (ofDecode d >>= f) := fun s hs => by
  rw [wp_bind]
  exact wp_ofDecode (fun b hb => hf b hb s hs) fun _ _ => .refl hs.inv

theorem branches (c : Prop) [Decidable c] {x y : M α} (hx : Serves state files q x) (hy : Serves state files q y) :
    Serves state files q (if c then x else y) := by
  split
  · exact hx
  · exact hy

/-- After a quiet start. -/
theorem after {x : M β} {f : β → M α} (hx : Quietly x) (hf : ∀ b, Serves state files q (f b)) :
    Serves state files q (x >>= f) := bind hx.serves hf

end Serves

end Serves

/-! ## The manager's machine -/

/-- A request that boots jobs, when the manager runs. -/
theorem startLoaded_eq {s : Sys} (hs : s.state = .running) : Manager.startLoaded s =
    (if s.pendingJobs.keys.isEmpty then pure ()
      else Manager.startAllJobs >>= fun _ => Prog.modify fun s => { s with state := .running }) s := by
  have hfilter : (Manager.transitions []).filter (·.fromState = s.state) =
      [ { fromState := .running, toState := .running, trigger := .startRequested
          guard := gets fun s => !s.pendingJobs.keys.isEmpty
          action := Manager.startAllJobs },
        { fromState := .running, toState := .gracefulShutdown, trigger := .stopRequested
          guard := return true
          action := do
            modify fun s => { s with listening := false }
            Manager.unloadAllJobs } ] := by
    rw [hs]
    rfl
  have hrun : Manager.startLoaded s = (Fsm.tryTransitions (fun state => modify fun s => { s with state }) .startRequested .noMatchingTrigger
      ((Manager.transitions []).filter (·.fromState = s.state)) >>= fun _ => pure ()) s := rfl
  rw [hrun, hfilter]
  cases he : s.pendingJobs.keys.isEmpty with
  | true => simp [Fsm.tryTransitions, bind, andThen, gets, he, pure, ret]
  | false =>
    simp only [bind, andThen, Fsm.tryTransitions, ne_eq, not_true_eq_false, ↓reduceIte, gets, he, Bool.not_false, pure, ret,
      Bool.false_eq_true]
    cases Manager.startAllJobs s <;> rfl

/-- The start of the manager. -/
theorem startRunning_eq {s : Sys} (hs : s.state = .unconfigured) (paths : List String) : Manager.startRunning paths s =
    (Manager.loadEachPath paths >>= fun _ => Manager.startAllJobs >>= fun _ =>
      Prog.modify fun s => { s with state := .running }) { s with listening := true } := by
  have hfilter : (Manager.transitions paths).filter (·.fromState = s.state) =
      [ { fromState := .unconfigured, toState := .finished, trigger := .stopRequested
          guard := return true
          action := return () },
        { fromState := .unconfigured, toState := .running, trigger := .startRequested
          guard := return true
          action := do
            modify fun s => { s with listening := true }
            Manager.loadEachPath paths
            Manager.startAllJobs } ] := by
    rw [hs]
    rfl
  have hrun : Manager.startRunning paths s = (Fsm.tryTransitions (fun state => modify fun s => { s with state }) .startRequested
      .noMatchingTrigger ((Manager.transitions paths).filter (·.fromState = s.state)) >>= fun _ => pure ()) s := rfl
  rw [hrun, hfilter]
  simp only [bind, andThen, Fsm.tryTransitions, ne_eq, reduceCtorEq, not_false_eq_true, ↓reduceIte, not_true_eq_false, pure,
    ret, Prog.modify]
  cases Manager.loadEachPath paths { s with listening := true } with
  | throw | crash => rfl
  | ok _ s₁ =>
    dsimp only
    cases Manager.startAllJobs s₁ <;> rfl

/-! ## Loads -/

section Loads

variable {state : Manager.States} {files : String → Node} {s s' : Sys}

theorem addPending_spec {manifest : Manifest} {path : String} {E : Sys → Prop} (h : s.tables.Inv none)
    (hp : s.pendingJobs.lookup manifest.label = none) (hdec : manifest.Decoded) :
    wp (Manager.addPending manifest path) (fun _ => Does .load s) E s where
  inv := h.create hp
  fates r := by
    by_cases e : r = s.tables.nextRef
    · subst e
      rw [fate_next h]
      exact .single (fate_create_self h ▸ .created manifest hdec)
    · exact (fate_create_ne (t := s.tables) e).symm ▸ .refl
  stored _ _ := id
  state := rfl
  listening := rfl
  answers := .refl _

theorem loadManifestDoc_serves (doc : Json) (path : String) (overrideDisabled forceLoad : Bool) :
    Serves state files .load (Manager.loadManifestDoc doc path overrideDisabled forceLoad) := by
  intro s hs
  rw [Manager.loadManifestDoc, wp_bind, wp_get, wp_ite]
  split
  · exact .refl hs.inv
  split
  · exact .refl hs.inv
  · trivial
  rename_i manifest hdec
  rw [wp_bind, Manager.isDuplicate, wp_gets, wp_ite]
  split
  · exact .refl hs.inv
  rename_i hdup
  have hnone : s.tables.pendingJobs.lookup manifest.label = none := by
    simp only [Bool.or_eq_true, not_or, Bool.not_eq_true, Option.isSome_eq_false_iff, Option.isNone_iff_eq_none] at hdup
    exact hdup.2
  dsimp only
  have hrest : ∀ s', Quiet s s' → wp
      (if manifest.disabled && !forceLoad then pure false
        else do
          let disabled ← ofDecode (Manager.overrideDisables manifest.label (← get).stateFile)
          if disabled && !forceLoad then pure false
          else do
            Manager.addPending manifest path
            pure true)
      (fun _ => Does .load s) (Does .load s) s' := by
    intro s' hq
    have hquiet : Does .load s s' := .quiet hs.inv hq
    rw [wp_ite]
    split
    · exact hquiet
    rw [wp_bind, wp_get, wp_bind]
    refine wp_ofDecode (fun disabled _ => ?_) fun _ _ => hquiet
    rw [wp_ite]
    split
    · exact hquiet
    rw [wp_bind]
    exact wp_mono (addPending_spec hquiet.inv (show s'.tables.pendingJobs.lookup _ = none by rw [hq.tables]; exact hnone)
      ⟨doc, hdec⟩)
      (fun _ _ hd => hquiet.trans hd) fun _ => id
  rw [wp_ite]
  split
  · rw [wp_bind]
    exact wp_mono (Quietly.overrideJobEnabled _ _ s trivial) (fun _ s' hq => hrest s' hq) fun s' hq => .quiet hs.inv hq
  · exact hrest s (.refl s)

theorem loadOne_serves (path : String) (overrideDisabled forceLoad : Bool) :
    Serves state files .load (Manager.loadOne path overrideDisabled forceLoad) := by
  refine .catches (.bind (.bind (fun s hs => ?_) fun doc => loadManifestDoc_serves _ _ _ _) fun _ => (Quietly.done _).serves)
    fun _ => (Quietly.done _).serves
  exact wp_parse (fun _ _ _ => .refl hs.inv) (.refl hs.inv)

theorem loadEach_serves (overrideDisabled forceLoad error : Bool) (entries : List String) :
    Serves state files .load (Manager.loadEach overrideDisabled forceLoad error entries) := by
  induction entries generalizing error with
  | nil => exact (Quietly.done _).serves
  | cons file rest ih => exact .bind (loadOne_serves _ _ _) fun _ => ih _

theorem loadAllManifests_serves (path : String) (overrideDisabled forceLoad : Bool) :
    Serves state files .load (Manager.loadAllManifests path overrideDisabled forceLoad) := by
  refine .after .readsAll fun _ => .branches _ (Quietly.done _).serves (.after .readsAll fun s => ?_)
  split
  · exact (Quietly.done _).serves
  · exact loadEach_serves _ _ _ _
  · exact loadOne_serves _ _ _

theorem loadEachPath_serves (paths : List String) : Serves state files .load (Manager.loadEachPath paths) :=
  .loops paths fun _ => .bind (loadAllManifests_serves _ _ _) fun _ => (Quietly.done _).serves

/-! ### Bootstrap -/

theorem fate_move_ne (t : Tables) {label : String} {r r' : Ref} {j : Job} (e : r' ≠ r) :
    ((t.move label r).put r j).fate r' = t.fate r' :=
  (fate_put_ne e).trans (fate_congr rfl Iff.rfl rfl fun _ _ => rfl)

theorem startPending_spec (h : s.tables.Inv none) (label : String) :
    wp (Manager.startPending label)
      (fun _ s' => Does .load s s' ∧ s'.pendingJobs = s.pendingJobs.insert label none) (Does .load s) s := by
  rw [Manager.startPending, wp_bind, wp_get, wp_ite]
  split
  · trivial
  rename_i hn
  replace hn : s.jobs.lookup label = none := by simpa using hn
  split
  swap
  · trivial
  rename_i r hp
  obtain ⟨j, hj, hjl, hjb⟩ := h.owned.pended label r hp
  obtain ⟨lookup, hlookup⟩ : ∃ lookup, lookup = Job.disabledIn j.manifest s.stateFile := ⟨_, rfl⟩
  obtain ⟨s₁, hs₁⟩ : ∃ s₁ : Sys, s₁ = { s with jobs := s.jobs.insert label r, pendingJobs := s.pendingJobs.insert label none } :=
    ⟨_, rfl⟩
  have hj₁ : s₁.heap r = some j := by rw [hs₁]; exact hj
  have hfile : s₁.stateFile = s.stateFile := by rw [hs₁]
  rw [wp_bind, wp_modify, ← hs₁, wp_bind, Manager.markBootstrap, wp_bind, wp_this hj₁, wp_bind, wp_get, hfile, ← hlookup,
    wp_setJob]
  obtain ⟨s₂, hs₂⟩ : ∃ s₂, s₂ = s₁.updateJob r fun j => { j with boot := Manager.bootOf lookup } := ⟨_, rfl⟩
  have ht₂ : s₂.tables = (s.tables.move label r).put r { j with boot := Manager.bootOf lookup } := by
    rw [hs₂, tables_updateJob hj₁, hs₁]
    rfl
  have hinv : s₂.tables.Inv none := ht₂ ▸ h.move hj hjl hjb hn hp (Life.bootOf_ne_pending lookup)
  have hlife : s₂.tables.fate r = .alive { s.tables.lifeOf r j with boot := Manager.bootOf lookup } := by
    rw [ht₂, fate_put_self]
    rfl
  have hloaded : j.state = .loaded := congrArg Life.state (lifeOf_fresh h hj hjb)
  have hspec := bootstrap_spec hinv hlife ((h.good r j hj).idle_of_pending hjb) (Life.bootOf_ne_pending lookup) hloaded
  rw [show s₂.stateFile = s.stateFile by rw [hs₂]; exact hfile,
    show Job.disabledIn (Life.manifest { s.tables.lifeOf r j with boot := Manager.bootOf lookup }) s.stateFile = lookup from
      hlookup.symm] at hspec
  have hans : s₂.kernel.answers = s.kernel.answers := by rw [hs₂, hs₁]; rfl
  have hpost : ∀ s', Booted none r { s.tables.lifeOf r j with boot := Manager.bootOf lookup } lookup s₂ s' →
      Does .load s s' ∧ s'.pendingJobs = s.pendingJobs.insert label none := by
    intro s' h'
    obtain ⟨how, arming, hsound, hof, harm, hm⟩ := h'
    rw [hans] at hof harm
    refine ⟨⟨hm.inv, fun r' => ?_, fun l r' hr => ?_, ?_, ?_, ?_⟩, ?_⟩
    · by_cases e : r' = r
      · subst e
        rw [hm.life, fate_alive hj]
        exact .single (.turn _ (.boot lookup s₂.clock how arming)
          ⟨hjb, hsound, s₂.clock_mono, harm.imp_left And.right⟩ ⟨hof.from, harm⟩)
      · rw [hm.others r' e, ht₂, fate_move_ne s.tables e]
        exact .refl
    · have hne : l ≠ label := by
        rintro rfl
        rw [hn] at hr
        cases hr
      rw [hm.keeps.jobs, hs₂, hs₁]
      exact (AList.lookup_insert_ne hne).trans hr
    · rw [hm.keeps.state, hs₂, hs₁]; rfl
    · rw [hm.keeps.listening, hs₂, hs₁]; rfl
    · exact hans ▸ hm.keeps.answers
    · rw [hm.keeps.pendingJobs, hs₂, hs₁]; rfl
  rw [← hs₂]
  exact wp_mono hspec (fun _ => hpost) fun s' hs' => (hpost s' hs').1

/-- The loop of `startAllJobs`: the jobs still pending are those it has not come to. -/
theorem startEach_spec (h : s.tables.Inv none) (order : List String)
    (hp : ∀ label r, s.pendingJobs.lookup label = some (some r) → label ∈ order) :
    wp (forEach Manager.startPending order)
      (fun _ s' => Does .load s s' ∧ ∀ label r, s'.pendingJobs.lookup label ≠ some (some r)) (Does .load s) s := by
  induction order generalizing s with
  | nil => exact ⟨.refl h, fun label r hr => nomatch hp label r hr⟩
  | cons label rest ih =>
    rw [forEach, wp_bind]
    refine wp_mono (startPending_spec h label) ?_ fun _ => id
    intro _ s₁ h'
    obtain ⟨hd, hpend⟩ := h'
    refine wp_mono (ih hd.inv fun l r hr => ?_) (fun _ s₂ h₂ => ⟨hd.trans h₂.1, h₂.2⟩) fun _ h₂ => hd.trans h₂
    by_cases e : l = label
    · rw [hpend, e, AList.lookup_insert] at hr
      cases hr
    · rw [hpend, AList.lookup_insert_ne e] at hr
      exact List.mem_of_ne_of_mem e (hp l r hr)

theorem startAllJobs_serves : Serves state files .load Manager.startAllJobs := by
  intro s hs
  rw [Manager.startAllJobs, wp_bind, wp_get, wp_bind]
  refine wp_mono visiting_spec ?_ fun _ => id
  intro order s₁ h
  obtain ⟨hperm, htook⟩ := h
  have hq := htook.quiet
  have hd₁ : Does .load s s₁ := .quiet hs.inv hq
  have hpend : s₁.pendingJobs = s.pendingJobs := congrArg Tables.pendingJobs hq.tables
  rw [wp_bind]
  refine wp_mono (startEach_spec hd₁.inv order fun label r hr => ?_) ?_ fun _ h₂ => hd₁.trans h₂
  · rw [hpend] at hr
    exact hperm.mem_iff.mpr (AList.lookup_isSome.mp (by rw [hr]; rfl))
  · intro _ s₂ h
    obtain ⟨hd₂, hnone⟩ := h
    rw [wp_modify]
    exact (hd₁.trans hd₂).trans ⟨hd₂.inv.clearPending hnone, fun _ => .refl, fun _ _ => id, rfl, rfl, .refl _⟩

/-- `startRunning`, when the manager runs. -/
theorem startLoaded_serves : Serves .running files .load Manager.startLoaded := by
  intro s hs
  rw [wp_congr (startLoaded_eq hs.state), wp_ite]
  split
  · exact .refl hs.inv
  · rw [wp_bind]
    refine wp_mono (startAllJobs_serves s hs) (fun _ s' hd => ?_) fun _ => id
    exact hd.trans ⟨hd.inv, fun _ => .refl, fun _ _ => id, (hd.state.trans hs.state).symm, rfl, .refl _⟩

end Loads

/-! ## Kills and unloads -/

section Stops

variable {state : Manager.States} {files : String → Node} {q : Request} {s : Sys}

/-- A job that is found under its label has been bootstrapped. -/
theorem stored_alive (h : s.tables.Inv none) {label : String} {r : Ref} (hr : s.jobs.lookup label = some r) :
    ∃ l, s.tables.fate r = .alive l ∧ l.manifest.label = label ∧ l.boot ≠ .pending := by
  obtain ⟨j, hj, hl, hb⟩ := h.owned.stored label r hr
  exact ⟨_, fate_alive hj, hl, hb⟩

theorem getJob_serves {label : String} {f : Ref → M α}
    (hf : ∀ s r, Serving state files s → s.jobs.lookup label = some r → wp (f r) (fun _ => Does q s) (Does q s) s) :
    Serves state files q (Manager.getJob label >>= f) := by
  intro s hs
  rw [wp_bind, Manager.getJob, wp_bind, wp_get]
  cases hr : s.jobs.lookup label with
  | none => exact .refl hs.inv
  | some r => exact hf s r hs hr

theorem killJobRef_spec {label : String} {r : Ref} (hs : Serving state files s) (hr : s.jobs.lookup label = some r) (signum : Int) :
    wp (Job.killJob r signum) (fun _ => Does (.kill label) s) (Does (.kill label) s) s := by
  obtain ⟨l, hl, hlabel, hb⟩ := stored_alive hs.inv hr
  exact wp_mono (killJob_spec hs.inv hl signum) (fun _ _ h => .turn (a := .kill) hl h.2 hb hlabel) fun _ => id

theorem killJob_serves (label name : String) :
    Serves state files (if (getSignalByName name).isSome then .kill label else .load) (Manager.killJob label name) := by
  unfold Manager.killJob
  cases getSignalByName name with
  | none => exact (Quietly.done _).serves
  | some signum =>
    exact .after (.jobExists label) fun b => .branches _ (Quietly.done _).serves
      (getJob_serves fun s r hs hr => killJobRef_spec hs hr signum)

theorem unloadJobRef_spec {labels : List String} {label : String} {r : Ref} (hs : Serving state files s)
    (hr : s.jobs.lookup label = some r) (hm : label ∈ labels) (overrideDisabled forceUnload : Bool) :
    wp (Manager.unloadJobRef r overrideDisabled forceUnload) (fun _ => Does (.unload labels) s) (Does (.unload labels) s) s := by
  obtain ⟨l, hl, hlabel, hb⟩ := stored_alive hs.inv hr
  obtain ⟨j, hj, rfl⟩ := fate_eq_alive hl
  have hj' : s.heap r = some j := hj
  have hunload : ∀ s', Quiet s s' → wp (Job.unloadJob r forceUnload) (fun _ => Does (.unload labels) s)
      (Does (.unload labels) s) s' := by
    intro s' hq
    have hl' : s'.tables.fate r = .alive (s.tables.lifeOf r j) := by rw [hq.tables]; exact hl
    have hd : ∀ s'', UnloadedBy none r (s.tables.lifeOf r j) (Job.disabledIn j.manifest s'.stateFile) forceUnload s' s'' →
        Does (.unload labels) s s'' := by
      intro s'' h
      obtain ⟨sent, hsent, hmoves⟩ := h
      exact (Does.quiet hs.inv hq).trans (.turn (a := .unload _ forceUnload sent) hl' hmoves hb ⟨hlabel ▸ hm, hsent⟩)
    exact wp_mono (unloadJob_spec (hq.tables ▸ hs.inv) hl' hb forceUnload) (fun _ => hd) hd
  rw [Manager.unloadJobRef, wp_bind, wp_this hj']
  dsimp only
  rw [wp_bind, wp_get, wp_ite]
  split
  · rw [wp_ite]
    split
    · rw [wp_bind]
      exact wp_mono (Quietly.overrideJobEnabled _ _ s trivial) (fun _ s' hq => hunload s' hq) fun s' hq => .quiet hs.inv hq
    · exact hunload s (.refl s)
  · exact .refl hs.inv

theorem unloadJob_serves {labels : List String} {label : String} (hm : label ∈ labels) (overrideDisabled forceUnload : Bool) :
    Serves state files (.unload labels) (Manager.unloadJob label overrideDisabled forceUnload) :=
  .after (.jobExists label) fun _ => .branches _ (Quietly.done _).serves
    (getJob_serves fun _ _ hs hr => unloadJobRef_spec hs hr hm overrideDisabled forceUnload)

theorem unloadJobAt_serves {labels : List String} {path : String} (hm : ∀ label ∈ Request.labelAt files path, label ∈ labels)
    (overrideDisabled forceUnload : Bool) :
    Serves state files (.unload labels) (Manager.unloadJobAt path overrideDisabled forceUnload) := by
  intro s hs
  rw [Manager.unloadJobAt, wp_bind]
  refine wp_catch (F := fun s' => s' = s) ?_ fun _ s' e => by subst e; exact .refl hs.inv
  rw [wp_bind]
  refine wp_parse (fun doc hext hfile => ?_) rfl
  rw [wp_pure, wp_ite]
  split
  · have hlabels : ∀ buf, doc.atKey "Label" >>= Json.getString = .ok buf → ∀ label, Label.make buf = .ok label →
        label ∈ labels := by
      intro buf hbuf label hlabel
      apply hm label
      have hdoc : (doc.atKey "Label" >>= Json.getString >>= Label.make) = .ok label := by
        rw [hbuf]
        exact hlabel
      rw [Request.labelAt, if_pos hext, ← hs.files, hfile]
      dsimp only
      rw [hdoc]
      rfl
    exact Serves.decodes _ (fun buf hbuf => .decodes _ fun label hlabel =>
      unloadJob_serves (hlabels buf hbuf label hlabel) overrideDisabled forceUnload) s hs
  · exact .refl hs.inv

theorem unloadEntries_serves {labels entries : List String}
    (hm : ∀ path ∈ entries, ∀ label ∈ Request.labelAt files path, label ∈ labels) (overrideDisabled forceUnload : Bool) :
    Serves state files (.unload labels) (Rpc.unloadEntries overrideDisabled forceUnload entries) := by
  induction entries with
  | nil => exact (Quietly.done _).serves
  | cons path rest ih =>
    exact .bind (unloadJobAt_serves (hm path List.mem_cons_self) _ _) fun _ =>
      .branches _ (ih fun p hp => hm p (List.mem_cons_of_mem _ hp)) (Quietly.done _).serves

theorem labelsIn_cons (path : Json) (rest : List Json) :
    Request.labelsIn files (path :: rest) =
      (path.getString.toOption.map (Request.labelsAt files)).getD [] ++ Request.labelsIn files rest := List.flatMap_cons

theorem unloadPaths_serves {labels : List String} {paths : List Json} (hm : Request.labelsIn files paths ⊆ labels)
    (overrideDisabled forceUnload isError : Bool) :
    Serves state files (.unload labels) (Rpc.unloadPaths overrideDisabled forceUnload isError paths) := by
  induction paths generalizing isError with
  | nil => exact (Quietly.done _).serves
  | cons path rest ih =>
    rw [labelsIn_cons, List.append_subset] at hm
    refine .decodes _ fun p hp => fun s hs => ?_
    have hsub : Request.labelsAt files p ⊆ labels := by
      rw [hp] at hm
      exact hm.1
    rw [wp_bind, wp_get, hs.files]
    cases hf : files p with
    | missing => exact .refl hs.inv
    | directory entries =>
      rw [Request.labelsAt, hf] at hsub
      exact Serves.bind (unloadEntries_serves (fun path hpath label hlabel =>
        hsub (List.mem_filterMap.mpr ⟨path, hpath, hlabel⟩)) _ _) (fun _ => ih hm.2 _) s hs
    | file doc =>
      rw [Request.labelsAt, hf] at hsub
      exact Serves.bind (unloadJobAt_serves (fun label hlabel => hsub (Option.mem_toList.mpr hlabel)) _ _)
        (fun _ => .branches _ (ih hm.2 _) (Quietly.done _).serves) s hs

end Stops

/-! ## The handlers -/

section Handlers

variable {files : String → Node}

theorem loadPaths_serves {state : Manager.States} (overrideDisabled forceLoad error : Bool) (paths : List Json) :
    Serves state files .load (Rpc.loadPaths overrideDisabled forceLoad error paths) := by
  induction paths generalizing error with
  | nil => exact (Quietly.done _).serves
  | cons path rest ih => exact .decodes _ fun p _ => .bind (loadAllManifests_serves _ _ _) fun _ => ih _

theorem override_serves {state : Manager.States} {q : Request} (args : Json) (enabled : Bool) :
    Serves state files q (do
      Manager.overrideJobEnabled (← ofDecode (Rpc.labelArgument args)) enabled
      return Rpc.errorReply false) :=
  (Quietly.bind (.decodes _) fun _ => .bind (.overrideJobEnabled _ _) fun _ => .done _).serves

theorem opLoad_serves (args : Json) : Serves .running files .load (Rpc.opLoad args) :=
  .decodes _ fun _ _ => .decodes _ fun _ _ => .decodes _ fun _ _ => .bind (loadPaths_serves _ _ _ _) fun _ =>
    .bind startLoaded_serves fun _ => (Quietly.done _).serves

theorem opSubmit_serves (args : Json) : Serves .running files .load (Rpc.opSubmit args) :=
  .decodes _ fun _ _ => .bind (loadManifestDoc_serves _ _ _ _) fun _ =>
    .bind startLoaded_serves fun _ => (Quietly.done _).serves

theorem opKill_serves {state : Manager.States} (args : Json) : Serves state files (.ofKill args) (Rpc.opKill args) := by
  refine .decodes _ fun label hlabel => .decodes _ fun name hname => .bind ?_ fun _ => (Quietly.done _).serves
  rw [Request.ofKill, hlabel, hname]
  exact killJob_serves label name

theorem opRemove_serves {state : Manager.States} (args : Json) : Serves state files (.ofRemove args) (Rpc.opRemove args) := by
  refine .decodes _ fun label hlabel => .bind ?_ fun _ => (Quietly.done _).serves
  rw [Request.ofRemove, hlabel]
  exact unloadJob_serves List.mem_cons_self _ _

theorem opUnload_serves {state : Manager.States} (args : Json) :
    Serves state files (.ofUnload files args) (Rpc.opUnload args) := by
  refine .decodes _ fun _ _ => .decodes _ fun _ _ => .decodes _ fun paths hpaths => .bind ?_ fun _ => (Quietly.done _).serves
  rw [Request.ofUnload, hpaths]
  exact unloadPaths_serves (List.Subset.refl _) _ _ _

theorem handler_serves (message : Json) {handler : Json → M Json} (h : Rpc.handlerFor message = .ok handler) :
    Serves .running files (.of files message) (handler message) := by
  obtain ⟨method, hmem, hmethod⟩ := Rpc.of_handler h
  have hof : Request.of files message =
      if method = "kill" then Request.ofKill message
      else if method = "remove" then Request.ofRemove message
      else if method = "unload" then Request.ofUnload files message
      else .load := by
    simp only [Request.of, hmethod]
  rw [hof]
  simp only [Rpc.handlers, List.mem_cons, Prod.mk.injEq, List.not_mem_nil, or_false] at hmem
  rcases hmem with ⟨rfl, rfl⟩ | ⟨rfl, rfl⟩ | ⟨rfl, rfl⟩ | ⟨rfl, rfl⟩ | ⟨rfl, rfl⟩ | ⟨rfl, rfl⟩ | ⟨rfl, rfl⟩ |
    ⟨rfl, rfl⟩ | ⟨rfl, rfl⟩
  · exact override_serves message false
  · exact override_serves message true
  · exact opKill_serves message
  · exact Quietly.listJobs.serves
  · exact opLoad_serves message
  · exact opRemove_serves message
  · exact opSubmit_serves message
  · exact opUnload_serves message
  · exact (Quietly.done _).serves

/-- A connection: the request in it is handled, and no exception comes out. -/
theorem rpcDispatch_spec {s : Sys} (hs : Serving .running files s) (message : Option Json) {E : Sys → Prop} :
    wp (Rpc.rpcDispatch message) (fun _ => Does (.of files message) s) E s := by
  refine wp_catch (F := Does (.of files message) s) ?_ fun _ _ => id
  cases message with
  | none => exact .refl hs.inv
  | some message =>
    refine Serves.decodes _ (fun handler hh => ?_) s hs
    exact .bind (.catches (handler_serves message hh) fun _ => (Quietly.done _).serves) fun reply =>
      (Quietly.writeMessage reply).serves

end Handlers

end Relaunchd
