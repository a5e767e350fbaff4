/-
  Relaunchd.Properties.Loading — what one load does, and what a list of loads does in any
  order.

  A manifest that decodes and is not a duplicate is admitted or refused after its override
  was written, if one was asked for.
-/

import Relaunchd.Runs
import Relaunchd.StateDoc
import Relaunchd.Writes

namespace Relaunchd

open Prog EventManager Transition

variable {s s' : Sys} {doc state : Json} {m : Manifest} {label path : String} {enabled overrideDisabled forceLoad : Bool}

/-! ## One load -/

def Sys.renaming (s : Sys) : Sys :=
  s.updateKernel fun k => { k with answers := { k.answers with renames := k.answers.renames.tail } }

def Sys.stores (s : Sys) (label : String) (enabled : Bool) (state : Json) : Sys :=
  { s.renaming with stateFile := state, overrides := s.overrides ++ [(label, enabled)] }

def Sys.pends (s : Sys) (m : Manifest) (path : String) : Sys :=
  { s with
    heap := Function.update s.heap s.nextRef (some { manifest := m, manifestPath := path })
    pendingJobs := insertNew m.label (some s.nextRef) s.pendingJobs
    nextRef := s.nextRef + 1 }

def Sys.CanRename (s : Sys) : Prop := s.kernel.answers.renames.headD true = true

theorem nextRename_eq (s : Sys) : nextRename s = .ok (s.kernel.answers.renames.headD true) s.renaming := rfl

theorem overrideJobEnabled_ok (h : Manager.overridden label enabled s.stateFile = .ok state) (hr : s.CanRename) :
    Manager.overrideJobEnabled label enabled s = .ok () (s.stores label enabled state) := by
  have hset : StateFile.setValue state s = .ok () { s.renaming with stateFile := state } := by
    rw [StateFile.setValue, bind_ok (nextRename_eq s), ite_run]
    exact if_pos hr
  rw [Manager.overrideJobEnabled, get_bind, h]
  exact (bind_ok hset).trans rfl

theorem overrideJobEnabled_unrenamed (h : Manager.overridden label enabled s.stateFile = .ok state) (hr : ¬ s.CanRename) :
    Manager.overrideJobEnabled label enabled s = .throw "rename" s.renaming := by
  have hset : StateFile.setValue state s = .throw "rename" s.renaming := by
    rw [StateFile.setValue, bind_ok (nextRename_eq s), ite_run]
    exact if_neg hr
  have hdecode : ofDecode (.ok state) s = .ok state s := rfl
  rw [Manager.overrideJobEnabled, get_bind, h]
  exact (bind_ok hdecode).trans (bind_throw hset)

theorem overrideJobEnabled_unwritable (h : ¬ ∃ state, Manager.overridden label enabled s.stateFile = .ok state) :
    ∃ w, Manager.overrideJobEnabled label enabled s = .throw w s := by
  rw [Manager.overrideJobEnabled, get_bind]
  cases hd : Manager.overridden label enabled s.stateFile with
  | ok state => exact absurd ⟨state, hd⟩ h
  | error e =>
    have he := overridden_faults _ hd
    cases e with
    | exn w => exact ⟨w, bind_throw rfl⟩
    | abort w => exact absurd he (by simp [Json.exceptions])

/-- An override that fails leaves everything as it was. -/
theorem overrideJobEnabled_fails (h : ∀ state, Manager.overridden label enabled s.stateFile = .ok state → ¬ s.CanRename) :
    ∃ w, Manager.overrideJobEnabled label enabled s = .throw w s ∨ Manager.overrideJobEnabled label enabled s = .throw w s.renaming := by
  by_cases hd : ∃ state, Manager.overridden label enabled s.stateFile = .ok state
  · obtain ⟨state, hd⟩ := hd
    exact ⟨_, .inr (overrideJobEnabled_unrenamed hd (h state hd))⟩
  · obtain ⟨w, hw⟩ := overrideJobEnabled_unwritable hd
    exact ⟨w, .inl hw⟩

/-- What `loadManifest` does after the override. -/
def accept (m : Manifest) (path : String) (forceLoad : Bool) : M Bool := do
  if m.disabled && !forceLoad then return false
  else do
    let disabled ← ofDecode (Manager.overrideDisables m.label (← get).stateFile)
    if disabled && !forceLoad then return false
    else do
      Manager.addPending m path
      return true

theorem accept_disabled (hd : m.disabled = true) (hf : forceLoad = false) : accept m path forceLoad s = .ok false s := by
  rw [accept, hd, hf]
  rfl

theorem accept_eq (h : m.disabled = true → forceLoad = true) : accept m path forceLoad s =
    match Manager.overrideDisables m.label s.stateFile with
    | .ok disabled => if disabled && !forceLoad then .ok false s else .ok true (s.pends m path)
    | .error (.exn w) => .throw w s
    | .error (.abort w) => .crash w := by
  have hn : (m.disabled && !forceLoad) = false := by
    cases hd : m.disabled with
    | false => rfl
    | true => rw [h hd]; rfl
  rw [accept, hn, if_neg Bool.false_ne_true, get_bind]
  cases ho : Manager.overrideDisables m.label s.stateFile with
  | ok disabled => exact ite_run ..
  | error e => cases e <;> rfl

/-- A manifest that decodes, while no job has its label and the manager is not shutting down. -/
structure Fresh (s : Sys) (doc : Json) (m : Manifest) : Prop where
  running : s.state ≠ .gracefulShutdown
  decoded : Manifest.fromJson doc = .ok m
  loaded : s.jobs.lookup m.label = none
  pending : s.pendingJobs.lookup m.label = none

theorem loadManifestDoc_fresh (h : Fresh s doc m) : Manager.loadManifestDoc doc path overrideDisabled forceLoad s =
    (if overrideDisabled then Manager.overrideJobEnabled m.label true >>= fun _ => accept m path forceLoad
      else accept m path forceLoad) s := by
  have hdup : Manager.isDuplicate m.label s = .ok false s := by
    rw [Manager.isDuplicate, gets, h.loaded, h.pending]
    rfl
  rw [Manager.loadManifestDoc, get_bind, if_neg h.running, h.decoded]
  refine (bind_ok hdup).trans ?_
  cases overrideDisabled <;> rfl

/-- What is refused before anything is done about it. -/
inductive Unfit (s : Sys) (doc : Json) : Prop
  | stopping : s.state = .gracefulShutdown → Unfit s doc
  | malformed (w : String) : Manifest.fromJson doc = .error (.exn w) → Unfit s doc
  | duplicate (m : Manifest) : Manifest.fromJson doc = .ok m →
      (s.jobs.lookup m.label).isSome ∨ (s.pendingJobs.lookup m.label).isSome → Unfit s doc

theorem loadManifestDoc_unfit (h : Unfit s doc) :
    Manager.loadManifestDoc doc path overrideDisabled forceLoad s = .ok false s := by
  rw [Manager.loadManifestDoc, get_bind]
  by_cases hg : s.state = .gracefulShutdown
  · rw [if_pos hg]
    rfl
  rw [if_neg hg]
  cases h with
  | stopping hs => exact absurd hs hg
  | malformed w hw =>
    rw [hw]
    rfl
  | duplicate m hm hdup =>
    have hdup' : Manager.isDuplicate m.label s = .ok true s := by
      rw [Manager.isDuplicate, gets, show ((s.jobs.lookup m.label).isSome || (s.pendingJobs.lookup m.label).isSome) = true by
        simpa using hdup]
    rw [hm]
    exact (bind_ok hdup').trans rfl

theorem Unfit.not_fresh (h : Unfit s doc) : ¬ Fresh s doc m := by
  intro hf
  cases h with
  | stopping hg => exact hf.running hg
  | malformed w hw => exact nomatch hw.symm.trans hf.decoded
  | duplicate m' hm hdup =>
    obtain rfl : m' = m := by simpa using hm.symm.trans hf.decoded
    rw [hf.loaded, hf.pending] at hdup
    exact hdup.elim nofun nofun

theorem loadManifestDoc_abort {w : String} (hg : s.state ≠ .gracefulShutdown) (hw : Manifest.fromJson doc = .error (.abort w)) :
    Manager.loadManifestDoc doc path overrideDisabled forceLoad s = .crash w := by
  rw [Manager.loadManifestDoc, get_bind, if_neg hg, hw]
  rfl

/-- Every load is of one kind or the other, or ends the program. -/
theorem unfit_or_fresh (s : Sys) (doc : Json) :
    Unfit s doc ∨ (∃ m, Fresh s doc m) ∨
      (s.state ≠ .gracefulShutdown ∧ ∃ w, Manifest.fromJson doc = .error (.abort w)) := by
  by_cases hg : s.state = .gracefulShutdown
  · exact .inl (.stopping hg)
  cases hm : Manifest.fromJson doc with
  | error e => cases e with
    | exn w => exact .inl (.malformed w hm)
    | abort w => exact .inr (.inr ⟨hg, w, rfl⟩)
  | ok m =>
    by_cases hdup : (s.jobs.lookup m.label).isSome ∨ (s.pendingJobs.lookup m.label).isSome
    · exact .inl (.duplicate m hm hdup)
    · simp only [not_or, Bool.not_eq_true, Option.isSome_eq_false_iff, Option.isNone_iff_eq_none] at hdup
      exact .inr (.inl ⟨m, hg, hm, hdup.1, hdup.2⟩)

/-! ## Disabled manifests -/

/-- The document has overrides, and none that enables the label. -/
def LeavesDisabled (label : String) (state : Json) : Prop :=
  ∃ overrides, state.atKey "Overrides" = .ok overrides ∧
    ∀ jobState, member overrides label = some jobState → jobState.atKey "Enabled" >>= Json.getBool = .ok false

theorem disabledBy_true {entry : Option Json} : disabledBy entry true = .ok true ↔
    ∀ jobState, entry = some jobState → jobState.atKey "Enabled" >>= Json.getBool = .ok false := by
  cases entry with
  | none => exact iff_of_true rfl nofun
  | some jobState =>
    constructor
    · intro h _ e
      cases e
      obtain ⟨v, hv, h⟩ := bind_eq_ok.mp h
      obtain ⟨b, hb, h⟩ := bind_eq_ok.mp h
      cases b with
      | true => cases h
      | false => exact bind_eq_ok.mpr ⟨v, hv, hb⟩
    · intro h
      obtain ⟨v, hv, hb⟩ := bind_eq_ok.mp (h jobState rfl)
      exact bind_eq_ok.mpr ⟨v, hv, bind_eq_ok.mpr ⟨false, hb, rfl⟩⟩

/-- A manifest that says Disabled is disabled, unless an override says otherwise. -/
theorem disabledIn_iff (hd : m.disabled = true) : Job.disabledIn m state = .ok true ↔ LeavesDisabled m.label state := by
  rw [disabledIn_eq, hd, bind_eq_ok]
  exact exists_congr fun overrides => and_congr_right fun _ => disabledBy_true

/-- Where the manifest says nothing, both ways to look the override up agree. -/
theorem disabledIn_enabled (hd : m.disabled = false) : Job.disabledIn m state = Manager.overrideDisables m.label state := by
  rw [disabledIn_eq, overrideDisables_eq, hd]

/-- The document as it stands after an override that was asked for. -/
def AfterOverride (s : Sys) (m : Manifest) (overrideDisabled : Bool) (state : Json) : Prop :=
  if overrideDisabled then Manager.overridden m.label true s.stateFile = .ok state ∧ s.CanRename else state = s.stateFile

theorem afterOverride_none (s : Sys) (m : Manifest) : AfterOverride s m false s.stateFile := by
  rw [AfterOverride, if_neg Bool.false_ne_true]

/-! ## How a load ends -/

/-- The state in which the manifest is admitted or refused, when the document has become `state`. -/
def Sys.opened (s : Sys) (m : Manifest) (overrideDisabled : Bool) (state : Json) : Sys :=
  if overrideDisabled then s.stores m.label true state else s

@[simp] theorem Sys.opened_tables : (s.opened m overrideDisabled state).tables = s.tables := by cases overrideDisabled <;> rfl
@[simp] theorem Sys.opened_jobs : (s.opened m overrideDisabled state).jobs = s.jobs := by cases overrideDisabled <;> rfl
@[simp] theorem Sys.opened_heap : (s.opened m overrideDisabled state).heap = s.heap := by cases overrideDisabled <;> rfl
@[simp] theorem Sys.opened_pendingJobs : (s.opened m overrideDisabled state).pendingJobs = s.pendingJobs := by
  cases overrideDisabled <;> rfl

/-- What a load does: what it returns, none where it throws, and the state it leaves. -/
inductive LoadsTo (s : Sys) (doc : Json) (path : String) (overrideDisabled forceLoad : Bool) : Option Bool → Sys → Prop
  | unfit : Unfit s doc → LoadsTo s doc path overrideDisabled forceLoad (some false) s
  | unwritable {m : Manifest} : Fresh s doc m → overrideDisabled = true →
      (¬ ∃ state, Manager.overridden m.label true s.stateFile = .ok state) → LoadsTo s doc path overrideDisabled forceLoad none s
  | unrenamed {m : Manifest} {state : Json} : Fresh s doc m → overrideDisabled = true →
      Manager.overridden m.label true s.stateFile = .ok state → ¬ s.CanRename →
      LoadsTo s doc path overrideDisabled forceLoad none s.renaming
  | disabled {m : Manifest} {state : Json} : Fresh s doc m → AfterOverride s m overrideDisabled state →
      m.disabled = true → forceLoad = false →
      LoadsTo s doc path overrideDisabled forceLoad (some false) (s.opened m overrideDisabled state)
  | unreadable {m : Manifest} {state : Json} : Fresh s doc m → AfterOverride s m overrideDisabled state →
      (m.disabled = true → forceLoad = true) → (¬ ∃ b, Manager.overrideDisables m.label state = .ok b) →
      LoadsTo s doc path overrideDisabled forceLoad none (s.opened m overrideDisabled state)
  | overridden {m : Manifest} {state : Json} : Fresh s doc m → AfterOverride s m overrideDisabled state →
      (m.disabled = true → forceLoad = true) → Manager.overrideDisables m.label state = .ok true → forceLoad = false →
      LoadsTo s doc path overrideDisabled forceLoad (some false) (s.opened m overrideDisabled state)
  | admitted {m : Manifest} {state : Json} {b : Bool} : Fresh s doc m → AfterOverride s m overrideDisabled state →
      (m.disabled = true → forceLoad = true) → Manager.overrideDisables m.label state = .ok b → (b = true → forceLoad = true) →
      LoadsTo s doc path overrideDisabled forceLoad (some true) ((s.opened m overrideDisabled state).pends m path)

theorem AfterOverride.opened (ha : AfterOverride s m overrideDisabled state) :
    (s.opened m overrideDisabled state).stateFile = state := by
  unfold AfterOverride at ha
  unfold Sys.opened
  cases overrideDisabled with
  | true => rfl
  | false => exact ha.symm

/-- The load comes to where the manifest is admitted or refused. -/
theorem loadManifestDoc_opened (h : Fresh s doc m) (ha : AfterOverride s m overrideDisabled state) :
    Manager.loadManifestDoc doc path overrideDisabled forceLoad s = accept m path forceLoad (s.opened m overrideDisabled state) := by
  rw [loadManifestDoc_fresh h]
  unfold AfterOverride at ha
  cases overrideDisabled with
  | false => rfl
  | true => exact bind_ok (overrideJobEnabled_ok ha.1 ha.2)

theorem accept_ends {C : String → Prop} {Q : Option Bool → Sys → Prop} (h : Fresh s doc m)
    (ha : AfterOverride s m overrideDisabled state) (hQ : ∀ b s', LoadsTo s doc path overrideDisabled forceLoad b s' → Q b s') :
    ends C (accept m path forceLoad) (fun b => Q (some b)) (Q none) (s.opened m overrideDisabled state) := by
  unfold ends
  by_cases hd : m.disabled = true ∧ forceLoad = false
  · rw [accept_disabled hd.1 hd.2]
    exact hQ _ _ (.disabled h ha hd.1 hd.2)
  have hforce : m.disabled = true → forceLoad = true := fun hm => by simpa [hm] using hd
  rw [accept_eq hforce, ha.opened]
  cases ho : Manager.overrideDisables m.label state with
  | error e =>
    have hfault := overrideDisables_faults _ ho
    cases e with
    | exn w => exact hQ _ _ (.unreadable h ha hforce (by simp [ho]))
    | abort w => exact absurd hfault (by simp [Json.exceptions])
  | ok b =>
    dsimp only
    by_cases hb : (b && !forceLoad) = true
    · obtain ⟨rfl, hf⟩ := Bool.and_eq_true_iff.mp hb
      rw [if_pos hb]
      exact hQ _ _ (.overridden h ha hforce ho (by simpa using hf))
    · rw [if_neg hb]
      exact hQ _ _ (.admitted h ha hforce ho fun hb' => by simpa [hb'] using hb)

/-- The rule for a load: it ends as it can, or dies of the document. -/
theorem loadManifestDoc_ends {C : String → Prop} {Q : Option Bool → Sys → Prop}
    (habort : s.state ≠ .gracefulShutdown → ∀ w, Manifest.fromJson doc = .error (.abort w) → C w)
    (hQ : ∀ b s', LoadsTo s doc path overrideDisabled forceLoad b s' → Q b s') :
    ends C (Manager.loadManifestDoc doc path overrideDisabled forceLoad) (fun b => Q (some b)) (Q none) s := by
  rcases unfit_or_fresh s doc with hunfit | ⟨m, h⟩ | ⟨hg, w, hw⟩
  · unfold ends
    rw [loadManifestDoc_unfit hunfit]
    exact hQ _ _ (.unfit hunfit)
  · by_cases ha : ∃ state, AfterOverride s m overrideDisabled state
    · obtain ⟨state, ha⟩ := ha
      rw [ends_congr (loadManifestDoc_opened h ha)]
      exact accept_ends h ha hQ
    cases overrideDisabled with
    | false => exact absurd ⟨_, afterOverride_none s m⟩ ha
    | true =>
      unfold ends
      rw [loadManifestDoc_fresh h, if_pos rfl]
      by_cases hd : ∃ state, Manager.overridden m.label true s.stateFile = .ok state
      · obtain ⟨state, hd⟩ := hd
        have hrename : ¬ s.CanRename := fun hr => ha ⟨state, by rw [AfterOverride, if_pos rfl]; exact ⟨hd, hr⟩⟩
        rw [bind_throw (overrideJobEnabled_unrenamed hd hrename)]
        exact hQ _ _ (.unrenamed h rfl hd hrename)
      · obtain ⟨w, hw⟩ := overrideJobEnabled_unwritable hd
        rw [bind_throw hw]
        exact hQ _ _ (.unwritable h rfl hd)
  · unfold ends
    rw [loadManifestDoc_abort hg hw]
    exact habort hg w hw

/-! ## Refusals -/

def Refuses (s : Sys) (doc : Json) (path : String) (overrideDisabled : Bool) : Prop :=
  ∃ s', Manager.loadManifestDoc doc path overrideDisabled false s = .ok false s'

theorem refuses_disabled (h : Fresh s doc m) (hd : m.disabled = true) : Refuses s doc path false := by
  refine ⟨s, ?_⟩
  rw [loadManifestDoc_fresh h, if_neg Bool.false_ne_true]
  exact accept_disabled hd rfl

/-- A load refuses what the job would call disabled if and only if the manifest does not say
    Disabled where an override says otherwise. -/
theorem refuses_iff (h : Fresh s doc m) (ha : AfterOverride s m overrideDisabled state) :
    (Refuses s doc path overrideDisabled ↔ Job.disabledIn m state = .ok true) ↔
      (m.disabled = true → LeavesDisabled m.label state) := by
  obtain ⟨s', hs', rfl⟩ : ∃ s', Manager.loadManifestDoc doc path overrideDisabled false s = accept m path false s' ∧
      s'.stateFile = state := ⟨_, loadManifestDoc_opened h ha, ha.opened⟩
  have hrefuses : Refuses s doc path overrideDisabled ↔ ∃ s'', accept m path false s' = .ok false s'' := by
    rw [Refuses, hs']
  rw [hrefuses]
  cases hd : m.disabled with
  | true =>
    have hrefused : ∃ s'', accept m path false s' = .ok false s'' := ⟨s', accept_disabled hd rfl⟩
    rw [← disabledIn_iff hd]
    exact ⟨fun he _ => he.mp hrefused, fun he => ⟨fun _ => he rfl, fun _ => hrefused⟩⟩
  | false =>
    refine iff_of_true ?_ nofun
    rw [disabledIn_enabled hd, accept_eq fun hd' => absurd (hd.symm.trans hd') nofun]
    cases Manager.overrideDisables m.label s'.stateFile with
    | ok disabled => cases disabled with
      | true => exact iff_of_true ⟨_, rfl⟩ rfl
      | false => exact iff_of_false (fun ⟨_, e⟩ => nomatch e) nofun
    | error e => cases e with
      | exn w => exact iff_of_false (fun ⟨_, e⟩ => nomatch e) nofun
      | abort w => exact iff_of_false (fun ⟨_, e⟩ => nomatch e) nofun

def spare : Json := .obj [("Label", .str "job"), ("Program", .str "/bin/job"), ("Disabled", .bool true)]

def spareManifest : Manifest :=
  { label := "job", program := some "/bin/job", programArguments := ["/bin/job"], disabled := true }

theorem spare_decoded : Manifest.fromJson spare = .ok spareManifest := by decide +kernel

def idle (state : Json) : Sys := { stateFile := state, kernel := { now := 0, users := ⟨fun _ => none, fun _ => none⟩ } }

theorem idle_canRename (state : Json) : (idle state).CanRename := by
  unfold Sys.CanRename
  rfl

theorem idle_fresh (state : Json) : Fresh (idle state) spare spareManifest := ⟨nofun, spare_decoded, rfl, rfl⟩

/-- The state file has an override that enables the label. -/
theorem reenabled_refused : ¬ ∀ (s : Sys) (doc : Json) (m : Manifest) (path : String) (overrideDisabled : Bool) (state : Json),
    Fresh s doc m → AfterOverride s m overrideDisabled state →
      (Refuses s doc path overrideDisabled ↔ Job.disabledIn m state = .ok true) := by
  intro h
  let state : Json := .obj [("Overrides", .obj [("job", .obj [("Enabled", .bool true)])])]
  have hiff := h (idle state) spare spareManifest "/etc/job.json" false state (idle_fresh state) (afterOverride_none _ _)
  exact absurd (hiff.mp (refuses_disabled (idle_fresh state) rfl)) (by decide)

/-- The manifest and an override agree. -/
theorem refuses_spare : Refuses (idle (.obj [("Overrides", .obj [("job", .obj [("Enabled", .bool false)])])])) spare "/etc/job.json" false ↔
    Job.disabledIn spareManifest (.obj [("Overrides", .obj [("job", .obj [("Enabled", .bool false)])])]) = .ok true := by
  refine (refuses_iff (idle_fresh _) (afterOverride_none _ _)).mpr fun _ => ⟨.obj [("job", .obj [("Enabled", .bool false)])], rfl, ?_⟩
  intro jobState hmember
  cases hmember
  rfl

/-! ## All or nothing -/

/-- The tables of jobs and the override document are as before. -/
structure Unchanged (s s' : Sys) : Prop where
  jobs : s'.jobs = s.jobs
  pendingJobs : s'.pendingJobs = s.pendingJobs
  stateFile : s'.stateFile = s.stateFile

/-- One job was added to those that are pending, and nothing else but its override changed. -/
structure Added (s : Sys) (m : Manifest) (s' : Sys) : Prop where
  jobs : s'.jobs = s.jobs
  pendingJobs : s.pendingJobs.lookup m.label = none ∧
    ∃ r j, s'.pendingJobs = s.pendingJobs.insert m.label (some r) ∧ s'.heap r = some j ∧ j.manifest = m
  stateFile : SameBut (· = m.label) s.stateFile s'.stateFile

/-- A load that returns false or throws changes nothing, and one that returns true adds one job. -/
def Atomic (s : Sys) (doc : Json) : Res Sys Bool → Prop
  | .ok false s' => Unchanged s s'
  | .ok true s' => ∃ m, Manifest.fromJson doc = .ok m ∧ Added s m s'
  | .throw _ s' => Unchanged s s'
  | .crash _ => True

/-- The override that comes with a load changes the document, and the manifest is refused. -/
def Wasted (s : Sys) (doc : Json) (overrideDisabled forceLoad : Bool) : Prop :=
  overrideDisabled = true ∧ forceLoad = false ∧ s.CanRename ∧ ∃ m state, Fresh s doc m ∧ m.disabled = true ∧
    Manager.overridden m.label true s.stateFile = .ok state ∧ state ≠ s.stateFile

theorem Fresh.pends (h : Fresh s doc m) (hjobs : s'.jobs = s.jobs) (hpend : s'.pendingJobs = s.pendingJobs)
    (hsame : SameBut (· = m.label) s.stateFile s'.stateFile) : Added s m (s'.pends m path) := by
  refine ⟨hjobs, ⟨h.pending, s'.nextRef, { manifest := m, manifestPath := path }, ?_, Function.update_self .., rfl⟩, hsame⟩
  have hnew : m.label ∉ s'.pendingJobs := by
    rw [hpend]
    exact AList.lookup_eq_none.mp h.pending
  show insertNew m.label (some s'.nextRef) s'.pendingJobs = _
  rw [insertNew, if_neg hnew, hpend]

theorem Unchanged.refl (s : Sys) : Unchanged s s := ⟨rfl, rfl, rfl⟩

/-- A manifest that is admitted or refused while the document is as before the load. -/
theorem accept_atomic (h : Fresh s doc m) : Atomic s doc (accept m path forceLoad s) := by
  by_cases hd : m.disabled = true → forceLoad = true
  · rw [accept_eq hd]
    cases hover : Manager.overrideDisables m.label s.stateFile with
    | ok disabled =>
      by_cases hdis : (disabled && !forceLoad) = true
      · simp only [if_pos hdis]
        exact .refl s
      · simp only [if_neg hdis]
        exact ⟨m, h.decoded, h.pends rfl rfl (.refl _ _)⟩
    | error e => cases e with
      | exn w => exact Unchanged.refl s
      | abort w => trivial
  · rw [Classical.not_imp, Bool.not_eq_true] at hd
    rw [accept_disabled hd.1 hd.2]
    exact Unchanged.refl s

/-- A load is atomic unless it writes an override for a manifest that it refuses. -/
theorem atomic_iff : Atomic s doc (Manager.loadManifestDoc doc path overrideDisabled forceLoad s) ↔
    ¬ Wasted s doc overrideDisabled forceLoad := by
  rcases unfit_or_fresh s doc with hu | ⟨m, hf⟩ | ⟨hg, w, hw⟩
  · rw [loadManifestDoc_unfit hu]
    exact iff_of_true (Unchanged.refl s) fun ⟨_, _, _, m, _, hf, _⟩ => hu.not_fresh hf
  · have hunique : ∀ m', Fresh s doc m' → m' = m := fun m' hf' => by simpa using hf'.decoded.symm.trans hf.decoded
    rw [loadManifestDoc_fresh hf]
    cases overrideDisabled with
    | false => exact iff_of_true (accept_atomic hf) fun ⟨ho, _⟩ => nomatch ho
    | true =>
      rw [if_pos rfl]
      by_cases hover : ∃ state, Manager.overridden m.label true s.stateFile = .ok state ∧ s.CanRename
      · obtain ⟨state, hstate, hr⟩ := hover
        rw [bind_ok (overrideJobEnabled_ok hstate hr)]
        by_cases hd : m.disabled = true → forceLoad = true
        · refine iff_of_true ?_ ?_
          · rw [accept_eq hd, show (s.stores m.label true state).stateFile = state from rfl, overrideDisables_overridden hstate]
            exact ⟨m, hf.decoded, hf.pends rfl rfl (overridden_sameBut hstate)⟩
          · intro h
            obtain ⟨_, hforce, -, m', _, hf', hdis, -⟩ := h
            obtain rfl := hunique m' hf'
            exact absurd (hforce.symm.trans (hd hdis)) nofun
        · rw [Classical.not_imp, Bool.not_eq_true] at hd
          rw [accept_disabled hd.1 hd.2]
          constructor
          · intro hun h
            obtain ⟨-, -, -, m', state', hf', -, hstate', hne⟩ := h
            obtain rfl := hunique m' hf'
            cases hstate.symm.trans hstate'
            exact hne hun.stateFile
          · intro hw
            refine ⟨rfl, rfl, ?_⟩
            by_contra hne
            exact hw ⟨rfl, hd.2, hr, m, state, hf, hd.1, hstate, hne⟩
      · obtain ⟨w, hw | hw⟩ := overrideJobEnabled_fails fun state hstate hr => hover ⟨state, hstate, hr⟩
        · rw [bind_throw hw]
          exact iff_of_true (Unchanged.refl s) fun ⟨_, _, hr, m', state, hf', _, hstate, _⟩ =>
            hover ⟨state, hunique m' hf' ▸ hstate, hr⟩
        · rw [bind_throw hw]
          exact iff_of_true ⟨rfl, rfl, rfl⟩ fun ⟨_, _, hr, m', state, hf', _, hstate, _⟩ =>
            hover ⟨state, hunique m' hf' ▸ hstate, hr⟩
  · rw [loadManifestDoc_abort hg hw]
    exact iff_of_true trivial fun ⟨_, _, _, m, _, hf, _⟩ => nomatch hw.symm.trans hf.decoded

/-- `load -w` of a manifest that says Disabled. -/
theorem override_wasted : ¬ ∀ (s : Sys) (doc : Json) (path : String) (overrideDisabled forceLoad : Bool),
    Atomic s doc (Manager.loadManifestDoc doc path overrideDisabled forceLoad s) := by
  intro h
  have hload := h (idle (.obj [("Overrides", .obj [])])) spare "/etc/job.json" true false
  have hstate : Manager.overridden spareManifest.label true (.obj [("Overrides", .obj [])]) =
      .ok (.obj [("Overrides", .obj [("job", .obj [("Enabled", .bool true)])])]) := by rfl
  have hdisabled : spareManifest.disabled = true := rfl
  rw [loadManifestDoc_fresh (idle_fresh _), if_pos rfl, bind_ok (overrideJobEnabled_ok hstate (idle_canRename _)),
    accept_disabled hdisabled rfl] at hload
  exact nomatch hload.stateFile

end Relaunchd
