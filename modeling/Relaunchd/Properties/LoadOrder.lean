/-
  Relaunchd.Properties.LoadOrder — a list of manifests is loaded in any order, and booted
  after the last.

  What a load comes to depends on the label it is for and on nothing a load for another
  label changes: whether a job has the label, the override of the label, and whether the
  document has a map of overrides at all. `Ledger.load` is a load over just that; loads for
  different labels commute there, and so do those of the manager, which follow it.
-/

import Relaunchd.Lib.Reorder
import Relaunchd.Properties.Loading
import Relaunchd.Properties.Overrides

namespace Relaunchd

open Prog EventManager Transition

variable {s s' t t' : Sys} {doc doc' : Json} {m : Manifest} {label path : String} {overrideDisabled forceLoad : Bool}

/-! ## What a load depends on -/

/-- What concerns one label: the job that is pending, and the override. -/
structure View where
  pending : Option (Option Job)
  entry : Option Json

def Sys.view (s : Sys) (label : String) : View where
  pending := (s.pendingJobs.lookup label).map fun r => r.bind s.heap
  entry := overrideIn s.stateFile label

structure Stays (s s' : Sys) : Prop where
  state : s'.state = s.state
  jobs : s'.jobs = s.jobs
  keys : ∀ key, key ≠ "Overrides" → member s'.stateFile key = member s.stateFile key
  shape : shapeOf s'.stateFile = shapeOf s.stateFile
  document : s'.stateFile = s.stateFile ∨ HasEntry s'.stateFile

/-- Writing the state file succeeds, and the pending jobs have been allocated. -/
structure Tidy (s : Sys) : Prop where
  renames : false ∉ s.kernel.answers.renames
  allocated : ∀ label r, s.pendingJobs.lookup label = some (some r) → r < s.nextRef

/-- The entry after the override that was asked for; none if that fails. -/
def entryAfter (shape : Shape) (overrideDisabled : Bool) (entry : Option Json) : Option (Option Json) :=
  if overrideDisabled then
    if shape = .map then (newEntry true entry).toOption.map some else none
  else some entry

/-- What a load for a label that no job has comes to: what it returns, none where it throws,
    and what then concerns the label. -/
def outcome (shape : Shape) (m : Manifest) (path : String) (overrideDisabled forceLoad : Bool) (view : View) :
    Option Bool × View :=
  match entryAfter shape overrideDisabled view.entry with
  | none => (none, view)
  | some entry =>
    if m.disabled && !forceLoad then (some false, { view with entry })
    else if shape = .missing then (none, { view with entry })
    else match disabledBy entry false with
      | .error _ => (none, { view with entry })
      | .ok disabled =>
        if disabled && !forceLoad then (some false, { view with entry })
        else (some true, { pending := some (some { manifest := m, manifestPath := path }), entry })

/-- All that a load reads, and all that it changes. -/
structure Ledger where
  state : Manager.States
  jobs : AList (fun _ : String => Ref)
  shape : Shape
  view : String → View

def Sys.ledger (s : Sys) : Ledger where
  state := s.state
  jobs := s.jobs
  shape := shapeOf s.stateFile
  view := s.view

namespace Ledger

def taken (l : Ledger) (label : String) : Bool := (l.jobs.lookup label).isSome || (l.view label).pending.isSome

/-- `loadManifest` of a document: what it returns, none where it throws; no result where it
    ends the program. -/
def load (overrideDisabled forceLoad : Bool) (doc : Json × String) (l : Ledger) : Option (Option Bool × Ledger) :=
  if l.state = .gracefulShutdown then some (some false, l)
  else match Manifest.fromJson doc.1 with
    | .error (.exn _) => some (some false, l)
    | .error (.abort _) => none
    | .ok m =>
      if l.taken m.label then some (some false, l)
      else
        let out := outcome l.shape m doc.2 overrideDisabled forceLoad (l.view m.label)
        some (out.1, { l with view := Function.update l.view m.label out.2 })

end Ledger

/-! ## The document -/

/-- The lookup before a job is admitted. -/
theorem overrideDisables_shape : Manager.overrideDisables label doc =
    if shapeOf doc = .missing then doc.atKey "Overrides" >>= fun _ => .ok false
    else disabledBy (overrideIn doc label) false := by
  rw [overrideDisables_eq]
  cases hm : member doc "Overrides" with
  | none =>
    rw [if_pos (shapeOf_missing.mpr hm)]
    cases ho : doc.atKey "Overrides" with
    | error e => rfl
    | ok overrides => exact nomatch (atKey_member.mp ho).symm.trans hm
  | some overrides =>
    rw [if_neg fun hs => nomatch (shapeOf_missing.mp hs).symm.trans hm]
    exact bind_eq_ok_eq (atKey_member.mpr hm) (by rw [overrideIn_eq hm])

theorem atKey_missing (h : shapeOf doc = .missing) : ∃ w, doc.atKey "Overrides" = .error (.exn w) := by
  cases ho : doc.atKey "Overrides" with
  | ok overrides => exact nomatch (atKey_member.mp ho).symm.trans (shapeOf_missing.mp h)
  | error e => cases e with
    | exn w => exact ⟨w, rfl⟩
    | abort w => exact absurd (Json.atKey_faults _ _ _ ho) (by simp [Json.exceptions])

/-! ## One load -/

/-- A load for the label changes nothing that concerns another. -/
structure Touches (label : String) (s s' : Sys) : Prop where
  stays : Stays s s'
  tidy : Tidy s'
  others : ∀ l, l ≠ label → s'.view l = s.view l

theorem Stays.refl (s : Sys) : Stays s s := ⟨rfl, rfl, fun _ _ => rfl, rfl, .inl rfl⟩

theorem Stays.trans {s'' : Sys} (h : Stays s s') (h' : Stays s' s'') : Stays s s'' := by
  refine ⟨h'.state.trans h.state, h'.jobs.trans h.jobs, fun key hk => (h'.keys key hk).trans (h.keys key hk),
    h'.shape.trans h.shape, ?_⟩
  rcases h'.document with hd | hd
  · rw [hd]
    exact h.document
  · exact .inr hd

theorem Touches.refl (h : Tidy s) : Touches label s s := ⟨.refl s, h, fun _ _ => rfl⟩

theorem Touches.trans {s'' : Sys} (h : Touches label s s') (h' : Touches label s' s'') : Touches label s s'' :=
  ⟨h.stays.trans h'.stays, h'.tidy, fun l hl => (h'.others l hl).trans (h.others l hl)⟩

theorem Tidy.canRename (h : Tidy s) : s.CanRename := by
  unfold Sys.CanRename
  cases hr : s.kernel.answers.renames with
  | nil => rfl
  | cons b rest =>
    cases b with
    | true => rfl
    | false => exact absurd (hr ▸ List.mem_cons_self) h.renames

theorem Tidy.renaming (h : Tidy s) : Tidy s.renaming :=
  ⟨fun hm => h.renames (List.mem_of_mem_tail hm), h.allocated⟩

/-- The override that comes with a load. -/
theorem override_spec (overrideDisabled : Bool) (label : String) (ht : Tidy s) (x : M α) :
    (∃ w s₁, entryAfter (shapeOf s.stateFile) overrideDisabled (s.view label).entry = none ∧
      (if overrideDisabled then Manager.overrideJobEnabled label true >>= fun _ => x else x) s = .throw w s₁ ∧
      Touches label s s₁ ∧ s₁.view label = s.view label) ∨
    ∃ entry s₁, entryAfter (shapeOf s.stateFile) overrideDisabled (s.view label).entry = some entry ∧
      (if overrideDisabled then Manager.overrideJobEnabled label true >>= fun _ => x else x) s = x s₁ ∧
      Touches label s s₁ ∧ s₁.view label = { s.view label with entry } := by
  cases overrideDisabled with
  | false => exact .inr ⟨_, s, rfl, rfl, .refl ht, rfl⟩
  | true =>
    rw [if_pos rfl]
    cases he : entryAfter (shapeOf s.stateFile) true (s.view label).entry with
    | none =>
      have hno : ∀ state, Manager.overridden label true s.stateFile = .ok state → ¬ s.CanRename := fun state hstate =>
        by
        obtain ⟨hmap, entry, hnew, -⟩ := overridden_entry hstate
        have hnew' : newEntry true (s.view label).entry = .ok entry := hnew
        rw [entryAfter, if_pos rfl, if_pos hmap, hnew'] at he
        cases he
      obtain ⟨w, hw | hw⟩ := overrideJobEnabled_fails hno
      · exact .inl ⟨w, s, rfl, bind_throw hw, .refl ht, rfl⟩
      · exact .inl ⟨w, s.renaming, rfl, bind_throw hw, ⟨⟨rfl, rfl, fun _ _ => rfl, rfl, .inl rfl⟩, ht.renaming, fun _ _ => rfl⟩, rfl⟩
    | some entry =>
      have he' := he
      rw [entryAfter, if_pos rfl] at he'
      split at he'
      · rename_i hmap
        obtain ⟨entry', hnew, rfl⟩ := Option.map_eq_some_iff.mp he'
        obtain ⟨entry₁, hnew₁⟩ : ∃ e, newEntry true (s.view label).entry = .ok e := by
          cases hn : newEntry true (s.view label).entry with
          | ok e => exact ⟨e, rfl⟩
          | error e => rw [hn] at hnew; cases hnew
        rw [hnew₁] at hnew
        cases hnew
        obtain ⟨state, hstate, hover, hshape⟩ := overridden_ok hmap hnew₁
        have hsame := overridden_sameBut hstate
        refine .inr ⟨some entry', s.stores label true state, rfl, bind_ok (overrideJobEnabled_ok hstate ht.canRename), ?_, ?_⟩
        · exact ⟨⟨rfl, rfl, hsame.keys, hshape.trans hmap.symm, .inr ⟨label, hover ▸ rfl⟩⟩, ⟨ht.renaming.renames, ht.allocated⟩,
            fun l hl => congrArg (View.mk _) (hsame.overrides l hl)⟩
        · exact congrArg (View.mk _) hover
      · cases he'

theorem Tidy.pends (h : Tidy s) (hn : s.pendingJobs.lookup m.label = none) :
    Touches m.label s (s.pends m path) ∧
      (s.pends m path).view m.label = { s.view m.label with pending := some (some { manifest := m, manifestPath := path }) } := by
  have hlookup : ∀ l, (s.pends m path).pendingJobs.lookup l =
      if l = m.label then some (some s.nextRef) else s.pendingJobs.lookup l := fun l => by
    show (insertNew m.label (some s.nextRef) s.pendingJobs).lookup l = _
    rw [lookup_insertNew, hn]
    rfl
  refine ⟨⟨⟨rfl, rfl, fun _ _ => rfl, rfl, .inl rfl⟩, ⟨h.renames, fun l r hr => ?_⟩, fun l hl => ?_⟩, ?_⟩
  · rw [hlookup] at hr
    split at hr
    · cases hr
      exact Nat.lt_succ_self _
    · exact Nat.lt_succ_of_lt (h.allocated l r hr)
  · rw [Sys.view, hlookup, if_neg hl]
    show View.mk _ _ = View.mk _ _
    congr 1
    cases hr : s.pendingJobs.lookup l with
    | none => rfl
    | some p => cases p with
      | none => rfl
      | some r =>
        have hne : r ≠ s.nextRef := Nat.ne_of_lt (h.allocated l r hr)
        exact congrArg some (Function.update_of_ne hne ..)
  · rw [Sys.view, hlookup, if_pos rfl]
    show View.mk _ _ = View.mk _ _
    congr 1
    exact congrArg some (Function.update_self ..)

theorem Touches.ledger {v : View} (h : Touches label s s') (hv : s'.view label = v) :
    s'.ledger = { s.ledger with view := Function.update s.view label v } := by
  have hview : s'.view = Function.update s.view label v := by
    funext l
    by_cases e : l = label
    · rw [e, hv, Function.update_self]
    · rw [h.others l e, Function.update_of_ne e]
  rw [Sys.ledger, h.stays.state, h.stays.jobs, h.stays.shape, hview]
  rfl

/-- A document that is loaded, and what it comes to: none where the load throws. -/
def loadDoc (overrideDisabled forceLoad : Bool) (doc : Json × String) : M (Option Bool) :=
  tryCatch (do return some (← Manager.loadManifestDoc doc.1 doc.2 overrideDisabled forceLoad)) fun _ => return none

def Sys.outcome (s : Sys) (m : Manifest) (path : String) (overrideDisabled forceLoad : Bool) : Option Bool × View :=
  Relaunchd.outcome (shapeOf s.stateFile) m path overrideDisabled forceLoad (s.view m.label)

theorem loadDoc_ok {b : Bool} (h : Manager.loadManifestDoc doc path overrideDisabled forceLoad s = .ok b s') :
    loadDoc overrideDisabled forceLoad (doc, path) s = .ok (some b) s' := by
  have hrun : (Manager.loadManifestDoc doc path overrideDisabled forceLoad >>= fun b => pure (some b)) s = .ok (some b) s' :=
    bind_ok h
  unfold loadDoc Prog.tryCatch
  dsimp only
  rw [hrun]

theorem loadDoc_throw {w : String} (h : Manager.loadManifestDoc doc path overrideDisabled forceLoad s = .throw w s') :
    loadDoc overrideDisabled forceLoad (doc, path) s = .ok none s' := by
  have hrun : (Manager.loadManifestDoc doc path overrideDisabled forceLoad >>= fun b => pure (some b)) s = .throw w s' :=
    bind_throw h
  unfold loadDoc Prog.tryCatch
  dsimp only
  rw [hrun]
  rfl

/-- A load for a label that no job has. -/
theorem loadDoc_fresh (ht : Tidy s) (h : Fresh s doc m) :
    ∃ s', loadDoc overrideDisabled forceLoad (doc, path) s = .ok (s.outcome m path overrideDisabled forceLoad).1 s' ∧
      Touches m.label s s' ∧ s'.view m.label = (s.outcome m path overrideDisabled forceLoad).2 := by
  have hload : Manager.loadManifestDoc doc path overrideDisabled forceLoad s =
      (if overrideDisabled then Manager.overrideJobEnabled m.label true >>= fun _ => accept m path forceLoad
        else accept m path forceLoad) s := loadManifestDoc_fresh h
  rw [Sys.outcome, Relaunchd.outcome]
  rcases override_spec overrideDisabled m.label ht (accept m path forceLoad) with
    ⟨w, s₁, he, hrun, htouch, hview⟩ | ⟨entry, s₁, he, hrun, htouch, hview⟩
  · rw [he]
    exact ⟨s₁, loadDoc_throw (hload.trans hrun), htouch, hview⟩
  rw [he]
  dsimp only
  have hshape : shapeOf s₁.stateFile = shapeOf s.stateFile := htouch.stays.shape
  have hentry : overrideIn s₁.stateFile m.label = entry := congrArg View.entry hview
  have haccept : ∀ {r}, accept m path forceLoad s₁ = r → Manager.loadManifestDoc doc path overrideDisabled forceLoad s = r :=
    fun hr => (hload.trans hrun).trans hr
  by_cases hd : (m.disabled && !forceLoad) = true
  · rw [if_pos hd]
    simp only [Bool.and_eq_true, Bool.not_eq_true'] at hd
    exact ⟨s₁, loadDoc_ok (haccept (accept_disabled hd.1 hd.2)), htouch, hview⟩
  rw [if_neg hd]
  have hd' : m.disabled = true → forceLoad = true := by simpa using hd
  have hrest : accept m path forceLoad s₁ = _ := accept_eq hd'
  rw [overrideDisables_shape, hshape, hentry] at hrest
  by_cases hm : shapeOf s.stateFile = .missing
  · rw [if_pos hm] at hrest ⊢
    obtain ⟨w, hw⟩ := atKey_missing (hshape.trans hm)
    rw [hw] at hrest
    exact ⟨s₁, loadDoc_throw (haccept hrest), htouch, hview⟩
  rw [if_neg hm] at hrest ⊢
  cases hdis : disabledBy entry false with
  | error e =>
    rw [hdis] at hrest
    cases e with
    | exn w => exact ⟨s₁, loadDoc_throw (haccept hrest), htouch, hview⟩
    | abort w => exact absurd (disabledBy_faults _ _ _ hdis) (by simp [Json.exceptions])
  | ok disabled =>
    rw [hdis] at hrest
    dsimp only at hrest ⊢
    by_cases hforce : (disabled && !forceLoad) = true
    · rw [if_pos hforce] at hrest ⊢
      exact ⟨s₁, loadDoc_ok (haccept hrest), htouch, hview⟩
    · rw [if_neg hforce] at hrest ⊢
      have hnone : s₁.pendingJobs.lookup m.label = none := by
        have hp := congrArg View.pending hview
        rw [show (s.view m.label).pending = none by rw [Sys.view, h.pending]; rfl] at hp
        exact Option.map_eq_none_iff.mp hp
      obtain ⟨hpends, hpendsView⟩ : Touches m.label s₁ (s₁.pends m path) ∧ _ := htouch.tidy.pends hnone
      refine ⟨_, loadDoc_ok (haccept hrest), htouch.trans hpends, hpendsView.trans ?_⟩
      rw [hview]

/-- A load follows the ledger. -/
theorem loadDoc_spec (overrideDisabled forceLoad : Bool) (ht : Tidy s) (d : Json × String) :
    match s.ledger.load overrideDisabled forceLoad d with
    | none => ∃ w, loadDoc overrideDisabled forceLoad d s = .crash w
    | some (r, l) => ∃ s', loadDoc overrideDisabled forceLoad d s = .ok r s' ∧ s'.ledger = l ∧ Stays s s' ∧ Tidy s' := by
  obtain ⟨doc, path⟩ := d
  have hunfit : Unfit s doc → ∃ s', loadDoc overrideDisabled forceLoad (doc, path) s = .ok (some false) s' ∧
      s'.ledger = s.ledger ∧ Stays s s' ∧ Tidy s' := fun hu =>
    ⟨s, loadDoc_ok (loadManifestDoc_unfit hu), rfl, .refl s, ht⟩
  have htaken : ∀ label, s.ledger.taken label = ((s.jobs.lookup label).isSome || (s.pendingJobs.lookup label).isSome) :=
    fun label => congrArg (_ || ·) (Option.isSome_map ..)
  rw [Ledger.load]
  by_cases hg : s.state = .gracefulShutdown
  · rw [if_pos (show s.ledger.state = _ from hg)]
    exact hunfit (.stopping hg)
  rw [if_neg (show ¬ s.ledger.state = _ from hg)]
  dsimp only
  cases hm : Manifest.fromJson doc with
  | error e => cases e with
    | exn w => exact hunfit (.malformed w hm)
    | abort w =>
      have hrun : (Manager.loadManifestDoc doc path overrideDisabled forceLoad >>= fun b => pure (some b)) s = .crash w :=
        bind_crash (loadManifestDoc_abort hg hm)
      refine ⟨w, ?_⟩
      unfold loadDoc Prog.tryCatch
      dsimp only
      rw [hrun]
  | ok m =>
    dsimp only
    rw [htaken]
    by_cases hdup : ((s.jobs.lookup m.label).isSome || (s.pendingJobs.lookup m.label).isSome) = true
    · rw [if_pos hdup]
      exact hunfit (.duplicate m hm (by simpa using hdup))
    · rw [if_neg hdup]
      simp only [Bool.or_eq_true, not_or, Option.not_isSome_iff_eq_none] at hdup
      have hf : Fresh s doc m := ⟨hg, hm, hdup.1, hdup.2⟩
      obtain ⟨s', hrun, htouch, hview⟩ : ∃ s', loadDoc overrideDisabled forceLoad (doc, path) s =
          .ok (s.outcome m path overrideDisabled forceLoad).1 s' ∧ Touches m.label s s' ∧
          s'.view m.label = (s.outcome m path overrideDisabled forceLoad).2 := loadDoc_fresh ht hf
      exact ⟨s', hrun, htouch.ledger hview, htouch.stays, htouch.tidy⟩

/-! ## Loads for different labels -/

namespace Ledger

variable {l : Ledger} {d d' : Json × String} {v : View}

def sees (l : Ledger) (label : String) (v : View) : Ledger := { l with view := Function.update l.view label v }

inductive Refuses (l : Ledger) (d : Json × String) : Prop
  | stopping : l.state = .gracefulShutdown → Refuses l d
  | malformed (w : String) : Manifest.fromJson d.1 = .error (.exn w) → Refuses l d
  | duplicate (m : Manifest) : Manifest.fromJson d.1 = .ok m → l.taken m.label = true → Refuses l d

structure Takes (l : Ledger) (d : Json × String) (m : Manifest) : Prop where
  running : l.state ≠ .gracefulShutdown
  decoded : Manifest.fromJson d.1 = .ok m
  free : l.taken m.label = false

theorem load_refused (h : l.Refuses d) : l.load overrideDisabled forceLoad d = some (some false, l) := by
  rw [load]
  split
  · rfl
  rename_i hg
  cases h with
  | stopping hs => exact absurd hs hg
  | malformed w hw => rw [hw]
  | duplicate m hm ht =>
    rw [hm]
    exact if_pos ht

theorem load_taken (h : l.Takes d m) : l.load overrideDisabled forceLoad d =
    some ((outcome l.shape m d.2 overrideDisabled forceLoad (l.view m.label)).1,
      l.sees m.label (outcome l.shape m d.2 overrideDisabled forceLoad (l.view m.label)).2) := by
  rw [load, if_neg h.running, h.decoded]
  exact if_neg (by rw [h.free]; exact Bool.false_ne_true)

theorem load_cases {p : Option Bool × Ledger} (h : l.load overrideDisabled forceLoad d = some p) :
    l.Refuses d ∨ ∃ m, l.Takes d m := by
  rw [load] at h
  by_cases hg : l.state = .gracefulShutdown
  · exact .inl (.stopping hg)
  rw [if_neg hg] at h
  cases hm : Manifest.fromJson d.1 with
  | error e => cases e with
    | exn w => exact .inl (.malformed w hm)
    | abort w => rw [hm] at h; cases h
  | ok m =>
    cases ht : l.taken m.label with
    | true => exact .inl (.duplicate m hm ht)
    | false => exact .inr ⟨m, hg, hm, ht⟩

/-- The labels of the two documents differ. -/
def Apart (d d' : Json × String) : Prop :=
  ∀ m m', Manifest.fromJson d.1 = .ok m → Manifest.fromJson d'.1 = .ok m' → m.label ≠ m'.label

theorem Apart.symm (h : Apart d d') : Apart d' d := fun m m' hm hm' e => h m' m hm' hm e.symm

theorem sees_view (hl : label ≠ m.label) : (l.sees label v).view m.label = l.view m.label :=
  Function.update_of_ne (Ne.symm hl) ..

theorem sees_taken (hl : label ≠ m.label) : (l.sees label v).taken m.label = l.taken m.label := by
  rw [taken, taken, sees_view hl]
  rfl

theorem sees_refuses (hl : ∀ m, Manifest.fromJson d.1 = .ok m → label ≠ m.label) :
    (l.sees label v).Refuses d ↔ l.Refuses d := by
  constructor
  · intro h
    cases h with
    | stopping hs => exact .stopping hs
    | malformed w hw => exact .malformed w hw
    | duplicate m hm ht => exact .duplicate m hm (sees_taken (hl m hm) ▸ ht)
  · intro h
    cases h with
    | stopping hs => exact .stopping hs
    | malformed w hw => exact .malformed w hw
    | duplicate m hm ht => exact .duplicate m hm ((sees_taken (hl m hm)).trans ht)

theorem sees_takes (hl : label ≠ m.label) : (l.sees label v).Takes d m ↔ l.Takes d m :=
  ⟨fun h => ⟨h.running, h.decoded, (sees_taken hl).symm.trans h.free⟩,
    fun h => ⟨h.running, h.decoded, (sees_taken hl).trans h.free⟩⟩

theorem sees_comm {label' : String} {v' : View} (hl : label ≠ label') :
    (l.sees label v).sees label' v' = (l.sees label' v').sees label v := by
  simp only [sees, Function.update_comm hl]

theorem load_commutes (h : Apart d d') : Reorder.Commutes (load overrideDisabled forceLoad) d d' := by
  intro l r l₁ r' l₂ hd hd'
  rcases load_cases hd with hr | ⟨m, hm⟩
  · obtain ⟨rfl, rfl⟩ : some false = r ∧ l = l₁ := by simpa using (load_refused hr).symm.trans hd
    rcases load_cases hd' with hr' | ⟨m', hm'⟩
    · obtain ⟨rfl, rfl⟩ : some false = r' ∧ l = l₂ := by simpa using (load_refused hr').symm.trans hd'
      exact ⟨l, load_refused hr', load_refused hr⟩
    · refine ⟨l₂, hd', ?_⟩
      obtain ⟨-, rfl⟩ : _ ∧ l.sees m'.label _ = l₂ := by simpa using (load_taken hm').symm.trans hd'
      exact load_refused ((sees_refuses fun m hm => Ne.symm (h m m' hm hm'.decoded)).mpr hr)
  · obtain ⟨rfl, rfl⟩ : _ = r ∧ l.sees m.label _ = l₁ := by simpa using (load_taken hm).symm.trans hd
    rcases load_cases hd' with hr' | ⟨m', hm'⟩
    · obtain ⟨rfl, rfl⟩ : some false = r' ∧ _ = l₂ := by simpa using (load_refused hr').symm.trans hd'
      exact ⟨l, load_refused ((sees_refuses fun m' hm' => h m m' hm.decoded hm').mp hr'), load_taken hm⟩
    · have hne : m.label ≠ m'.label := h m m' hm.decoded hm'.decoded
      obtain ⟨rfl, rfl⟩ : _ = r' ∧ Ledger.sees _ m'.label _ = l₂ := by simpa using (load_taken hm').symm.trans hd'
      rw [sees_view hne]
      refine ⟨_, load_taken ((sees_takes hne).mp hm'), ?_⟩
      rw [load_taken ((sees_takes (Ne.symm hne)).mpr hm), sees_view (Ne.symm hne)]
      exact congrArg some (Prod.ext rfl (sees_comm (Ne.symm hne)))

end Ledger

/-! ## A list of loads -/

/-- One document is loaded after the other; what each comes to. -/
def loadDocs (overrideDisabled forceLoad : Bool) : List (Json × String) → M (List (Option Bool))
  | [] => return []
  | d :: ds => do
    let r ← loadDoc overrideDisabled forceLoad d
    let rs ← loadDocs overrideDisabled forceLoad ds
    return r :: rs

theorem loadDocs_spec (overrideDisabled forceLoad : Bool) (ht : Tidy s) (ds : List (Json × String)) :
    match Reorder.runAll (Ledger.load overrideDisabled forceLoad) ds s.ledger with
    | none => ∃ w, loadDocs overrideDisabled forceLoad ds s = .crash w
    | some (rs, l) => ∃ s', loadDocs overrideDisabled forceLoad ds s = .ok rs s' ∧ s'.ledger = l ∧ Stays s s' := by
  induction ds generalizing s with
  | nil => exact ⟨s, rfl, rfl, .refl s⟩
  | cons d ds ih =>
    have hd := loadDoc_spec overrideDisabled forceLoad ht d
    rw [Reorder.runAll]
    cases hl : s.ledger.load overrideDisabled forceLoad d with
    | none =>
      rw [hl] at hd
      obtain ⟨w, hw⟩ := hd
      exact ⟨w, bind_crash hw⟩
    | some p =>
      rw [hl] at hd
      obtain ⟨s₁, hrun, hledger, hstays, htidy⟩ := hd
      have hrest := ih htidy
      rw [hledger] at hrest
      dsimp only
      cases hr : Reorder.runAll (Ledger.load overrideDisabled forceLoad) ds p.2 with
      | none =>
        rw [hr] at hrest
        obtain ⟨w, hw⟩ := hrest
        exact ⟨w, (bind_ok hrun).trans (bind_crash hw)⟩
      | some q =>
        rw [hr] at hrest
        obtain ⟨s₂, hrun', hledger', hstays'⟩ := hrest
        exact ⟨s₂, (bind_ok hrun).trans (bind_ok hrun'), hledger', hstays.trans hstays'⟩

/-- What loads have made of one document is the same once every override is. -/
theorem Stays.same (h : Stays s t) (h' : Stays s t') (hview : t.view = t'.view) : Json.Same t.stateFile t'.stateFile :=
  Rewritten.same ⟨h.keys, h.document⟩ ⟨h'.keys, h'.document⟩ fun label => congrArg View.entry (congrFun hview label)

/-! ## What a request loads before it boots -/

/-- No job was booted: the loaded jobs are as they were, and new ones wait. -/
structure Unbooted (s s' : Sys) : Prop where
  jobs : s'.jobs = s.jobs
  starts : s'.starts = s.starts
  procs : s'.kernel.procs = s.kernel.procs
  eventmgr : s'.eventmgr = s.eventmgr
  nextRef : s.nextRef ≤ s'.nextRef
  heap : ∀ r, s'.heap r = s.heap r ∨
    s.nextRef ≤ r ∧ ∃ manifest path, s'.heap r = some { manifest, manifestPath := path }

theorem Unbooted.refl (s : Sys) : Unbooted s s := ⟨rfl, rfl, rfl, rfl, le_rfl, fun _ => .inl rfl⟩

theorem Unbooted.trans {s'' : Sys} (h : Unbooted s s') (h' : Unbooted s' s'') : Unbooted s s'' := by
  refine ⟨h'.jobs.trans h.jobs, h'.starts.trans h.starts, h'.procs.trans h.procs, h'.eventmgr.trans h.eventmgr,
    h.nextRef.trans h'.nextRef, fun r => ?_⟩
  rcases h'.heap r with e | ⟨hr, hnew⟩
  · rw [e]
    exact h.heap r
  · exact .inr ⟨h.nextRef.trans hr, hnew⟩

abbrev Defers (x : M α) : Prop := Within (fun _ => True) Unbooted x

namespace Defers

theorem bind {x : M α} {f : α → M β} (hx : Defers x) (hf : ∀ a, Defers (f a)) : Defers (x >>= f) :=
  Within.bind (fun _ _ _ _ => trivial) (fun _ _ _ h h' => h.trans h') hx hf

theorem catches {x : M α} {h : String → M α} (hx : Defers x) (hh : ∀ w, Defers (h w)) : Defers (tryCatch x h) :=
  Within.tryCatch (fun _ _ _ _ => trivial) (fun _ _ _ h h' => h.trans h') hx hh

theorem same {x : M α} (h : ∀ s, wp x (fun _ s' => s' = s) (fun s' => s' = s) s) : Defers x :=
  Within.of_same (fun _ _ => .refl _) h

theorem done (a : α) : Defers (pure a) := same fun _ => rfl

theorem throws (w : String) : Defers (throw w : M α) := same fun _ => rfl

theorem readsAll : Defers (get : M Sys) := same fun _ => rfl

theorem decodes (d : Decode α) : Defers (ofDecode d) := same fun _ => wp_ofDecode (fun _ _ => rfl) fun _ _ => rfl

theorem overrideJobEnabled (label : String) (enabled : Bool) : Defers (Manager.overrideJobEnabled label enabled) := by
  intro s _
  by_cases h : ∃ state, Manager.overridden label enabled s.stateFile = .ok state ∧ s.CanRename
  · obtain ⟨state, hstate, hr⟩ := h
    rw [wp, overrideJobEnabled_ok hstate hr]
    exact ⟨rfl, rfl, rfl, rfl, le_rfl, fun _ => .inl rfl⟩
  · obtain ⟨w, hw | hw⟩ := overrideJobEnabled_fails fun state hstate hr => h ⟨state, hstate, hr⟩
    · rw [wp, hw]
      exact .refl s
    · rw [wp, hw]
      exact ⟨rfl, rfl, rfl, rfl, le_rfl, fun _ => .inl rfl⟩

theorem addPending (m : Manifest) (path : String) : Defers (Manager.addPending m path) := by
  intro s _
  refine ⟨rfl, rfl, rfl, rfl, Nat.le_succ _, fun r => ?_⟩
  by_cases e : r = s.nextRef
  · subst e
    exact .inr ⟨le_rfl, m, path, Function.update_self ..⟩
  · exact .inl (Function.update_of_ne e ..)

theorem accept (m : Manifest) (path : String) (forceLoad : Bool) : Defers (accept m path forceLoad) := by
  unfold Relaunchd.accept
  split
  · exact done _
  · refine readsAll.bind fun _ => (decodes _).bind fun _ => ?_
    split
    · exact done _
    · exact (addPending m path).bind fun _ => done _

theorem loadManifestDoc (doc : Json) (path : String) (overrideDisabled forceLoad : Bool) :
    Defers (Manager.loadManifestDoc doc path overrideDisabled forceLoad) := by
  intro s _
  rcases unfit_or_fresh s doc with hu | ⟨m, hf⟩ | ⟨hg, w, hw⟩
  · rw [wp, loadManifestDoc_unfit hu]
    exact .refl s
  · rw [wp, loadManifestDoc_fresh hf]
    cases overrideDisabled with
    | false => exact accept m path forceLoad s trivial
    | true => exact (overrideJobEnabled m.label true).bind (fun _ => accept m path forceLoad) s trivial
  · rw [wp, loadManifestDoc_abort hg hw]
    trivial

theorem loadOne (path : String) (overrideDisabled forceLoad : Bool) : Defers (Manager.loadOne path overrideDisabled forceLoad) := by
  refine .catches (.bind (.bind ?_ fun _ => loadManifestDoc _ _ _ _) fun _ => done _) fun _ => done _
  unfold Manifest.parse
  split
  · refine readsAll.bind fun _ => ?_
    split
    · exact done _
    · exact throws _
  · exact throws _

theorem loadEach (overrideDisabled forceLoad error : Bool) (entries : List String) :
    Defers (Manager.loadEach overrideDisabled forceLoad error entries) := by
  induction entries generalizing error with
  | nil => exact done _
  | cons file rest ih => exact (loadOne _ _ _).bind fun _ => ih _

theorem loadAllManifests (path : String) (overrideDisabled forceLoad : Bool) :
    Defers (Manager.loadAllManifests path overrideDisabled forceLoad) := by
  refine readsAll.bind fun s => ?_
  split
  · exact done _
  · refine readsAll.bind fun s => ?_
    split
    · exact done _
    · exact loadEach _ _ _ _
    · exact loadOne _ _ _

theorem loadPaths (overrideDisabled forceLoad error : Bool) (paths : List Json) :
    Defers (Rpc.loadPaths overrideDisabled forceLoad error paths) := by
  induction paths generalizing error with
  | nil => exact done _
  | cons path rest ih => exact (decodes _).bind fun _ => (loadAllManifests _ _ _).bind fun _ => ih _

end Defers

def loadsOf (args : Json) : M Bool := do
  let forceLoad ← ofDecode (Rpc.argument args "Force" >>= Json.getBool)
  let overrideDisabled ← ofDecode (Rpc.argument args "OverrideDisabled" >>= Json.getBool)
  let paths ← ofDecode (Rpc.argument args "Paths")
  Rpc.loadPaths overrideDisabled forceLoad false paths.elements

/-- A load request first loads every document, which boots no job, and then boots the pending
    jobs. -/
structure BootsLast (args : Json) : Prop where
  loads : Defers (loadsOf args)
  boots : Rpc.opLoad args = (loadsOf args >>= fun error => Manager.startLoaded >>= fun _ => pure (Rpc.errorReply error))

theorem bootsLast (args : Json) : BootsLast args := by
  refine ⟨(Defers.decodes _).bind fun _ => (Defers.decodes _).bind fun _ => (Defers.decodes _).bind fun _ => .loadPaths _ _ _ _, ?_⟩
  unfold Rpc.opLoad loadsOf
  simp only [Prog.bind_assoc]

/-- The same jobs are pending, and the same document is stored. -/
structure SameLoads (s s' : Sys) : Prop where
  jobs : s.jobs = s'.jobs
  pendingJobs : ∀ label, (s.view label).pending = (s'.view label).pending
  stateFile : Json.Same s.stateFile s'.stateFile

/-- Manifests with different labels are loaded in any order, to the same effect and with the
    same results, and a load request boots no job before the last of them. -/
theorem loads_commute (h : Reachable s) {answers : Answers} (hr : false ∉ answers.renames) {ds ds' : List (Json × String)}
    (hd : ds.Pairwise Ledger.Apart) (hp : ds.Perm ds') :
    (∀ rs s₁, loadDocs overrideDisabled forceLoad ds (s.given answers) = .ok rs s₁ →
      ∃ rs' s₂, loadDocs overrideDisabled forceLoad ds' (s.given answers) = .ok rs' s₂ ∧ rs.Perm rs' ∧ SameLoads s₁ s₂) ∧
    ∀ args, BootsLast args := by
  refine ⟨fun rs s₁ hrun => ?_, bootsLast⟩
  have ht : Tidy (s.given answers) := ⟨hr, fun label r hr => (reachable_keyed h label r (.inr hr)).1⟩
  obtain ⟨hrun₁, hstays₁⟩ : Reorder.runAll (Ledger.load overrideDisabled forceLoad) ds (s.given answers).ledger = some (rs, s₁.ledger) ∧
      Stays (s.given answers) s₁ := by
    have hspec := loadDocs_spec overrideDisabled forceLoad ht ds
    cases hl : Reorder.runAll (Ledger.load overrideDisabled forceLoad) ds (s.given answers).ledger with
    | none =>
      rw [hl] at hspec
      obtain ⟨w, hw⟩ := hspec
      cases hw.symm.trans hrun
    | some p =>
      rw [hl] at hspec
      obtain ⟨s', hrun', hledger, hstays⟩ := hspec
      cases hrun'.symm.trans hrun
      exact ⟨by rw [hledger], hstays⟩
  have hcomm : ds.Pairwise fun d d' => Reorder.Commutes (Ledger.load overrideDisabled forceLoad) d d' ∧
      Reorder.Commutes (Ledger.load overrideDisabled forceLoad) d' d :=
    hd.imp fun ha => ⟨Ledger.load_commutes ha, Ledger.load_commutes ha.symm⟩
  obtain ⟨rs', hperm, hrun₂⟩ := Reorder.runAll_perm hp hcomm hrun₁
  have hspec := loadDocs_spec overrideDisabled forceLoad ht ds'
  rw [hrun₂] at hspec
  obtain ⟨s₂, hrun', hledger, hstays₂⟩ := hspec
  have hview : s₁.view = s₂.view := congrArg Ledger.view hledger.symm
  exact ⟨rs', s₂, hrun', hperm, hstays₁.jobs.trans hstays₂.jobs.symm, fun label => by rw [hview], hstays₁.same hstays₂ hview⟩

def jobManifest : Json × String := (manifestWith [], "job.json")

def otherManifest : Json × String := (.obj [("Label", .str "other"), ("Program", .str "/bin/other")], "other.json")

theorem manifests_apart : Ledger.Apart jobManifest otherManifest := by
  intro m m' hm hm' e
  have hjob : (Manifest.fromJson jobManifest.1).toOption.map (·.label) = some "job" := by decide
  have hother : (Manifest.fromJson otherManifest.1).toOption.map (·.label) = some "other" := by decide
  rw [hm] at hjob
  rw [hm'] at hother
  have hlabel : m.label = "job" := Option.some.inj hjob
  have hlabel' : m'.label = "other" := Option.some.inj hother
  rw [hlabel, hlabel'] at e
  exact absurd e (by decide)

/-- Two manifests are loaded either way. -/
theorem two_loads_commute : ∃ rs s', loadDocs false false [otherManifest, jobManifest] (newManager.given {}) = .ok rs s' ∧
    rs.Perm [some true, some true] := by
  have hrenames : false ∉ ({} : Answers).renames := List.not_mem_nil
  obtain ⟨s₁, hrun₁⟩ : ∃ s₁, loadDocs false false [jobManifest, otherManifest] (newManager.given {}) =
      .ok [some true, some true] s₁ := ⟨_, rfl⟩
  obtain ⟨rs', s', hrun, hperm, -⟩ := (loads_commute (.init init_newManager) hrenames (List.pairwise_pair.mpr manifests_apart)
    (.swap otherManifest jobManifest [])).1 _ s₁ hrun₁
  exact ⟨rs', s', hrun, hperm.symm⟩

end Relaunchd
