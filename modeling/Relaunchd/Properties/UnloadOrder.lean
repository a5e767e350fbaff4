/-
  Relaunchd.Properties.UnloadOrder — an unload request whose paths, or whose directories'
  entries, come in another order.

  The loops over the entries of a directory and over the paths stop at the first unload
  that fails, so what comes after it is left out. Where every unload succeeds, what a
  request comes to is told by the set of labels it lists, in whatever order.
-/

import Relaunchd.Properties.Refusals

namespace Relaunchd

open Prog EventManager Transition

variable {s s' t : Sys} {r : Ref} {j : Job} {label : String} {labels : List String} {force overrideDisabled : Bool}
  {files files' : String → Node}

/-! ## One unload -/

/-- What an unload leaves alone once nothing refuses it. -/
structure Kept (r : Ref) (s s' : Sys) : Prop where
  state : s'.state = s.state
  jobs : s'.jobs = s.jobs
  stateFile : s'.stateFile = s.stateFile
  overrides : s'.overrides = s.overrides
  files : s'.kernel.answers.files = s.kernel.answers.files
  renames : s'.kernel.answers.renames = s.kernel.answers.renames
  heap : ∀ r', r' ≠ r → s'.heap r' = s.heap r'
  asked : ∀ j, s.heap r = some j → ∃ j', s'.heap r = some j' ∧ j'.unloadRequested = j.unloadRequested

theorem Kept.refl (r : Ref) (s : Sys) : Kept r s s := ⟨rfl, rfl, rfl, rfl, rfl, rfl, fun _ _ => rfl, fun j hj => ⟨j, hj, rfl⟩⟩

theorem Kept.trans {s'' : Sys} (h : Kept r s s') (h' : Kept r s' s'') : Kept r s s'' := by
  refine ⟨h'.state.trans h.state, h'.jobs.trans h.jobs, h'.stateFile.trans h.stateFile, h'.overrides.trans h.overrides,
    h'.files.trans h.files, h'.renames.trans h.renames, fun r' hr => (h'.heap r' hr).trans (h.heap r' hr), fun j hj => ?_⟩
  obtain ⟨j₁, hj₁, hu₁⟩ := h.asked j hj
  obtain ⟨j₂, hj₂, hu₂⟩ := h'.asked j₁ hj₁
  exact ⟨j₂, hj₂, hu₂.trans hu₁⟩

theorem Kept.updateJob (r : Ref) (s : Sys) {f : Job → Job} (hf : ∀ j, (f j).unloadRequested = j.unloadRequested) :
    Kept r s (s.updateJob r f) :=
  ⟨rfl, rfl, rfl, rfl, rfl, rfl, fun _ hr => Function.update_of_ne hr _ _, fun j hj => ⟨f j, Sys.updateJob_self hj, hf j⟩⟩

theorem Kept.submits (r : Ref) (s : Sys) (method arg : String) :
    ∃ s', submitIpcCallback method arg s = .ok () s' ∧ Kept r s s' ∧ s'.heap = s.heap :=
  ⟨_, rfl, ⟨rfl, rfl, rfl, rfl, rfl, rfl, fun _ _ => rfl, fun j hj => ⟨j, hj, rfl⟩⟩, rfl⟩

theorem killJob_ok (hj : s.heap r = some j) (signum : Int) : ∃ sent s', Job.killJob r signum s = .ok sent s' ∧ Kept r s s' := by
  rw [Job.killJob, bind_ok (this_ok hj)]
  by_cases hp : j.pid = 0
  · rw [if_pos hp]
    exact ⟨true, s, rfl, .refl r s⟩
  · rw [if_neg hp]
    exact ⟨_, _, rfl, rfl, rfl, rfl, rfl, rfl, rfl, fun _ _ => rfl, fun j hj => ⟨j, hj, rfl⟩⟩

theorem terminate_ok (hj : s.heap r = some j) : ∃ s', Job.terminate r s = .ok () s' ∧ Kept r s s' := by
  obtain ⟨sent, s₁, hkill, hkept⟩ := killJob_ok hj SIGTERM
  rw [Job.terminate, bind_ok hkill]
  exact ⟨_, rfl, hkept.trans (.updateJob r s₁ fun j => by split <;> rfl)⟩

theorem submitDelete_ok (hj : s.heap r = some j) : ∃ s', Job.submitDelete r s = .ok () s' ∧ Kept r s s' := by
  obtain ⟨s', hs', hkept, -⟩ := Kept.submits r s "delete_job" j.label
  exact ⟨s', (bind_ok (this_ok hj)).trans hs', hkept⟩

/-- A transition that is taken. -/
theorem taken_ok {action : M Unit} {state : Job.States} (h : ∃ s', action s = .ok () s' ∧ Kept r s s') :
    ∃ s', ((action >>= fun _ => setJob r (fun j => { j with state }) >>= fun _ => pure Fsm.Status.success) >>= fun _ => pure ()) s =
      .ok () s' ∧ Kept r s s' := by
  obtain ⟨s₁, haction, hkept⟩ := h
  refine ⟨s₁.updateJob r fun j => { j with state }, ?_, hkept.trans (.updateJob r s₁ fun _ => rfl)⟩
  rw [Prog.bind_assoc, bind_ok haction]
  rfl

theorem stopRequested_ok (hj : s.heap r = some j) : ∃ s', Job.execute r .stopRequested s = .ok () s' ∧ Kept r s s' := by
  rw [Job.execute, executeNested_eq hj]
  cases hs : j.state with
  | running => exact taken_ok (terminate_ok hj)
  | loaded | waiting | exited | unloaded => exact ⟨s, rfl, .refl r s⟩

theorem unloadRequested_ok (hj : s.heap r = some j) (hw : ¬ (j.state = .waiting ∧ j.timerId.isSome)) :
    ∃ s', Job.execute r .unloadRequested s = .ok () s' ∧ Kept r s s' := by
  rw [Job.execute, executeNested_eq hj]
  cases hs : j.state with
  | loaded | exited => exact taken_ok (submitDelete_ok hj)
  | waiting =>
    have hnone : j.timerId.isSome = false := Bool.eq_false_iff.mpr fun h => hw ⟨hs, h⟩
    have hcancel : Job.cancelTimerIfSet r s = .ok () s := by
      rw [Job.cancelTimerIfSet, bind_ok (this_ok hj), hnone]
      rfl
    obtain ⟨s', hsubmit, hkept⟩ := submitDelete_ok hj
    have haction : (Job.cancelTimerIfSet r >>= fun _ => Job.submitDelete r) s = .ok () s' := (bind_ok hcancel).trans hsubmit
    exact taken_ok ⟨s', haction, hkept⟩
  | running | unloaded => exact ⟨s, rfl, .refl r s⟩

theorem carryOut_ok (hj : s.heap r = some j) (hw : ¬ (j.state = .waiting ∧ j.timerId.isSome)) :
    ∃ s', carryOut r s = .ok true s' ∧ Kept r s s' := by
  obtain ⟨s₁, hstop, hkept₁⟩ := stopRequested_ok hj
  have hframe : wp (Job.execute r .stopRequested) (fun _ s' => ∃ j', s'.heap r = some j' ∧ j'.state = j.state ∧
      j'.timerId = j.timerId) (fun _ => True) s := stopRequested_frame hj
  obtain ⟨j₁, hj₁, hs₁, ht₁⟩ := wp_ok hframe hstop
  obtain ⟨s₂, hunload, hkept₂⟩ := unloadRequested_ok hj₁ (by rwa [hs₁, ht₁])
  exact ⟨s₂, (bind_ok hstop).trans (bind_ok hunload), hkept₁.trans hkept₂⟩

/-- Nothing stands in the way of the job's unload, and an override that comes with it can be
    written. -/
structure Unloadable (s : Sys) (overrideDisabled force : Bool) (label : String) (r : Ref) (j : Job) : Prop where
  loaded : s.jobs.lookup label = some r
  job : s.heap r = some j
  named : j.label = label
  unasked : j.unloadRequested = false
  alive : j.state ≠ .unloaded
  timerless : ¬ (j.state = .waiting ∧ j.timerId.isSome)
  allowed : overrideDisabled = false → ∃ disabled, Job.disabledIn j.manifest s.stateFile = .ok disabled ∧ (disabled && !force) = false
  forced : overrideDisabled = true → force = true ∧ ∃ state, Manager.overridden label false s.stateFile = .ok state

/-- What unloads of the labels come to, in whatever order. -/
structure UnloadsEach (labels : List String) (overrideDisabled : Bool) (s s' : Sys) : Prop where
  state : s'.state = s.state
  jobs : s'.jobs = s.jobs
  files : s'.kernel.answers.files = s.kernel.answers.files
  renames : s'.kernel.answers.renames = if overrideDisabled then s.kernel.answers.renames.drop labels.length else s.kernel.answers.renames
  heap : ∀ r, (∀ label ∈ labels, s.jobs.lookup label ≠ some r) → s'.heap r = s.heap r
  asked : ∀ label ∈ labels, ∀ r, s.jobs.lookup label = some r → ∃ j, s'.heap r = some j ∧ j.unloadRequested = true
  overrides : s'.overrides = s.overrides ++ if overrideDisabled then labels.map fun label => (label, false) else []
  document : Rewritten s.stateFile s'.stateFile
  unchanged : overrideDisabled = false → s'.stateFile = s.stateFile
  shape : shapeOf s'.stateFile = shapeOf s.stateFile
  entries : ∀ label, overrideIn s'.stateFile label =
    if overrideDisabled = true ∧ label ∈ labels then (newEntry false (overrideIn s.stateFile label)).toOption
    else overrideIn s.stateFile label

theorem UnloadsEach.nil (overrideDisabled : Bool) (s : Sys) : UnloadsEach [] overrideDisabled s s := by
  refine ⟨rfl, rfl, rfl, by simp, fun _ _ => rfl, by simp, by simp, .refl _, fun _ => rfl, rfl, by simp⟩

theorem UnloadsEach.trans {labels' : List String} {s'' : Sys} (h : UnloadsEach labels overrideDisabled s s')
    (h' : UnloadsEach labels' overrideDisabled s' s'') (hd : labels.Disjoint labels')
    (hr : ∀ label ∈ labels, ∀ label' ∈ labels', ∀ r, s.jobs.lookup label = some r → s.jobs.lookup label' ≠ some r) :
    UnloadsEach (labels ++ labels') overrideDisabled s s'' := by
  refine ⟨h'.state.trans h.state, h'.jobs.trans h.jobs, h'.files.trans h.files, ?_, fun r hn => ?_, fun label hl r hlook => ?_, ?_,
    h.document.trans h'.document, fun ho => (h'.unchanged ho).trans (h.unchanged ho), h'.shape.trans h.shape, fun label => ?_⟩
  · rw [h'.renames, h.renames, List.length_append]
    cases overrideDisabled
    · rfl
    · exact List.drop_drop
  · rw [h'.heap r fun label hl => h.jobs.symm ▸ hn label (List.mem_append_right _ hl), h.heap r fun label hl =>
      hn label (List.mem_append_left _ hl)]
  · rcases List.mem_append.mp hl with hl | hl
    · rw [h'.heap r fun label' hl' => h.jobs.symm ▸ hr label hl label' hl' r hlook]
      exact h.asked label hl r hlook
    · exact h'.asked label hl r (h.jobs.symm ▸ hlook)
  · rw [h'.overrides, h.overrides, List.append_assoc]
    cases overrideDisabled <;> simp
  · rw [h'.entries, h.entries]
    by_cases ho : overrideDisabled = true
    · by_cases hl : label ∈ labels
      · have hl' : label ∉ labels' := hd hl
        simp [ho, hl, hl']
      · simp [ho, hl]
    · simp [ho]

/-- A list of labels whose jobs can all be unloaded. -/
structure Smooth (s : Sys) (overrideDisabled force : Bool) (labels : List String) : Prop where
  distinct : labels.Nodup
  unloadable : ∀ label ∈ labels, label.isEmpty = false ∧ ∃ r j, Unloadable s overrideDisabled force label r j
  renames : overrideDisabled = true → false ∉ s.kernel.answers.renames.take labels.length

section Smooth

variable {rest : List String}

theorem Smooth.apart (h : Smooth s overrideDisabled force labels) {label' : String} (hl : label ∈ labels) (hl' : label' ∈ labels)
    (hr : s.jobs.lookup label = some r) (hr' : s.jobs.lookup label' = some r) : label = label' := by
  obtain ⟨-, r₁, j, hu⟩ := h.unloadable label hl
  obtain ⟨-, r₂, j', hu'⟩ := h.unloadable label' hl'
  cases hu.loaded.symm.trans hr
  cases hu'.loaded.symm.trans hr'
  cases hu.job.symm.trans hu'.job
  exact hu.named.symm.trans hu'.named

theorem Smooth.after (h : Smooth s overrideDisabled force (labels ++ rest)) (hu : UnloadsEach labels overrideDisabled s s') :
    Smooth s' overrideDisabled force rest := by
  obtain ⟨-, hrest, hdisjoint⟩ := List.nodup_append.mp h.distinct
  refine ⟨hrest, fun label hl => ?_, fun ho => ?_⟩
  · have hmem : label ∈ labels ++ rest := List.mem_append_right _ hl
    have hnot : label ∉ labels := fun hl' => hdisjoint label hl' label hl rfl
    obtain ⟨hne, r, j, hj⟩ := h.unloadable label hmem
    have hheap : s'.heap r = s.heap r := hu.heap r fun label' hl' hr' =>
      hnot (h.apart (List.mem_append_left _ hl') hmem hr' hj.loaded ▸ hl')
    refine ⟨hne, r, j, hu.jobs.symm ▸ hj.loaded, hheap.trans hj.job, hj.named, hj.unasked, hj.alive, hj.timerless, fun ho => ?_,
      fun ho => ?_⟩
    · rw [hu.unchanged ho]
      exact hj.allowed ho
    · obtain ⟨hforce, state, hstate⟩ := hj.forced ho
      obtain ⟨hmap, entry, hnew, -⟩ := overridden_entry hstate
      have hentry : overrideIn s'.stateFile label = overrideIn s.stateFile label := by
        rw [hu.entries, if_neg fun hl' => hnot hl'.2]
      obtain ⟨state', hstate', -⟩ := overridden_ok (hu.shape.trans hmap) (hentry ▸ hnew)
      exact ⟨hforce, state', hstate'⟩
  · have htake := h.renames ho
    rw [hu.renames, if_pos ho]
    rw [List.length_append, List.take_add, List.mem_append, not_or] at htake
    exact htake.2

/-- The unloads of one list, and then those of another. -/
theorem Smooth.joined {labels' : List String} {s'' : Sys} (h : Smooth s overrideDisabled force (labels ++ labels' ++ rest))
    (hu : UnloadsEach labels overrideDisabled s s') (hu' : UnloadsEach labels' overrideDisabled s' s'') :
    UnloadsEach (labels ++ labels') overrideDisabled s s'' := by
  have hdisjoint : ∀ label ∈ labels, label ∉ labels' := fun label hl hl' =>
    (List.nodup_append.mp (List.nodup_append.mp h.distinct).1).2.2 label hl label hl' rfl
  refine hu.trans hu' (fun label hl hl' => hdisjoint label hl hl') fun label hl label' hl' r hr hr' => ?_
  have hsame : label = label' := h.apart (List.mem_append_left _ (List.mem_append_left _ hl))
    (List.mem_append_left _ (List.mem_append_right _ hl')) hr hr'
  exact hdisjoint label hl (hsame ▸ hl')

theorem Smooth.canRename (h : Smooth s true force (label :: rest)) : s.CanRename := by
  have hfirst := h.renames rfl
  unfold Sys.CanRename
  cases hr : s.kernel.answers.renames with
  | nil => rfl
  | cons b bs =>
    rw [hr] at hfirst
    cases b with
    | true => rfl
    | false => exact absurd List.mem_cons_self hfirst

section Unloadable

variable {s₁ : Sys} (hj : Unloadable s overrideDisabled force label r j) (hheap : s₁.heap = s.heap)
include hj hheap

/-- The unload itself, once the override is written. -/
theorem Unloadable.unloadJob_ok {disabled : Bool} (hd : Job.disabledIn j.manifest s₁.stateFile = .ok disabled)
    (hf : (disabled && !force) = false) : ∃ s', Job.unloadJob r force s₁ = .ok true s' ∧ Kept r (s₁.asked r) s' := by
  have hj₁ : s₁.heap r = some j := hheap ▸ hj.job
  have hasked : (s₁.asked r).heap r = some { j with unloadRequested := true } := Sys.updateJob_self hj₁
  obtain ⟨s', hs', hkept⟩ := carryOut_ok hasked hj.timerless
  refine ⟨s', ?_, hkept⟩
  rw [unloadJob_eq hj₁ hj.alive hj.unasked, hd]
  simp only [hf]
  exact hs'

theorem Unloadable.others (hkept : Kept r (s₁.asked r) s') :
    ∀ r', (∀ label' ∈ [label], s.jobs.lookup label' ≠ some r') → s'.heap r' = s.heap r' := by
  intro r' hn
  have hne : r' ≠ r := fun e => hn label List.mem_cons_self (e ▸ hj.loaded)
  rw [hkept.heap r' hne, ← hheap]
  exact Function.update_of_ne hne _ _

theorem Unloadable.asked (hkept : Kept r (s₁.asked r) s') :
    ∀ label' ∈ [label], ∀ r', s.jobs.lookup label' = some r' → ∃ j', s'.heap r' = some j' ∧ j'.unloadRequested = true := by
  intro label' hl r' hr'
  cases List.mem_singleton.mp hl
  cases hj.loaded.symm.trans hr'
  obtain ⟨j', hj', hu'⟩ := hkept.asked _ (Sys.updateJob_self (hheap ▸ hj.job))
  exact ⟨j', hj', hu'⟩

end Unloadable

/-- The unload of a label. -/
theorem unloadLabel_plain (h : Smooth s false force (label :: rest)) :
    ∃ s', Manager.unloadJob label false force s = .ok true s' ∧ UnloadsEach [label] false s s' := by
  obtain ⟨hne, r, j, hj⟩ := h.unloadable label List.mem_cons_self
  rw [unloadLabel_eq hj.loaded hne, unloadJobRef_eq hj.job, hj.named, hj.loaded, if_pos Option.isSome_some]
  obtain ⟨disabled, hd, hf⟩ := hj.allowed rfl
  obtain ⟨s', hs', hkept⟩ := hj.unloadJob_ok rfl hd hf
  have hfile : s'.stateFile = s.stateFile := hkept.stateFile
  refine ⟨s', hs', hkept.state, hkept.jobs, hkept.files, hkept.renames, hj.others rfl hkept, hj.asked rfl hkept, ?_, ?_, fun _ => hfile,
    ?_, ?_⟩
  · rw [hkept.overrides]
    exact (List.append_nil _).symm
  · rw [hfile]
    exact .refl _
  · rw [hfile]
  · intro l
    rw [hfile, if_neg fun h => nomatch h.1]

/-- The unload of a label, with an override. -/
theorem unloadLabel_override (h : Smooth s true force (label :: rest)) :
    ∃ s', Manager.unloadJob label true force s = .ok true s' ∧ UnloadsEach [label] true s s' := by
  obtain ⟨hne, r, j, hj⟩ := h.unloadable label List.mem_cons_self
  rw [unloadLabel_eq hj.loaded hne, unloadJobRef_eq hj.job, hj.named, hj.loaded, if_pos Option.isSome_some]
  obtain ⟨hforce, state, hstate⟩ := hj.forced rfl
  have hdis : Job.disabledIn j.manifest (s.stores label false state).stateFile = .ok true := by
    have hstate' : Manager.overridden j.manifest.label false s.stateFile = .ok state := by
      rw [show j.manifest.label = label from hj.named]
      exact hstate
    exact disabledIn_overridden hstate'
  have hheap : (s.stores label false state).heap = s.heap := rfl
  obtain ⟨s', hs', hkept⟩ := hj.unloadJob_ok hheap hdis (by rw [hforce]; rfl)
  have hfile : s'.stateFile = state := hkept.stateFile
  obtain ⟨hmap, entry, hnew, hentry, hmap'⟩ := overridden_entry hstate
  refine ⟨s', (bind_ok (overrideJobEnabled_ok hstate h.canRename)).trans hs', hkept.state, hkept.jobs, hkept.files, ?_,
    hj.others hheap hkept, hj.asked hheap hkept, hkept.overrides, ?_, nofun, ?_, ?_⟩
  · rw [hkept.renames]
    exact List.drop_one.symm
  · rw [hfile]
    exact overridden_rewritten hstate
  · rw [hfile, hmap', hmap]
  · intro l
    rw [hfile]
    by_cases hl : l = label
    · subst hl
      rw [if_pos ⟨rfl, List.mem_cons_self⟩, hnew, hentry]
      rfl
    · rw [if_neg fun h => hl (List.mem_singleton.mp h.2)]
      exact (overridden_sameBut hstate).overrides l hl

theorem unloadLabel_ok (h : Smooth s overrideDisabled force (label :: rest)) :
    ∃ s', Manager.unloadJob label overrideDisabled force s = .ok true s' ∧ UnloadsEach [label] overrideDisabled s s' := by
  cases overrideDisabled with
  | false => exact unloadLabel_plain h
  | true => exact unloadLabel_override h

end Smooth

/-! ## The loops -/

theorem labelAt_some {path : String} (h : Request.labelAt files path = some label) :
    ∃ doc, extension path = ".json" ∧ files path = .file (some doc) ∧
      (doc.atKey "Label" >>= Json.getString >>= Label.make) = .ok label := by
  unfold Request.labelAt at h
  split at h
  · rename_i hext
    split at h
    · rename_i doc hfile
      refine ⟨doc, hext, hfile, ?_⟩
      cases hl : doc.atKey "Label" >>= Json.getString >>= Label.make with
      | ok l => rw [hl] at h; cases h; rfl
      | error e => rw [hl] at h; cases h
    · cases h
  · cases h

/-- A file is unloaded by the label in it. -/
theorem unloadJobAt_eq {path : String} (hf : s.kernel.answers.files = files) (h : Request.labelAt files path = some label) :
    Manager.unloadJobAt path overrideDisabled force s = Manager.unloadJob label overrideDisabled force s := by
  obtain ⟨doc, hext, hfile, hlabel⟩ := labelAt_some h
  have hparse : Manifest.parse path s = .ok doc s := by
    rw [Manifest.parse, if_pos hext, get_bind, hf, hfile]
    rfl
  have hread : (Prog.tryCatch (do return some (← Manifest.parse path)) fun _ => return none : M (Option Json)) s = .ok (some doc) s := by
    have hsome : (do return some (← Manifest.parse path) : M (Option Json)) s = .ok (some doc) s := bind_ok hparse
    simp only [Prog.tryCatch, hsome]
  obtain ⟨buf, hbuf, hmake⟩ := bind_eq_ok.mp hlabel
  obtain ⟨v, hv, -⟩ := bind_eq_ok.mp hbuf
  have hcontains : doc.contains "Label" = true := by
    rw [contains_eq, atKey_member.mp hv]
    rfl
  rw [Manager.unloadJobAt, bind_ok hread]
  dsimp only
  rw [hcontains, if_pos rfl, hbuf]
  show (ofDecode (Label.make buf) >>= fun label => Manager.unloadJob label overrideDisabled force) s = _
  rw [hmake]
  rfl

section Loops

variable {rest : List String}

theorem unloadEntries_ok {entries : List String} (hf : s.kernel.answers.files = files)
    (hl : ∀ path ∈ entries, (Request.labelAt files path).isSome)
    (h : Smooth s overrideDisabled force (entries.filterMap (Request.labelAt files) ++ rest)) :
    ∃ s', Rpc.unloadEntries overrideDisabled force entries s = .ok false s' ∧
      UnloadsEach (entries.filterMap (Request.labelAt files)) overrideDisabled s s' := by
  induction entries generalizing s with
  | nil => exact ⟨s, rfl, .nil _ s⟩
  | cons path entries ih =>
    obtain ⟨label, hlabel⟩ := Option.isSome_iff_exists.mp (hl path List.mem_cons_self)
    rw [List.filterMap_cons_some hlabel] at h ⊢
    obtain ⟨s₁, hrun, hu⟩ := unloadLabel_ok h
    obtain ⟨s₂, hrun', hu'⟩ := ih (hu.files.trans hf) (fun p hp => hl p (List.mem_cons_of_mem _ hp)) (Smooth.after h hu)
    refine ⟨s₂, ?_, h.joined hu hu'⟩
    rw [Rpc.unloadEntries, bind_ok ((unloadJobAt_eq hf hlabel).trans hrun), if_pos rfl]
    exact hrun'

/-- The path names something, and every file it stands for has a label. -/
def Listed (files : String → Node) (path : Json) : Prop :=
  ∃ p, path.getString = .ok p ∧
    match files p with
    | .missing => False
    | .directory entries => ∀ entry ∈ entries, (Request.labelAt files entry).isSome
    | .file _ => (Request.labelAt files p).isSome

theorem unloadPaths_ok {paths : List Json} (hf : s.kernel.answers.files = files) (hl : ∀ path ∈ paths, Listed files path)
    (h : Smooth s overrideDisabled force (Request.labelsIn files paths ++ rest)) :
    ∃ s', Rpc.unloadPaths overrideDisabled force false paths s = .ok false s' ∧
      UnloadsEach (Request.labelsIn files paths) overrideDisabled s s' := by
  induction paths generalizing s with
  | nil => exact ⟨s, rfl, .nil _ s⟩
  | cons path paths ih =>
    obtain ⟨p, hp, hnode⟩ := hl path List.mem_cons_self
    have hlabels : Request.labelsIn files (path :: paths) = Request.labelsAt files p ++ Request.labelsIn files paths := by
      rw [labelsIn_cons, hp]
      rfl
    rw [hlabels] at h ⊢
    have hstep : ∃ s₁, Rpc.unloadPaths overrideDisabled force false (path :: paths) s =
        Rpc.unloadPaths overrideDisabled force false paths s₁ ∧ UnloadsEach (Request.labelsAt files p) overrideDisabled s s₁ := by
      have hread : ofDecode path.getString s = .ok p s := by
        rw [hp]
        rfl
      rw [Rpc.unloadPaths, bind_ok hread, get_bind, hf]
      rw [List.append_assoc] at h
      unfold Request.labelsAt at h ⊢
      cases hnode' : files p with
      | missing =>
        rw [hnode'] at hnode
        exact hnode.elim
      | directory entries =>
        rw [hnode'] at hnode h
        obtain ⟨s₁, hrun, hu⟩ := unloadEntries_ok hf hnode h
        exact ⟨s₁, bind_ok hrun, hu⟩
      | file doc =>
        rw [hnode'] at hnode h
        obtain ⟨label, hlabel⟩ := Option.isSome_iff_exists.mp hnode
        rw [hlabel] at h
        dsimp only
        rw [hlabel]
        obtain ⟨s₁, hrun, hu⟩ := unloadLabel_ok h
        exact ⟨s₁, by rw [bind_ok ((unloadJobAt_eq hf hlabel).trans hrun), if_pos rfl], hu⟩
    obtain ⟨s₁, hrun, hu⟩ := hstep
    have hafter : Smooth s₁ overrideDisabled force (Request.labelsIn files paths ++ rest) := by
      rw [List.append_assoc] at h
      exact h.after hu
    obtain ⟨s₂, hrun', hu'⟩ := ih (hu.files.trans hf) (fun q hq => hl q (List.mem_cons_of_mem _ hq)) hafter
    exact ⟨s₂, hrun.trans hrun', h.joined hu hu'⟩

end Loops

/-! ## Orders -/

/-- What a path names, the entries of a directory in another order. -/
inductive Node.Reordered : Node → Node → Prop
  | missing : Reordered .missing .missing
  | file (doc : Option Json) : Reordered (.file doc) (.file doc)
  | directory {entries entries' : List String} : entries.Perm entries' → Reordered (.directory entries) (.directory entries')

def Reordered (files files' : String → Node) : Prop := ∀ path, (files path).Reordered (files' path)

section Orders

variable {paths paths' : List Json}

theorem Reordered.labelAt (h : Reordered files files') (path : String) :
    Request.labelAt files' path = Request.labelAt files path := by
  unfold Request.labelAt
  generalize files path = node, files' path = node', h path = hnode
  cases hnode <;> rfl

theorem Reordered.labelsAt (h : Reordered files files') (path : String) :
    (Request.labelsAt files path).Perm (Request.labelsAt files' path) := by
  have hlabel : Request.labelAt files' = Request.labelAt files := funext h.labelAt
  unfold Request.labelsAt
  rw [hlabel]
  generalize files path = node, files' path = node', h path = hnode
  cases hnode with
  | missing => exact .nil
  | file doc => exact .refl _
  | directory hperm => exact hperm.filterMap _

theorem Reordered.labelsIn (h : Reordered files files') (hp : paths.Perm paths') :
    (Request.labelsIn files paths).Perm (Request.labelsIn files' paths') := by
  unfold Request.labelsIn
  refine (hp.flatMap_right _).trans (List.Perm.flatMap_left _ fun path _ => ?_)
  cases path.getString with
  | ok p => exact h.labelsAt p
  | error e => exact .refl _

theorem Reordered.listed (h : Reordered files files') {path : Json} (hl : Listed files path) : Listed files' path := by
  obtain ⟨p, hp, hnode⟩ := hl
  have hlabel : Request.labelAt files' = Request.labelAt files := funext h.labelAt
  refine ⟨p, hp, ?_⟩
  rw [hlabel]
  revert hnode
  generalize files p = node, files' p = node', h p = hre
  cases hre with
  | missing => exact id
  | file doc => exact id
  | directory hperm => exact fun hnode entry he => hnode entry (hperm.mem_iff.mpr he)

theorem Smooth.perm {answers answers' : Answers} {labels' : List String} (h : Smooth (s.given answers) overrideDisabled force labels)
    (hp : labels.Perm labels') (hr : answers'.renames = answers.renames) : Smooth (s.given answers') overrideDisabled force labels' := by
  refine ⟨hp.nodup_iff.mp h.distinct, fun label hl => ?_, fun ho => ?_⟩
  · obtain ⟨hne, r, j, hj⟩ := h.unloadable label (hp.mem_iff.mpr hl)
    exact ⟨hne, r, j, hj.loaded, hj.job, hj.named, hj.unasked, hj.alive, hj.timerless, hj.allowed, hj.forced⟩
  · have htake : false ∉ answers.renames.take labels.length := h.renames ho
    rw [hp.length_eq, ← hr] at htake
    exact htake

end Orders

/-! ## A request -/

/-- A request to unload the files the paths stand for. -/
structure AsksUnload (args : Json) (overrideDisabled force : Bool) (paths : List Json) : Prop where
  force : (Rpc.argument args "Force" >>= Json.getBool) = .ok force
  overrideDisabled : (Rpc.argument args "OverrideDisabled" >>= Json.getBool) = .ok overrideDisabled
  paths : ∃ list, Rpc.argument args "Paths" = .ok list ∧ list.elements = paths

def unloadReply (args : Json) : M Json := Prog.tryCatch (Rpc.opUnload args) fun _ => return Rpc.errorReply true

def Sys.HasAsked (s : Sys) (r : Ref) : Prop := ∃ j, s.heap r = some j ∧ j.unloadRequested = true

structure SameUnloads (s s' : Sys) : Prop where
  asked : ∀ r, s.HasAsked r ↔ s'.HasAsked r
  overrides : s.overrides.Perm s'.overrides
  document : Json.Same s.stateFile s'.stateFile

/-- Any two orders of the paths of a request, and of what the directories hold, come to the
    same, and every job that is named is asked to end. -/
def OrderFree (s : Sys) (answers : Answers) (overrideDisabled force : Bool) (paths : List Json) : Prop :=
  ∀ args args' paths₁ paths₂ files₁ files₂, paths.Perm paths₁ → paths.Perm paths₂ →
    Reordered answers.files files₁ → Reordered answers.files files₂ →
    AsksUnload args overrideDisabled force paths₁ → AsksUnload args' overrideDisabled force paths₂ →
    ∃ reply t t', unloadReply args (s.given { answers with files := files₁ }) = .ok reply t ∧
      unloadReply args' (s.given { answers with files := files₂ }) = .ok reply t' ∧ SameUnloads t t' ∧
      ∀ label ∈ Request.labelsIn answers.files paths, ∀ r, s.jobs.lookup label = some r → t.HasAsked r ∧ t'.HasAsked r

section Request

variable {args : Json} {paths paths' : List Json} {answers : Answers} {labels' : List String}

theorem opUnload_ok (ha : AsksUnload args overrideDisabled force paths) {isError : Bool}
    (h : Rpc.unloadPaths overrideDisabled force false paths s = .ok isError s') :
    unloadReply args s = .ok (Rpc.errorReply isError) s' := by
  obtain ⟨list, hlist, rfl⟩ := ha.paths
  have hop : Rpc.opUnload args s = .ok (Rpc.errorReply isError) s' := by
    rw [Rpc.opUnload, ha.force, ha.overrideDisabled, hlist]
    exact bind_ok h
  simp only [unloadReply, Prog.tryCatch, hop]

theorem UnloadsEach.hasAsked (h : UnloadsEach labels overrideDisabled s t) :
    t.HasAsked r ↔ s.HasAsked r ∨ ∃ label ∈ labels, s.jobs.lookup label = some r := by
  by_cases hn : ∃ label ∈ labels, s.jobs.lookup label = some r
  · obtain ⟨label, hl, hr⟩ := hn
    exact iff_of_true (h.asked label hl r hr) (.inr ⟨label, hl, hr⟩)
  · have hheap : t.heap r = s.heap r := h.heap r fun label hl hr => hn ⟨label, hl, hr⟩
    rw [Sys.HasAsked, hheap, or_iff_left hn]
    rfl

theorem UnloadsEach.same {s' t' : Sys} (h : UnloadsEach labels overrideDisabled s t) (h' : UnloadsEach labels' overrideDisabled s' t')
    (hp : labels.Perm labels') (hheap : s'.heap = s.heap) (hjobs : s'.jobs = s.jobs) (hfile : s'.stateFile = s.stateFile)
    (hover : s'.overrides = s.overrides) : SameUnloads t t' := by
  constructor
  · intro r
    rw [h.hasAsked, h'.hasAsked, Sys.HasAsked, Sys.HasAsked, hheap, hjobs]
    simp only [hp.mem_iff]
  · rw [h.overrides, h'.overrides, hover]
    refine .append_left _ ?_
    cases overrideDisabled with
    | false => exact .refl _
    | true => exact hp.map _
  · have hdoc := h'.document
    rw [hfile] at hdoc
    refine h.document.same hdoc fun label => ?_
    rw [h.entries, h'.entries, hfile]
    simp only [hp.mem_iff]

/-- A request none of whose unloads fails. -/
theorem unload_order_free (hl : ∀ path ∈ paths, Listed answers.files path)
    (h : Smooth (s.given answers) overrideDisabled force (Request.labelsIn answers.files paths)) :
    OrderFree s answers overrideDisabled force paths := by
  intro args args' paths₁ paths₂ files₁ files₂ hp₁ hp₂ hf₁ hf₂ ha₁ ha₂
  have hrun : ∀ {args : Json} {paths' : List Json} {files' : String → Node}, paths.Perm paths' → Reordered answers.files files' →
      AsksUnload args overrideDisabled force paths' →
      ∃ t, unloadReply args (s.given { answers with files := files' }) = .ok (Rpc.errorReply false) t ∧
        UnloadsEach (Request.labelsIn files' paths') overrideDisabled (s.given { answers with files := files' }) t := by
    intro args paths' files' hp hf ha
    have hsmooth : Smooth (s.given { answers with files := files' }) overrideDisabled force
        (Request.labelsIn files' paths' ++ []) := by
      rw [List.append_nil]
      exact h.perm (hf.labelsIn hp) rfl
    obtain ⟨t, hpaths, hu⟩ := unloadPaths_ok rfl (fun path hm => hf.listed (hl path (hp.mem_iff.mpr hm))) hsmooth
    exact ⟨t, opUnload_ok ha hpaths, hu⟩
  obtain ⟨t, hrun₁, hu₁⟩ := hrun hp₁ hf₁ ha₁
  obtain ⟨t', hrun₂, hu₂⟩ := hrun hp₂ hf₂ ha₂
  have hperm : (Request.labelsIn files₁ paths₁).Perm (Request.labelsIn files₂ paths₂) :=
    (hf₁.labelsIn hp₁).symm.trans (hf₂.labelsIn hp₂)
  refine ⟨_, t, t', hrun₁, hrun₂, hu₁.same hu₂ hperm rfl rfl rfl rfl, fun label hlabel r hr => ?_⟩
  exact ⟨hu₁.asked label ((hf₁.labelsIn hp₁).mem_iff.mp hlabel) r hr, hu₂.asked label ((hf₂.labelsIn hp₂).mem_iff.mp hlabel) r hr⟩

def jobFile : Answers := { files := fun path => if path = "job.json" then .file (some (manifestWith [])) else .missing }

theorem jobFile_labels : Request.labelsIn jobFile.files [.str "missing.json", .str "job.json"] = ["job"] := rfl

def unloadArgs (paths : List Json) : Json :=
  .arr [.str "unload", .obj [("Force", .bool false), ("OverrideDisabled", .bool false), ("Paths", .arr paths)]]

theorem unloadArgs_asks (paths : List Json) : AsksUnload (unloadArgs paths) false false paths := ⟨rfl, rfl, _, rfl, rfl⟩

def idleJob (s : Sys) (label : String) (r : Ref) : Bool :=
  s.jobs.lookup label == some r && (s.heap r).any fun j => j.label == label && (j.state == .loaded && (!j.unloadRequested &&
    (Job.disabledIn j.manifest s.stateFile).toOption == some false))

theorem unloadable_of_idleJob (h : idleJob s label r) : ∃ j, Unloadable s false false label r j := by
  simp only [idleJob, Bool.and_eq_true, beq_iff_eq, Option.any_eq_true, Bool.not_eq_true'] at h
  obtain ⟨hjobs, j, hj, hlabel, hstate, hflag, hdis⟩ := h
  refine ⟨j, hjobs, hj, hlabel, hflag, by simp [hstate], by simp [hstate], fun _ => ⟨false, ?_, rfl⟩, by simp⟩
  cases hd : Job.disabledIn j.manifest s.stateFile with
  | ok d =>
    rw [hd] at hdis
    cases hdis
    rfl
  | error e =>
    rw [hd] at hdis
    cases hdis

def threeFiles (entries : List String) (path : String) : Node :=
  if path = "a.json" then .file (some (.obj [("Label", .str "a"), ("Program", .str "/bin/a")]))
  else if path = "b.json" then .file (some (.obj [("Label", .str "b"), ("Program", .str "/bin/b")]))
  else if path = "c.json" then .file (some (.obj [("Label", .str "c"), ("Program", .str "/bin/c")]))
  else if path = "jobs" then .directory entries
  else .missing

theorem threeFiles_reordered {entries entries' : List String} (h : entries.Perm entries') :
    Reordered (threeFiles entries) (threeFiles entries') := by
  intro path
  unfold threeFiles
  split
  · exact .file _
  split
  · exact .file _
  split
  · exact .file _
  split
  · exact .directory h
  · exact .missing

/-- Three jobs are unloaded, by a path and by a directory, in two orders of both. -/
theorem unload_order_free_three : ∃ s reply t t', Reachable s ∧
    unloadReply (unloadArgs [.str "a.json", .str "jobs"]) (s.given { files := threeFiles ["b.json", "c.json"] }) = .ok reply t ∧
    unloadReply (unloadArgs [.str "jobs", .str "a.json"]) (s.given { files := threeFiles ["c.json", "b.json"] }) = .ok reply t' ∧
    SameUnloads t t' ∧ ∀ r ∈ [0, 1, 2], t.HasAsked r ∧ t'.HasAsked r := by
  obtain ⟨s, hs, hp⟩ := reachable_of_run [.startRunning ["a.json", "jobs"] { files := threeFiles ["b.json", "c.json"] }]
    (fun s => idleJob s "a" 0 && (idleJob s "b" 1 && idleJob s "c" 2)) (by decide +kernel)
  simp only [Bool.and_eq_true] at hp
  obtain ⟨ha, hb, hc⟩ := hp
  obtain ⟨ja, hua⟩ := unloadable_of_idleJob (s := s.given { files := threeFiles ["b.json", "c.json"] }) ha
  obtain ⟨jb, hub⟩ := unloadable_of_idleJob (s := s.given { files := threeFiles ["b.json", "c.json"] }) hb
  obtain ⟨jc, huc⟩ := unloadable_of_idleJob (s := s.given { files := threeFiles ["b.json", "c.json"] }) hc
  have hlabels : Request.labelsIn (threeFiles ["b.json", "c.json"]) [.str "a.json", .str "jobs"] = ["a", "b", "c"] := by decide +kernel
  have hsmooth : Smooth (s.given { files := threeFiles ["b.json", "c.json"] }) false false ["a", "b", "c"] := by
    refine ⟨by decide, ?_, by simp⟩
    simp only [List.forall_mem_cons, List.not_mem_nil, false_imp_iff, implies_true, and_true]
    exact ⟨⟨rfl, 0, ja, hua⟩, ⟨rfl, 1, jb, hub⟩, ⟨rfl, 2, jc, huc⟩⟩
  have hlisted : ∀ path ∈ [Json.str "a.json", Json.str "jobs"], Listed (threeFiles ["b.json", "c.json"]) path := by
    simp only [List.forall_mem_cons, List.not_mem_nil, false_imp_iff, implies_true, and_true]
    refine ⟨⟨"a.json", rfl, ?_⟩, ⟨"jobs", rfl, ?_⟩⟩
    · show (Request.labelAt (threeFiles ["b.json", "c.json"]) "a.json").isSome
      decide +kernel
    · show ∀ entry ∈ ["b.json", "c.json"], (Request.labelAt (threeFiles ["b.json", "c.json"]) entry).isSome
      decide +kernel
  have hfree : OrderFree s { files := threeFiles ["b.json", "c.json"] } false false [.str "a.json", .str "jobs"] :=
    unload_order_free hlisted (by rw [hlabels]; exact hsmooth)
  obtain ⟨reply, t, t', hrun, hrun', hsame, hasked⟩ := hfree _ _ _ _ _ _ (.refl _) (.swap ..) (threeFiles_reordered (.refl _))
    (threeFiles_reordered (.swap ..)) (unloadArgs_asks _) (unloadArgs_asks _)
  rw [hlabels] at hasked
  simp only [List.forall_mem_cons, List.not_mem_nil, false_imp_iff, implies_true, and_true] at hasked ⊢
  obtain ⟨hasked_a, hasked_b, hasked_c⟩ := hasked
  exact ⟨s, reply, t, t', hs, hrun, hrun', hsame, hasked_a 0 hua.loaded, hasked_b 1 hub.loaded, hasked_c 2 huc.loaded⟩

/-- A path that is missing comes first: the job whose manifest comes after it is not asked
    to end. -/
theorem unload_cut_short : ¬ ∀ (s : Sys) (answers : Answers) (overrideDisabled force : Bool) (paths : List Json), Reachable s →
    OrderFree s answers overrideDisabled force paths := by
  intro h
  obtain ⟨s, j, hs, hjobs, hj, -, -, hflag, -⟩ := exists_loaded
  have hre : Reordered jobFile.files jobFile.files := fun path => by
    cases jobFile.files path with
    | missing => exact .missing
    | file doc => exact .file doc
    | directory entries => exact .directory (.refl _)
  have hasks := unloadArgs_asks [.str "missing.json", .str "job.json"]
  obtain ⟨reply, t, _, hrun, -, -, hasked⟩ := h s jobFile false false _ hs _ _ _ _ _ _ (.refl _) (.refl _) hre hre hasks hasks
  have hcut : unloadReply (unloadArgs [.str "missing.json", .str "job.json"]) (s.given jobFile) =
      .ok (Rpc.errorReply true) (s.given jobFile) := opUnload_ok hasks rfl
  cases hcut.symm.trans hrun
  obtain ⟨⟨j', hj', hu⟩, -⟩ := hasked "job" (by rw [jobFile_labels]; exact List.mem_cons_self) 0 hjobs
  cases hj.symm.trans hj'
  rw [hflag] at hu
  cases hu

end Request

end Relaunchd
