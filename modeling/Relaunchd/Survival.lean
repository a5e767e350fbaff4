/-
  Relaunchd.Survival — the operations that cannot kill the program, where the jobs they are
  given are there and the labels are set.
-/

import Relaunchd.Refinement.Endings
import Relaunchd.Refinement.Requests

namespace Relaunchd

open Prog EventManager

variable {α β : Type} {s : Sys} {r : Ref} {j : Job}

/-- An exception is no failed assertion. -/
theorem Decode.FaultsIn.not_abort {d : Decode α} (h : d.FaultsIn Json.exceptions) (w : String) : d ≠ .error (.abort w) := by
  intro e
  have hmem := h _ e
  simp [Json.exceptions] at hmem

theorem Label.make_not_abort (buf w : String) : Label.make buf ≠ .error (.abort w) := by
  unfold Label.make
  split
  · exact nofun
  · split
    · exact nofun
    · exact nofun

/-- A label that is made is set. -/
theorem Label.make_set {buf label : String} (h : Label.make buf = .ok label) : label.isEmpty = false := by
  unfold Label.make at h
  split at h
  · cases h
  rename_i hne
  split at h
  · cases h
  · cases h
    exact Bool.eq_false_iff.mpr hne

namespace Survives

variable {I : Sys → Prop}

theorem decodes {d : Decode α} (h : ∀ w, d ≠ .error (.abort w)) : Survives I (ofDecode d) := fun s hs => by
  cases d with
  | ok a => exact hs
  | error e => cases e with
    | exn w => exact hs
    | abort w => exact absurd rfl (h w)

/-- What follows a reading runs only on what was read. -/
theorem decodesThen {d : Decode β} {f : β → M α} (h : ∀ w, d ≠ .error (.abort w)) (hf : ∀ b, d = .ok b → Survives I (f b)) :
    Survives I (ofDecode d >>= f) := by
  cases d with
  | ok b => exact hf b rfl
  | error e => cases e with
    | exn w => exact fun _ hs => hs
    | abort w => exact absurd rfl (h w)

end Survives

/-! ## A job -/

def Alive (r : Ref) (s : Sys) : Prop := ∃ j, s.heap r = some j

/-- It runs on the job without a crash, and the job stays there. -/
abbrev Outlives (r : Ref) (x : M α) : Prop := Survives (Alive r) x

namespace Outlives

theorem derefs : Outlives r (this r) := fun s ⟨j, hj⟩ => by
  rw [ends_this hj]
  exact ⟨j, hj⟩

theorem sets (f : Job → Job) : Outlives r (setJob r f) := fun _ ⟨j, hj⟩ => ⟨f j, Sys.updateJob_self hj⟩

/-- A change of something else than the jobs. -/
theorem writes {f : Sys → Sys} (h : ∀ s, (f s).heap = s.heap) : Outlives r (modify f) := fun s ⟨j, hj⟩ => ⟨j, by rw [h, hj]⟩

theorem answers {field : Answers → List α} {rest : Answers → List α → Answers} {success : α} :
    Outlives r (answer field rest success) := fun _ h => h

theorem isDisabled : Outlives r (Job.isDisabled r) :=
  .bind derefs fun _ => .bind .get fun _ => Survives.decodes (disabledIn_faults _).not_abort

theorem deleteTimer (timerId : Nat) : Outlives r (deleteTimer timerId) := by
  have hignore : Outlives r (ignoreTimer timerId) := .bind .get fun s => by
    split
    · exact .throws _
    · exact .bind (writes fun _ => rfl) fun _ => .bind (writes fun _ => rfl) fun _ => .branches _ (.returns _) (.throws _)
  exact .bind hignore fun _ => writes fun _ => rfl

theorem cancelTimerIfSet : Outlives r (Job.cancelTimerIfSet r) := by
  have hcancel : Outlives r (Job.cancelTimer r) := .bind derefs fun j => by
    split
    · exact .throws _
    · exact .bind (deleteTimer _) fun _ => sets _
  exact .bind derefs fun _ => .branches _ hcancel (.returns _)

theorem killJob (signum : Int) : Outlives r (Job.killJob r signum) :=
  .bind derefs fun _ => .branches _ (.returns _) <| .bind (writes fun _ => rfl) fun _ => answers

theorem terminate : Outlives r (Job.terminate r) := .bind (killJob _) fun _ => sets _

theorem submitDelete : Outlives r (Job.submitDelete r) := .bind derefs fun _ => writes fun _ => rfl

/-- A machine whose guards and actions outlive the job. -/
theorem fsm {State Trigger : Type} [DecidableEq State] [DecidableEq Trigger] {setState : State → M Unit} {trigger : Trigger}
    {state : M State} {transitions : List (Fsm.Trans Sys State Trigger)} (hset : ∀ state, Outlives r (setState state))
    (hstate : Outlives r state) (h : ∀ t ∈ transitions, t.trigger = trigger → Outlives r t.guard ∧ Outlives r t.action) :
    Outlives r (Fsm.execute setState trigger state transitions) :=
  Fsm.execute_keeps (P := fun _ => Outlives r) ⟨.returns, .bind⟩ hset hstate h

/-- The triggers that an unload executes. -/
theorem unloadTriggers {trigger : Job.Triggers} (ht : trigger = .stopRequested ∨ trigger = .unloadRequested) :
    Outlives r (Job.execute r trigger) := by
  refine .bind (fsm (fun _ => sets _) (.bind derefs fun _ => .returns _) ?_) fun _ => .returns _
  have hcancel : Outlives r (do Job.cancelTimerIfSet r; Job.submitDelete r) := .bind cancelTimerIfSet fun _ => submitDelete
  unfold Job.transitions
  simp only [List.forall_mem_cons]
  rcases ht with rfl | rfl
  · exact ⟨nofun, nofun, nofun, nofun, nofun, nofun, nofun, nofun, fun _ => ⟨.returns _, terminate⟩, nofun, nofun, nofun, nofun⟩
  · exact ⟨nofun, nofun, nofun, fun _ => ⟨.returns _, submitDelete⟩, nofun, fun _ => ⟨.returns _, hcancel⟩, nofun, nofun, nofun,
      nofun, nofun, fun _ => ⟨.returns _, submitDelete⟩, nofun⟩

theorem unloadJob (force : Bool) : Outlives r (Job.unloadJob r force) :=
  .bind derefs fun _ => .branches _ (.returns _) <| .branches _ (.returns _) <| .bind (sets _) fun _ =>
    .bind isDisabled fun _ => .branches _ (.returns _) <| .bind (unloadTriggers (.inl rfl)) fun _ =>
      .bind (unloadTriggers (.inr rfl)) fun _ => .returns _

theorem overrideJobEnabled (label : String) (enabled : Bool) : Outlives r (Manager.overrideJobEnabled label enabled) :=
  .bind .get fun _ => .bind (Survives.decodes overridden_faults.not_abort) fun _ =>
    .bind (.bind answers fun _ => .branches _ (writes fun _ => rfl) (.throws _)) fun _ => writes fun _ => rfl

theorem unloadJobRef (overrideDisabled force : Bool) : Outlives r (Manager.unloadJobRef r overrideDisabled force) :=
  .bind derefs fun _ => .bind .get fun _ =>
    .branches _ (.branches _ (.bind (overrideJobEnabled _ _) fun _ => unloadJob _) (unloadJob _)) (.returns _)

end Outlives

/-! ## The manager -/

/-- It runs while requests are served, without a crash. -/
abbrev Withstands (files : String → Node) (x : M α) : Prop := Survives (Serving .running files) x

namespace Withstands

variable {files : String → Node} {label : String}

/-- A program that keeps the tables. -/
theorem quietly {x : M α} (hx : Quietly x) (hc : ∀ s w, x s ≠ .crash w) : Withstands files x :=
  .of_wp (fun s hs => wp_mono (hx s trivial) (fun _ _ hq => (Does.quiet (q := .load) hs.inv hq).serving hs)
    fun _ hq => (Does.quiet (q := .load) hs.inv hq).serving hs) fun s _ => hc s

theorem overrideJobEnabled (label : String) (enabled : Bool) : Withstands files (Manager.overrideJobEnabled label enabled) := by
  have hany : Survives (fun _ => True) (Manager.overrideJobEnabled label enabled) :=
    .bind .get fun _ => .bind (Survives.decodes overridden_faults.not_abort) fun _ =>
      .bind (.bind (fun _ _ => trivial) fun _ => .branches _ (.modify fun _ _ => trivial) (.throws _)) fun _ =>
        .modify fun _ _ => trivial
  exact quietly (.overrideJobEnabled _ _) fun s => hany.not_crash trivial

theorem jobExists (hl : label.isEmpty = false) : Withstands files (Manager.jobExists label) :=
  .bind (Survives.decodes fun w => by rw [Label.string, hl]; nofun) fun _ => .gets _

/-- What runs on the job that a label names. -/
theorem getJob {q : Request} {f : Ref → M α} (hf : ∀ r, Outlives r (f r))
    (hs : Serves .running files q (Manager.getJob label >>= f)) : Withstands files (Manager.getJob label >>= f) := by
  refine .of_wp (fun s h => wp_mono (hs s h) (fun _ _ hd => hd.serving h) fun _ hd => hd.serving h) fun s h w hw => ?_
  cases hr : s.jobs.lookup label with
  | none =>
    have hthrow : Manager.getJob label s = .throw "out_of_range" s := by
      rw [Manager.getJob, get_bind, hr]
      rfl
    rw [bind_throw hthrow] at hw
    cases hw
  | some r =>
    have hok : Manager.getJob label s = .ok r s := by
      rw [Manager.getJob, get_bind, hr]
      rfl
    rw [bind_ok hok] at hw
    obtain ⟨j, hj, -⟩ := h.inv.owned.stored label r hr
    exact (hf r).not_crash ⟨j, hj⟩ w hw

theorem killJob (hl : label.isEmpty = false) (name : String) : Withstands files (Manager.killJob label name) := by
  unfold Manager.killJob
  cases hn : getSignalByName name with
  | none => exact .returns _
  | some signum =>
    exact .bind (jobExists hl) fun _ => .branches _ (.returns _) (getJob (q := .kill label) (fun _ => .killJob _)
      (getJob_serves fun _ _ hs hr => killJobRef_spec hs hr signum))

theorem unloadJob (hl : label.isEmpty = false) (overrideDisabled force : Bool) :
    Withstands files (Manager.unloadJob label overrideDisabled force) :=
  .bind (jobExists hl) fun _ => .branches _ (.returns _) (getJob (q := .unload [label]) (fun _ => .unloadJobRef _ _)
    (getJob_serves fun _ _ hs hr => unloadJobRef_spec hs hr List.mem_cons_self overrideDisabled force))

theorem parse (path : String) : Withstands files (Manifest.parse path) :=
  .branches _ (.bind .get fun _ => by
    split
    · exact .returns _
    · exact .throws _) (.throws _)

theorem unloadJobAt (path : String) (overrideDisabled force : Bool) :
    Withstands files (Manager.unloadJobAt path overrideDisabled force) := by
  refine .bind (.catches (.bind (parse path) fun _ => .returns _) fun _ => .returns _) fun doc => ?_
  cases doc with
  | none => exact .returns _
  | some doc =>
    refine .branches _ (.bind (Survives.decodes ?_) fun buf => ?_) (.returns _)
    · exact ((Json.atKey_faults _ _).bind fun v => Json.getString_faults v).not_abort
    · exact Survives.decodesThen (Label.make_not_abort buf) fun label hl => unloadJob (Label.make_set hl) _ _

theorem unloadEntries (overrideDisabled force : Bool) (entries : List String) :
    Withstands files (Rpc.unloadEntries overrideDisabled force entries) := by
  induction entries with
  | nil => exact .returns _
  | cons file rest ih => exact .bind (unloadJobAt _ _ _) fun _ => .branches _ ih (.returns _)

theorem unloadPaths (overrideDisabled force isError : Bool) (paths : List Json) :
    Withstands files (Rpc.unloadPaths overrideDisabled force isError paths) := by
  induction paths generalizing isError with
  | nil => exact .returns _
  | cons path rest ih =>
    refine .bind (Survives.decodes (Json.getString_faults path).not_abort) fun p => .bind .get fun s => ?_
    split
    · exact .returns _
    · exact .bind (unloadEntries _ _ _) fun _ => ih _
    · exact .bind (unloadJobAt _ _ _) fun _ => .branches _ (ih _) (.returns _)

end Withstands

/-! ## Listing -/

def LabelsSet (s : Sys) : Prop := ∀ label r, s.jobs.lookup label = some r → ∃ j, s.heap r = some j ∧ j.label.isEmpty = false

theorem listJobs_survives : Survives LabelsSet Manager.listJobs := by
  have hrow : ∀ label, Survives LabelsSet (Manager.listJob label) := by
    intro label s hs
    rw [Manager.listJob, ends_bind, ends_get]
    cases hr : s.jobs.lookup label with
    | none => exact hs
    | some r =>
      obtain ⟨j, hj, hl⟩ := hs label r hr
      dsimp only
      rw [ends_bind, ends_this hj, ends_bind, Label.string, hl, if_neg Bool.false_ne_true]
      exact hs
  have hrows : ∀ (labels : List String) (rows : List Json), Survives LabelsSet (Manager.listRows rows labels) := by
    intro labels
    induction labels with
    | nil => exact fun _ => .returns _
    | cons label rest ih => exact fun _ => .bind (hrow label) fun _ => ih _
  exact .bind .get fun _ => .bind (fun _ h => h) fun _ => .bind (hrows _ _) fun _ => .returns _

end Relaunchd
