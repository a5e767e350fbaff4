/-
  Relaunchd.Properties.Documents — what a request reads, and the loop over the manifests it
  names.

  A load goes through its paths in order, and through the files of a directory in the order
  they are listed. Each file that holds a document is loaded, and an exception in one leaves
  the others alone; only a path that is no string ends the loop.
-/

import Relaunchd.Properties.Loading

namespace Relaunchd

open Prog Transition

variable {s : Sys} {files : String → Node} {message : Json}

/-! ## What a request reads -/

namespace Rpc

def readPaths (args : Json) : Decode (Bool × Bool × Json) := do
  let force ← argument args "Force" >>= Json.getBool
  let overrideDisabled ← argument args "OverrideDisabled" >>= Json.getBool
  return (force, overrideDisabled, ← argument args "Paths")

def reading (args : Json) : String → Decode Unit
  | "disable" | "enable" | "remove" => do
    let _ ← labelArgument args
  | "kill" => do
    let _ ← labelArgument args
    let _ ← argument args "Signal" >>= Json.getString
  | "load" | "unload" => do
    let _ ← readPaths args
  | "submit" => do
    let _ ← args.index 1
  | _ => return ()

def docAt (files : String → Node) (path : String) : Option Json :=
  if extension path = ".json" then
    match files path with
    | .file (some doc) => some doc
    | _ => none
  else none

def docsAt (files : String → Node) (path : String) : List Json :=
  match files path with
  | .missing => []
  | .directory entries => entries.filterMap (docAt files)
  | .file _ => (docAt files path).toList

/-- The paths up to the first that is no string. -/
def pathsOf : List Json → List String
  | .str path :: rest => path :: pathsOf rest
  | _ => []

def documents (files : String → Node) (args : Json) : String → List Json
  | "load" =>
    match readPaths args with
    | .ok (_, _, paths) => (pathsOf paths.elements).flatMap (docsAt files)
    | .error _ => []
  | "submit" => (args.index 1).toOption.toList
  | _ => []

def forces (args : Json) : String → Bool
  | "load" => (readPaths args).toOption.any (·.1)
  | _ => false

def enables (args : Json) : String → Bool
  | "load" => (readPaths args).toOption.any (·.2.1)
  | _ => false

def Strings (paths : List Json) : Prop := ∀ path ∈ paths, ∃ name, path = .str name

/-- The steps in which the arguments of a load are read. -/
theorem readPaths_ok {force overrideDisabled : Bool} {paths : Json} :
    readPaths message = .ok (force, overrideDisabled, paths) ↔ (argument message "Force" >>= Json.getBool) = .ok force ∧
      (argument message "OverrideDisabled" >>= Json.getBool) = .ok overrideDisabled ∧ argument message "Paths" = .ok paths := by
  constructor
  · intro h
    obtain ⟨_, hforce, h⟩ := bind_eq_ok.mp h
    obtain ⟨_, hoverride, h⟩ := bind_eq_ok.mp h
    obtain ⟨_, hpaths, h⟩ := bind_eq_ok.mp h
    cases h
    exact ⟨hforce, hoverride, hpaths⟩
  · intro ⟨hforce, hoverride, hpaths⟩
    exact bind_eq_ok.mpr ⟨_, hforce, bind_eq_ok.mpr ⟨_, hoverride, bind_eq_ok.mpr ⟨_, hpaths, rfl⟩⟩⟩

/-- What a load is asked. -/
theorem documents_load {force overrideDisabled : Bool} {paths : Json} (files : String → Node)
    (h : readPaths message = .ok (force, overrideDisabled, paths)) :
    documents files message "load" = (pathsOf paths.elements).flatMap (docsAt files) ∧
      enables message "load" = overrideDisabled ∧ forces message "load" = force := by
  simp only [documents, enables, forces, h, Except.toOption, Option.any_some, and_self]

theorem documents_submit {doc : Json} (files : String → Node) (h : message.index 1 = .ok doc) : documents files message "submit" = [doc] := by
  rw [documents, h]
  rfl

end Rpc

/-! ## The loop over the documents -/

theorem parse_docAt {path : String} {doc : Json} (hf : s.kernel.answers.files = files) (hd : Rpc.docAt files path = some doc) :
    Manifest.parse path s = .ok doc s := by
  unfold Rpc.docAt at hd
  split at hd
  · rename_i hext
    split at hd
    · rename_i doc' hfile
      cases hd
      unfold Manifest.parse
      rw [if_pos hext, get_bind, hf, hfile]
      rfl
    · cases hd
  · cases hd

theorem parse_none {path : String} (hf : s.kernel.answers.files = files) (hd : Rpc.docAt files path = none) :
    ∃ w, Manifest.parse path s = .throw w s := by
  unfold Rpc.docAt at hd
  unfold Manifest.parse
  by_cases hext : extension path = ".json"
  · rw [if_pos hext] at hd ⊢
    rw [get_bind, hf]
    cases hfile : files path with
    | missing | directory => exact ⟨_, rfl⟩
    | file content => cases content with
      | none => exact ⟨_, rfl⟩
      | some doc =>
        rw [hfile] at hd
        cases hd
  · rw [if_neg hext]
    exact ⟨_, rfl⟩

/-- `J rest` holds while the documents `rest` are still to be loaded: a load of the first
    keeps it, or dies for a reason `C` allows. -/
structure InTurn (C : String → Prop) (files : String → Node) (overrideDisabled forceLoad : Bool) (J : List Json → Sys → Prop) :
    Prop where
  files : ∀ {rest s}, J rest s → s.kernel.answers.files = files
  state : ∀ {rest s}, J rest s → s.state ≠ .gracefulShutdown
  load : ∀ {doc rest s} (path : String), J (doc :: rest) s →
    ends C (Manager.loadManifestDoc doc path overrideDisabled forceLoad) (fun _ => J rest) (J rest) s

namespace InTurn

variable {C : String → Prop} {overrideDisabled forceLoad : Bool} {J : List Json → Sys → Prop} {rest : List Json} {E : Sys → Prop}

theorem loadOne (h : InTurn C files overrideDisabled forceLoad J) {path : String} (hj : J ((Rpc.docAt files path).toList ++ rest) s) :
    ends C (Manager.loadOne path overrideDisabled forceLoad) (fun _ => J rest) E s := by
  refine ends_catch (F := J rest) ?_ fun _ _ hf => hf
  rw [ends_bind, Manager.loadManifest, ends_bind]
  cases hd : Rpc.docAt files path with
  | none =>
    rw [hd] at hj
    obtain ⟨w, hw⟩ := parse_none (h.files hj) hd
    rw [ends_failed hw]
    exact hj
  | some doc =>
    rw [hd] at hj
    rw [ends_ok (parse_docAt (h.files hj) hd)]
    exact h.load path hj

theorem loadEach (h : InTurn C files overrideDisabled forceLoad J) {entries : List String}
    (hj : J (entries.filterMap (Rpc.docAt files) ++ rest) s) (error : Bool) :
    ends C (Manager.loadEach overrideDisabled forceLoad error entries) (fun _ => J rest) E s := by
  induction entries generalizing s error with
  | nil => exact hj
  | cons file entries ih =>
    have hsplit : (file :: entries).filterMap (Rpc.docAt files) ++ rest =
        (Rpc.docAt files file).toList ++ (entries.filterMap (Rpc.docAt files) ++ rest) := by
      rw [List.filterMap_cons]
      cases Rpc.docAt files file <;> rfl
    rw [hsplit] at hj
    rw [Manager.loadEach, ends_bind]
    exact ends_mono (h.loadOne hj) (fun _ => id) (fun _ _ hj' => ih hj' _) fun _ => id

theorem loadAllManifests (h : InTurn C files overrideDisabled forceLoad J) {path : String} (rest : List Json)
    (hj : J (Rpc.docsAt files path ++ rest) s) :
    ends C (Manager.loadAllManifests path overrideDisabled forceLoad) (fun _ => J rest) E s := by
  rw [Manager.loadAllManifests, ends_bind, ends_get, ends_ite, if_neg (h.state hj), ends_bind, ends_get, h.files hj]
  unfold Rpc.docsAt at hj
  cases hfile : files path with
  | missing =>
    rw [hfile] at hj
    exact hj
  | directory entries =>
    rw [hfile] at hj
    exact h.loadEach hj false
  | file =>
    rw [hfile] at hj
    exact h.loadOne hj

theorem loadEachPath (h : InTurn C files overrideDisabled forceLoad J) (hoff : overrideDisabled = false ∧ forceLoad = false)
    {paths : List String} (hj : J (paths.flatMap (Rpc.docsAt files)) s) :
    ends C (Manager.loadEachPath paths) (fun _ => J []) E s := by
  obtain ⟨rfl, rfl⟩ := hoff
  induction paths generalizing s with
  | nil => exact hj
  | cons path paths ih =>
    rw [List.flatMap_cons] at hj
    rw [Manager.loadEachPath, forEach, ends_bind, ends_bind]
    exact ends_mono (h.loadAllManifests _ hj) (fun _ => id) (fun _ _ hj' => ih hj') fun _ => id

/-- A load returns where every path is a string, and throws where one is not. -/
theorem loadPaths (h : InTurn C files overrideDisabled forceLoad J) {paths : List Json}
    (hj : J ((Rpc.pathsOf paths).flatMap (Rpc.docsAt files)) s) (error : Bool) :
    ends C (Rpc.loadPaths overrideDisabled forceLoad error paths) (fun _ s' => J [] s' ∧ Rpc.Strings paths)
      (fun s' => J [] s' ∧ ¬ Rpc.Strings paths) s := by
  induction paths generalizing s error with
  | nil => exact ⟨hj, fun path hm => absurd hm List.not_mem_nil⟩
  | cons p paths ih =>
    rw [Rpc.loadPaths]
    cases p with
    | str path =>
      rw [Rpc.pathsOf, List.flatMap_cons] at hj
      have hstrings : Rpc.Strings (.str path :: paths) ↔ Rpc.Strings paths :=
        List.forall_mem_cons.trans (and_iff_right ⟨path, rfl⟩)
      rw [hstrings, ends_bind]
      show ends C (Manager.loadAllManifests path overrideDisabled forceLoad >>= _) _ _ s
      rw [ends_bind]
      exact ends_mono (h.loadAllManifests _ hj) (fun _ => id) (fun _ _ hj' => ih hj' _) fun _ => id
    | null | bool | int | uint | float | arr | obj =>
      refine ⟨hj, fun hs => ?_⟩
      obtain ⟨name, e⟩ := hs _ List.mem_cons_self
      cases e

end InTurn

/-! ## Loading serves -/

/-- Each load leaves a manager that serves. -/
theorem serving_inTurn {state : Manager.States} (hne : state ≠ .gracefulShutdown) (overrideDisabled forceLoad : Bool) :
    InTurn (fun _ => True) files overrideDisabled forceLoad fun _ => Serving state files where
  files hs := hs.files
  state hs := hs.state ▸ hne
  load path hs := wp_iff_ends.mp
    (wp_mono (loadManifestDoc_serves _ path _ _ _ hs) (fun _ _ hd => hd.serving hs) fun _ hd => hd.serving hs)

theorem loadAllManifests_eq {state : Manager.States} {path : String} {overrideDisabled forceLoad : Bool}
    (hs : Serving state files s) (hne : state ≠ .gracefulShutdown) :
    Manager.loadAllManifests path overrideDisabled forceLoad s =
    (match files path with
      | .missing => pure false
      | .directory entries => Manager.loadEach overrideDisabled forceLoad false entries
      | .file _ => Manager.loadOne path overrideDisabled forceLoad) s := by
  unfold Manager.loadAllManifests
  have hget : Prog.get s = .ok s s := rfl
  rewrite [bind_ok hget, if_neg (hs.state ▸ hne), bind_ok hget, hs.files]
  cases files path <;> rfl

theorem loadAllManifests_returns {state : Manager.States} {path : String} {overrideDisabled forceLoad : Bool}
    (hs : Serving state files s) (hne : state ≠ .gracefulShutdown) :
    wp (Manager.loadAllManifests path overrideDisabled forceLoad) (fun _ => Serving state files) (fun _ => False) s :=
  wp_iff_ends.mpr ((serving_inTurn hne overrideDisabled forceLoad).loadAllManifests [] hs)

end Relaunchd
