/-
  Relaunchd.Properties.Malformed — requests of any shape, and when the manager outlives
  them.

  The dispatcher catches exceptions. A handler that reads `args[1]` of a short array, or a
  key its object does not have, fails an assertion instead, and so does the manifest of a
  document without a label. A start of a job whose user or group is unknown follows a null
  pointer, and the loop that boots the pending jobs asserts that no job is in both maps.
-/

import Relaunchd.Properties.Booting
import Relaunchd.Properties.Documents
import Relaunchd.Properties.Refusals
import Relaunchd.Survival

namespace Relaunchd

open Prog EventManager Tables Transition

variable {α β γ : Type} {s s' : Sys} {e : Ev} {files : String → Node} {message doc : Json} {why : String}

/-! ## Requests that can be dealt with -/

/-- Nothing that a request has read fails an assertion. -/
structure WellFormed (files : String → Node) (message : Json) : Prop where
  read : ∀ method, message.atIndex 0 >>= Json.getString = .ok method → ∀ why, Rpc.reading message method ≠ .error (.abort why)
  decoded : ∀ method, message.atIndex 0 >>= Json.getString = .ok method →
    ∀ doc ∈ Rpc.documents files message method, ∀ why, Manifest.fromJson doc ≠ .error (.abort why)

/-- A job that starts as soon as it is booted finds its user and its group. -/
def Startable (users : Users) (m : Manifest) : Prop := m.runAtLoad || m.keepAlive → Known users m

/-- A job that is loaded can be booted: it can be started, unless it is disabled and loading
    does not enable it. -/
def Fit (enables : Bool) (s : Sys) (m : Manifest) : Prop :=
  enables ∨ Job.disabledIn m s.stateFile = .ok false → Startable s.kernel.users m

/-- A request with these documents can take a job on for a manifest of them, and enabled;
    `before` are the documents that come before it. Where the request enables the jobs it
    loads, those before may have failed for want of a state file. -/
structure TakesOn (s : Sys) (enables forces : Bool) (before : List Json) (m : Manifest) : Prop where
  loaded : s.jobs.lookup m.label = none
  pending : s.pendingJobs.lookup m.label = none
  allowed : m.disabled = true → forces = true
  overridden : enables = true → ∃ state, Manager.overridden m.label true s.stateFile = .ok state
  enabled : enables = false → Job.disabledIn m s.stateFile = .ok false
  first : enables = false → ∀ doc ∈ before, ∀ m', Manifest.fromJson doc = .ok m' → m'.label = m.label →
    m'.disabled = true ∧ forces = false

/-- The jobs that these documents can have taken on can be started. -/
def Loadable (s : Sys) (enables forces : Bool) (docs : List Json) : Prop :=
  ∀ before doc after m, docs = before ++ doc :: after → Manifest.fromJson doc = .ok m →
    TakesOn s enables forces before m → Startable s.kernel.users m

/-- It is a matter of the jobs, of the state file and of the users. -/
theorem Loadable.of_eq {enables forces : Bool} {docs : List Json} (h : Loadable s enables forces docs) (hj : s'.jobs = s.jobs)
    (hp : s'.pendingJobs = s.pendingJobs) (hf : s'.stateFile = s.stateFile) (hu : s'.kernel.users = s.kernel.users) :
    Loadable s' enables forces docs := fun before doc after m hdocs hdecode ht => by
  rw [hu]
  exact h before doc after m hdocs hdecode ⟨hj ▸ ht.loaded, hp ▸ ht.pending, ht.allowed, hf ▸ ht.overridden, hf ▸ ht.enabled, ht.first⟩

/-- It is enough that no document is of a job unfit to be booted. -/
theorem Loadable.of_fit {enables forces : Bool} {docs : List Json} (h : ∀ doc ∈ docs, ∀ m, Manifest.fromJson doc = .ok m →
    s.jobs.lookup m.label = none → s.pendingJobs.lookup m.label = none → (m.disabled && !forces) = false → Fit enables s m) :
    Loadable s enables forces docs := fun before doc after m hdocs hdecode ht => by
  have hdoc : doc ∈ docs := hdocs ▸ List.mem_append_right before List.mem_cons_self
  have hallowed : (m.disabled && !forces) = false := by
    cases hd : m.disabled with
    | false => rfl
    | true => rw [ht.allowed hd]; rfl
  apply h doc hdoc m hdecode ht.loaded ht.pending hallowed
  cases enables with
  | true => exact .inl rfl
  | false => exact .inr (ht.enabled rfl)

/-- The jobs that a request boots can be booted: those that are pending, and those it can
    take on. -/
structure Launchable (files : String → Node) (message : Json) (s : Sys) : Prop where
  apart : Apart s
  pending : ∀ label r j, s.pendingJobs.lookup label = some (some r) → s.heap r = some j → Fit false s j.manifest
  loaded : ∀ method, message.atIndex 0 >>= Json.getString = .ok method →
    Loadable s (Rpc.enables message method) (Rpc.forces message method) (Rpc.documents files message method)

/-- The request comes as far as the boot of the pending jobs. -/
def Rpc.Launches (message : Json) (s : Sys) : Prop :=
  (message.atIndex 0 >>= Json.getString = .ok "load" ∧
    ∃ force overrideDisabled paths, Rpc.readPaths message = .ok (force, overrideDisabled, paths) ∧ Rpc.Strings paths.elements) ∨
  (message.atIndex 0 >>= Json.getString = .ok "submit" ∧ ∃ doc, message.index 1 = .ok doc ∧
    ∀ m, Fresh s doc m → m.disabled = false → ∃ b, Manager.overrideDisables m.label s.stateFile = .ok b)

/-- The manager has dealt with the event, and runs. -/
def Contained (s : Sys) (e : Ev) : Prop := ∃ s', step e s = .ok () s' ∧ s'.state = .running

/-! ## Crashes -/

/-- A run that fails an assertion, or follows a null pointer. -/
def Crashes (x : M α) (s : Sys) : Prop := ∃ w, x s = .crash w

namespace Crashes

theorem bind {x : M α} {f : α → M β} (h : Crashes x s) : Crashes (x >>= f) s := by
  obtain ⟨w, hw⟩ := h
  exact ⟨w, by simp only [Bind.bind, andThen, hw]⟩

theorem catches {x : M α} {h : String → M α} (hx : Crashes x s) : Crashes (tryCatch x h) s := by
  obtain ⟨w, hw⟩ := hx
  exact ⟨w, by simp only [Prog.tryCatch, hw]⟩

/-- A reading that fails an assertion does it at one of its steps. -/
theorem decode {d : Decode α} {g : α → Decode γ} {f : α → M β} (h : d >>= g = .error (.abort why))
    (hf : ∀ a, g a = .error (.abort why) → Crashes (f a) s) : Crashes (ofDecode d >>= f) s := by
  cases d with
  | error fault =>
    cases h
    exact bind ⟨why, rfl⟩
  | ok a => exact hf a h

/-- A reading that succeeds is passed over. -/
theorem decoded {d : Decode α} {f : α → M β} {a : α} (h : d = .ok a) (hf : Crashes (f a) s) : Crashes (ofDecode d >>= f) s := by
  subst h
  exact hf

end Crashes

/-! ## What is malformed crashes -/

section Malformed

/-- A method that is found is handled. -/
theorem Crashes.dispatched {method : String} {handler : Json → M Json} (hm : message.atIndex 0 >>= Json.getString = .ok method)
    (hh : Rpc.handlers.find? (·.1 == method) = some (method, handler)) (h : Crashes (handler message) s) :
    Crashes (Rpc.rpcDispatch (some message)) s := by
  have hhandler : Rpc.handlerFor message = .ok handler := by
    obtain ⟨value, hvalue, hm⟩ := bind_eq_ok.mp hm
    rw [Rpc.handlerFor, hvalue]
    simp only [Bind.bind, Except.bind, hm, hh]
  exact Crashes.catches (.decoded hhandler (.bind (.catches h)))

/-- A handler whose reading fails an assertion crashes. -/
theorem reading_crashes {method : String} (hm : message.atIndex 0 >>= Json.getString = .ok method)
    (h : Rpc.reading message method = .error (.abort why)) : Crashes (Rpc.rpcDispatch (some message)) s := by
  have hpaths : ∀ {g : Bool × Bool × Json → Decode Unit} {f : Bool → Bool → Json → M Json},
      (Rpc.readPaths message >>= g) = .error (.abort why) →
      (∀ force overrideDisabled paths, g (force, overrideDisabled, paths) ≠ .error (.abort why)) →
      Crashes (do
        let force ← ofDecode (Rpc.argument message "Force" >>= Json.getBool)
        let overrideDisabled ← ofDecode (Rpc.argument message "OverrideDisabled" >>= Json.getBool)
        let paths ← ofDecode (Rpc.argument message "Paths")
        f force overrideDisabled paths) s := by
    intro g f h hg
    have h : (Rpc.argument message "Force" >>= Json.getBool) >>= (fun force => (Rpc.argument message "OverrideDisabled" >>= Json.getBool) >>=
        fun overrideDisabled => Rpc.argument message "Paths" >>= fun paths => g (force, overrideDisabled, paths)) = .error (.abort why) := by
      rw [← h, Rpc.readPaths]
      cases Rpc.argument message "Force" >>= Json.getBool with
      | error => rfl
      | ok force =>
        cases Rpc.argument message "OverrideDisabled" >>= Json.getBool with
        | error => rfl
        | ok overrideDisabled => cases Rpc.argument message "Paths" <;> rfl
    exact .decode h fun force h => .decode h fun overrideDisabled h => .decode h fun paths h => absurd h (hg _ _ _)
  unfold Rpc.reading at h
  split at h
  · exact .dispatched hm rfl (.decode h nofun)
  · exact .dispatched hm rfl (.decode h nofun)
  · exact .dispatched hm rfl (.decode h nofun)
  · exact .dispatched hm rfl (.decode h fun label h => .decode h nofun)
  · exact .dispatched hm rfl (hpaths h fun _ _ _ => nofun)
  · exact .dispatched hm rfl (hpaths h fun _ _ _ => nofun)
  · exact .dispatched hm rfl (.decode h nofun)
  · cases h

/-- While a document that fails an assertion is still to be loaded, nothing comes after the
    loads. -/
theorem abort_inTurn (h : Manifest.fromJson doc = .error (.abort why)) (overrideDisabled forceLoad : Bool) :
    InTurn (fun _ => True) files overrideDisabled forceLoad fun rest s => Serving .running files s ∧ doc ∈ rest where
  files hj := hj.1.files
  state hj := hj.1.state ▸ nofun
  load {d rest s} path hj := by
    obtain ⟨hs, hm⟩ := hj
    by_cases e : doc = d
    · subst e
      rw [ends_died (loadManifestDoc_abort (hs.state ▸ nofun) h)]
      trivial
    · have hrest : doc ∈ rest := (List.mem_cons.mp hm).resolve_left e
      exact wp_iff_ends.mp (wp_mono (loadManifestDoc_serves d path _ _ _ hs) (fun _ _ hd => ⟨hd.serving hs, hrest⟩)
        fun _ hd => ⟨hd.serving hs, hrest⟩)

/-- A document that fails an assertion crashes what reads it as a manifest. -/
theorem documents_crash {method : String} (hs : Serving .running files s) (hm : message.atIndex 0 >>= Json.getString = .ok method)
    (hd : doc ∈ Rpc.documents files message method) (h : Manifest.fromJson doc = .error (.abort why)) :
    Crashes (Rpc.rpcDispatch (some message)) s := by
  unfold Rpc.documents at hd
  split at hd
  · split at hd
    · rename_i force overrideDisabled paths hread
      obtain ⟨hforce, hoverride, hpaths⟩ := Rpc.readPaths_ok.mp hread
      have hload := (abort_inTurn h overrideDisabled force).loadPaths ⟨hs, hd⟩ false
      obtain ⟨w, hw, -⟩ := ends_crashes (ends_mono hload (fun _ => id) (fun _ _ hn => nomatch hn.1.2) fun _ hn => nomatch hn.1.2)
      exact .dispatched hm rfl (.decoded hforce (.decoded hoverride (.decoded hpaths (.bind ⟨w, hw⟩))))
    · cases hd
  · cases hindex : message.index 1 with
    | error => rw [hindex] at hd; cases hd
    | ok doc' =>
      rw [hindex] at hd
      obtain rfl : doc = doc' := List.mem_singleton.mp hd
      exact .dispatched hm rfl (.decoded hindex (.bind ⟨why, loadManifestDoc_abort (hs.state ▸ nofun) h⟩))
  · cases hd

theorem malformed_crashes (hs : Serving .running files s) (h : ¬ Crashes (Rpc.rpcDispatch (some message)) s) :
    WellFormed files message where
  read _ hm _ hread := h (reading_crashes hm hread)
  decoded _ hm _ hd _ hdecode := h (documents_crash hs hm hd hdecode)

end Malformed

/-! ## Loading survives -/

section Prepared

variable {s₀ : Sys} {state : Manager.States} {enables forces : Bool} {docs done rest : List Json} {m : Manifest} {path : String}

/-- Documents that fail no assertion can be loaded. -/
theorem decoded_inTurn (hne : state ≠ .gracefulShutdown) (overrideDisabled forceLoad : Bool) :
    InTurn (fun _ => False) files overrideDisabled forceLoad fun rest s =>
      Serving state files s ∧ ∀ doc ∈ rest, ∀ why, Manifest.fromJson doc ≠ .error (.abort why) where
  files hj := hj.1.files
  state hj := hj.1.state ▸ hne
  load {doc rest s} path hj := by
    obtain ⟨hs, hd⟩ := hj
    obtain ⟨hdoc, hrest⟩ := List.forall_mem_cons.mp hd
    have hload : ends (fun _ => False) (Manager.loadManifestDoc doc path overrideDisabled forceLoad) (fun _ _ => True)
        (fun _ => True) s := loadManifestDoc_ends (Q := fun _ _ => True) (fun _ w hw => hdoc w hw) fun _ _ _ => trivial
    exact ends_mono (ends_and hload (loadManifestDoc_serves doc path _ _ s hs)) (fun _ => id)
      (fun _ _ h => ⟨h.2.serving hs, hrest⟩) fun _ h => ⟨h.2.serving hs, hrest⟩

/-- The override that comes with a load concerns none of the jobs that are pending. -/
theorem fit_opened {state' : Json} {label : String} {r : Ref} {j : Job} (hi : s.tables.Inv none) (hf : Fresh s doc m)
    (ha : AfterOverride s m enables state') (hr : s.pendingJobs.lookup label = some (some r)) (hj : s.heap r = some j) :
    Fit false (s.opened m enables state') j.manifest ↔ Fit false s j.manifest := by
  cases enables with
  | false => rfl
  | true =>
    obtain ⟨hd, -⟩ : Manager.overridden m.label true s.stateFile = .ok state' ∧ s.CanRename := ha
    obtain ⟨j', hj', hlabel, -⟩ := hi.owned.pended label r hr
    cases hj'.symm.trans hj
    have hne : j.manifest.label ≠ m.label := fun e => by
      have hpend := hf.pending
      rw [← e, show j.manifest.label = label from hlabel, hr] at hpend
      cases hpend
    unfold Fit
    rw [show (s.opened m true state').stateFile = state' from rfl, disabledIn_other hd hne]
    rfl

/-- Since `s₀` the documents `done` were loaded, and only jobs that can be booted were put
    in `pending_jobs`. -/
structure Prepared (state : Manager.States) (files : String → Node) (enables forces : Bool) (s₀ : Sys) (done : List Json) (s : Sys) :
    Prop where
  serving : Serving state files s
  users : s.kernel.users = s₀.kernel.users
  jobs : s.jobs = s₀.jobs
  kept : ∀ label, s.pendingJobs.lookup label = none → s₀.pendingJobs.lookup label = none
  untouched : enables = false → s.stateFile = s₀.stateFile
  writable : enables = true → ∀ label state, Manager.overridden label true s.stateFile = .ok state →
    ∃ state₀, Manager.overridden label true s₀.stateFile = .ok state₀
  pending : ∀ label r j, s.pendingJobs.lookup label = some (some r) → s.heap r = some j → Fit false s j.manifest
  taken : enables = false → ∀ doc ∈ done, ∀ m, Manifest.fromJson doc = .ok m → (m.disabled = true → forces = true) →
    ∀ b, Manager.overrideDisables m.label s₀.stateFile = .ok b → (b = true → forces = true) →
      s.jobs.lookup m.label ≠ none ∨ s.pendingJobs.lookup m.label ≠ none

namespace Prepared

theorem start (hs : Serving state files s) (hp : ∀ label r j, s.pendingJobs.lookup label = some (some r) → s.heap r = some j →
    Fit false s j.manifest) : Prepared state files enables forces s [] s where
  serving := hs
  users := rfl
  jobs := rfl
  kept _ h := h
  untouched _ := rfl
  writable _ _ state h := ⟨state, h⟩
  pending := hp
  taken _ _ h := nomatch h

/-- A document that is done with: its job is there, if one can be. -/
theorem snoc (h : Prepared state files enables forces s₀ done s) (hdoc : enables = false → ∀ m, Manifest.fromJson doc = .ok m →
    (m.disabled = true → forces = true) → ∀ b, Manager.overrideDisables m.label s₀.stateFile = .ok b → (b = true → forces = true) →
      s.jobs.lookup m.label ≠ none ∨ s.pendingJobs.lookup m.label ≠ none) :
    Prepared state files enables forces s₀ (done ++ [doc]) s where
  serving := h.serving
  users := h.users
  jobs := h.jobs
  kept := h.kept
  untouched := h.untouched
  writable := h.writable
  pending := h.pending
  taken he d hd := by
    rcases List.mem_append.mp hd with hd | hd
    · exact h.taken he d hd
    · obtain rfl := List.mem_singleton.mp hd
      exact hdoc he

theorem renamed (h : Prepared state files enables forces s₀ done s) : Prepared state files enables forces s₀ done s.renaming :=
  ⟨⟨h.serving.inv, h.serving.state, h.serving.files⟩, h.users, h.jobs, h.kept, h.untouched, h.writable, h.pending, h.taken⟩

theorem opened {state' : Json} (h : Prepared state files enables forces s₀ done s) (hf : Fresh s doc m)
    (ha : AfterOverride s m enables state') : Prepared state files enables forces s₀ done (s.opened m enables state') := by
  have hpending : ∀ label r j, s.pendingJobs.lookup label = some (some r) → s.heap r = some j →
      Fit false (s.opened m enables state') j.manifest := fun label r j hr hj =>
    (fit_opened h.serving.inv hf ha hr hj).mpr (h.pending label r j hr hj)
  cases enables with
  | false => exact h
  | true =>
    refine ⟨⟨h.serving.inv, h.serving.state, h.serving.files⟩, h.users, h.jobs, h.kept, nofun, fun _ label state hs => ?_,
      hpending, nofun⟩
    obtain ⟨state₁, hs₁⟩ := overridden_before ha.1 hs
    exact h.writable rfl label state₁ hs₁

/-- A job that can be booted is added. -/
theorem pends (h : Prepared state files enables forces s₀ done s) (hs : Serving state files (s.pends m path))
    (hm : Fit false s m) : Prepared state files enables forces s₀ done (s.pends m path) where
  serving := hs
  users := h.users
  jobs := h.jobs
  kept label hn := by
    apply h.kept label
    cases hp : s.pendingJobs.lookup label with
    | none => rfl
    | some p =>
      rw [Sys.pends, lookup_insertNew_some hp] at hn
      cases hn
  untouched := h.untouched
  writable := h.writable
  pending label r j hr hj := by
    by_cases hnew : r = s.nextRef
    · subst hnew
      simp only [Sys.pends, Function.update_self, Option.some.injEq] at hj
      subst hj
      exact hm
    · simp only [Sys.pends, Function.update_of_ne hnew] at hj
      simp only [Sys.pends, lookup_insertNew] at hr
      split at hr
      · rename_i heq
        subst heq
        cases hp : s.pendingJobs.lookup m.label with
        | none =>
          rw [hp] at hr
          cases hr
          exact absurd rfl hnew
        | some p =>
          rw [hp] at hr
          cases hr
          exact h.pending _ r j hp hj
      · exact h.pending label r j hr hj
  taken he d hd m' hm' ha b hb hf := by
    refine (h.taken he d hd m' hm' ha b hb hf).imp_right fun hp hn => hp ?_
    cases hl : s.pendingJobs.lookup m'.label with
    | none => rfl
    | some p =>
      rw [Sys.pends, lookup_insertNew_some hl] at hn
      cases hn

/-- A manifest that is admitted is one that the request can take on. -/
theorem takesOn {state' : Json} {b : Bool} (h : Prepared state files enables forces s₀ done s) (hf : Fresh s doc m)
    (ha : AfterOverride s m enables state') (hforce : m.disabled = true → forces = true)
    (hb : Manager.overrideDisables m.label state' = .ok b) (hbforce : b = true → forces = true)
    (hd : Job.disabledIn m state' = .ok false) : TakesOn s₀ enables forces done m where
  loaded := h.jobs ▸ hf.loaded
  pending := h.kept _ hf.pending
  allowed := hforce
  overridden he := by
    subst he
    exact h.writable rfl _ _ ha.1
  enabled he := by
    subst he
    obtain rfl : state' = s.stateFile := ha
    rwa [← h.untouched rfl]
  first he d hd' m' hm' hlabel := by
    subst he
    obtain rfl : state' = s.stateFile := ha
    rw [h.untouched rfl, ← hlabel] at hb
    by_contra hno
    have hallowed : m'.disabled = true → forces = true := fun hm => by simpa [hm] using hno
    rcases h.taken rfl d hd' m' hm' hallowed b hb hbforce with hj | hp
    · exact hj (hlabel ▸ hf.loaded)
    · exact hp (hlabel ▸ hf.pending)

/-- One load. -/
theorem load (hl : Loadable s₀ enables forces docs) (hdocs : docs = done ++ doc :: rest) (hne : state ≠ .gracefulShutdown)
    (h : Prepared state files enables forces s₀ done s) {b : Option Bool} (hto : LoadsTo s doc path enables forces b s')
    (hs : Serving state files s') : Prepared state files enables forces s₀ (done ++ [doc]) s' := by
  have hsame : ∀ {m m'}, Fresh s doc m → Manifest.fromJson doc = .ok m' → m' = m := fun hf hm' =>
    Except.ok.inj (hm'.symm.trans hf.decoded)
  cases hto with
  | unfit hu =>
    refine h.snoc fun _ m hm _ _ _ _ => ?_
    cases hu with
    | stopping hg => exact absurd (h.serving.state.symm.trans hg) hne
    | malformed w hw => cases hw.symm.trans hm
    | duplicate m' hm' hdup =>
      cases hm'.symm.trans hm
      simpa [Option.isSome_iff_ne_none] using hdup
  | unwritable hf he => exact h.snoc fun he' => absurd (he'.symm.trans he) nofun
  | unrenamed hf he => exact h.renamed.snoc fun he' => absurd (he'.symm.trans he) nofun
  | disabled hf ha hd hforce =>
    refine (h.opened hf ha).snoc fun _ m' hm' hallowed => ?_
    rw [hsame hf hm'] at hallowed
    exact absurd (hforce.symm.trans (hallowed hd)) nofun
  | unreadable hf ha _ hb =>
    refine (h.opened hf ha).snoc fun he m' hm' _ b hb' => ?_
    subst he
    obtain rfl := ha
    rw [hsame hf hm', ← h.untouched rfl] at hb'
    exact absurd ⟨b, hb'⟩ hb
  | overridden hf ha _ hb hforce =>
    refine (h.opened hf ha).snoc fun he m' hm' _ b hb' hbforce => ?_
    subst he
    obtain rfl := ha
    rw [hsame hf hm', ← h.untouched rfl] at hb'
    cases hb.symm.trans hb'
    exact absurd (hforce.symm.trans (hbforce rfl)) nofun
  | @admitted m state' b hf ha hallowed hb hbforce =>
    have hopened := h.opened hf ha
    have hfit : Fit false (s.opened m enables state') m := fun hd => by
      have hd : Job.disabledIn m state' = .ok false := ha.opened ▸ hd.resolve_left nofun
      rw [hopened.users]
      exact hl done doc rest m hdocs hf.decoded (h.takesOn hf ha hallowed hb hbforce hd)
    refine (hopened.pends hs hfit).snoc fun _ m' hm' _ _ _ _ => .inr fun hn => ?_
    rw [hsame hf hm', Sys.pends, lookup_insertNew, if_pos rfl] at hn
    cases hp : (s.opened m enables state').pendingJobs.lookup m.label with
    | none => rw [hp] at hn; cases hn
    | some p => rw [hp] at hn; cases hn

/-- The loads leave jobs that can be booted. -/
theorem inTurn (hl : Loadable s₀ enables forces docs) (hne : state ≠ .gracefulShutdown) :
    InTurn (fun _ => True) files enables forces fun rest s =>
      ∃ done, docs = done ++ rest ∧ Prepared state files enables forces s₀ done s where
  files hj := by
    obtain ⟨done, -, h⟩ := hj
    exact h.serving.files
  state hj := by
    obtain ⟨done, -, h⟩ := hj
    exact h.serving.state ▸ hne
  load {doc rest s} path hj := by
    obtain ⟨done, hdocs, h⟩ := hj
    have hrest : docs = done ++ [doc] ++ rest := by rw [hdocs, List.append_assoc, List.singleton_append]
    have hload : ends (fun _ => True) (Manager.loadManifestDoc doc path enables forces)
        (fun b => LoadsTo s doc path enables forces (some b)) (LoadsTo s doc path enables forces none) s :=
      loadManifestDoc_ends (Q := LoadsTo s doc path enables forces) (fun _ _ _ => trivial) fun _ _ => id
    exact ends_mono (ends_and hload (loadManifestDoc_serves doc path _ _ s h.serving)) (fun _ => id)
      (fun _ _ h' => ⟨_, hrest, h.load hl hdocs hne h'.1 (h'.2.serving h.serving)⟩)
      fun _ h' => ⟨_, hrest, h.load hl hdocs hne h'.1 (h'.2.serving h.serving)⟩

end Prepared

end Prepared

/-! ## Booting survives -/

theorem Write.users {may : Effect → Prop} (h : Write may s s') : s'.kernel.users = s.kernel.users := by
  cases h with
  | dispatches | answers | time | kernel | kills | forks | fades | eventmgr | job | records | creates | destroys | boots | booted
  | deletes | clears | overrides | manager | replies => rfl

theorem Writes.users {may : Effect → Prop} (h : Writes may s s') : s'.kernel.users = s.kernel.users := by
  induction h with
  | refl => rfl
  | tail _ hw ih => exact hw.users.trans ih

/-- A program that overrides nothing leaves the state file as it is. -/
theorem Writes.stateFile {may : Effect → Prop} (hmay : ∀ label enabled, ¬ may (.override label enabled)) (h : Writes may s s') :
    s'.stateFile = s.stateFile := by
  induction h with
  | refl => rfl
  | tail _ hw ih =>
    refine Eq.trans ?_ ih
    cases hw with
    | overrides label enabled _ h => exact absurd h (hmay label enabled)
    | dispatches | answers | time | kernel | kills | forks | fades | eventmgr | job | records | creates | destroys | boots | booted
    | deletes | clears | manager | replies => rfl

/-- A job that was there keeps its manifest. -/
theorem Writes.manifest {may : Effect → Prop} (h : Writes may s s') {r : Ref} {j' : Job} (hr : r < s.nextRef)
    (hj : s'.heap r = some j') : ∃ j, s.heap r = some j ∧ j'.manifest = j.manifest := by
  induction h using Relation.ReflTransGen.head_induction_on with
  | refl => exact ⟨j', hj, rfl⟩
  | head hw _ ih =>
    obtain ⟨j₁, hj₁, hm₁⟩ := ih (hr.trans_le hw.nextRef)
    rcases hw.heap hj₁ with ⟨e, -⟩ | ⟨j, hj, hm, -⟩
    · exact absurd e hr.ne
    · exact ⟨j, hj, hm₁.trans hm⟩

structure BootsOn (order : List String) (s : Sys) : Prop where
  inv : s.tables.Inv none
  ahead : Ahead order s
  fit : ∀ label ∈ order, ∀ r j, s.pendingJobs.lookup label = some (some r) → s.heap r = some j → Fit false s j.manifest

theorem startPending_survives {label : String} {order : List String} (h : BootsOn (label :: order) s) (hn : (label :: order).Nodup) :
    ends (fun _ => False) (Manager.startPending label) (fun _ => BootsOn order) (fun _ => True) s := by
  obtain ⟨hfree, r, hr⟩ := h.ahead label List.mem_cons_self
  have hnone : ¬ (s.jobs.lookup label).isSome := by rwa [AList.lookup_isSome]
  obtain ⟨j, hj, hjl, hjb⟩ := h.inv.owned.pended label r hr
  have hfresh := lifeOf_fresh h.inv hj hjb
  have hstate : j.state = .loaded := congrArg Life.state hfresh
  have htimer : j.timerId = none := Option.not_isSome_iff_eq_none.mp (by
    rw [show j.timerId.isSome = false from congrArg (·.timerSet) hfresh]
    simp)
  have hcrash : ends (fun _ => False) (Manager.startPending label) (fun _ _ => True) (fun _ => True) s := by
    rw [Manager.startPending, ends_bind, ends_get, ends_ite, if_neg hnone, hr]
    dsimp only
    rw [ends_bind, ends_modify, ends_bind, Manager.markBootstrap, ends_bind, ends_this (j := j) (by exact hj), ends_bind, ends_get,
      ends_setJob]
    refine bootstrap_ends (Sys.updateJob_self (by exact hj)) hstate htimer (fun hd hruns => .inl ?_) (.inl trivial)
    exact h.fit label List.mem_cons_self r j hr hj (.inr hd) hruns
  have htraced : Traced (Effect.boot = ·) (Manager.startPending label) := Traced.startPending rfl label
  have hspec : wp (Manager.startPending label) (fun _ => BootsOn order) (fun _ => True) s := by
    refine wp_mono (wp_and (wp_and (startPending_spec h.inv label) (htraced s trivial)) (ends_iff.mp (startPending_ends h.ahead hn)).1)
      ?_ fun _ _ => trivial
    intro _ s₁ h'
    obtain ⟨⟨⟨hdoes, hpend⟩, hwrites⟩, hahead⟩ := h'
    refine ⟨hdoes.inv, hahead, fun l hl r' j' hr' hj' => ?_⟩
    have hne : l ≠ label := fun e => (List.nodup_cons.mp hn).1 (e ▸ hl)
    rw [hpend, AList.lookup_insert_ne hne] at hr'
    obtain ⟨j₀, hj₀, -, -⟩ := h.inv.owned.pended l r' hr'
    obtain ⟨j₁, hj₁, hm⟩ := Writes.manifest hwrites (h.inv.owned.allocated r' j₀ hj₀) hj'
    unfold Fit
    rw [hm, Writes.users hwrites, Writes.stateFile (by simp) hwrites]
    exact h.fit l (List.mem_cons_of_mem _ hl) r' j₁ hr' hj₁
  exact ends_mono (ends_and hcrash hspec) (fun _ => id) (fun _ _ hs => hs.2) fun _ _ => trivial

theorem startEach_survives {order : List String} (h : BootsOn order s) (hn : order.Nodup) :
    ends (fun _ => False) (forEach Manager.startPending order) (fun _ _ => True) (fun _ => True) s := by
  induction order generalizing s with
  | nil => trivial
  | cons label rest ih =>
    rw [forEach, ends_bind]
    exact ends_mono (startPending_survives h hn) (fun _ => id) (fun _ _ h' => ih h' (List.nodup_cons.mp hn).2) fun _ => id

structure Boots (s : Sys) : Prop where
  inv : s.tables.Inv none
  state : s.state = .running
  apart : Apart s
  fit : ∀ label r j, s.pendingJobs.lookup label = some (some r) → s.heap r = some j → Fit false s j.manifest

theorem startAllJobs_survives (hi : s.tables.Inv none) (ha : Apart s)
    (hs : ∀ label r j, s.pendingJobs.lookup label = some (some r) → s.heap r = some j → Fit false s j.manifest) :
    ends (fun _ => False) Manager.startAllJobs (fun _ _ => True) (fun _ => True) s := by
  have htraced : Traced (fun _ => False) (visiting s.pendingJobs.keys) := .visits _
  have hvisit : ends (fun _ => False) (visiting s.pendingJobs.keys)
      (fun order u => (order.Perm s.pendingJobs.keys ∧ Took s u) ∧ Writes (fun _ => False) s u) (fun _ => True) s := by
    refine ends_iff.mpr ⟨wp_mono (wp_and (visiting_spec (E := fun _ => True)) (htraced s trivial)) (fun _ _ => id) fun _ _ => trivial, ?_⟩
    intro w hw
    cases hw
  rw [Manager.startAllJobs, ends_bind, ends_get, ends_bind]
  refine ends_mono hvisit (fun _ => id) ?_ fun _ => id
  intro order u h
  obtain ⟨⟨hperm, htook⟩, hwrites⟩ := h
  have hpend : u.pendingJobs = s.pendingJobs := htook.keeps.pendingJobs
  obtain ⟨hahead, hnodup⟩ := (ha.of_eq htook.keeps.jobs hpend).ahead (hpend ▸ hperm)
  have hheap : u.heap = s.heap := congrArg Tables.heap htook.tables
  have hboots : BootsOn order u := by
    refine ⟨htook.tables ▸ hi, hahead, fun label _ r j hr hj => ?_⟩
    unfold Fit
    rw [Writes.users hwrites, Writes.stateFile (fun _ _ => id) hwrites]
    exact hs label r j (hpend ▸ hr) (hheap ▸ hj)
  rw [ends_bind]
  exact ends_mono (startEach_survives hboots hnodup) (fun _ => id) (fun _ _ _ => trivial) fun _ => id

theorem startLoaded_survives (h : Boots s) : ends (fun _ => False) Manager.startLoaded (fun _ _ => True) (fun _ => True) s := by
  rw [ends_congr (startLoaded_eq h.state), ends_ite]
  split
  · trivial
  · rw [ends_bind]
    exact ends_mono (startAllJobs_survives h.inv h.apart h.fit) (fun _ => id) (fun _ _ _ => trivial) fun _ => id

/-- What is loaded is booted: the loads crash nothing, and where they return they leave jobs
    that can be. -/
theorem thenStarts_survives {x : M α} {reply : α → Json} (hx : ends (fun _ => False) x (fun _ _ => True) (fun _ => True) s)
    (hb : wp x (fun _ => Boots) (fun _ => True) s) :
    ends (fun _ => False) (x >>= fun a => Manager.startLoaded >>= fun _ => return reply a) (fun _ _ => True) (fun _ => True) s := by
  rw [ends_bind]
  refine ends_mono (ends_and hx hb) (fun _ => id) (fun a u h => ?_) fun _ _ => trivial
  rw [ends_bind]
  exact ends_mono (startLoaded_survives h.2) (fun _ => id) (fun _ _ _ => trivial) fun _ => id

theorem Prepared.boots {enables forces : Bool} {s₀ : Sys} {docs : List Json} (h : Prepared .running files enables forces s₀ docs s)
    (ha : Apart s) : Boots s :=
  ⟨h.serving.inv, h.serving.state, ha, h.pending⟩

/-! ## What is well formed survives -/

/-- A reading that fails no assertion does so at none of its steps. -/
theorem Decode.steps {d : Decode α} {g : α → Decode γ} (h : ∀ why, d >>= g ≠ .error (.abort why)) :
    (∀ why, d ≠ .error (.abort why)) ∧ ∀ a, d = .ok a → ∀ why, g a ≠ .error (.abort why) := by
  refine ⟨fun why hd => h why ?_, fun a hd why hg => h why ?_⟩
  · rw [hd]
    rfl
  · rw [hd]
    exact hg

/-- What follows a reading that fails no assertion. -/
theorem reads_survives {d : Decode α} {f : α → M β} (hd : ∀ why, d ≠ .error (.abort why))
    (hf : ∀ a, d = .ok a → ends (fun _ => False) (f a) (fun _ _ => True) (fun _ => True) s) :
    ends (fun _ => False) (ofDecode d >>= f) (fun _ _ => True) (fun _ => True) s := by
  cases d with
  | ok a => exact hf a rfl
  | error fault => cases fault with
    | exn w => trivial
    | abort w => exact absurd rfl (hd w)

/-- The steps in which the arguments of a load and of an unload are read. -/
theorem readPaths_steps (h : ∀ why, Rpc.readPaths message ≠ .error (.abort why)) :
    (∀ why, (Rpc.argument message "Force" >>= Json.getBool) ≠ .error (.abort why)) ∧
    ∀ force, (Rpc.argument message "Force" >>= Json.getBool) = .ok force →
      (∀ why, (Rpc.argument message "OverrideDisabled" >>= Json.getBool) ≠ .error (.abort why)) ∧
      ∀ overrideDisabled, (Rpc.argument message "OverrideDisabled" >>= Json.getBool) = .ok overrideDisabled →
        ∀ why, Rpc.argument message "Paths" ≠ .error (.abort why) := by
  obtain ⟨hforce, h⟩ := Decode.steps h
  refine ⟨hforce, fun force hf => ?_⟩
  obtain ⟨hoverride, h⟩ := Decode.steps (h force hf)
  exact ⟨hoverride, fun overrideDisabled ho => (Decode.steps (h overrideDisabled ho)).1⟩

theorem labelArgument_set {label : String} (h : Rpc.labelArgument message = .ok label) : label.isEmpty = false := by
  obtain ⟨value, -, h⟩ := bind_eq_ok.mp h
  obtain ⟨buf, -, h⟩ := bind_eq_ok.mp h
  exact Label.make_set h

theorem opLoad_survives (hs : Serving .running files s) (hw : WellFormed files message)
    (hl : Rpc.Launches message s → Launchable files message s) (hm : message.atIndex 0 >>= Json.getString = .ok "load") :
    ends (fun _ => False) (Rpc.opLoad message) (fun _ _ => True) (fun _ => True) s := by
  obtain ⟨hforce, hread⟩ := readPaths_steps (Decode.steps (hw.read "load" hm)).1
  rw [Rpc.opLoad]
  refine reads_survives hforce fun force hf => ?_
  obtain ⟨hoverride, hpaths⟩ := hread force hf
  refine reads_survives hoverride fun overrideDisabled ho => reads_survives (hpaths overrideDisabled ho) fun paths hp => ?_
  have hargs : Rpc.readPaths message = .ok (force, overrideDisabled, paths) := Rpc.readPaths_ok.mpr ⟨hf, ho, hp⟩
  obtain ⟨hdocs, henables, hforces⟩ := Rpc.documents_load files hargs
  have hdecoded := hw.decoded "load" hm
  rw [hdocs] at hdecoded
  have hrunning : Manager.States.running ≠ .gracefulShutdown := by simp
  have hload := (decoded_inTurn hrunning overrideDisabled force).loadPaths ⟨hs, hdecoded⟩ false
  refine thenStarts_survives (ends_mono hload (fun _ => id) (fun _ _ _ => trivial) fun _ _ => trivial) ?_
  by_cases hstrings : Rpc.Strings paths.elements
  · have hlaunch : Launchable files message s := hl (.inl ⟨hm, force, overrideDisabled, paths, hargs, hstrings⟩)
    have hloadable := hlaunch.loaded "load" hm
    rw [hdocs, henables, hforces] at hloadable
    have hprepared := (Prepared.inTurn hloadable hrunning).loadPaths ⟨[], rfl, .start hs hlaunch.pending⟩ false
    have htraced : Traced NoBoot (Rpc.loadPaths overrideDisabled force false paths.elements) := .loadPaths (fun _ _ h => by cases h) _ _ _ _
    refine wp_mono (wp_and (wp_iff_ends.mpr hprepared) (htraced s trivial)) (fun _ u h => ?_) fun _ _ => trivial
    obtain ⟨⟨⟨done, -, hdone⟩, -⟩, hwrites⟩ := h
    exact hdone.boots (hwrites.apart hlaunch.apart)
  · exact wp_mono (ends_iff.mp hload).1 (fun _ _ h => absurd h.2 hstrings) fun _ _ => trivial

/-- A load that returns has looked the override up. -/
theorem LoadsTo.looked {path : String} {b : Bool} {m : Manifest} (h : LoadsTo s doc path false false (some b) s') (hf : Fresh s doc m)
    (hd : m.disabled = false) : ∃ b, Manager.overrideDisables m.label s.stateFile = .ok b := by
  have hsame : ∀ {m'}, Fresh s doc m' → m' = m := fun hf' => Except.ok.inj (hf'.decoded.symm.trans hf.decoded)
  cases h with
  | unfit hu => exact absurd hf hu.not_fresh
  | disabled hf' _ hd' =>
    cases hsame hf'
    exact absurd (hd.symm.trans hd') nofun
  | overridden hf' ha _ hb =>
    cases hsame hf'
    obtain rfl := ha
    exact ⟨_, hb⟩
  | admitted hf' ha _ hb =>
    cases hsame hf'
    obtain rfl := ha
    exact ⟨_, hb⟩

theorem opSubmit_survives (hs : Serving .running files s) (hw : WellFormed files message)
    (hl : Rpc.Launches message s → Launchable files message s) (hm : message.atIndex 0 >>= Json.getString = .ok "submit") :
    ends (fun _ => False) (Rpc.opSubmit message) (fun _ _ => True) (fun _ => True) s := by
  rw [Rpc.opSubmit]
  refine reads_survives (Decode.steps (hw.read "submit" hm)).1 fun doc hdoc => ?_
  have hdocs := Rpc.documents_submit files hdoc
  have habort : ∀ why, Manifest.fromJson doc ≠ .error (.abort why) :=
    hw.decoded "submit" hm doc (by rw [hdocs]; exact List.mem_singleton_self doc)
  have hload : ends (fun _ => False) (Manager.loadManifestDoc doc "/dev/null" false false)
      (fun b => LoadsTo s doc "/dev/null" false false (some b)) (LoadsTo s doc "/dev/null" false false none) s :=
    loadManifestDoc_ends (Q := LoadsTo s doc "/dev/null" false false) (fun _ w hw => absurd hw (habort w)) fun _ _ => id
  refine thenStarts_survives (ends_mono hload (fun _ => id) (fun _ _ _ => trivial) fun _ _ => trivial) ?_
  have htraced : Traced NoBoot (Manager.loadManifestDoc doc "/dev/null" false false) := .loadManifestDoc (by simp)
  refine wp_mono (wp_and (ends_iff.mp hload).1 (wp_and (loadManifestDoc_serves doc "/dev/null" false false s hs) (htraced s trivial)))
    (fun b u h => ?_) fun _ _ => trivial
  obtain ⟨hto, hdoes, hwrites⟩ := h
  have hlaunch : Launchable files message s := hl (.inr ⟨hm, doc, hdoc, fun m hf hd => hto.looked hf hd⟩)
  have hloadable : Loadable s false false [doc] := hdocs ▸ hlaunch.loaded "submit" hm
  have hrunning : Manager.States.running ≠ .gracefulShutdown := by simp
  have hstart : Prepared .running files false false s [] s := .start hs hlaunch.pending
  have hone : [doc] = [] ++ doc :: [] := rfl
  exact (hstart.load hloadable hone hrunning hto (hdoes.serving hs)).boots (hwrites.apart hlaunch.apart)

/-- A handler survives a request that is well formed. -/
theorem handler_survives {handler : Json → M Json} (hs : Serving .running files s) (hset : LabelsSet s) (hw : WellFormed files message)
    (hl : Rpc.Launches message s → Launchable files message s) (hh : Rpc.handlerFor message = .ok handler) :
    ends (fun _ => False) (handler message) (fun _ _ => True) (fun _ => True) s := by
  obtain ⟨method, hmem, hm⟩ := Rpc.of_handler hh
  have hread := hw.read method hm
  have hdone : ∀ {x : M Json}, Withstands files x → ends (fun _ => False) x (fun _ _ => True) (fun _ => True) s := fun hx =>
    ends_mono (hx s hs) (fun _ => id) (fun _ _ _ => trivial) fun _ _ => trivial
  simp only [Rpc.handlers, List.mem_cons, Prod.mk.injEq, List.not_mem_nil, or_false] at hmem
  rcases hmem with ⟨rfl, rfl⟩ | ⟨rfl, rfl⟩ | ⟨rfl, rfl⟩ | ⟨rfl, rfl⟩ | ⟨rfl, rfl⟩ | ⟨rfl, rfl⟩ | ⟨rfl, rfl⟩ |
    ⟨rfl, rfl⟩ | ⟨rfl, rfl⟩
  · exact hdone (.bind (Survives.decodes (Decode.steps hread).1) fun _ => .bind (Withstands.overrideJobEnabled _ _) fun _ => .returns _)
  · exact hdone (.bind (Survives.decodes (Decode.steps hread).1) fun _ => .bind (Withstands.overrideJobEnabled _ _) fun _ => .returns _)
  · obtain ⟨hlabel, hsignal⟩ := Decode.steps hread
    exact hdone (Survives.decodesThen hlabel fun label hl => Survives.decodesThen (Decode.steps (hsignal label hl)).1 fun _ _ =>
      .bind (Withstands.killJob (labelArgument_set hl) _) fun _ => .returns _)
  · exact ends_mono (listJobs_survives s hset) (fun _ => id) (fun _ _ _ => trivial) fun _ _ => trivial
  · exact opLoad_survives hs hw hl hm
  · exact hdone (Survives.decodesThen (Decode.steps hread).1 fun label hl =>
      .bind (Withstands.unloadJob (labelArgument_set hl) _ _) fun _ => .returns _)
  · exact opSubmit_survives hs hw hl hm
  · obtain ⟨hforce, hread⟩ := readPaths_steps (Decode.steps hread).1
    exact hdone (Survives.decodesThen hforce fun force hf => Survives.decodesThen (hread force hf).1 fun overrideDisabled ho =>
      Survives.decodesThen ((hread force hf).2 overrideDisabled ho) fun _ _ => .bind (Withstands.unloadPaths _ _ _ _) fun _ => .returns _)
  · trivial

/-- A request that is well formed is dealt with. -/
theorem rpcDispatch_survives (hs : Serving .running files s) (hset : LabelsSet s) (hw : WellFormed files message)
    (hl : Rpc.Launches message s → Launchable files message s) :
    ∃ s', Rpc.rpcDispatch (some message) s = .ok () s' ∧ s'.state = .running := by
  have hcrash : ends (fun _ => False) (Rpc.rpcDispatch (some message)) (fun _ _ => True) (fun _ => True) s := by
    refine ends_catch (F := fun _ => True) ?_ fun _ _ _ => trivial
    refine reads_survives (Rpc.handlerFor_faults message).not_abort fun handler hh => ?_
    rw [ends_bind]
    have hanswer := handler_survives hs hset hw hl hh
    refine ends_mono (ends_catch hanswer fun _ _ _ => trivial) (fun _ => id) (fun reply u _ => ?_) fun _ => id
    rw [Rpc.writeMessage, ends_bind, nextWrite, ends_answer, ends_ite]
    split
    · trivial
    · trivial
  have hspec := rpcDispatch_spec (E := fun _ => False) hs (some message)
  obtain ⟨_, s', hok, -, hdoes⟩ := ends_returns (ends_mono (ends_and hcrash hspec) (fun _ => id) (fun _ _ => id) fun _ hf => hf.2)
  exact ⟨s', hok, hdoes.state.trans hs.state⟩

/-! ## Requests -/

/-- What a request is taken from: the manager as the step began with it. -/
theorem serving_request {wakeup : Wakeup} {answers : Answers} (h : Reachable s) (hs : s.state = .running)
    (hd : (Ev.handleEvent wakeup answers).dispatched s = some (.socket (some message))) :
    Serving .running answers.files (s.given answers) ∧ LabelsSet (s.given answers) ∧
      step (.handleEvent wakeup answers) s = Rpc.rpcDispatch (some message) (s.given answers) := by
  have hsound : Sound s := Runs.sound (.of_reachable h) (by rw [hs]; nofun)
  obtain ⟨wakeup', answers', u, e, hnext, hstep⟩ := step_dispatched hd (.inl hs)
  cases e
  have htakes : Takes (s.given answers) (.socket (some message)) u :=
    wp_ok (Q := Waits (s.given answers)) (nextEvent_spec (s := s.given answers) hsound.inv wakeup) hnext
  obtain ⟨rfl, -⟩ := hsound.ofSocket htakes
  refine ⟨⟨hsound.inv, hs, rfl⟩, fun label r hr => ?_, hstep⟩
  obtain ⟨j, hj, -⟩ := hsound.inv.owned.stored label r hr
  exact ⟨j, hj, reachable_label h hj⟩

/-- The manager outlives a request that is well formed, as long as the jobs it boots can be. -/
theorem wellFormed_contained {wakeup : Wakeup} {answers : Answers} (h : Reachable s) (hs : s.state = .running)
    (hd : (Ev.handleEvent wakeup answers).dispatched s = some (.socket (some message))) (hw : WellFormed answers.files message)
    (hl : Rpc.Launches message s → Launchable answers.files message s) : Contained s (.handleEvent wakeup answers) := by
  obtain ⟨hserving, hset, hstep⟩ := serving_request h hs hd
  have hl' : Rpc.Launches message (s.given answers) → Launchable answers.files message (s.given answers) := fun hlaunch => by
    have hboots : Launchable answers.files message s := hl (hlaunch.imp_right fun ⟨hm, doc, hdoc, hlook⟩ =>
      ⟨hm, doc, hdoc, fun m hf => hlook m ⟨hf.running, hf.decoded, hf.loaded, hf.pending⟩⟩)
    exact ⟨hboots.apart.of_eq rfl rfl, hboots.pending, fun method hm => (hboots.loaded method hm).of_eq rfl rfl rfl rfl⟩
  obtain ⟨s', hok, hrun⟩ := rpcDispatch_survives hserving hset hw hl'
  exact ⟨s', hstep.trans hok, hrun⟩

/-- A request that the manager outlives is well formed. -/
theorem contained_wellFormed {wakeup : Wakeup} {answers : Answers} (h : Reachable s) (hs : s.state = .running)
    (hd : (Ev.handleEvent wakeup answers).dispatched s = some (.socket (some message)))
    (hc : Contained s (.handleEvent wakeup answers)) : WellFormed answers.files message := by
  obtain ⟨s', hok, -⟩ := hc
  obtain ⟨hserving, -, hstep⟩ := serving_request h hs hd
  refine malformed_crashes hserving fun ⟨w, hw⟩ => ?_
  rw [hstep, hw] at hok
  cases hok

theorem dispatched_request {answers : Answers} (hs : s.state = .running) (hl : s.listening) (hq : s.eventmgr.pendingEvents = []) :
    (Ev.handleEvent (.socket (some message)) answers).dispatched s = some (.socket (some message)) := by
  have hnext : nextEvent (.socket (some message)) (s.given answers) = .ok (some (.socket (some message))) (s.given answers) :=
    nextEvent_socket hq hl
  rw [Ev.dispatched, if_neg (by rw [hs]; simp), hnext]

/-- A manager that waits for requests. -/
theorem exists_listening : ∃ s, Reachable s ∧ s.state = .running ∧ s.listening ∧ s.eventmgr.pendingEvents = [] ∧
    step (.handleEvent (.socket (some (.arr [.str "kill"]))) {}) s = .crash "json: index out of range" := by
  obtain ⟨s, hs, hp⟩ := reachable_of_run [.startRunning [] {}] (fun s => s.state == .running && s.listening &&
    s.eventmgr.pendingEvents.isEmpty && crashed? (step (.handleEvent (.socket (some (.arr [.str "kill"]))) {}) s) ==
      some "json: index out of range") (by decide +kernel)
  simp only [Bool.and_eq_true, beq_iff_eq, List.isEmpty_iff] at hp
  exact ⟨s, hs, hp.1.1.1, hp.1.1.2, hp.1.2, crashed?_eq.mp hp.2⟩

end Relaunchd
