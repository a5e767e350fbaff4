/-
  Relaunchd.Refinement.Frame — what an operation on one job does to its life, and to no
  other: the frame every operation is specified in.
-/

import Relaunchd.Invariant.Kernel

namespace Relaunchd

open Prog EventManager Tables

/-! ## The frame of an operation -/

/-- The answers left are among those there were. -/
structure Answers.Left (a a' : Answers) : Prop where
  forks : a'.forks ⊆ a.forks
  probes : a'.probes ⊆ a.probes
  timers : a'.timers ⊆ a.timers
  kills : a'.kills ⊆ a.kills
  files : a'.files = a.files

theorem Answers.Left.refl (a : Answers) : a.Left a := ⟨List.Subset.refl _, List.Subset.refl _, List.Subset.refl _, List.Subset.refl _, rfl⟩

theorem Answers.Left.trans {a b c : Answers} (h : a.Left b) (h' : b.Left c) : a.Left c :=
  ⟨List.Subset.trans h'.forks h.forks, List.Subset.trans h'.probes h.probes, List.Subset.trans h'.timers h.timers,
    List.Subset.trans h'.kills h.kills, h'.files.trans h.files⟩

structure Keeps (s s' : Sys) : Prop where
  state : s'.state = s.state
  stateFile : s'.stateFile = s.stateFile
  listening : s'.listening = s.listening
  jobs : s'.jobs = s.jobs
  pendingJobs : s'.pendingJobs = s.pendingJobs
  nextRef : s'.nextRef = s.nextRef
  answers : s.kernel.answers.Left s'.kernel.answers

theorem Keeps.refl (s : Sys) : Keeps s s := ⟨rfl, rfl, rfl, rfl, rfl, rfl, .refl _⟩

theorem Keeps.trans {s s' s'' : Sys} (h : Keeps s s') (h' : Keeps s' s'') : Keeps s s'' :=
  ⟨h'.state.trans h.state, h'.stateFile.trans h.stateFile, h'.listening.trans h.listening, h'.jobs.trans h.jobs,
    h'.pendingJobs.trans h.pendingJobs, h'.nextRef.trans h.nextRef, h.answers.trans h'.answers⟩

/-- The life of the job at `r` becomes `l`, and no other changes. -/
structure Moves (busy : Option Int) (r : Ref) (l : Life) (s s' : Sys) : Prop where
  inv : s'.tables.Inv busy
  life : s'.tables.fate r = .alive l
  others : ∀ r', r' ≠ r → s'.tables.fate r' = s.tables.fate r'
  keeps : Keeps s s'

variable {busy : Option Int} {r : Ref} {l l' : Life} {s s' : Sys} {j : Job}

theorem Moves.trans {s'' : Sys} (h : Moves busy r l s s') (h' : Moves busy r l' s' s'') : Moves busy r l' s s'' :=
  ⟨h'.inv, h'.life, fun r' hne => (h'.others r' hne).trans (h.others r' hne), h.keeps.trans h'.keeps⟩

theorem Moves.refl (h : s.tables.Inv busy) (hl : s.tables.fate r = .alive l) : Moves busy r l s s :=
  ⟨h, hl, fun _ _ => rfl, Keeps.refl s⟩

/-- Before an operation, a step that leaves the tables alone. -/
theorem Moves.after' {s'' : Sys} (h : Moves busy r l s' s'') (hf : ∀ r', s'.tables.fate r' = s.tables.fate r')
    (hk : Keeps s s') : Moves busy r l s s'' :=
  ⟨h.inv, h.life, fun r' hne => (h.others r' hne).trans (hf r'), hk.trans h.keeps⟩

theorem Moves.after {s'' : Sys} (h : Moves busy r l s' s'') (ht : s'.tables = s.tables) (hk : Keeps s s') :
    Moves busy r l s s'' := h.after' (fun r' => by rw [ht]) hk

theorem good_of_alive (h : s.tables.Inv busy) (hl : s.tables.fate r = .alive l) : l.Good := by
  obtain ⟨j, hj, rfl⟩ := fate_eq_alive hl
  exact h.good r j hj

theorem tables_updateJob (h : s.heap r = some j) (f : Job → Job) : (s.updateJob r f).tables = s.tables.put r (f j) := by
  unfold Sys.tables Tables.put
  simp [Sys.updateJob, h]

theorem keeps_updateJob (s : Sys) (r : Ref) (f : Job → Job) : Keeps s (s.updateJob r f) := ⟨rfl, rfl, rfl, rfl, rfl, rfl, .refl _⟩

/-- Taking answers from the lists leaves the rest of them. -/
theorem left_tail {a : Answers} : a.Left { a with ticks := a.ticks.tail } ∧ a.Left { a with forks := a.forks.tail } ∧
    a.Left { a with probes := a.probes.tail } ∧ a.Left { a with timers := a.timers.tail } ∧
    a.Left { a with kills := a.kills.tail } :=
  ⟨⟨List.Subset.refl _, List.Subset.refl _, List.Subset.refl _, List.Subset.refl _, rfl⟩,
    ⟨List.tail_subset _, List.Subset.refl _, List.Subset.refl _, List.Subset.refl _, rfl⟩,
    ⟨List.Subset.refl _, List.tail_subset _, List.Subset.refl _, List.Subset.refl _, rfl⟩,
    ⟨List.Subset.refl _, List.Subset.refl _, List.tail_subset _, List.Subset.refl _, rfl⟩,
    ⟨List.Subset.refl _, List.Subset.refl _, List.Subset.refl _, List.tail_subset _, rfl⟩⟩

theorem mem_or_headD (as : List α) (d : α) : as.headD d ∈ as ∨ as.headD d = d := by
  cases as with
  | nil => exact .inr rfl
  | cons a as => exact .inl List.mem_cons_self

theorem keeps_ticked (s : Sys) : Keeps s s.ticked := ⟨rfl, rfl, rfl, rfl, rfl, rfl, left_tail.1⟩

/-- A change of fields that the invariant does not speak of, as far as the life goes. -/
theorem moves_put (h : s.tables.Inv busy) (hj : s.heap r = some j) (f : Job → Job) (hl : (f j).label = j.label)
    (hb : (f j).boot = j.boot)
    (hi : (f j).timerId = j.timerId ∨
      ((f j).timerId = none ∧ ∀ id, s.tables.eventmgr.armedFor s.tables.timerfds r id = false))
    (hu : (f j).state = .unloaded ↔ j.state = .unloaded) (hp : (f j).pgid = j.pgid)
    (hg : (s.tables.lifeOf r (f j)).Good) :
    Moves busy r (s.tables.lifeOf r (f j)) s (s.updateJob r f) := by
  refine ⟨?_, ?_, fun r' hne => ?_, keeps_updateJob ..⟩ <;> rw [tables_updateJob hj]
  · exact h.put _ hj hl hb hi hu (fun c hc => hp ▸ h.group r j c hj hc) hg
  · exact fate_put_self
  · exact fate_put_ne hne

theorem moves_state (h : s.tables.Inv busy) (hl : s.tables.fate r = .alive l) {state : Job.States}
    (hs : state ≠ .unloaded) (hs' : l.state ≠ .unloaded) (ht : l.timerSet = false) (hb : l.boot ≠ .pending) :
    Moves busy r { l with state } s (s.updateJob r fun j => { j with state }) := by
  obtain ⟨j, hj, rfl⟩ := fate_eq_alive hl
  exact moves_put h hj (fun j => { j with state }) rfl rfl (.inl rfl) (iff_of_false hs hs') rfl
    (Life.good_state (h.good r j hj) ht hb)

/-- Only answers were taken, and the clock was not read. -/
structure Took (s s' : Sys) : Prop where
  tables : s'.tables = s.tables
  keeps : Keeps s s'
  clock : s'.clock = s.clock

theorem Moves.took (h : Moves busy r l s s') {s'' : Sys} (ht : Took s' s'') : Moves busy r l s s'' :=
  ⟨ht.tables ▸ h.inv, ht.tables ▸ h.life, fun r' hne => ht.tables ▸ h.others r' hne, h.keeps.trans ht.keeps⟩

end Relaunchd
