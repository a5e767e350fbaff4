/-
  Relaunchd.Tables — the tables of the program and of the kernel that say what becomes of
  its jobs, read as one life for each job.

  The clock, the state file, the answers and the manager's own state are left out: a step
  that changes only those leaves `Sys.tables` as it is, and with it every fate and every
  invariant.
-/

import Relaunchd.Life

namespace Relaunchd

open EventManager

structure Tables where
  jobs : AList (fun _ : String => Ref)
  pendingJobs : AList (fun _ : String => Option Ref)
  heap : Ref → Option Job
  nextRef : Ref
  eventmgr : EventManager
  procs : List Proc
  timerfds : AList (fun _ : Fd => TimerFd)
  kills : List Kill
  groupKills : List (Ref × Int)
  starts : List StartCall

def Sys.tables (s : Sys) : Tables where
  jobs := s.jobs
  pendingJobs := s.pendingJobs
  heap := s.heap
  nextRef := s.nextRef
  eventmgr := s.eventmgr
  procs := s.kernel.procs
  timerfds := s.kernel.timerfds
  kills := s.kernel.kills
  groupKills := s.kernel.groupKills
  starts := s.starts

/-! ## Processes -/

namespace Proc

def face (p : Proc) : Int × Ref × Bool × List Ref × Nat := (p.pid, p.job, p.execed, p.dispatched, p.forkedAt)

/-- Only the kernel's part of a process changes, and a reaped process stays reaped. -/
def Fades (p p' : Proc) : Prop :=
  p'.face = p.face ∧ p'.stale = p.stale ∧ (p'.held → p.held)

theorem Fades.refl (p : Proc) : p.Fades p := ⟨rfl, rfl, id⟩

theorem Fades.trans {p p' p'' : Proc} (h : p.Fades p') (h' : p'.Fades p'') : p.Fades p'' :=
  ⟨h'.1.trans h.1, h'.2.1.trans h.2.1, fun hh => h.2.2 (h'.2.2 hh)⟩

variable {p p' : Proc}

theorem Fades.pid (h : p.Fades p') : p'.pid = p.pid := congrArg (·.1) h.1
theorem Fades.job (h : p.Fades p') : p'.job = p.job := congrArg (·.2.1) h.1
theorem Fades.execed (h : p.Fades p') : p'.execed = p.execed := congrArg (·.2.2.1) h.1
theorem Fades.dispatched (h : p.Fades p') : p'.dispatched = p.dispatched := congrArg (·.2.2.2.1) h.1

theorem Fades.live (h : p.Fades p') : p'.live = p.live := by rw [Proc.live, h.execed, h.dispatched, ← Proc.live]

theorem fades_reaped (p : Proc) : p.Fades { p with state := .reaped } := ⟨rfl, rfl, fun h => by simp [held] at h⟩

end Proc

def Fading (procs procs' : List Proc) : Prop := List.Forall₂ Proc.Fades procs procs'

namespace Fading

variable {procs procs' : List Proc}

theorem refl (procs : List Proc) : Fading procs procs := List.forall₂_same.mpr fun p _ => .refl p

theorem trans {procs'' : List Proc} (h : Fading procs procs') (h' : Fading procs' procs'') : Fading procs procs'' := by
  induction h generalizing procs'' with
  | nil => exact h'
  | cons hp _ ih =>
    cases h' with
    | cons hp' h' => exact .cons (hp.trans hp') (ih h')

theorem map {f : Proc → Proc} (hf : ∀ p ∈ procs, p.Fades (f p)) : Fading procs (procs.map f) := by
  unfold Fading
  rw [List.forall₂_map_right_iff]
  exact List.forall₂_same.mpr hf

theorem modify {f : Proc → Proc} {i : Nat} (hf : ∀ p, procs[i]? = some p → p.Fades (f p)) :
    Fading procs (procs.modify i f) := by
  unfold Fading
  rw [List.forall₂_iff_get]
  refine ⟨(List.length_modify ..).symm, fun k hk hk' => ?_⟩
  simp only [List.get_eq_getElem, List.getElem_modify]
  split
  · rename_i e
    subst e
    exact hf _ (List.getElem?_eq_getElem hk)
  · exact Proc.Fades.refl _

theorem faces (h : Fading procs procs') : procs'.map Proc.face = procs.map Proc.face := by
  induction h with
  | nil => rfl
  | cons hp _ ih => rw [List.map_cons, List.map_cons, hp.1, ih]

theorem get (h : Fading procs procs') {i : Nat} {p' : Proc} (hp : procs'[i]? = some p') :
    ∃ p, procs[i]? = some p ∧ p.Fades p' := by
  obtain ⟨hlen, hall⟩ := List.forall₂_iff_get.mp h
  obtain ⟨hi, rfl⟩ := List.getElem?_eq_some_iff.mp hp
  have hi' : i < procs.length := by omega
  exact ⟨procs[i], List.getElem?_eq_getElem hi', hall i hi' hi⟩

theorem get_of (h : Fading procs procs') {i : Nat} {p : Proc} (hp : procs[i]? = some p) :
    ∃ p', procs'[i]? = some p' ∧ p.Fades p' := by
  obtain ⟨hlen, hall⟩ := List.forall₂_iff_get.mp h
  obtain ⟨hi, rfl⟩ := List.getElem?_eq_some_iff.mp hp
  have hi' : i < procs'.length := by omega
  exact ⟨procs'[i], List.getElem?_eq_getElem hi', hall i hi hi'⟩

theorem mem (h : Fading procs procs') {p' : Proc} (hp : p' ∈ procs') : ∃ p ∈ procs, p.Fades p' := by
  obtain ⟨i, hi⟩ := List.mem_iff_getElem?.mp hp
  obtain ⟨p, hp, hf⟩ := h.get hi
  exact ⟨p, List.mem_iff_getElem?.mpr ⟨i, hp⟩, hf⟩

theorem reaped (procs : List Proc) (i : Nat) : Fading procs (procs.modify i fun p => { p with state := .reaped }) :=
  modify fun p _ => Proc.fades_reaped p

theorem reap (k : Kernel) (which : Proc → Bool) : Fading k.procs (k.reap which).procs :=
  map fun p _ => by
    split
    · exact Proc.fades_reaped p
    · exact .refl p

theorem waitFor (pid : Int) (k : Kernel) : Fading k.procs (Job.waitFor pid k).procs := by
  unfold Job.waitFor
  split
  · split
    · exact .reaped _ _
    · exact .refl _
  · exact reap _ _

end Fading

theorem Job.waitFor_eq (pid : Int) (k : Kernel) : Job.waitFor pid k = { k with procs := (Job.waitFor pid k).procs } := by
  unfold Job.waitFor
  by_cases hp : pid = -1
  · simp only [if_pos hp]
    cases k.procs.findIdx? (·.held) <;> rfl
  · simp only [if_neg hp]
    rfl

/-! ## The child of a job -/

theorem childOf_some {procs : List Proc} {r : Ref} {c : Proc} (h : childOf procs r = some c) :
    c ∈ procs ∧ c.job = r ∧ c.live := by
  have hp := List.find?_some h
  simp only [Bool.and_eq_true, beq_iff_eq] at hp
  exact ⟨List.mem_of_find?_eq_some h, hp.1, hp.2⟩

theorem childOf_none {procs : List Proc} {r : Ref} :
    childOf procs r = none ↔ ∀ p ∈ procs, p.job = r → p.live = false := by
  simp [childOf, List.find?_eq_none]

def childPid (procs : List Proc) (r : Ref) : Option Int := (childOf procs r).map (·.pid)

theorem childPid_faces (procs : List Proc) (r : Ref) :
    childPid procs r = ((procs.map Proc.face).find? fun f => f.2.1 == r && (f.2.2.1 && f.2.2.2.1.isEmpty)).map (·.1) := by
  rw [List.find?_map, Option.map_map]
  rfl

theorem childPid_append {procs : List Proc} {c : Proc} {r : Ref} :
    childPid (procs ++ [c]) r =
      (childPid procs r).or (if c.job = r ∧ c.live then some c.pid else none) := by
  unfold childPid childOf
  rw [List.find?_append, Option.map_or]
  congr 1
  by_cases h : c.job = r ∧ c.live
  · simp [h]
  · rw [if_neg h]
    simpa using h

/-! ## The lives in the tables -/

namespace Tables

variable (t : Tables)

def history (r : Ref) : History where
  child := childPid t.procs r
  forks := t.procs.countP (·.job == r)
  forkedAt := (t.procs.filter (·.job == r)).map (·.forkedAt)
  exits := t.procs.countP fun p => p.job == r && (p.execed && !p.dispatched.isEmpty)
  kills := (t.kills.filter (·.job == r)).map (·.pid)

def timerOf (r : Ref) (timerId : Option Nat) : Option (TimerKind × Nat) :=
  timerId.bind (t.eventmgr.timerOf t.timerfds r)

def lifeOf (r : Ref) (j : Job) : Life where
  toHistory := t.history r
  manifest := j.manifest
  state := j.state
  pid := j.pid
  startedAt := j.startedAt
  unloadRequested := j.unloadRequested
  boot := j.boot
  sigterm := j.sigterm
  timerSet := j.timerId.isSome
  timer := t.timerOf r j.timerId

def fate (r : Ref) : Fate :=
  match t.heap r with
  | some j => .alive (t.lifeOf r j)
  | none => if r < t.nextRef then .gone (t.history r) else .unborn

variable {t} {r : Ref} {j : Job}

@[simp] theorem lifeOf_history : (t.lifeOf r j).toHistory = t.history r := rfl
@[simp] theorem lifeOf_manifest : (t.lifeOf r j).manifest = j.manifest := rfl
@[simp] theorem lifeOf_state : (t.lifeOf r j).state = j.state := rfl
@[simp] theorem lifeOf_pid : (t.lifeOf r j).pid = j.pid := rfl
@[simp] theorem lifeOf_unloadRequested : (t.lifeOf r j).unloadRequested = j.unloadRequested := rfl
@[simp] theorem lifeOf_boot : (t.lifeOf r j).boot = j.boot := rfl
@[simp] theorem lifeOf_sigterm : (t.lifeOf r j).sigterm = j.sigterm := rfl
@[simp] theorem lifeOf_timerSet : (t.lifeOf r j).timerSet = j.timerId.isSome := rfl

theorem fate_alive (h : t.heap r = some j) : t.fate r = .alive (t.lifeOf r j) := by rw [fate, h]

theorem fate_eq_alive {l : Life} (h : t.fate r = .alive l) : ∃ j, t.heap r = some j ∧ l = t.lifeOf r j := by
  unfold fate at h
  split at h
  · rename_i j hj
    cases h
    exact ⟨j, hj, rfl⟩
  · split at h <;> cases h

/-- A job has a child when one of its processes is live. -/
theorem child_isSome : (t.lifeOf r j).child.isSome ↔ ∃ c ∈ t.procs, c.job = r ∧ c.live := by
  rw [lifeOf_history, show (t.history r).child = (childOf t.procs r).map (·.pid) from rfl, Option.isSome_map, Option.isSome_iff_exists]
  constructor
  · intro h
    obtain ⟨c, hc⟩ := h
    exact ⟨c, childOf_some hc⟩
  · intro h
    obtain ⟨c, hm, hc⟩ := h
    refine Option.ne_none_iff_exists'.mp fun hn => ?_
    have := childOf_none.mp hn c hm hc.1
    rw [hc.2] at this
    cases this

/-! ### What the lives depend on -/

variable {t' : Tables}

theorem history_congr (hp : t'.procs.map Proc.face = t.procs.map Proc.face) (hk : t'.kills = t.kills) :
    t'.history r = t.history r := by
  have hc : ∀ f : Int × Ref × Bool × List Ref × Nat → Bool,
      t'.procs.countP (f ∘ Proc.face) = t.procs.countP (f ∘ Proc.face) := by
    intro f
    rw [← List.countP_map, ← List.countP_map, hp]
  have h1 : childPid t'.procs r = childPid t.procs r := by rw [childPid_faces, childPid_faces, hp]
  have h2 := hc fun f => f.2.1 == r
  have h3 := hc fun f => f.2.1 == r && (f.2.2.1 && !f.2.2.2.1.isEmpty)
  have h4 : ∀ procs : List Proc, (procs.filter (·.job == r)).map (·.forkedAt) =
      ((procs.map Proc.face).filter (·.2.1 == r)).map (·.2.2.2.2) := fun procs => by
    rw [List.filter_map, List.map_map]
    rfl
  simp only [history, h1, hk, h4, hp]
  congr 1

theorem timerOf_congr {timerId : Option Nat}
    (h : ∀ id, timerId = some id → t'.eventmgr.timerOf t'.timerfds r id = t.eventmgr.timerOf t.timerfds r id) :
    t'.timerOf r timerId = t.timerOf r timerId := by
  cases timerId with
  | none => rfl
  | some id => exact h id rfl

theorem fate_congr (hh : t'.heap r = t.heap r) (hn : r < t'.nextRef ↔ r < t.nextRef) (hy : t'.history r = t.history r)
    (ht : ∀ j, t.heap r = some j → t'.timerOf r j.timerId = t.timerOf r j.timerId) : t'.fate r = t.fate r := by
  unfold fate
  rw [hh]
  split
  · rename_i j hj
    unfold lifeOf
    rw [hy, ht j hj]
  · simp only [hn, hy]

end Tables

end Relaunchd
