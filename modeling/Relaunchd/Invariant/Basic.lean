/-
  Relaunchd.Invariant.Basic — what holds of the tables between any two events.

  `Inv` has a part for each group of tables. While the callback of a child's exit runs, the
  entry of its pid is still in `process_callbacks` though the child is gone: `Inv (some pid)`
  is the invariant with that entry left out, `Inv none` the one between events.
-/

import Relaunchd.Tables

namespace Relaunchd

open EventManager

def Event.child? : Event → Option Nat
  | .proc _ _ child => some child
  | _ => none

def Event.Queued : Event → Prop
  | .proc _ _ _ => True
  | .signal sig => sig ≠ .sigchld
  | .ipc method _ => method = "delete_job"
  | .socket _ | .timer _ => False

def Event.deletes (label : String) : Event → Bool
  | .ipc method arg => method == "delete_job" && arg == label
  | _ => false

namespace Tables

/-- Every job is in exactly one of the two maps, under its label. -/
structure Owned (t : Tables) : Prop where
  stored : ∀ l r, t.jobs.lookup l = some r → ∃ j, t.heap r = some j ∧ j.label = l ∧ j.boot ≠ .pending
  pended : ∀ l r, t.pendingJobs.lookup l = some (some r) → ∃ j, t.heap r = some j ∧ j.label = l ∧ j.boot = .pending
  owned : ∀ r j, t.heap r = some j → t.jobs.lookup j.label = some r ∨ t.pendingJobs.lookup j.label = some (some r)
  allocated : ∀ r j, t.heap r = some j → r < t.nextRef

structure Forked (procs : List Proc) (nextRef : Ref) : Prop where
  heldOnce : ∀ (i k : Nat) (p q : Proc), procs[i]? = some p → procs[k]? = some q → p.held → q.held → p.pid = q.pid → i = k
  pidPos : ∀ p ∈ procs, 0 < p.pid
  forkedFor : ∀ p ∈ procs, p.job < nextRef
  unexeced : ∀ p ∈ procs, p.held → p.execed
  undispatched : ∀ p ∈ procs, p.held → p.dispatched = []
  own : ∀ p ∈ procs, p.dispatched = [] ∨ p.dispatched = [p.job]
  oneChild : ∀ (i k : Nat) (p q : Proc), procs[i]? = some p → procs[k]? = some q → p.live → q.live → p.job = q.job → i = k

/-- Who is told of which exit; `busy` is the pid whose callback runs. -/
structure Registry (busy : Option Int) (m : EventManager) (procs : List Proc) : Prop where
  registered : ∀ p r, m.processCallbacks.lookup p = some r → busy ≠ some p →
    ∃ (i : Nat) (c : Proc), procs[i]? = some c ∧ c.job = r ∧ c.pid = p ∧ c.live ∧ (c.held → p ∈ m.watchPids) ∧
      (c.held = false → ∃ st, Event.proc p st i ∈ m.pendingEvents)
  watched : ∀ p ∈ m.watchPids, m.processCallbacks.lookup p ≠ none
  queued : ∀ p st (i : Nat), Event.proc p st i ∈ m.pendingEvents → busy ≠ some p ∧
    ∃ c : Proc, procs[i]? = some c ∧ c.pid = p ∧ c.held = false ∧ c.live ∧ m.processCallbacks.lookup p = some c.job
  once : (m.pendingEvents.filterMap Event.child?).Nodup
  busyKey : ∀ p, busy = some p → m.processCallbacks.lookup p ≠ none
  /-- Without a reused pid, every child `addProcess` took stays in the tables. -/
  tracked : (∀ c ∈ procs, c.stale = false) → ∀ i ∈ m.added, ∃ c, procs[i]? = some c ∧ c.execed ∧ (c.dispatched = [] →
    busy ≠ some c.pid ∧ m.processCallbacks.lookup c.pid = some c.job ∧ (c.held → c.pid ∈ m.watchPids))

structure Timed (m : EventManager) (timerfds : AList fun _ : Fd => TimerFd) (heap : Ref → Option Job) : Prop where
  ids : ∀ id cb, m.timerCallbacks.lookup id = some cb → id ≤ m.timerIdMax
  fds : ∀ id fd, m.timerfdMap.lookup id = some fd → m.timerCallbacks.lookup id ≠ none ∧ timerfds.lookup fd ≠ none
  range : ∀ fd, timerfds.lookup fd ≠ none → timerEpfd < fd
  inj : ∀ id id' fd, m.timerfdMap.lookup id = some fd → m.timerfdMap.lookup id' = some fd → id = id'
  armed : ∀ r id, m.armedFor timerfds r id → ∃ j, heap r = some j ∧ j.timerId = some id
  holds : ∀ r j id, heap r = some j → j.timerId = some id → ∃ kind, m.timerCallbacks.lookup id = some (r, kind)

def Unloaded (t : Tables) (l : String) : Prop :=
  ∃ r j, t.jobs.lookup l = some r ∧ t.heap r = some j ∧ j.state = .unloaded

def deletions (t : Tables) (l : String) : Nat := t.eventmgr.pendingEvents.countP (Event.deletes l)

structure Inv (busy : Option Int) (t : Tables) : Prop where
  owned : t.Owned
  forked : Forked t.procs t.nextRef
  registry : Registry busy t.eventmgr t.procs
  timed : Timed t.eventmgr t.timerfds t.heap
  deleted : ∀ l, (t.Unloaded l → t.deletions l = 1) ∧ (¬ t.Unloaded l → t.deletions l = 0)
  kinds : ∀ e ∈ t.eventmgr.pendingEvents, e.Queued
  group : ∀ r j c, t.heap r = some j → childOf t.procs r = some c → j.pgid = c.pid ∨ j.pgid = -1
  good : ∀ r j, t.heap r = some j → (t.lifeOf r j).Good
  started : ∀ c ∈ t.starts, c.child = false ∧ c.timer = false
  killed : ∀ k ∈ t.kills, k.job < t.nextRef ∧ k.pid ≠ 0 ∧
    (0 < k.pid → ∃ c, k.child = some c ∧ c.job = k.job ∧ c.pid = k.pid)

/-! ## Processes -/

section Processes

variable {procs procs' : List Proc} {nextRef : Ref}

theorem held_of_fades {p p' : Proc} (h : p.Fades p') (hp : p.held = false) : p'.held = false := by
  by_contra hp'
  rw [h.2.2 (by simpa using hp')] at hp
  cases hp

theorem Forked.fading (h : Forked procs nextRef) (hf : Fading procs procs') : Forked procs' nextRef where
  heldOnce i k p' q' hp hq hhp hhq he := by
    obtain ⟨p, hp, fp⟩ := hf.get hp
    obtain ⟨q, hq, fq⟩ := hf.get hq
    exact h.heldOnce i k p q hp hq (fp.2.2 hhp) (fq.2.2 hhq) (by rw [← fp.pid, ← fq.pid, he])
  pidPos p' hp := by obtain ⟨p, hp, fp⟩ := hf.mem hp; rw [fp.pid]; exact h.pidPos p hp
  forkedFor p' hp := by obtain ⟨p, hp, fp⟩ := hf.mem hp; rw [fp.job]; exact h.forkedFor p hp
  unexeced p' hp hh := by obtain ⟨p, hp, fp⟩ := hf.mem hp; rw [fp.execed]; exact h.unexeced p hp (fp.2.2 hh)
  undispatched p' hp hh := by
    obtain ⟨p, hp, fp⟩ := hf.mem hp
    rw [fp.dispatched]
    exact h.undispatched p hp (fp.2.2 hh)
  own p' hp := by obtain ⟨p, hp, fp⟩ := hf.mem hp; rw [fp.dispatched, fp.job]; exact h.own p hp
  oneChild i k p' q' hp hq hlp hlq he := by
    obtain ⟨p, hp, fp⟩ := hf.get hp
    obtain ⟨q, hq, fq⟩ := hf.get hq
    exact h.oneChild i k p q hp hq (by rw [← fp.live]; exact hlp) (by rw [← fq.live]; exact hlq)
      (by rw [← fp.job, ← fq.job, he])

theorem Forked.live_of_held (h : Forked procs nextRef) {p : Proc} (hp : p ∈ procs) (hh : p.held) : p.live := by
  simp [Proc.live, h.unexeced p hp hh, h.undispatched p hp hh]

/-- The live process of a job is its child. -/
theorem Forked.childOf_eq (h : Forked procs nextRef) {i : Nat} {c : Proc} (hc : procs[i]? = some c) (hl : c.live) :
    childOf procs c.job = some c := by
  cases hf : childOf procs c.job with
  | none =>
    rw [childOf_none] at hf
    have := hf c (List.mem_of_getElem? hc) rfl
    rw [hl] at this
    cases this
  | some d =>
    obtain ⟨hm, hj, hl'⟩ := childOf_some hf
    obtain ⟨k, hk⟩ := List.mem_iff_getElem?.mp hm
    have := h.oneChild i k c d hc hk hl hl' hj.symm
    subst this
    rw [hc] at hk
    exact hk.symm

theorem hasChildIn_eq_false (h : Forked procs nextRef) {r : Ref} (hc : childOf procs r = none) :
    hasChildIn procs r = false := by
  rw [hasChildIn, List.any_eq_false]
  intro p hp
  simp only [Bool.and_eq_true, beq_iff_eq, Bool.or_eq_true, not_and, not_or]
  intro hj
  have hl := childOf_none.mp hc p hp hj
  refine ⟨by simp [hl], fun hh => ?_⟩
  rw [h.live_of_held hp hh] at hl
  cases hl

/-- A process forked for a job with no child. -/
theorem Forked.append (h : Forked procs nextRef) {c : Proc} (hf : PidFree procs c.pid) (hj : c.job < nextRef)
    (he : c.held → c.execed) (hd : c.dispatched = []) (hn : childOf procs c.job = none) :
    Forked (procs ++ [c]) nextRef := by
  have hget : ∀ {i : Nat} {p : Proc}, (procs ++ [c])[i]? = some p → procs[i]? = some p ∨ (i = procs.length ∧ p = c) := by
    intro i p hp
    rcases Nat.lt_trichotomy i procs.length with hi | hi | hi
    · rw [List.getElem?_append_left hi] at hp
      exact .inl hp
    · subst hi
      rw [List.getElem?_append_right (le_refl _)] at hp
      exact .inr ⟨rfl, by simpa using hp.symm⟩
    · rw [List.getElem?_append_right (by omega), List.getElem?_eq_none (by simp; omega)] at hp
      cases hp
  have hmem : ∀ {P : Proc → Prop}, (∀ p ∈ procs, P p) → P c → ∀ p ∈ procs ++ [c], P p := by
    intro P h1 h2 p hp
    rcases List.mem_append.mp hp with hp | hp
    · exact h1 p hp
    · rw [List.mem_singleton.mp hp]; exact h2
  refine ⟨fun i k p q hp hq hhp hhq e => ?_, hmem h.pidPos hf.1, hmem h.forkedFor hj, hmem h.unexeced he,
    hmem h.undispatched fun _ => hd, hmem h.own (.inl hd), fun i k p q hp hq hlp hlq e => ?_⟩
  · rcases hget hp with hp' | ⟨rfl, rfl⟩ <;> rcases hget hq with hq' | ⟨rfl, rfl⟩
    · exact h.heldOnce i k p q hp' hq' hhp hhq e
    · exact absurd e (hf.2 p (List.mem_of_getElem? hp') hhp)
    · exact absurd e.symm (hf.2 q (List.mem_of_getElem? hq') hhq)
    · rfl
  · have hdead : ∀ {i : Nat} {p : Proc}, procs[i]? = some p → p.live → p.job ≠ c.job := by
      intro i p hp hl e
      rw [← e, h.childOf_eq hp hl] at hn
      cases hn
    rcases hget hp with hp' | ⟨rfl, rfl⟩ <;> rcases hget hq with hq' | ⟨rfl, rfl⟩
    · exact h.oneChild i k p q hp' hq' hlp hlq e
    · exact absurd e (hdead hp' hlp)
    · exact absurd e.symm (hdead hq' hlq)
    · rfl

theorem holder_eq (h : Forked procs nextRef) {i : Nat} {c : Proc} (hc : procs[i]? = some c) (hh : c.held) :
    Kernel.holder procs c.pid = some i := by
  obtain ⟨hi, e⟩ := List.getElem?_eq_some_iff.mp hc
  rw [Kernel.holder, List.findIdx?_eq_some_iff_getElem]
  refine ⟨hi, by simp [e, hh], fun k hk => ?_⟩
  simp only [Bool.and_eq_true, beq_iff_eq, not_and]
  intro hp hhk
  have := h.heldOnce k i _ c (List.getElem?_eq_getElem (by omega)) hc hhk hh hp
  omega

theorem childOf_append {c : Proc} {r : Ref} :
    childOf (procs ++ [c]) r = (childOf procs r).or (if c.job = r ∧ c.live then some c else none) := by
  unfold childOf
  rw [List.find?_append]
  congr 1
  by_cases h : c.job = r ∧ c.live
  · simp [h]
  · rw [if_neg h]
    simpa using h

end Processes

/-! ## A job changes -/

variable {busy : Option Int} {t : Tables} {r : Ref} {j : Job} (j₁ : Job)

def put (t : Tables) (r : Ref) (j : Job) : Tables := { t with heap := Function.update t.heap r (some j) }

@[simp] theorem put_heap_self : (t.put r j).heap r = some j := Function.update_self ..

theorem put_heap_ne {r' : Ref} (h : r' ≠ r) : (t.put r j).heap r' = t.heap r' := Function.update_of_ne h ..

theorem put_put : (t.put r j).put r j₁ = t.put r j₁ := by simp only [put, Function.update_idem]

theorem fate_put_self : (t.put r j).fate r = .alive (t.lifeOf r j) := fate_alive put_heap_self

theorem fate_put_ne {r' : Ref} (h : r' ≠ r) : (t.put r j).fate r' = t.fate r' :=
  fate_congr (put_heap_ne h) Iff.rfl rfl fun _ _ => rfl

theorem Owned.put (h : t.Owned) (hj : t.heap r = some j) (hl : j₁.label = j.label) (hb : j₁.boot = j.boot) :
    (t.put r j₁).Owned := by
  have hheap : ∀ r' k, (t.put r j₁).heap r' = some k → ∃ k', t.heap r' = some k' ∧ k.label = k'.label := by
    intro r' k hk
    by_cases e : r' = r
    · subst e; rw [put_heap_self] at hk; cases hk; exact ⟨j, hj, hl⟩
    · rw [put_heap_ne e] at hk; exact ⟨k, hk, rfl⟩
  refine ⟨fun l r' hr => ?_, fun l r' hr => ?_, fun r' k hk => ?_, fun r' k hk => ?_⟩
  · obtain ⟨k, hk, hkl, hkb⟩ := h.stored l r' hr
    by_cases e : r' = r
    · subst e; rw [hj] at hk; cases hk; exact ⟨j₁, put_heap_self, hl.trans hkl, by rwa [hb]⟩
    · exact ⟨k, by rwa [put_heap_ne e], hkl, hkb⟩
  · obtain ⟨k, hk, hkl, hkb⟩ := h.pended l r' hr
    by_cases e : r' = r
    · subst e; rw [hj] at hk; cases hk; exact ⟨j₁, put_heap_self, hl.trans hkl, hb.trans hkb⟩
    · exact ⟨k, by rwa [put_heap_ne e], hkl, hkb⟩
  · obtain ⟨k', hk', e⟩ := hheap r' k hk
    rw [e]; exact h.owned r' k' hk'
  · obtain ⟨k', hk', _⟩ := hheap r' k hk
    exact h.allocated r' k' hk'

theorem Timed.put {m : EventManager} {fds : AList fun _ : Fd => TimerFd} (h : Timed m fds t.heap)
    (hj : t.heap r = some j)
    (hi : j₁.timerId = j.timerId ∨ (j₁.timerId = none ∧ ∀ id, m.armedFor fds r id = false)) :
    Timed m fds (t.put r j₁).heap := by
  refine ⟨h.ids, h.fds, h.range, h.inj, fun r' id ha => ?_, fun r' k id hk hki => ?_⟩
  · obtain ⟨k, hk, hki⟩ := h.armed r' id ha
    by_cases e : r' = r
    · subst e
      rw [hj] at hk; cases hk
      rcases hi with hi | ⟨-, hi⟩
      · exact ⟨j₁, put_heap_self, hi.trans hki⟩
      · rw [hi id] at ha; cases ha
    · exact ⟨k, by rwa [put_heap_ne e], hki⟩
  · by_cases e : r' = r
    · subst e
      rw [put_heap_self] at hk
      cases hk
      rcases hi with hi | ⟨hi, -⟩
      · exact h.holds r' j id hj (hi ▸ hki)
      · rw [hi] at hki; cases hki
    · rw [put_heap_ne e] at hk
      exact h.holds r' k id hk hki

theorem unloaded_put (hj : t.heap r = some j) (hu : j₁.state = .unloaded ↔ j.state = .unloaded) (l : String) :
    (t.put r j₁).Unloaded l ↔ t.Unloaded l := by
  constructor
  · intro h
    obtain ⟨r', k, hr, hk, hs⟩ := h
    by_cases e : r' = r
    · subst e; rw [put_heap_self] at hk; cases hk; exact ⟨r', j, hr, hj, hu.mp hs⟩
    · exact ⟨r', k, hr, by rwa [put_heap_ne e] at hk, hs⟩
  · intro h
    obtain ⟨r', k, hr, hk, hs⟩ := h
    by_cases e : r' = r
    · subst e; rw [hj] at hk; cases hk; exact ⟨r', j₁, hr, put_heap_self, hu.mpr hs⟩
    · exact ⟨r', k, hr, by rwa [put_heap_ne e], hs⟩

theorem put_jobs {P : Ref → Job → Prop} (h : ∀ r j, t.heap r = some j → P r j) (hr : P r j₁) :
    ∀ r' k, (t.put r j₁).heap r' = some k → P r' k := by
  intro r' k hk
  by_cases e : r' = r
  · subst e; rw [put_heap_self] at hk; cases hk; exact hr
  · rw [put_heap_ne e] at hk; exact h r' k hk

/-- A change of a job that keeps its label, and does not unload it. -/
theorem Inv.put (h : Inv busy t) (hj : t.heap r = some j) (hl : j₁.label = j.label) (hb : j₁.boot = j.boot)
    (hi : j₁.timerId = j.timerId ∨ (j₁.timerId = none ∧ ∀ id, t.eventmgr.armedFor t.timerfds r id = false))
    (hu : j₁.state = .unloaded ↔ j.state = .unloaded)
    (hp : ∀ c, childOf t.procs r = some c → j₁.pgid = c.pid ∨ j₁.pgid = -1) (hg : (t.lifeOf r j₁).Good) :
    Inv busy (t.put r j₁) where
  owned := h.owned.put j₁ hj hl hb
  forked := h.forked
  registry := h.registry
  timed := h.timed.put j₁ hj hi
  deleted l := by rw [unloaded_put j₁ hj hu]; exact h.deleted l
  kinds := h.kinds
  group r' k c hk hc := put_jobs j₁ (P := fun r' k => ∀ c, childOf t.procs r' = some c → k.pgid = c.pid ∨ k.pgid = -1)
    (fun r' k hk c hc => h.group r' k c hk hc) hp r' k hk c hc
  good := put_jobs j₁ (P := fun r' k => (t.lifeOf r' k).Good) h.good hg
  started := h.started
  killed := h.killed

end Tables

end Relaunchd
