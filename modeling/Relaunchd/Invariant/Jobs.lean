/-
  Relaunchd.Invariant.Jobs — loading, booting, unloading and destroying a job keep the
  invariant.
-/

import Relaunchd.Invariant.Timers

namespace Relaunchd

open EventManager

namespace Tables

variable {busy : Option Int} {t : Tables} {r : Ref} {j : Job}

/-! ## A job is unloaded -/

def submitDelete (t : Tables) (l : String) : Tables :=
  { t with eventmgr := { t.eventmgr with pendingEvents := t.eventmgr.pendingEvents ++ [.ipc "delete_job" l] } }

theorem Registry.submit {m : EventManager} {procs : List Proc} (h : Registry busy m procs) {e : Event}
    (he : e.child? = none) : Registry busy { m with pendingEvents := m.pendingEvents ++ [e] } procs where
  registered p r hr hb := by
    obtain ⟨i, c, hc, hj, hp, hl, hw, hq⟩ := h.registered p r hr hb
    exact ⟨i, c, hc, hj, hp, hl, hw, fun hh => (hq hh).imp fun _ hm => List.mem_append_left _ hm⟩
  watched := h.watched
  queued p st i hm := by
    rcases List.mem_append.mp hm with hm | hm
    · exact h.queued p st i hm
    · rw [← List.mem_singleton.mp hm] at he; cases he
  once := by
    rw [List.filterMap_append, List.filterMap_cons_none he, List.filterMap_nil, List.append_nil]
    exact h.once
  busyKey := h.busyKey
  tracked := h.tracked

theorem Owned.label_eq (h : t.Owned) {l : String} (hl : t.jobs.lookup l = some r) (hj : t.heap r = some j) :
    j.label = l := by
  obtain ⟨k, hk, e, -⟩ := h.stored l r hl
  rw [hj] at hk
  cases hk
  exact e

theorem Owned.stored_of (h : t.Owned) (hj : t.heap r = some j) (hb : j.boot ≠ .pending) :
    t.jobs.lookup j.label = some r := by
  rcases h.owned r j hj with h1 | h1
  · exact h1
  · obtain ⟨k, hk, -, hp⟩ := h.pended _ _ h1
    rw [hj] at hk
    cases hk
    exact absurd hp hb

/-- A transition to Unloaded: the job's deletion is queued. -/
theorem Inv.unload (h : Inv busy t) (hj : t.heap r = some j) (hs : j.state ≠ .unloaded) (hbp : j.boot ≠ .pending)
    (ht : j.timerId = none) : Inv busy ((t.submitDelete j.label).put r { j with state := .unloaded }) where
  owned := let o := h.owned.put { j with state := .unloaded } hj rfl rfl; ⟨o.stored, o.pended, o.owned, o.allocated⟩
  forked := h.forked
  registry := h.registry.submit rfl
  timed := let m := h.timed.put { j with state := .unloaded } hj (.inl rfl); ⟨m.ids, m.fds, m.range, m.inj, m.armed, m.holds⟩
  deleted l := by
    have hdel : ((t.submitDelete j.label).put r { j with state := .unloaded }).deletions l =
        t.deletions l + if j.label = l then 1 else 0 := by
      simp only [deletions, submitDelete, Tables.put, List.countP_append, List.countP_singleton, Event.deletes,
        beq_self_eq_true, Bool.true_and, beq_iff_eq]
    have hjobs := h.owned.stored_of hj hbp
    by_cases e : j.label = l
    · subst e
      have hnot : ¬ t.Unloaded j.label := by
        intro h'
        obtain ⟨r', k, hr, hk, hks⟩ := h'
        rw [hjobs] at hr
        cases hr
        rw [hj] at hk
        cases hk
        exact hs hks
      have hnow : ((t.submitDelete j.label).put r { j with state := .unloaded }).Unloaded j.label :=
        ⟨r, _, hjobs, put_heap_self, rfl⟩
      refine ⟨fun _ => ?_, fun hn => absurd hnow hn⟩
      rw [hdel, (h.deleted _).2 hnot, if_pos rfl]
    · have hiff : ((t.submitDelete j.label).put r { j with state := .unloaded }).Unloaded l ↔ t.Unloaded l := by
        constructor
        · intro h'
          obtain ⟨r', k, hr, hk, hks⟩ := h'
          have hne : r' ≠ r := by
            rintro rfl
            exact e (h.owned.label_eq hr hj)
          exact ⟨r', k, hr, by rwa [put_heap_ne hne] at hk, hks⟩
        · intro h'
          obtain ⟨r', k, hr, hk, hks⟩ := h'
          have hne : r' ≠ r := by
            rintro rfl
            exact e (h.owned.label_eq hr hj)
          exact ⟨r', k, hr, by rw [put_heap_ne hne]; exact hk, hks⟩
      rw [hiff, hdel, if_neg e, Nat.add_zero]
      exact h.deleted l
  kinds e hm := by
    rcases List.mem_append.mp hm with hm | hm
    · exact h.kinds e hm
    · cases List.mem_singleton.mp hm; rfl
  group r' k c hk hc := put_jobs { j with state := .unloaded }
    (P := fun r' k => ∀ c, childOf t.procs r' = some c → k.pgid = c.pid ∨ k.pgid = -1)
    (fun r' k hk c hc => h.group r' k c hk hc) (fun c hc => h.group r j c hj hc) r' k hk c hc
  good r' k hk := put_jobs { j with state := .unloaded } (P := fun r' k => (t.lifeOf r' k).Good) h.good
    (Life.good_state (l := t.lifeOf r j) (h.good r j hj) (by simp [lifeOf, ht]) hbp) r' k hk
  started := h.started
  killed := h.killed

theorem fate_submitDelete (l : String) (r : Ref) : (t.submitDelete l).fate r = t.fate r :=
  fate_congr rfl Iff.rfl rfl fun _ _ => rfl

/-! ## A job is signalled -/

def logKill (t : Tables) (r : Ref) (pid sig : Int) : Tables :=
  { t with kills := t.kills ++ [⟨r, pid, sig, childOf t.procs r⟩] }

def logGroupKill (t : Tables) (r : Ref) (pgid : Int) : Tables := { t with groupKills := t.groupKills ++ [(r, pgid)] }

theorem Inv.logGroupKill (h : Inv busy t) (r : Ref) (pgid : Int) : Inv busy (t.logGroupKill r pgid) where
  owned := let o := h.owned; ⟨o.stored, o.pended, o.owned, o.allocated⟩
  forked := h.forked
  registry := h.registry
  timed := h.timed
  deleted := h.deleted
  kinds := h.kinds
  group := h.group
  good := h.good
  started := h.started
  killed := h.killed

theorem history_logKill {pid sig : Int} :
    (t.logKill r pid sig).history r = { t.history r with kills := (t.history r).kills ++ [pid] } := by
  simp [history, logKill]

theorem fate_logKill_ne {pid sig : Int} {r' : Ref} (h : r' ≠ r) : (t.logKill r pid sig).fate r' = t.fate r' :=
  fate_congr rfl Iff.rfl (by simp [history, logKill, Ne.symm h]) fun _ _ => rfl

theorem Inv.logKill (h : Inv busy t) {sig : Int} (hj : t.heap r = some j) (hp : j.pid ≠ 0) :
    Inv busy (t.logKill r j.pid sig) where
  owned := let o := h.owned; ⟨o.stored, o.pended, o.owned, o.allocated⟩
  forked := h.forked
  registry := h.registry
  timed := h.timed
  deleted := h.deleted
  kinds := h.kinds
  group := h.group
  good r' k hk := by
    have hk' : t.heap r' = some k := hk
    have hg := h.good r' k hk'
    refine ⟨hg.childPid, hg.pidChild, hg.timerSet, hg.waits, fun hb => ?_⟩
    by_cases e : r' = r
    · subst e
      rw [hj] at hk'
      cases hk'
      exact absurd (congrArg Life.pid (hg.fresh hb)) hp
    · have := hg.fresh hb
      unfold lifeOf at this ⊢
      rwa [show (t.logKill r j.pid sig).history r' = t.history r' from by simp [history, Tables.logKill, Ne.symm e]]
  started := h.started
  killed k hk := by
    rcases List.mem_append.mp hk with hk | hk
    · exact h.killed k hk
    · rw [List.mem_singleton.mp hk]
      refine ⟨h.owned.allocated r j hj, hp, fun hpos => ?_⟩
      have hc := (h.good r j hj).pidChild hpos
      obtain ⟨c, hc, e⟩ := Option.map_eq_some_iff.mp (show (childOf t.procs r).map (·.pid) = some j.pid from hc)
      exact ⟨c, hc, (childOf_some hc).2.1, e⟩

/-! ## A job is loaded -/

def create (t : Tables) (manifest : Manifest) (path : String) : Tables := { t with
  heap := Function.update t.heap t.nextRef (some { manifest, manifestPath := path })
  pendingJobs := insertNew manifest.label (some t.nextRef) t.pendingJobs
  nextRef := t.nextRef + 1 }

section Create

variable {manifest : Manifest} {path : String}

theorem heap_next (h : Inv busy t) : t.heap t.nextRef = none := by
  by_contra hn
  obtain ⟨k, hk⟩ := Option.ne_none_iff_exists'.mp hn
  exact absurd (h.owned.allocated _ k hk) (lt_irrefl _)

theorem history_next (h : Inv busy t) : t.history t.nextRef = {} := by
  have hjob : ∀ p ∈ t.procs, p.job ≠ t.nextRef := fun p hp => (h.forked.forkedFor p hp).ne
  have hchild : childOf t.procs t.nextRef = none := childOf_none.mpr fun p hp e => absurd e (hjob p hp)
  have hforks : t.procs.countP (·.job == t.nextRef) = 0 := List.countP_eq_zero.mpr fun p hp => by simp [hjob p hp]
  have hexits : t.procs.countP (fun p => p.job == t.nextRef && (p.execed && !p.dispatched.isEmpty)) = 0 :=
    List.countP_eq_zero.mpr fun p hp => by simp [hjob p hp]
  have hforkedAt : t.procs.filter (·.job == t.nextRef) = [] := List.filter_eq_nil_iff.mpr fun p hp => by simp [hjob p hp]
  have hkills : t.kills.filter (·.job == t.nextRef) = [] :=
    List.filter_eq_nil_iff.mpr fun k hk => by simp [(h.killed k hk).1.ne]
  simp only [history, childPid, hchild, hforks, hforkedAt, hexits, hkills]
  rfl

theorem create_heap_ne {r' : Ref} (e : r' ≠ t.nextRef) : (t.create manifest path).heap r' = t.heap r' :=
  Function.update_of_ne e ..

theorem create_heap_self :
    (t.create manifest path).heap t.nextRef = some { manifest, manifestPath := path } := Function.update_self ..

theorem lifeOf_create (h : Inv busy t) :
    (t.create manifest path).lifeOf t.nextRef { manifest, manifestPath := path } = { manifest } := by
  unfold lifeOf
  rw [show (t.create manifest path).history t.nextRef = t.history t.nextRef from rfl, history_next h]
  rfl

theorem fate_create_self (h : Inv busy t) : (t.create manifest path).fate t.nextRef = .alive { manifest } := by
  rw [fate_alive create_heap_self, lifeOf_create h]

theorem fate_next (h : Inv busy t) : t.fate t.nextRef = .unborn := by
  rw [fate, heap_next h]
  simp

theorem fate_create_ne {r' : Ref} (e : r' ≠ t.nextRef) : (t.create manifest path).fate r' = t.fate r' :=
  fate_congr (create_heap_ne e) ⟨fun h => (Nat.lt_succ_iff_lt_or_eq.mp h).resolve_right e, Nat.lt_succ_of_lt⟩ rfl
    fun _ _ => rfl

theorem Inv.create (h : Inv busy t) (hp : t.pendingJobs.lookup manifest.label = none) : Inv busy (t.create manifest path) := by
  have hne : ∀ r' k, t.heap r' = some k → r' ≠ t.nextRef := fun r' k hk => (h.owned.allocated r' k hk).ne
  have hold : ∀ r' k, t.heap r' = some k → (t.create manifest path).heap r' = some k := fun r' k hk => by
    rwa [create_heap_ne (hne r' k hk)]
  refine ⟨⟨fun l r hr => ?_, fun l r hr => ?_, fun r k hk => ?_, fun r k hk => ?_⟩, ?_, h.registry, ?_, fun l => ?_,
    h.kinds, fun r k c hk hc => ?_, fun r k hk => ?_, h.started, fun k hk => ?_⟩
  · obtain ⟨k, hk, hrest⟩ := h.owned.stored l r hr
    exact ⟨k, hold r k hk, hrest⟩
  · simp only [Tables.create, lookup_insertNew, hp, Option.getD_none] at hr
    split at hr
    · rename_i e
      cases hr
      exact ⟨_, create_heap_self, e.symm, rfl⟩
    · obtain ⟨k, hk, hrest⟩ := h.owned.pended l r hr
      exact ⟨k, hold r k hk, hrest⟩
  · by_cases e : r = t.nextRef
    · subst e
      rw [create_heap_self] at hk
      cases hk
      right
      simp only [Tables.create, lookup_insertNew, Job.label, if_true, hp, Option.getD_none]
    · rw [create_heap_ne e] at hk
      rcases h.owned.owned r k hk with h1 | h1
      · exact .inl h1
      · exact .inr (lookup_insertNew_some h1)
  · by_cases e : r = t.nextRef
    · rw [e]; exact Nat.lt_succ_self _
    · rw [create_heap_ne e] at hk
      exact Nat.lt_succ_of_lt (h.owned.allocated r k hk)
  · have f := h.forked
    exact ⟨f.heldOnce, f.pidPos, fun p hp => Nat.lt_succ_of_lt (f.forkedFor p hp), f.unexeced, f.undispatched, f.own,
      f.oneChild⟩
  · have m := h.timed
    refine ⟨m.ids, m.fds, m.range, m.inj, fun r id ha => ?_, fun r k id hk hi => ?_⟩
    · obtain ⟨k, hk, hi⟩ := m.armed r id ha
      exact ⟨k, hold r k hk, hi⟩
    · by_cases e : r = t.nextRef
      · subst e
        rw [create_heap_self] at hk
        cases hk
        cases hi
      · rw [create_heap_ne e] at hk
        exact m.holds r k id hk hi
  · have hiff : (t.create manifest path).Unloaded l ↔ t.Unloaded l := by
      constructor
      · intro h'
        obtain ⟨r, k, hr, hk, hs⟩ := h'
        obtain ⟨k', hk', -⟩ := h.owned.stored l r hr
        rw [hold r k' hk'] at hk
        cases hk
        exact ⟨r, k, hr, hk', hs⟩
      · intro h'
        obtain ⟨r, k, hr, hk, hs⟩ := h'
        exact ⟨r, k, hr, hold r k hk, hs⟩
    rw [hiff]
    exact h.deleted l
  · by_cases e : r = t.nextRef
    · subst e
      have := childOf_none.mpr fun p hp e => absurd e (h.forked.forkedFor p hp).ne
      rw [show childOf (t.create manifest path).procs t.nextRef = none from this] at hc
      cases hc
    · rw [create_heap_ne e] at hk
      exact h.group r k c hk hc
  · by_cases e : r = t.nextRef
    · subst e
      rw [create_heap_self] at hk
      cases hk
      rw [lifeOf_create h]
      exact ⟨fun _ hc => (nomatch hc), fun hp => absurd hp (by simp), fun ht => (nomatch ht), fun hs => (nomatch hs),
        fun _ => rfl⟩
    · rw [create_heap_ne e] at hk
      exact h.good r k hk
  · obtain ⟨h1, h2⟩ := h.killed k hk
    exact ⟨Nat.lt_succ_of_lt h1, h2⟩

end Create

/-! ## A job is booted -/

/-- A pending job moves to `jobs`; a null pointer stays behind. -/
def move (t : Tables) (l : String) (r : Ref) : Tables := { t with
  jobs := t.jobs.insert l r
  pendingJobs := t.pendingJobs.insert l none }

section Boot

variable {l : String} {boot : Boot}

theorem lifeOf_fresh (h : Inv busy t) (hj : t.heap r = some j) (hb : j.boot = .pending) :
    t.lifeOf r j = { manifest := j.manifest } := (h.good r j hj).fresh hb

theorem Owned.move (h : t.Owned) (hj : t.heap r = some j) (hl : j.label = l) (hb : j.boot = .pending)
    (hn : t.jobs.lookup l = none) (hp : t.pendingJobs.lookup l = some (some r)) (hb' : boot ≠ .pending) :
    ((t.move l r).put r { j with boot }).Owned := by
  refine ⟨fun l' r' hr => ?_, fun l' r' hr => ?_, fun r' k hk => ?_, fun r' k hk => ?_⟩
  · by_cases e : l' = l
    · subst e
      rw [show ((t.move l' r).put r { j with boot }).jobs.lookup l' = some r from AList.lookup_insert _] at hr
      cases hr
      exact ⟨_, put_heap_self, hl, hb'⟩
    · rw [show ((t.move l r).put r { j with boot }).jobs.lookup l' = t.jobs.lookup l' from AList.lookup_insert_ne e] at hr
      obtain ⟨k, hk, hkl, hkb⟩ := h.stored l' r' hr
      have hne : r' ≠ r := by
        rintro rfl
        rw [hj] at hk
        cases hk
        exact hkb hb
      exact ⟨k, by rw [put_heap_ne hne]; exact hk, hkl, hkb⟩
  · by_cases e : l' = l
    · subst e
      rw [show ((t.move l' r).put r { j with boot }).pendingJobs.lookup l' = some none from AList.lookup_insert _] at hr
      cases hr
    · rw [show ((t.move l r).put r { j with boot }).pendingJobs.lookup l' = t.pendingJobs.lookup l' from
        AList.lookup_insert_ne e] at hr
      obtain ⟨k, hk, hkl, hkb⟩ := h.pended l' r' hr
      have hne : r' ≠ r := by
        rintro rfl
        rw [hj] at hk
        cases hk
        exact e (hkl.symm.trans hl)
      exact ⟨k, by rw [put_heap_ne hne]; exact hk, hkl, hkb⟩
  · by_cases e : r' = r
    · subst e
      rw [put_heap_self] at hk
      cases hk
      left
      rw [show Job.label { j with boot } = l from hl]
      exact AList.lookup_insert _
    · rw [put_heap_ne e] at hk
      have hne : k.label ≠ l := by
        rintro rfl
        rcases h.owned r' k hk with h1 | h1
        · rw [hn] at h1; cases h1
        · rw [hp] at h1; cases h1; exact e rfl
      rw [show ((t.move l r).put r { j with boot }).jobs.lookup k.label = t.jobs.lookup k.label from
        AList.lookup_insert_ne hne, show ((t.move l r).put r { j with boot }).pendingJobs.lookup k.label =
        t.pendingJobs.lookup k.label from AList.lookup_insert_ne hne]
      exact h.owned r' k hk
  · by_cases e : r' = r
    · rw [e]; exact h.allocated r j hj
    · rw [put_heap_ne e] at hk
      exact h.allocated r' k hk

theorem Inv.move (h : Inv busy t) (hj : t.heap r = some j) (hl : j.label = l) (hb : j.boot = .pending)
    (hn : t.jobs.lookup l = none) (hp : t.pendingJobs.lookup l = some (some r)) (hb' : boot ≠ .pending) :
    Inv busy ((t.move l r).put r { j with boot }) where
  owned := h.owned.move hj hl hb hn hp hb'
  forked := h.forked
  registry := h.registry
  timed := let m := h.timed.put { j with boot } hj (.inl rfl); ⟨m.ids, m.fds, m.range, m.inj, m.armed, m.holds⟩
  deleted l' := by
    have hloaded : j.state = .loaded := congrArg Life.state (lifeOf_fresh h hj hb)
    have hiff : ((t.move l r).put r { j with boot }).Unloaded l' ↔ t.Unloaded l' := by
      by_cases e : l' = l
      · subst e
        refine iff_of_false ?_ ?_
        · intro h'
          obtain ⟨r', k, hr, hk, hs⟩ := h'
          rw [show ((t.move l' r).put r { j with boot }).jobs.lookup l' = some r from AList.lookup_insert _] at hr
          cases hr
          rw [put_heap_self] at hk
          cases hk
          rw [show j.state = .unloaded from hs] at hloaded
          cases hloaded
        · intro h'
          obtain ⟨r', k, hr, -, -⟩ := h'
          rw [hn] at hr
          cases hr
      · have hne : ∀ r', t.jobs.lookup l' = some r' → r' ≠ r := by
          rintro r' hr rfl
          exact e ((h.owned.label_eq hr hj).symm.trans hl)
        constructor
        · intro h'
          obtain ⟨r', k, hr, hk, hs⟩ := h'
          rw [show ((t.move l r).put r { j with boot }).jobs.lookup l' = t.jobs.lookup l' from AList.lookup_insert_ne e] at hr
          exact ⟨r', k, hr, by rwa [put_heap_ne (hne r' hr)] at hk, hs⟩
        · intro h'
          obtain ⟨r', k, hr, hk, hs⟩ := h'
          refine ⟨r', k, ?_, by rw [put_heap_ne (hne r' hr)]; exact hk, hs⟩
          rw [show ((t.move l r).put r { j with boot }).jobs.lookup l' = t.jobs.lookup l' from AList.lookup_insert_ne e]
          exact hr
    rw [hiff]
    exact h.deleted l'
  kinds := h.kinds
  group r' k c hk hc := put_jobs { j with boot }
    (P := fun r' k => ∀ c, childOf t.procs r' = some c → k.pgid = c.pid ∨ k.pgid = -1)
    (fun r' k hk c hc => h.group r' k c hk hc) (fun c hc => h.group r j c hj hc) r' k hk c hc
  good r' k hk := put_jobs { j with boot } (P := fun r' k => (t.lifeOf r' k).Good) h.good
    (let g := h.good r j hj; ⟨g.childPid, g.pidChild, g.timerSet, g.waits, fun e => absurd e hb'⟩) r' k hk
  started := h.started
  killed := h.killed

end Boot

def clearPending (t : Tables) : Tables := { t with pendingJobs := ∅ }

theorem Inv.clearPending (h : Inv busy t) (hp : ∀ l r, t.pendingJobs.lookup l ≠ some (some r)) :
    Inv busy t.clearPending where
  owned := by
    refine ⟨h.owned.stored, fun l r hr => ?_, fun r k hk => .inl ?_, h.owned.allocated⟩
    · rw [show t.clearPending.pendingJobs.lookup l = none from AList.lookup_empty l] at hr
      cases hr
    · exact (h.owned.owned r k hk).resolve_right (hp _ _)
  forked := h.forked
  registry := h.registry
  timed := h.timed
  deleted := h.deleted
  kinds := h.kinds
  group := h.group
  good := h.good
  started := h.started
  killed := h.killed

/-! ## Events are taken from the queue -/

def withQueue (t : Tables) (events : List Event) : Tables :=
  { t with eventmgr := { t.eventmgr with pendingEvents := events } }

theorem fate_withQueue (events : List Event) (r : Ref) : (t.withQueue events).fate r = t.fate r :=
  fate_congr rfl Iff.rfl rfl fun _ _ => rfl

theorem Registry.pop {m : EventManager} {procs : List Proc} (h : Registry busy m procs) {e : Event} {rest : List Event}
    (hq : m.pendingEvents = e :: rest) (he : e.child? = none) : Registry busy { m with pendingEvents := rest } procs where
  registered p r hr hb := by
    obtain ⟨i, c, hc, hj, hp, hl, hw, hqd⟩ := h.registered p r hr hb
    refine ⟨i, c, hc, hj, hp, hl, hw, fun hh => ?_⟩
    obtain ⟨st, hm⟩ := hqd hh
    rw [hq] at hm
    rcases List.mem_cons.mp hm with hm | hm
    · rw [← hm] at he; cases he
    · exact ⟨st, hm⟩
  watched := h.watched
  queued p st i hm := h.queued p st i (by rw [hq]; exact List.mem_cons_of_mem _ hm)
  once := by
    have := h.once
    rwa [hq, List.filterMap_cons_none he] at this
  busyKey := h.busyKey
  tracked := h.tracked

/-- An event that is neither an exit nor a deletion is taken. -/
theorem Inv.pop (h : Inv busy t) {e : Event} {rest : List Event} (hq : t.eventmgr.pendingEvents = e :: rest)
    (he : e.child? = none) (hd : ∀ l, e.deletes l = false) : Inv busy (t.withQueue rest) where
  owned := let o := h.owned; ⟨o.stored, o.pended, o.owned, o.allocated⟩
  forked := h.forked
  registry := h.registry.pop hq he
  timed := let m := h.timed; ⟨m.ids, m.fds, m.range, m.inj, m.armed, m.holds⟩
  deleted l := by
    rw [show (t.withQueue rest).deletions l = t.deletions l from (deletions_cons hq (hd l)).symm]
    exact h.deleted l
  kinds e hm := h.kinds e (by rw [hq]; exact List.mem_cons_of_mem _ hm)
  group := h.group
  good := h.good
  started := h.started
  killed := h.killed

/-! ## A job is destroyed -/

def destroy (t : Tables) (l : String) (r : Ref) (rest : List Event) : Tables := { t with
  heap := Function.update t.heap r none
  jobs := t.jobs.erase l
  eventmgr := { t.eventmgr with pendingEvents := rest } }

section Destroy

variable {l : String} {rest : List Event}

theorem destroy_heap_self : (t.destroy l r rest).heap r = none := Function.update_self ..

theorem destroy_heap_ne {r' : Ref} (e : r' ≠ r) : (t.destroy l r rest).heap r' = t.heap r' := Function.update_of_ne e ..

/-- A deletion in the queue is one of an Unloaded job. -/
theorem Inv.unloaded_of_delete (h : Inv busy t) (hq : t.eventmgr.pendingEvents = .ipc "delete_job" l :: rest) :
    t.Unloaded l := by
  by_contra hn
  have := (h.deleted l).2 hn
  rw [deletions, hq, List.countP_cons_of_pos (by simp [Event.deletes])] at this
  omega

theorem fate_destroy_ne {r' : Ref} (e : r' ≠ r) : (t.destroy l r rest).fate r' = t.fate r' :=
  fate_congr (destroy_heap_ne e) Iff.rfl rfl fun _ _ => rfl

theorem fate_destroy_self (hr : r < t.nextRef) : (t.destroy l r rest).fate r = .gone (t.history r) := by
  rw [fate, destroy_heap_self]
  exact if_pos hr

theorem Inv.destroy (h : Inv busy t) (hq : t.eventmgr.pendingEvents = .ipc "delete_job" l :: rest)
    (hl : t.jobs.lookup l = some r) (hj : t.heap r = some j) (hs : j.state = .unloaded) :
    Inv busy (t.destroy l r rest) := by
  have hlabel := h.owned.label_eq hl hj
  have hkeep : ∀ {r' : Ref} {k : Job}, (t.destroy l r rest).heap r' = some k → r' ≠ r ∧ t.heap r' = some k := by
    intro r' k hk
    by_cases e : r' = r
    · subst e; rw [destroy_heap_self] at hk; cases hk
    · exact ⟨e, by rwa [destroy_heap_ne e] at hk⟩
  have hjobs : ∀ {l' : String} {r' : Ref}, (t.destroy l r rest).jobs.lookup l' = some r' →
      l' ≠ l ∧ r' ≠ r ∧ t.jobs.lookup l' = some r' := by
    intro l' r' hr
    have hne : l' ≠ l := by
      rintro rfl
      rw [show (t.destroy l' r rest).jobs.lookup l' = none from AList.lookup_erase ..] at hr
      cases hr
    rw [show (t.destroy l r rest).jobs.lookup l' = t.jobs.lookup l' from AList.lookup_erase_ne hne] at hr
    refine ⟨hne, ?_, hr⟩
    rintro rfl
    exact hne ((h.owned.label_eq hr hj).symm.trans hlabel)
  have hset : j.timerId = none := by
    cases ht : j.timerId with
    | none => rfl
    | some id =>
      have := ((h.good r j hj).waits (by simp [lifeOf, ht])).1
      rw [show j.state = .waiting from this] at hs
      cases hs
  refine ⟨⟨fun l' r' hr => ?_, fun l' r' hr => ?_, fun r' k hk => ?_, fun r' k hk => ?_⟩, h.forked, h.registry.pop hq rfl,
    ⟨h.timed.ids, h.timed.fds, h.timed.range, h.timed.inj, fun r' id ha => ?_, fun r' k id hk hi => ?_⟩, fun l' => ?_,
    fun m hm => ?_, fun r' k c hk hc => h.group r' k c (hkeep hk).2 hc, fun r' k hk => h.good r' k (hkeep hk).2,
    h.started, h.killed⟩
  · obtain ⟨-, hne, hr⟩ := hjobs hr
    obtain ⟨k, hk, hrest⟩ := h.owned.stored l' r' hr
    exact ⟨k, by rw [destroy_heap_ne hne]; exact hk, hrest⟩
  · obtain ⟨k, hk, hkl, hkb⟩ := h.owned.pended l' r' hr
    have hne : r' ≠ r := by
      rintro rfl
      rw [hj] at hk
      cases hk
      have := congrArg Life.state (lifeOf_fresh h hj hkb)
      rw [show (t.lifeOf r' j).state = .unloaded from hs] at this
      cases this
    exact ⟨k, by rw [destroy_heap_ne hne]; exact hk, hkl, hkb⟩
  · obtain ⟨hne, hk⟩ := hkeep hk
    rcases h.owned.owned r' k hk with h1 | h1
    · left
      have hne' : k.label ≠ l := by
        rintro e
        rw [e, hl] at h1
        cases h1
        exact hne rfl
      rw [show (t.destroy l r rest).jobs.lookup k.label = t.jobs.lookup k.label from AList.lookup_erase_ne hne']
      exact h1
    · exact .inr h1
  · exact h.owned.allocated r' k (hkeep hk).2
  · obtain ⟨k, hk, hi⟩ := h.timed.armed r' id ha
    have hne : r' ≠ r := by
      rintro rfl
      rw [hj] at hk
      cases hk
      rw [hset] at hi
      cases hi
    exact ⟨k, by rw [destroy_heap_ne hne]; exact hk, hi⟩
  · exact h.timed.holds r' k id (hkeep hk).2 hi
  · have hcount : t.deletions l' = (t.destroy l r rest).deletions l' + if l = l' then 1 else 0 := by
      simp only [deletions, hq, Tables.destroy, List.countP_cons, Event.deletes, beq_self_eq_true, Bool.true_and,
        beq_iff_eq]
    by_cases e : l' = l
    · subst e
      have hone := (h.deleted l').1 ⟨r, j, hl, hj, hs⟩
      have hnot : ¬ (t.destroy l' r rest).Unloaded l' := by
        intro h'
        obtain ⟨r', k, hr, -, -⟩ := h'
        exact (hjobs hr).1 rfl
      rw [if_pos rfl] at hcount
      exact ⟨fun hu => absurd hu hnot, fun _ => by omega⟩
    · have hiff : (t.destroy l r rest).Unloaded l' ↔ t.Unloaded l' := by
        constructor
        · intro h'
          obtain ⟨r', k, hr, hk, hks⟩ := h'
          exact ⟨r', k, (hjobs hr).2.2, (hkeep hk).2, hks⟩
        · intro h'
          obtain ⟨r', k, hr, hk, hks⟩ := h'
          have hne : r' ≠ r := by
            rintro rfl
            exact e ((h.owned.label_eq hr hj).symm.trans hlabel)
          exact ⟨r', k, by rw [show (t.destroy l r rest).jobs.lookup l' = t.jobs.lookup l' from AList.lookup_erase_ne e]
                           exact hr, by rw [destroy_heap_ne hne]; exact hk, hks⟩
      rw [if_neg (Ne.symm e), Nat.add_zero] at hcount
      rw [hiff, ← hcount]
      exact h.deleted l'
  · exact h.kinds m (by rw [hq]; exact List.mem_cons_of_mem _ hm)

end Destroy

end Tables

end Relaunchd
