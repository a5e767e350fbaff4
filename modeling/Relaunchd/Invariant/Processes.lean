/-
  Relaunchd.Invariant.Processes — forks, registrations, exits and reaped children keep the
  invariant.
-/

import Relaunchd.Invariant.Basic

namespace Relaunchd

open EventManager

namespace Tables

variable {busy : Option Int} {t : Tables} {r : Ref} {j : Job} (j₁ : Job)

/-! ## A process is forked -/

def addProc (t : Tables) (c : Proc) : Tables := { t with procs := t.procs ++ [c] }

theorem getElem?_snoc {procs : List Proc} {c p : Proc} {i : Nat} (h : procs[i]? = some p) :
    (procs ++ [c])[i]? = some p := by
  rw [List.getElem?_append_left (List.getElem?_eq_some_iff.mp h).1, h]

theorem Registry.append {m : EventManager} {procs : List Proc} (h : Registry busy m procs) (c : Proc) :
    Registry busy m (procs ++ [c]) := by
  refine ⟨fun p r hr hb => ?_, h.watched, fun p st i hq => ?_, h.once, h.busyKey, fun hs i hi => ?_⟩
  · obtain ⟨i, d, hd, hrest⟩ := h.registered p r hr hb
    exact ⟨i, d, getElem?_snoc hd, hrest⟩
  · obtain ⟨hb, d, hd, hrest⟩ := h.queued p st i hq
    exact ⟨hb, d, getElem?_snoc hd, hrest⟩
  · obtain ⟨d, hd, hrest⟩ := h.tracked (fun d hd => hs d (List.mem_append_left _ hd)) i hi
    exact ⟨d, getElem?_snoc hd, hrest⟩

theorem history_addProc_ne {c : Proc} {r : Ref} (h : c.job ≠ r) : (t.addProc c).history r = t.history r := by
  simp [history, addProc, childPid_append, h, List.countP_append]

theorem fate_addProc_ne {c : Proc} {r : Ref} (h : c.job ≠ r) : (t.addProc c).fate r = t.fate r :=
  fate_congr rfl Iff.rfl (history_addProc_ne h) fun _ _ => rfl

/-- The history of the job a process is forked for. -/
theorem history_addProc {c : Proc} (hn : childOf t.procs c.job = none) (hd : c.dispatched = []) :
    (t.addProc c).history c.job =
      { t.history c.job with
        child := if c.execed then some c.pid else none
        forks := (t.history c.job).forks + 1
        forkedAt := (t.history c.job).forkedAt ++ [c.forkedAt] } := by
  have hc : childPid t.procs c.job = none := by rw [childPid, hn]; rfl
  simp [history, addProc, childPid_append, hc, List.countP_append, Proc.live, hd]

theorem Inv.addProc (h : Inv busy t) {c : Proc} (hj : t.heap c.job = some j) (hf : PidFree t.procs c.pid)
    (he : c.held → c.execed) (hd : c.dispatched = []) (hn : childOf t.procs c.job = none) (hl : j₁.label = j.label)
    (hb : j₁.boot = j.boot) (hi : j₁.timerId = j.timerId) (hu : j₁.state = j.state)
    (hp : c.execed → j₁.pgid = c.pid ∨ j₁.pgid = -1) (hg : ((t.addProc c).lifeOf c.job j₁).Good) :
    Inv busy ((t.addProc c).put c.job j₁) where
  owned := let o := h.owned.put j₁ hj hl hb; ⟨o.stored, o.pended, o.owned, o.allocated⟩
  forked := h.forked.append hf (h.owned.allocated _ j hj) he hd hn
  registry := h.registry.append c
  timed := h.timed.put j₁ hj (.inl hi)
  deleted l := by
    have := unloaded_put (t := t) j₁ hj (by rw [hu]) l
    rw [show ((t.addProc c).put c.job j₁).Unloaded l ↔ t.Unloaded l from this]
    exact h.deleted l
  kinds := h.kinds
  group r' k d hk hc := by
    have hc' : childOf (t.procs ++ [c]) r' = some d := hc
    rw [childOf_append] at hc'
    by_cases e : r' = c.job
    · subst e
      rw [put_heap_self] at hk
      cases hk
      rw [hn, Option.none_or] at hc'
      split at hc'
      · rename_i hlive
        cases hc'
        exact hp (by have := hlive.2; simp only [Proc.live, Bool.and_eq_true] at this; exact this.1)
      · cases hc'
    · rw [put_heap_ne e] at hk
      rw [if_neg (fun he => e he.1.symm), Option.or_none] at hc'
      exact h.group r' k d hk hc'
  good r' k hk := by
    by_cases e : r' = c.job
    · subst e
      rw [put_heap_self] at hk
      cases hk
      exact hg
    · rw [put_heap_ne e] at hk
      have := h.good r' k hk
      unfold lifeOf at this ⊢
      rwa [show ((t.addProc c).put c.job j₁).history r' = t.history r' from history_addProc_ne (Ne.symm e)]
  started := h.started
  killed := h.killed

/-! ## A child is registered, and its entry deleted -/

def register (t : Tables) (pid : Int) (r : Ref) : Tables := { t with eventmgr := { t.eventmgr with
  watchPids := insert pid t.eventmgr.watchPids
  processCallbacks := insertNew pid r t.eventmgr.processCallbacks
  added := t.eventmgr.added ++ (Kernel.holder t.procs pid).toList } }

def unregister (t : Tables) (pid : Int) : Tables := { t with eventmgr := { t.eventmgr with
  watchPids := t.eventmgr.watchPids.erase pid
  processCallbacks := t.eventmgr.processCallbacks.erase pid } }

theorem Registry.register (h : Registry busy t.eventmgr t.procs) (hf : Forked t.procs t.nextRef) {i : Nat} {c : Proc}
    (hc : t.procs[i]? = some c) (hh : c.held) (hs : c.stale = (t.eventmgr.processCallbacks.lookup c.pid).isSome) :
    Registry busy (t.register c.pid c.job).eventmgr t.procs where
  registered p r hr hb := by
    by_cases hold : t.eventmgr.processCallbacks.lookup p = some r
    · obtain ⟨k, d, hd, hj, hp, hl, hw, hq⟩ := h.registered p r hold hb
      exact ⟨k, d, hd, hj, hp, hl, fun hh => Finset.mem_insert_of_mem (hw hh), hq⟩
    · simp only [Tables.register, lookup_insertNew] at hr
      split at hr
      · rename_i e
        subst e
        cases hk : t.eventmgr.processCallbacks.lookup c.pid with
        | some r' => rw [hk] at hr hold; exact absurd hr hold
        | none =>
          rw [hk] at hr
          cases hr
          exact ⟨i, c, hc, rfl, rfl, hf.live_of_held (List.mem_of_getElem? hc) hh, fun _ => Finset.mem_insert_self ..,
            fun hh' => by rw [hh] at hh'; cases hh'⟩
      · exact absurd hr hold
  watched p hp := by
    simp only [Tables.register, lookup_insertNew]
    split
    · exact Option.some_ne_none _
    · rename_i e
      exact h.watched p (Finset.mem_of_mem_insert_of_ne hp e)
  queued p st k hq := by
    obtain ⟨hb, d, hd, hp, hh', hl, hcb⟩ := h.queued p st k hq
    exact ⟨hb, d, hd, hp, hh', hl, lookup_insertNew_some hcb⟩
  once := h.once
  busyKey p hb := by
    obtain ⟨b, hb⟩ := Option.ne_none_iff_exists'.mp (h.busyKey p hb)
    rw [show (t.register c.pid c.job).eventmgr.processCallbacks.lookup p = some b from lookup_insertNew_some hb]
    exact Option.some_ne_none _
  tracked hst k hk := by
    rw [Tables.register, holder_eq hf hc hh] at hk
    simp only [Option.toList_some, List.mem_append, List.mem_singleton] at hk
    rcases hk with hk | rfl
    · obtain ⟨d, hd, he, hrest⟩ := h.tracked hst k hk
      refine ⟨d, hd, he, fun hdis => ?_⟩
      obtain ⟨hb, hcb, hw⟩ := hrest hdis
      exact ⟨hb, lookup_insertNew_some hcb, fun hh => Finset.mem_insert_of_mem (hw hh)⟩
    · refine ⟨c, hc, hf.unexeced c (List.mem_of_getElem? hc) hh, fun _ => ?_⟩
      have hnone : t.eventmgr.processCallbacks.lookup c.pid = none := by
        rw [hst c (List.mem_of_getElem? hc)] at hs
        exact Option.isNone_iff_eq_none.mp (by simpa using hs.symm)
      refine ⟨fun hb => h.busyKey _ hb hnone, ?_, fun _ => Finset.mem_insert_self ..⟩
      simp [Tables.register, lookup_insertNew, hnone]

theorem Inv.register (h : Inv busy t) {i : Nat} {c : Proc} (hc : t.procs[i]? = some c) (hh : c.held)
    (hs : c.stale = (t.eventmgr.processCallbacks.lookup c.pid).isSome) : Inv busy (t.register c.pid c.job) where
  owned := let o := h.owned; ⟨o.stored, o.pended, o.owned, o.allocated⟩
  forked := h.forked
  registry := h.registry.register h.forked hc hh hs
  timed := let m := h.timed; ⟨m.ids, m.fds, m.range, m.inj, m.armed, m.holds⟩
  deleted := h.deleted
  kinds := h.kinds
  group := h.group
  good := h.good
  started := h.started
  killed := h.killed

theorem fate_register (pid : Int) (r r' : Ref) : (t.register pid r).fate r' = t.fate r' :=
  fate_congr rfl Iff.rfl rfl fun _ _ => rfl

/-- The callback has run: its entry goes, and nothing is busy any more. -/
theorem Inv.unregister {p : Int} (h : Inv (some p) t) : Inv none (t.unregister p) where
  owned := let o := h.owned; ⟨o.stored, o.pended, o.owned, o.allocated⟩
  forked := h.forked
  registry := by
    have hlook : ∀ q, q ≠ p → (t.unregister p).eventmgr.processCallbacks.lookup q = t.eventmgr.processCallbacks.lookup q :=
      fun q hq => AList.lookup_erase_ne hq
    refine ⟨fun q r hr _ => ?_, fun q hq => ?_, fun q st i hq => ?_, h.registry.once, fun q hq => (nomatch hq),
      fun hs i hi => ?_⟩
    · have hne : q ≠ p := by rintro rfl; simp [Tables.unregister] at hr
      rw [hlook q hne] at hr
      obtain ⟨k, d, hd, hj, hp, hl, hw, hq⟩ := h.registry.registered q r hr (fun e => hne (Option.some.inj e).symm)
      exact ⟨k, d, hd, hj, hp, hl, fun hh => Finset.mem_erase.mpr ⟨hne, hw hh⟩, hq⟩
    · obtain ⟨hne, hq⟩ := Finset.mem_erase.mp hq
      rw [hlook q hne]
      exact h.registry.watched q hq
    · obtain ⟨hb, d, hd, hp, hh, hl, hcb⟩ := h.registry.queued q st i hq
      exact ⟨nofun, d, hd, hp, hh, hl, by rw [hlook q (fun e => hb (by rw [e]))]; exact hcb⟩
    · obtain ⟨c, hc, he, hrest⟩ := h.registry.tracked hs i hi
      refine ⟨c, hc, he, fun hd => ?_⟩
      obtain ⟨hb, hcb, hw⟩ := hrest hd
      have hne : c.pid ≠ p := fun e => hb (by rw [e])
      exact ⟨nofun, by rw [hlook _ hne]; exact hcb, fun hh => Finset.mem_erase.mpr ⟨hne, hw hh⟩⟩
  timed := let m := h.timed; ⟨m.ids, m.fds, m.range, m.inj, m.armed, m.holds⟩
  deleted := h.deleted
  kinds := h.kinds
  group := h.group
  good := h.good
  started := h.started
  killed := h.killed

theorem fate_unregister (pid : Int) (r' : Ref) : (t.unregister pid).fate r' = t.fate r' :=
  fate_congr rfl Iff.rfl rfl fun _ _ => rfl

/-! ## A start is on record -/

def logStart (t : Tables) (r : Ref) : Tables :=
  { t with starts := t.starts ++ [⟨r, hasChildIn t.procs r, t.eventmgr.hasTimer t.timerfds r⟩] }

theorem hasTimer_eq_false {m : EventManager} {fds : AList fun _ : Fd => TimerFd} (h : ∀ id, m.armedFor fds r id = false) :
    m.hasTimer fds r = false := by
  rw [hasTimer, List.any_eq_false]
  exact fun id _ => by rw [h id]; exact Bool.false_ne_true

theorem Inv.logStart (h : Inv busy t) (hn : childOf t.procs r = none)
    (ht : ∀ id, t.eventmgr.armedFor t.timerfds r id = false) : Inv busy (t.logStart r) where
  owned := let o := h.owned; ⟨o.stored, o.pended, o.owned, o.allocated⟩
  forked := h.forked
  registry := h.registry
  timed := h.timed
  deleted := h.deleted
  kinds := h.kinds
  group := h.group
  good := h.good
  started c hc := by
    rcases List.mem_append.mp hc with hc | hc
    · exact h.started c hc
    · rw [List.mem_singleton.mp hc]
      exact ⟨hasChildIn_eq_false h.forked hn, hasTimer_eq_false ht⟩
  killed := h.killed

/-! ## The kernel reaps -/

theorem Registry.fading {m : EventManager} {procs procs' : List Proc} (h : Registry busy m procs)
    (hf : Fading procs procs')
    (hreap : ∀ (i : Nat) (c c' : Proc), procs[i]? = some c → procs'[i]? = some c' → c.held → c'.held = false →
      m.processCallbacks.lookup c.pid = some c.job → busy = some c.pid) : Registry busy m procs' where
  registered p r hr hb := by
    obtain ⟨i, c, hc, hj, hp, hl, hw, hq⟩ := h.registered p r hr hb
    obtain ⟨c', hc', fc⟩ := hf.get_of hc
    refine ⟨i, c', hc', fc.job.trans hj, fc.pid.trans hp, by rw [fc.live]; exact hl, fun hh => hw (fc.2.2 hh), fun hh => ?_⟩
    by_cases hheld : c.held
    · have := hreap i c c' hc hc' hheld hh (by rw [hp, hj]; exact hr)
      exact absurd (hp ▸ this) hb
    · exact hq (by simpa using hheld)
  watched := h.watched
  queued p st i hq := by
    obtain ⟨hb, c, hc, hp, hh, hl, hcb⟩ := h.queued p st i hq
    obtain ⟨c', hc', fc⟩ := hf.get_of hc
    exact ⟨hb, c', hc', fc.pid.trans hp, held_of_fades fc hh, by rw [fc.live]; exact hl, by rw [fc.job]; exact hcb⟩
  once := h.once
  busyKey := h.busyKey
  tracked hs i hi := by
    have hs' : ∀ c ∈ procs, c.stale = false := by
      intro c hc
      obtain ⟨k, hk⟩ := List.mem_iff_getElem?.mp hc
      obtain ⟨c', hc', fc⟩ := hf.get_of hk
      rw [← fc.2.1]
      exact hs c' (List.mem_of_getElem? hc')
    obtain ⟨c, hc, he, hrest⟩ := h.tracked hs' i hi
    obtain ⟨c', hc', fc⟩ := hf.get_of hc
    refine ⟨c', hc', by rw [fc.execed]; exact he, fun hd => ?_⟩
    obtain ⟨hb, hcb, hw⟩ := hrest (by rw [← fc.dispatched]; exact hd)
    exact ⟨by rw [fc.pid]; exact hb, by rw [fc.pid, fc.job]; exact hcb, fun hh => by rw [fc.pid]; exact hw (fc.2.2 hh)⟩

def withProcs (t : Tables) (procs : List Proc) : Tables := { t with procs }

theorem fate_fading {procs' : List Proc} (hf : Fading t.procs procs') (r : Ref) : (t.withProcs procs').fate r = t.fate r :=
  fate_congr rfl Iff.rfl (history_congr hf.faces rfl) fun _ _ => rfl

theorem lifeOf_fading {procs' : List Proc} (hf : Fading t.procs procs') (r : Ref) (j : Job) :
    (t.withProcs procs').lifeOf r j = t.lifeOf r j := by
  unfold lifeOf
  rw [show (t.withProcs procs').history r = t.history r from history_congr hf.faces rfl]
  rfl

theorem childPid_fading {procs procs' : List Proc} (hf : Fading procs procs') (r : Ref) :
    childPid procs' r = childPid procs r := by
  rw [childPid_faces, childPid_faces, hf.faces]

theorem Inv.group_fading (h : Inv busy t) {procs' : List Proc} (hf : Fading t.procs procs') (r : Ref) (j : Job) (c : Proc)
    (hj : t.heap r = some j) (hc : childOf procs' r = some c) : j.pgid = c.pid ∨ j.pgid = -1 := by
  have hpid := childPid_fading hf r
  rw [childPid, hc] at hpid
  obtain ⟨d, hd, e⟩ := Option.map_eq_some_iff.mp hpid.symm
  rw [show c.pid = d.pid from e.symm]
  exact h.group r j d hj hd

theorem Inv.fading (h : Inv busy t) {procs' : List Proc} (hf : Fading t.procs procs')
    (hreap : ∀ (i : Nat) (c c' : Proc), t.procs[i]? = some c → procs'[i]? = some c' → c.held → c'.held = false →
      t.eventmgr.processCallbacks.lookup c.pid = some c.job → busy = some c.pid) : Inv busy (t.withProcs procs') where
  owned := let o := h.owned; ⟨o.stored, o.pended, o.owned, o.allocated⟩
  forked := h.forked.fading hf
  registry := h.registry.fading hf hreap
  timed := h.timed
  deleted := h.deleted
  kinds := h.kinds
  group r j c hj hc := h.group_fading hf r j c hj hc
  good r j hj := by rw [lifeOf_fading hf]; exact h.good r j hj
  started := h.started
  killed := h.killed

/-! ## An exit is dispatched -/

def dispatched (t : Tables) (child : Nat) (r : Ref) (rest : List Event) : Tables := { t with
  procs := t.procs.modify child fun p => { p with dispatched := p.dispatched ++ [r] }
  eventmgr := { t.eventmgr with pendingEvents := rest } }

theorem modify_cases {procs : List Proc} {f : Proc → Proc} {i k : Nat} {p' : Proc} (h : (procs.modify i f)[k]? = some p') :
    (k ≠ i ∧ procs[k]? = some p') ∨ (k = i ∧ ∃ p, procs[i]? = some p ∧ p' = f p) := by
  rw [List.getElem?_modify] at h
  obtain ⟨p, hp, e⟩ := Option.map_eq_some_iff.mp h
  by_cases hk : k = i
  · subst hk
    exact .inr ⟨rfl, p, hp, by simpa using e.symm⟩
  · exact .inl ⟨hk, by rw [hp, ← e]; simp [Ne.symm hk]⟩

theorem modify_get_ne {procs : List Proc} {f : Proc → Proc} {i k : Nat} {p : Proc} (hk : k ≠ i) (h : procs[k]? = some p) :
    (procs.modify i f)[k]? = some p := by
  rw [List.getElem?_modify, h]
  simp [Ne.symm hk]

theorem live_dispatched (p : Proc) (r : Ref) : ({ p with dispatched := p.dispatched ++ [r] } : Proc).live = false := by
  simp [Proc.live]

section Dispatch

variable {p : Int} {st : WaitStatus} {i : Nat} {c : Proc} {rest : List Event}

theorem Forked.dispatched {procs : List Proc} {nextRef : Ref} (h : Forked procs nextRef) (hc : procs[i]? = some c)
    (hh : c.held = false) (hl : c.live) :
    Forked (procs.modify i fun p => { p with dispatched := p.dispatched ++ [c.job] }) nextRef := by
  have hd : c.dispatched = [] := by simp only [Proc.live, Bool.and_eq_true] at hl; simpa using hl.2
  have hget : ∀ {k : Nat} {q' : Proc}, (procs.modify i fun p => { p with dispatched := p.dispatched ++ [c.job] })[k]? = some q' →
      ∃ q, procs[k]? = some q ∧ q'.pid = q.pid ∧ q'.job = q.job ∧ q'.execed = q.execed ∧ q'.held = q.held ∧
        (q'.held → q' = q) ∧ (q'.live → q' = q) ∧ (q'.dispatched = q.dispatched ∨ q'.dispatched = [q.job]) := by
    intro k q' hq
    rcases modify_cases hq with ⟨_, hq'⟩ | ⟨rfl, q, hq', rfl⟩
    · exact ⟨q', hq', rfl, rfl, rfl, rfl, fun _ => rfl, fun _ => rfl, .inl rfl⟩
    · obtain rfl : c = q := Option.some.inj (hc.symm.trans hq')
      refine ⟨c, hc, rfl, rfl, rfl, rfl, fun hh' => ?_, fun hl' => ?_, .inr (by simp [hd])⟩
      · rw [show c.held = true from hh'] at hh; cases hh
      · rw [live_dispatched] at hl'; cases hl'
  have hmem : ∀ q' ∈ procs.modify i fun p => { p with dispatched := p.dispatched ++ [c.job] }, ∃ q ∈ procs,
      q'.pid = q.pid ∧ q'.job = q.job ∧ q'.execed = q.execed ∧ q'.held = q.held ∧ (q'.held → q' = q) ∧
        (q'.dispatched = q.dispatched ∨ q'.dispatched = [q.job]) := by
    intro q' hq
    obtain ⟨k, hk⟩ := List.mem_iff_getElem?.mp hq
    obtain ⟨q, hq, h1, h2, h3, h4, h5, _, h6⟩ := hget hk
    exact ⟨q, List.mem_of_getElem? hq, h1, h2, h3, h4, h5, h6⟩
  refine ⟨fun k m q q' hq hq' hh hh' e => ?_, fun q' hq => ?_, fun q' hq => ?_, fun q' hq hh' => ?_, fun q' hq hh' => ?_,
    fun q' hq => ?_, fun k m q q' hq hq' hl hl' e => ?_⟩
  · obtain ⟨a, ha, -, -, -, -, ea, -⟩ := hget hq
    obtain ⟨b, hb, -, -, -, -, eb, -⟩ := hget hq'
    obtain rfl := ea hh
    obtain rfl := eb hh'
    exact h.heldOnce k m _ _ ha hb hh hh' e
  · obtain ⟨q, hq, e, -⟩ := hmem q' hq; rw [e]; exact h.pidPos q hq
  · obtain ⟨q, hq, -, e, -⟩ := hmem q' hq; rw [e]; exact h.forkedFor q hq
  · obtain ⟨q, hq, -, -, -, -, e, -⟩ := hmem q' hq; obtain rfl := e hh'; exact h.unexeced _ hq hh'
  · obtain ⟨q, hq, -, -, -, -, e, -⟩ := hmem q' hq; obtain rfl := e hh'; exact h.undispatched _ hq hh'
  · obtain ⟨q, hq, -, e, -, -, -, hdis⟩ := hmem q' hq
    rw [e]
    rcases hdis with hdis | hdis
    · rw [hdis]; exact h.own q hq
    · exact .inr hdis
  · obtain ⟨a, ha, -, -, -, -, -, ea, -⟩ := hget hq
    obtain ⟨b, hb, -, -, -, -, -, eb, -⟩ := hget hq'
    obtain rfl := ea hl
    obtain rfl := eb hl'
    exact h.oneChild k m _ _ ha hb hl hl' e

theorem Registry.dispatched (h : Registry none t.eventmgr t.procs) (hf : Forked t.procs t.nextRef)
    (hq : t.eventmgr.pendingEvents = .proc p st i :: rest) (hc : t.procs[i]? = some c) :
    Registry (some p) (t.dispatched i c.job rest).eventmgr (t.dispatched i c.job rest).procs := by
  obtain ⟨-, c', hc', hp, hh, hl, hcb⟩ := h.queued p st i (by rw [hq]; exact List.mem_cons_self)
  rw [hc] at hc'
  cases hc'
  have hsame : ∀ {k : Nat} {d : Proc}, t.procs[k]? = some d → d.live → d.job = c.job → k = i := fun hd hl' e =>
    hf.oneChild _ i _ c hd hc hl' hl e
  have honce := h.once
  rw [hq, List.filterMap_cons_some (show Event.child? (.proc p st i) = some i from rfl), List.nodup_cons] at honce
  refine ⟨fun q r hr hb => ?_, h.watched, fun q st' k hk => ?_, honce.2, fun q hb => ?_, fun hs k hk => ?_⟩
  · obtain ⟨k, d, hd, hj, hdp, hdl, hw, hqd⟩ := h.registered q r hr nofun
    have hk : k ≠ i := by
      rintro rfl
      rw [hc] at hd
      cases hd
      exact hb (by rw [← hp, hdp])
    refine ⟨k, d, modify_get_ne hk hd, hj, hdp, hdl, hw, fun hh => ?_⟩
    obtain ⟨st', hm⟩ := hqd hh
    rw [hq] at hm
    rcases List.mem_cons.mp hm with e | hm
    · cases e; exact absurd rfl hk
    · exact ⟨st', hm⟩
  · obtain ⟨-, d, hd, hdp, hdh, hdl, hdc⟩ := h.queued q st' k (by rw [hq]; exact List.mem_cons_of_mem _ hk)
    have hki : k ≠ i := by
      rintro rfl
      exact honce.1 (List.mem_filterMap.mpr ⟨_, hk, rfl⟩)
    refine ⟨fun e => ?_, d, modify_get_ne hki hd, hdp, hdh, hdl, hdc⟩
    cases e
    rw [hcb] at hdc
    exact hki (hsame hd hdl (Option.some.inj hdc).symm)
  · cases hb
    exact fun e => by rw [show t.eventmgr.processCallbacks.lookup p = none from e] at hcb; cases hcb
  · have hs' : ∀ d ∈ t.procs, d.stale = false := by
      intro d hd
      obtain ⟨m, hm⟩ := List.mem_iff_getElem?.mp hd
      by_cases e : m = i
      · subst e
        exact hs { d with dispatched := d.dispatched ++ [c.job] } (List.mem_of_getElem?
          (show (t.procs.modify m _)[m]? = _ by rw [List.getElem?_modify, hm]; simp))
      · exact hs d (List.mem_of_getElem? (modify_get_ne e hm))
    obtain ⟨d, hd, he, hrest⟩ := h.tracked hs' k hk
    by_cases e : k = i
    · subst e
      refine ⟨{ d with dispatched := d.dispatched ++ [c.job] }, ?_, he, fun hdis => absurd hdis (by simp)⟩
      show (t.procs.modify k _)[k]? = _
      rw [List.getElem?_modify, hd]
      simp
    · refine ⟨d, modify_get_ne e hd, he, fun hdis => ?_⟩
      obtain ⟨-, hdc, hdw⟩ := hrest hdis
      refine ⟨fun eb => ?_, hdc, hdw⟩
      rw [← Option.some.inj eb, hcb] at hdc
      exact e (hsame hd (by simp [Proc.live, he, hdis]) (Option.some.inj hdc).symm)

theorem childOf_dispatched (rest : List Event) (hf : Forked t.procs t.nextRef) (hc : t.procs[i]? = some c)
    (hl : c.live) : childOf (t.dispatched i c.job rest).procs c.job = none := by
  rw [childOf_none]
  intro q hq hj
  obtain ⟨k, hk⟩ := List.mem_iff_getElem?.mp hq
  rcases modify_cases hk with ⟨hki, hk⟩ | ⟨_, d, _, rfl⟩
  · by_contra hl'
    exact hki (hf.oneChild k i q c hk hc (by simpa using hl') hl hj)
  · exact live_dispatched ..

theorem countP_modify {P : Proc → Bool} {f : Proc → Proc} {procs : List Proc} (hc : procs[i]? = some c) :
    (procs.modify i f).countP P + (if P c then 1 else 0) = procs.countP P + if P (f c) then 1 else 0 := by
  induction procs generalizing i with
  | nil => cases hc
  | cons q procs ih =>
    cases i with
    | zero =>
      cases hc
      simp only [List.modify_zero_cons, List.countP_cons]
      omega
    | succ i =>
      have := ih (by simpa using hc)
      simp only [List.modify_succ_cons, List.countP_cons]
      omega

theorem forkedAt_modify {f : Proc → Proc} (hf : ∀ p, (f p).job = p.job ∧ (f p).forkedAt = p.forkedAt) (procs : List Proc)
    (i : Nat) (r : Ref) : ((procs.modify i f).filter (·.job == r)).map (·.forkedAt) =
      (procs.filter (·.job == r)).map (·.forkedAt) := by
  induction procs generalizing i with
  | nil => rw [List.modify_nil]
  | cons q procs ih =>
    cases i with
    | zero =>
      rw [List.modify_zero_cons, List.filter_cons, List.filter_cons, (hf q).1]
      split
      · rw [List.map_cons, List.map_cons, (hf q).2]
      · rfl
    | succ i =>
      rw [List.modify_succ_cons, List.filter_cons, List.filter_cons]
      split
      · rw [List.map_cons, List.map_cons, ih]
      · exact ih i

theorem history_dispatched_self (rest : List Event) (hf : Forked t.procs t.nextRef) (hc : t.procs[i]? = some c) (hl : c.live) :
    (t.dispatched i c.job rest).history c.job =
      { t.history c.job with child := none, exits := (t.history c.job).exits + 1 } := by
  have hd : c.execed = true ∧ c.dispatched = [] := by simpa [Proc.live] using hl
  have hchild := childOf_dispatched rest hf hc hl
  have hforks := countP_modify (P := (·.job == c.job)) (f := fun p => { p with dispatched := p.dispatched ++ [c.job] }) hc
  have hexits := countP_modify (P := fun p => p.job == c.job && (p.execed && !p.dispatched.isEmpty))
    (f := fun p => { p with dispatched := p.dispatched ++ [c.job] }) hc
  simp only [hd, beq_self_eq_true, Bool.true_and, List.isEmpty_nil, Bool.not_true, Bool.false_eq_true, if_false,
    Nat.add_zero, List.nil_append, List.isEmpty_cons, Bool.not_false, if_true] at hexits
  simp only [beq_self_eq_true, if_true, Nat.add_right_cancel_iff] at hforks
  simp only [history, childPid, hchild, Option.map_none]
  congr 1
  exact forkedAt_modify (f := fun p => { p with dispatched := p.dispatched ++ [c.job] }) (fun _ => ⟨rfl, rfl⟩) t.procs i c.job

theorem history_dispatched_ne (rest : List Event) {r : Ref} (hc : t.procs[i]? = some c) (h : c.job ≠ r) :
    (t.dispatched i c.job rest).history r = t.history r := by
  have hforks := countP_modify (P := (·.job == r)) (f := fun p => { p with dispatched := p.dispatched ++ [c.job] }) hc
  have hexits := countP_modify (P := fun p => p.job == r && (p.execed && !p.dispatched.isEmpty))
    (f := fun p => { p with dispatched := p.dispatched ++ [c.job] }) hc
  simp only [beq_eq_false_iff_ne.mpr h, Bool.false_and, Bool.false_eq_true, if_false, Nat.add_zero] at hforks hexits
  have hchild : childPid (t.dispatched i c.job rest).procs r = childPid t.procs r := by
    obtain ⟨hi, e⟩ := List.getElem?_eq_some_iff.mp hc
    have hp : ∀ {p : Proc}, p.job ≠ r → (p.job == r && p.live) = false := fun hp => by simp [hp]
    unfold childPid childOf
    rw [dispatched]
    simp only []
    rw [List.modify_eq_take_cons_drop hi]
    conv_rhs => rw [← List.take_append_drop i t.procs, List.drop_eq_getElem_cons hi]
    rw [List.find?_append, List.find?_append, List.find?_cons_of_neg, List.find?_cons_of_neg]
    · simp [e, h]
    · simp [e, h]
  simp only [history, hchild]
  congr 1
  exact forkedAt_modify (f := fun p => { p with dispatched := p.dispatched ++ [c.job] }) (fun _ => ⟨rfl, rfl⟩) t.procs i r

theorem fate_dispatched_ne {r : Ref} (hc : t.procs[i]? = some c) (h : c.job ≠ r) :
    (t.dispatched i c.job rest).fate r = t.fate r :=
  fate_congr rfl Iff.rfl (history_dispatched_ne rest hc h) fun _ _ => rfl

theorem deletions_cons {e : Event} {l : String} (hq : t.eventmgr.pendingEvents = e :: rest) (he : e.deletes l = false) :
    t.deletions l = rest.countP (Event.deletes l) := by
  rw [deletions, hq, List.countP_cons_of_neg (by simp [he])]

/-- The callback of a child's exit starts: the job has no child any more. -/
theorem Inv.dispatched (h : Inv none t) (hq : t.eventmgr.pendingEvents = .proc p st i :: rest)
    (hc : t.procs[i]? = some c) (hj : t.heap c.job = some j) (hl : j₁.label = j.label) (hb : j₁.boot = j.boot)
    (hi : j₁.timerId = j.timerId) (hu : j₁.state = j.state)
    (hg : ((t.dispatched i c.job rest).lifeOf c.job j₁).Good) :
    Inv (some p) ((t.dispatched i c.job rest).put c.job j₁) := by
  obtain ⟨-, c', hc', -, hh, hlive, -⟩ := h.registry.queued p st i (by rw [hq]; exact List.mem_cons_self)
  rw [hc] at hc'
  cases hc'
  refine ⟨?_, h.forked.dispatched hc hh hlive, h.registry.dispatched h.forked hq hc, ?_, fun l => ?_, fun m hm => ?_,
    fun r' k d hk hd => ?_, fun r' k hk => ?_, h.started, h.killed⟩
  · exact let o := h.owned.put j₁ hj hl hb; ⟨o.stored, o.pended, o.owned, o.allocated⟩
  · exact let m := h.timed.put j₁ hj (.inl hi); ⟨m.ids, m.fds, m.range, m.inj, m.armed, m.holds⟩
  · have hun := unloaded_put (t := t) j₁ hj (by rw [hu]) l
    have hdel : ((t.dispatched i c.job rest).put c.job j₁).deletions l = t.deletions l :=
      (deletions_cons hq rfl).symm
    rw [show ((t.dispatched i c.job rest).put c.job j₁).Unloaded l ↔ t.Unloaded l from hun, hdel]
    exact h.deleted l
  · exact h.kinds m (by rw [hq]; exact List.mem_cons_of_mem _ hm)
  · by_cases e : r' = c.job
    · subst e
      have hnone := childOf_dispatched rest h.forked hc hlive
      rw [show childOf ((t.dispatched i c.job rest).put c.job j₁).procs c.job = none from hnone] at hd
      cases hd
    · rw [put_heap_ne e] at hk
      have hpid : childPid (t.dispatched i c.job rest).procs r' = childPid t.procs r' :=
        congrArg History.child (history_dispatched_ne rest hc (Ne.symm e))
      rw [childPid, show childOf (t.dispatched i c.job rest).procs r' = some d from hd] at hpid
      obtain ⟨d', hd', ed⟩ := Option.map_eq_some_iff.mp hpid.symm
      rw [show d.pid = d'.pid from ed.symm]
      exact h.group r' k d' hk hd'
  · by_cases e : r' = c.job
    · subst e
      rw [put_heap_self] at hk
      cases hk
      exact hg
    · rw [put_heap_ne e] at hk
      have := h.good r' k hk
      unfold lifeOf at this ⊢
      rwa [show ((t.dispatched i c.job rest).put c.job j₁).history r' = t.history r' from
        history_dispatched_ne rest hc (Ne.symm e)]

end Dispatch

end Tables

end Relaunchd
