/-
  Relaunchd.Invariant.Kernel — a new manager satisfies the invariant, and what the kernel
  does between two events, and the reaping of the dead, keep it.
-/

import Relaunchd.Invariant.Jobs

namespace Relaunchd

open EventManager

namespace Tables

variable {busy : Option Int} {t : Tables} {r : Ref} {j : Job}

/-! ## A new manager -/

def new : Tables where
  jobs := ∅
  pendingJobs := ∅
  heap := fun _ => none
  nextRef := 0
  eventmgr := {}
  procs := []
  timerfds := ∅
  kills := []
  groupKills := []
  starts := []

theorem new_inv : Inv none new where
  owned.stored _ _ h := nomatch h
  owned.pended _ _ h := nomatch h
  owned.owned _ _ h := nomatch h
  owned.allocated _ _ h := nomatch h
  forked.heldOnce _ _ _ _ h := by simp [new] at h
  forked.pidPos := nofun
  forked.forkedFor := nofun
  forked.unexeced := nofun
  forked.undispatched := nofun
  forked.own := nofun
  forked.oneChild _ _ _ _ h := by simp [new] at h
  registry.registered _ _ h := nomatch h
  registry.watched p h := absurd h (Finset.notMem_empty p)
  registry.queued _ _ _ h := nomatch h
  registry.once := List.nodup_nil
  registry.busyKey := nofun
  registry.tracked _ _ h := nomatch h
  timed.ids _ _ h := nomatch h
  timed.fds _ _ h := nomatch h
  timed.range _ h := absurd rfl h
  timed.inj _ _ _ h := nomatch h
  timed.armed _ _ h := nomatch h
  timed.holds _ _ _ h := nomatch h
  deleted _ := ⟨fun ⟨_, _, h, _⟩ => (nomatch h), fun _ => rfl⟩
  kinds _ h := nomatch h
  group _ _ _ h := nomatch h
  good _ _ h := nomatch h
  started := nofun
  killed := nofun

/-! ## A process exits -/

theorem Inv.exits (h : Inv busy t) {i : Nat} {c : Proc} (hc : t.procs[i]? = some c) (hs : c.state = .running)
    (st : WaitStatus) : Inv busy (t.withProcs (t.procs.modify i fun p => { p with state := .zombie st })) ∧
      ∀ r, (t.withProcs (t.procs.modify i fun p => { p with state := .zombie st })).fate r = t.fate r := by
  have hheld : c.held := by simp [Proc.held, hs]
  have hf : Fading t.procs (t.procs.modify i fun p => { p with state := .zombie st }) := Fading.modify fun p hp => by
    rw [hc] at hp
    cases hp
    exact ⟨rfl, rfl, fun _ => hheld⟩
  refine ⟨h.fading hf fun k d d' hd hd' hh hh' _ => ?_, fate_fading hf⟩
  rcases modify_cases hd' with ⟨_, hd'⟩ | ⟨_, p, _, rfl⟩
  · rw [hd] at hd'
    cases hd'
    rw [hh] at hh'
    cases hh'
  · cases hh'

/-! ## The dead are reaped -/

theorem Inv.queueSignals (h : Inv busy t) {signals : List Signal} (hs : ∀ sig ∈ signals, sig ≠ .sigchld) :
    Inv busy (t.withQueue (t.eventmgr.pendingEvents ++ signals.map .signal)) := by
  have hchild : ∀ e ∈ signals.map Event.signal, e.child? = none := by
    intro e he
    obtain ⟨sig, -, rfl⟩ := List.mem_map.mp he
    rfl
  have hmem : ∀ {p st i}, Event.proc p st i ∈ t.eventmgr.pendingEvents ++ signals.map .signal →
      Event.proc p st i ∈ t.eventmgr.pendingEvents := by
    intro p st i hm
    rcases List.mem_append.mp hm with hm | hm
    · exact hm
    · cases hchild _ hm
  have hdel : ∀ l, (t.withQueue (t.eventmgr.pendingEvents ++ signals.map .signal)).deletions l = t.deletions l := by
    intro l
    have hz : (signals.map Event.signal).countP (Event.deletes l) = 0 := List.countP_eq_zero.mpr fun e he => by
      obtain ⟨sig, -, rfl⟩ := List.mem_map.mp he
      exact nofun
    exact (List.countP_append ..).trans (by rw [hz]; rfl)
  refine ⟨let o := h.owned; ⟨o.stored, o.pended, o.owned, o.allocated⟩, h.forked, ?_,
    let m := h.timed; ⟨m.ids, m.fds, m.range, m.inj, m.armed, m.holds⟩, fun l => ?_, fun e he => ?_, h.group, h.good,
    h.started, h.killed⟩
  · have g := h.registry
    refine ⟨fun p r hr hb => ?_, g.watched, fun p st i hm => g.queued p st i (hmem hm), ?_, g.busyKey, g.tracked⟩
    · obtain ⟨i, c, hc, hj, hp, hl, hw, hq⟩ := g.registered p r hr hb
      exact ⟨i, c, hc, hj, hp, hl, hw, fun hh => (hq hh).imp fun _ hm => List.mem_append_left _ hm⟩
    · have hz : (signals.map Event.signal).filterMap Event.child? = [] := List.filterMap_eq_nil_iff.mpr hchild
      rw [show (t.withQueue (t.eventmgr.pendingEvents ++ signals.map .signal)).eventmgr.pendingEvents =
        t.eventmgr.pendingEvents ++ signals.map .signal from rfl, List.filterMap_append, hz, List.append_nil]
      exact g.once
  · rw [hdel]
    exact h.deleted l
  · rcases List.mem_append.mp he with he | he
    · exact h.kinds e he
    · obtain ⟨sig, hsig, rfl⟩ := List.mem_map.mp he
      exact hs sig hsig

/-- No exit is queued for a pid that a process still has. -/
def Drained (t : Tables) : Prop :=
  ∀ p st i, Event.proc p st i ∈ t.eventmgr.pendingEvents → ∀ c ∈ t.procs, c.held → c.pid ≠ p

def reapOne (t : Tables) (i : Nat) (pid : Int) (st : WaitStatus) : Tables := { t with
  procs := t.procs.modify i fun p => { p with state := .reaped }
  eventmgr := if pid ∈ t.eventmgr.watchPids then
      { t.eventmgr with
        pendingEvents := t.eventmgr.pendingEvents ++ [.proc pid st i]
        watchPids := t.eventmgr.watchPids.erase pid }
    else t.eventmgr }

section ReapOne

variable {i : Nat} {c : Proc} {st : WaitStatus}

theorem fate_reapOne (t : Tables) (i : Nat) (pid : Int) (st : WaitStatus) (r : Ref) :
    (t.reapOne i pid st).fate r = t.fate r := by
  refine fate_congr rfl Iff.rfl (history_congr (Fading.reaped t.procs i).faces rfl) fun k _ => timerOf_congr fun id _ => ?_
  unfold reapOne
  dsimp only
  split <;> rfl

/-- The process whose pid is watched is the child its callback is registered for. -/
theorem Inv.callback_of_watched (h : Inv none t) (hd : t.Drained) (hc : t.procs[i]? = some c) (hh : c.held)
    (hw : c.pid ∈ t.eventmgr.watchPids) : t.eventmgr.processCallbacks.lookup c.pid = some c.job := by
  obtain ⟨r, hr⟩ := Option.ne_none_iff_exists'.mp (h.registry.watched _ hw)
  obtain ⟨k, d, hk, hj, hp, _, _, hq⟩ := h.registry.registered _ r hr nofun
  have hdh : d.held := by
    by_contra hdh
    obtain ⟨st, hm⟩ := hq (by simpa using hdh)
    exact hd _ _ _ hm c (List.mem_of_getElem? hc) hh rfl
  have hki := h.forked.heldOnce k i d c hk hc hdh hh hp
  subst hki
  rw [hc] at hk
  cases hk
  rw [hr, hj]

theorem Registry.reapOne (h : Inv none t) (hd : t.Drained) (hc : t.procs[i]? = some c) (hh : c.held)
    (hw : c.pid ∈ t.eventmgr.watchPids) :
    Registry none (t.reapOne i c.pid st).eventmgr (t.reapOne i c.pid st).procs := by
  have hcb := h.callback_of_watched hd hc hh hw
  have hlive := h.forked.live_of_held (List.mem_of_getElem? hc) hh
  have hi : (t.procs.modify i fun p => { p with state := .reaped })[i]? = some { c with state := .reaped } := by
    rw [List.getElem?_modify, hc]; simp
  have hsame : ∀ {k : Nat} {d : Proc}, t.procs[k]? = some d → d.live → d.job = c.job → k = i := fun hk hl e =>
    h.forked.oneChild _ i _ c hk hc hl hlive e
  simp only [Tables.reapOne, if_pos hw]
  refine ⟨fun p r hr _ => ?_, fun p hp => ?_, fun p st' k hm => ⟨nofun, ?_⟩, ?_, nofun, fun hs k hk => ?_⟩
  · obtain ⟨k, d, hk, hj, hp, hl, hdw, hq⟩ := h.registry.registered p r hr nofun
    by_cases e : k = i
    · subst e
      rw [hc] at hk
      cases hk
      refine ⟨k, _, hi, hj, hp, hl, fun hh' => (nomatch hh'), fun _ => ⟨st, ?_⟩⟩
      rw [← hp]
      exact List.mem_append_right _ (List.mem_singleton_self _)
    · refine ⟨k, d, modify_get_ne e hk, hj, hp, hl, fun hh' => Finset.mem_erase.mpr ⟨?_, hdw hh'⟩,
        fun hh' => (hq hh').imp fun _ hm => List.mem_append_left _ hm⟩
      rintro rfl
      exact e (h.forked.heldOnce k i d c hk hc hh' hh hp)
  · exact h.registry.watched p (Finset.mem_of_mem_erase hp)
  · rcases List.mem_append.mp hm with hm | hm
    · obtain ⟨-, d, hk, hp, hdh, hl, hdc⟩ := h.registry.queued p st' k hm
      have e : k ≠ i := by
        rintro rfl
        rw [hc] at hk
        cases hk
        rw [hh] at hdh
        cases hdh
      exact ⟨d, modify_get_ne e hk, hp, hdh, hl, hdc⟩
    · cases List.mem_singleton.mp hm
      exact ⟨_, hi, rfl, rfl, hlive, hcb⟩
  · rw [List.filterMap_append, List.nodup_append']
    refine ⟨h.registry.once, by simp [Event.child?], ?_⟩
    intro k hk hk'
    obtain rfl : k = i := by simpa [Event.child?] using hk'
    obtain ⟨e, he, hek⟩ := List.mem_filterMap.mp hk
    cases e <;> cases hek
    obtain ⟨-, d, hk, -, hdh, -⟩ := h.registry.queued _ _ _ he
    rw [hc] at hk
    cases hk
    rw [hh] at hdh
    cases hdh
  · have hs' : ∀ d ∈ t.procs, d.stale = false := by
      intro d hd
      obtain ⟨m, hm⟩ := List.mem_iff_getElem?.mp hd
      by_cases e : m = i
      · subst e
        rw [hc] at hm
        cases hm
        exact hs { c with state := .reaped } (List.mem_of_getElem? hi)
      · exact hs d (List.mem_of_getElem? (modify_get_ne e hm))
    obtain ⟨d, hk', he, hrest⟩ := h.registry.tracked hs' k hk
    by_cases e : k = i
    · subst e
      rw [hc] at hk'
      cases hk'
      exact ⟨_, hi, he, fun hdis => ⟨nofun, (hrest hdis).2.1, fun hh' => (nomatch hh')⟩⟩
    · refine ⟨d, modify_get_ne e hk', he, fun hdis => ⟨nofun, (hrest hdis).2.1, fun hh' => ?_⟩⟩
      refine Finset.mem_erase.mpr ⟨fun hp => e (h.forked.heldOnce k i d c hk' hc hh' hh hp), (hrest hdis).2.2 hh'⟩

theorem Inv.reapOne (st : WaitStatus) (h : Inv none t) (hd : t.Drained) (hc : t.procs[i]? = some c) (hh : c.held) :
    Inv none (t.reapOne i c.pid st) ∧ (t.reapOne i c.pid st).Drained := by
  have hf := Fading.reaped t.procs i
  have hlife : ∀ r j, (t.reapOne i c.pid st).lifeOf r j = t.lifeOf r j := by
    intro r j
    unfold lifeOf
    rw [show (t.reapOne i c.pid st).history r = t.history r from history_congr hf.faces rfl,
      show (t.reapOne i c.pid st).timerOf r j.timerId = t.timerOf r j.timerId from timerOf_congr fun id _ => by
        unfold Tables.reapOne
        dsimp only
        split <;> rfl]
  have hqueue : ∀ e ∈ (t.reapOne i c.pid st).eventmgr.pendingEvents, e ∈ t.eventmgr.pendingEvents ∨ e = .proc c.pid st i := by
    intro e he
    unfold Tables.reapOne at he
    dsimp only at he
    split at he
    · exact (List.mem_append.mp he).imp_right List.mem_singleton.mp
    · exact .inl he
  have hdel : ∀ l, (t.reapOne i c.pid st).deletions l = t.deletions l := by
    intro l
    unfold deletions Tables.reapOne
    dsimp only
    split
    · simp [List.countP_append, Event.deletes]
    · rfl
  have hreg : Registry none (t.reapOne i c.pid st).eventmgr (t.reapOne i c.pid st).procs := by
    by_cases hw : c.pid ∈ t.eventmgr.watchPids
    · exact Registry.reapOne h hd hc hh hw
    · simp only [Tables.reapOne, if_neg hw]
      refine h.registry.fading hf fun k d d' hk hk' hdh hdh' hcb => ?_
      rcases modify_cases hk' with ⟨-, hk'⟩ | ⟨rfl, -⟩
      · rw [hk] at hk'
        cases hk'
        rw [hdh] at hdh'
        cases hdh'
      · rw [hc] at hk
        cases hk
        obtain ⟨m, e, he, hej, -, hel, hew, -⟩ := h.registry.registered _ _ hcb (by simp)
        have hlive := h.forked.live_of_held (List.mem_of_getElem? hc) hh
        have := h.forked.oneChild m k e c he hc hel hlive hej
        subst this
        rw [hc] at he
        cases he
        exact absurd (hew hh) hw
  refine ⟨⟨?_, h.forked.fading hf, hreg, ?_, fun l => ?_, fun m hm => ?_, h.group_fading hf, fun r j hj => ?_,
    h.started, h.killed⟩, fun p st' k hm d hdm hdh => ?_⟩
  · exact let o := h.owned; ⟨o.stored, o.pended, o.owned, o.allocated⟩
  · have m := h.timed
    unfold Tables.reapOne
    dsimp only
    split
    · exact ⟨m.ids, m.fds, m.range, m.inj, m.armed, m.holds⟩
    · exact m
  · rw [hdel]
    exact h.deleted l
  · exact (hqueue _ hm).elim (h.kinds _) fun e => e ▸ trivial
  · rw [hlife]
    exact h.good r j hj
  · obtain ⟨m, hm'⟩ := List.mem_iff_getElem?.mp hdm
    rcases modify_cases hm' with ⟨hmi, hm'⟩ | ⟨-, e, -, rfl⟩
    · rcases hqueue _ hm with hq | hq
      · exact hd p st' k hq d (List.mem_of_getElem? hm') hdh
      · cases hq
        exact fun e => hmi (h.forked.heldOnce m i d c hm' hc hdh hh e)
    · cases hdh

end ReapOne

end Tables

end Relaunchd
