/-
  Relaunchd.Invariant.Timers — setting, cancelling and reading timers keep the invariant.
-/

import Relaunchd.Invariant.Processes

namespace Relaunchd

open EventManager

namespace Tables

variable {busy : Option Int} {t : Tables} {r : Ref} {j : Job}

/-! ## Which timer is armed -/

section Armed

variable {m : EventManager} {fds : AList fun _ : Fd => TimerFd} {id : Nat}

theorem timerOf_of {kind : TimerKind} {fd : Fd} {tfd : TimerFd} (h1 : m.timerCallbacks.lookup id = some (r, kind))
    (h2 : m.timerfdMap.lookup id = some fd) (h3 : fds.lookup fd = some tfd) :
    m.timerOf fds r id = tfd.due.map fun due => (kind, due) := by
  simp only [EventManager.timerOf, h1, h2, Option.bind_some, h3]
  cases tfd.due with
  | none => rfl
  | some due => exact if_pos rfl

theorem timerOf_ne {cb : Ref × TimerKind} (h : m.timerCallbacks.lookup id = some cb) (hr : cb.1 ≠ r) :
    m.timerOf fds r id = none := by
  simp only [EventManager.timerOf, h]
  split
  · rename_i e _
    cases e
    exact if_neg hr
  · rfl

theorem timerOf_no_callback (h : m.timerCallbacks.lookup id = none) : m.timerOf fds r id = none := by
  simp only [EventManager.timerOf, h]

theorem timerOf_no_fd (h : m.timerfdMap.lookup id = none) : m.timerOf fds r id = none := by
  simp only [EventManager.timerOf, h]
  cases m.timerCallbacks.lookup id <;> rfl

/-- A job that holds no timer has none armed. -/
theorem Timed.none_armed {heap : Ref → Option Job} (h : Timed m fds heap) (hj : heap r = some j) (ht : j.timerId = none)
    (id : Nat) : m.armedFor fds r id = false := by
  by_contra ha
  obtain ⟨k, hk, hki⟩ := h.armed r id (by simpa using ha)
  rw [hj] at hk
  cases hk
  rw [ht] at hki
  cases hki

/-- An id past the last one is in no table. -/
theorem Timed.fresh {heap : Ref → Option Job} (h : Timed m fds heap) (hid : m.timerIdMax < id) :
    m.timerCallbacks.lookup id = none := by
  by_contra hn
  obtain ⟨cb, hcb⟩ := Option.ne_none_iff_exists'.mp hn
  have := h.ids id cb hcb
  omega

end Armed

/-! ## Setting a timer -/

def bumped (t : Tables) (id : Nat) : Tables := { t with eventmgr := { t.eventmgr with timerIdMax := id } }

def leaked (t : Tables) (fd : Fd) (st : TimerState) : Tables := { t with
  timerfds := t.timerfds.insert fd { state := st, watched := false }
  eventmgr := { t.eventmgr with cleanupFds := insert fd t.eventmgr.cleanupFds } }

def scheduled (t : Tables) (id : Nat) (fd : Fd) (st : TimerState) (r : Ref) (kind : TimerKind) : Tables := { t with
  timerfds := t.timerfds.insert fd { state := st, watched := true }
  eventmgr := { t.eventmgr with
    timerIdMax := id
    cleanupFds := insert fd t.eventmgr.cleanupFds
    timerfdMap := insertNew id fd t.eventmgr.timerfdMap
    timerCallbacks := insertNew id (r, kind) t.eventmgr.timerCallbacks } }

theorem Inv.bumped (h : Inv busy t) {id : Nat} (hid : t.eventmgr.timerIdMax ≤ id) : Inv busy (t.bumped id) where
  owned := let o := h.owned; ⟨o.stored, o.pended, o.owned, o.allocated⟩
  forked := h.forked
  registry := let g := h.registry; ⟨g.registered, g.watched, g.queued, g.once, g.busyKey, g.tracked⟩
  timed := let m := h.timed; ⟨fun id' cb hcb => le_trans (m.ids id' cb hcb) hid, m.fds, m.range, m.inj, m.armed, m.holds⟩
  deleted := h.deleted
  kinds := h.kinds
  group := h.group
  good := h.good
  started := h.started
  killed := h.killed

theorem fate_bumped (id : Nat) (r : Ref) : (t.bumped id).fate r = t.fate r :=
  fate_congr rfl Iff.rfl rfl fun _ _ => rfl

section Fresh

variable {fd : Fd} {st : TimerState}

/-- A new descriptor changes nothing about the timers there are. -/
theorem timerOf_insert_fresh {m : EventManager} {fds : AList fun _ : Fd => TimerFd} {heap : Ref → Option Job}
    (h : Timed m fds heap) (hfd : fds.lookup fd = none) (tfd : TimerFd) (r : Ref) (id : Nat) :
    m.timerOf (fds.insert fd tfd) r id = m.timerOf fds r id := by
  unfold EventManager.timerOf
  cases h2 : m.timerfdMap.lookup id with
  | none => rfl
  | some fd' =>
    have hne : fd' ≠ fd := by
      rintro rfl
      exact (h.fds id fd' h2).2 hfd
    rw [Option.bind_some, Option.bind_some, AList.lookup_insert_ne hne]

theorem Timed.leaked {heap : Ref → Option Job} {m : EventManager} {fds : AList fun _ : Fd => TimerFd} (h : Timed m fds heap)
    (hfd : fds.lookup fd = none) (hr : timerEpfd < fd) (tfd : TimerFd) (c : Finset Fd) :
    Timed { m with cleanupFds := c } (fds.insert fd tfd) heap := by
  have hsome : ∀ fd', fds.lookup fd' ≠ none → (fds.insert fd tfd).lookup fd' ≠ none := by
    intro fd' hfd'
    by_cases e : fd' = fd
    · subst e; exact absurd hfd hfd'
    · rwa [AList.lookup_insert_ne e]
  refine ⟨h.ids, fun id fd' hm => ⟨(h.fds id fd' hm).1, hsome fd' (h.fds id fd' hm).2⟩, fun fd' hfd' => ?_, h.inj,
    fun r id ha => h.armed r id ?_, h.holds⟩
  · by_cases e : fd' = fd
    · rw [e]; exact hr
    · exact h.range fd' (by rwa [AList.lookup_insert_ne e] at hfd')
  · rw [armedFor, ← timerOf_insert_fresh h hfd tfd r id]; exact ha

theorem timerOf_leaked (h : Inv busy t) (hfd : t.timerfds.lookup fd = none) (r : Ref) (id : Option Nat) :
    (t.leaked fd st).timerOf r id = t.timerOf r id :=
  timerOf_congr fun id _ => timerOf_insert_fresh h.timed hfd _ r id

theorem fate_leaked (h : Inv busy t) (hfd : t.timerfds.lookup fd = none) (r : Ref) :
    (t.leaked fd st).fate r = t.fate r :=
  fate_congr rfl Iff.rfl rfl fun _ _ => timerOf_leaked h hfd r _

theorem Inv.leaked (h : Inv busy t) (hfd : t.timerfds.lookup fd = none) (hr : timerEpfd < fd) :
    Inv busy (t.leaked fd st) where
  owned := let o := h.owned; ⟨o.stored, o.pended, o.owned, o.allocated⟩
  forked := h.forked
  registry := let g := h.registry; ⟨g.registered, g.watched, g.queued, g.once, g.busyKey, g.tracked⟩
  timed := h.timed.leaked hfd hr _ _
  deleted := h.deleted
  kinds := h.kinds
  group := h.group
  good r j hj := by
    have := h.good r j hj
    unfold lifeOf at this ⊢
    rwa [timerOf_leaked h hfd]
  started := h.started
  killed := h.killed

variable {id : Nat} {kind : TimerKind}

/-- What setting a timer does to another timer, or to another job. -/
theorem timerOf_scheduled_ne (h : Inv busy t) (hid : t.eventmgr.timerIdMax < id) (hfd : t.timerfds.lookup fd = none)
    {r' : Ref} {id' : Nat} (hne : id' ≠ id ∨ r' ≠ r) :
    (t.scheduled id fd st r kind).eventmgr.timerOf (t.scheduled id fd st r kind).timerfds r' id' =
      t.eventmgr.timerOf t.timerfds r' id' := by
  have hcb := h.timed.fresh hid
  by_cases e : id' = id
  · subst e
    have hne := hne.resolve_left (fun hn => hn rfl)
    rw [timerOf_no_callback hcb]
    have h1 : (t.scheduled id' fd st r kind).eventmgr.timerCallbacks.lookup id' = some (r, kind) := by
      simp only [scheduled, lookup_insertNew, hcb, if_true, Option.getD_none]
    exact timerOf_ne h1 (Ne.symm hne)
  · have h1 : (t.scheduled id fd st r kind).eventmgr.timerCallbacks.lookup id' = t.eventmgr.timerCallbacks.lookup id' := by
      simp only [scheduled, lookup_insertNew, if_neg e]
    have h2 : (t.scheduled id fd st r kind).eventmgr.timerfdMap.lookup id' = t.eventmgr.timerfdMap.lookup id' := by
      simp only [scheduled, lookup_insertNew, if_neg e]
    have h3 := timerOf_insert_fresh h.timed hfd { state := st, watched := true } r' id'
    rw [← h3]
    unfold EventManager.timerOf
    rw [h1, h2]
    rfl

theorem timerOf_scheduled_self (fd : Fd) (st : TimerState) (r : Ref) (kind : TimerKind) (h : Inv busy t) (hid : t.eventmgr.timerIdMax < id) :
    (t.scheduled id fd st r kind).eventmgr.timerOf (t.scheduled id fd st r kind).timerfds r id =
        (TimerFd.due { state := st, watched := true }).map (fun due => (kind, due)) ∧
      (t.scheduled id fd st r kind).eventmgr.timerCallbacks.lookup id = some (r, kind) := by
  have hcb := h.timed.fresh hid
  have hmap : t.eventmgr.timerfdMap.lookup id = none := by
    by_contra hn
    obtain ⟨fd', hm⟩ := Option.ne_none_iff_exists'.mp hn
    exact (h.timed.fds id fd' hm).1 hcb
  have h1 : (t.scheduled id fd st r kind).eventmgr.timerCallbacks.lookup id = some (r, kind) := by
    simp only [scheduled, lookup_insertNew, hcb, if_true, Option.getD_none]
  have h2 : (t.scheduled id fd st r kind).eventmgr.timerfdMap.lookup id = some fd := by
    simp only [scheduled, lookup_insertNew, hmap, if_true, Option.getD_none]
  have h3 : (t.scheduled id fd st r kind).timerfds.lookup fd = some { state := st, watched := true } := AList.lookup_insert _
  exact ⟨timerOf_of h1 h2 h3, h1⟩

theorem lifeOf_scheduled (h : Inv busy t) (hid : t.eventmgr.timerIdMax < id) (ht : j.timerId = none) :
    (t.scheduled id fd st r kind).lifeOf r { j with timerId := some id, state := .waiting } =
      (t.lifeOf r j).wait kind (.of st) := by
  have h1 := (timerOf_scheduled_self fd st r kind h hid).1
  have h2 : (t.scheduled id fd st r kind).timerOf r (some id) =
      (TimerFd.due { state := st, watched := true }).map (fun due => (kind, due)) := h1
  have h3 : (t.lifeOf r j).timer = none := by
    show t.timerOf r j.timerId = none
    rw [ht]
    rfl
  cases st with
  | disarmed =>
    unfold lifeOf at h3 ⊢
    rw [Arming.of, Life.wait, h2, h3]
    rfl
  | armed deadline =>
    unfold lifeOf
    rw [Arming.of, Life.wait, h2]
    rfl

theorem jobTimer_scheduled_ne (h : Inv busy t) (hid : t.eventmgr.timerIdMax < id) (hfd : t.timerfds.lookup fd = none)
    {r' : Ref} (hne : r' ≠ r) (k : Job) :
    (t.scheduled id fd st r kind).timerOf r' k.timerId = t.timerOf r' k.timerId :=
  timerOf_congr fun _ _ => timerOf_scheduled_ne h hid hfd (.inr hne)

/-- A job comes to wait for a timer. -/
theorem Inv.scheduled (h : Inv busy t) (hid : t.eventmgr.timerIdMax < id) (hfd : t.timerfds.lookup fd = none)
    (hr : timerEpfd < fd) (hj : t.heap r = some j) (ht : j.timerId = none) (hs : j.state ≠ .unloaded)
    (hc : childOf t.procs r = none) (hb : j.boot ≠ .pending) :
    Inv busy ((t.scheduled id fd st r kind).put r { j with timerId := some id, state := .waiting }) where
  owned := let o := h.owned.put { j with timerId := some id, state := .waiting } hj rfl rfl
    ⟨o.stored, o.pended, o.owned, o.allocated⟩
  forked := h.forked
  registry := let g := h.registry; ⟨g.registered, g.watched, g.queued, g.once, g.busyKey, g.tracked⟩
  timed := by
    have hnone := h.timed.fresh hid
    have hmap : ∀ id' fd', (t.scheduled id fd st r kind).eventmgr.timerfdMap.lookup id' = some fd' →
        t.eventmgr.timerfdMap.lookup id' = some fd' ∨ (id' = id ∧ fd' = fd) := by
      intro id' fd' hm
      simp only [Tables.scheduled, lookup_insertNew] at hm
      split at hm
      · rename_i e
        cases h1 : t.eventmgr.timerfdMap.lookup id with
        | none => rw [h1] at hm; cases hm; exact .inr ⟨e, rfl⟩
        | some fd₁ => exact absurd hnone (h.timed.fds id fd₁ h1).1
      · exact .inl hm
    have hcb : ∀ {id' : Nat} {cb : Ref × TimerKind}, t.eventmgr.timerCallbacks.lookup id' = some cb →
        (t.scheduled id fd st r kind).eventmgr.timerCallbacks.lookup id' = some cb := lookup_insertNew_some
    have hself := (timerOf_scheduled_self fd st r kind h hid).2
    refine ⟨fun id' cb hcb' => ?_, fun id' fd' hm => ?_, fun fd' hfd' => ?_, fun id₁ id₂ fd' h1 h2 => ?_,
      fun r' id' ha => ?_, fun r' k id' hk hki => ?_⟩
    · simp only [Tables.put, Tables.scheduled, lookup_insertNew] at hcb'
      split at hcb'
      · rename_i e; rw [e]; exact le_refl _
      · exact le_trans (h.timed.ids id' cb hcb') (le_of_lt hid)
    · rcases hmap id' fd' hm with hm | ⟨rfl, rfl⟩
      · obtain ⟨h1, h2⟩ := h.timed.fds id' fd' hm
        obtain ⟨cb, hcb'⟩ := Option.ne_none_iff_exists'.mp h1
        have hne : fd' ≠ fd := by rintro rfl; exact h2 hfd
        refine ⟨?_, ?_⟩
        · rw [show ((t.scheduled id fd st r kind).put r _).eventmgr.timerCallbacks.lookup id' = some cb from hcb hcb']
          exact Option.some_ne_none _
        · show (t.timerfds.insert fd _).lookup fd' ≠ none
          rwa [AList.lookup_insert_ne hne]
      · refine ⟨?_, ?_⟩
        · rw [show ((t.scheduled id' fd' st r kind).put r _).eventmgr.timerCallbacks.lookup id' = some (r, kind) from hself]
          exact Option.some_ne_none _
        · show (t.timerfds.insert fd' _).lookup fd' ≠ none
          rw [AList.lookup_insert]
          exact Option.some_ne_none _
    · by_cases e : fd' = fd
      · rw [e]; exact hr
      · apply h.timed.range fd'
        rwa [show ((t.scheduled id fd st r kind).put r _).timerfds.lookup fd' = t.timerfds.lookup fd' from
          AList.lookup_insert_ne e] at hfd'
    · rcases hmap id₁ fd' h1 with h1' | ⟨e1, rfl⟩ <;> rcases hmap id₂ _ h2 with h2' | ⟨e2, e3⟩
      · exact h.timed.inj id₁ id₂ fd' h1' h2'
      · exact absurd (e3 ▸ hfd) (h.timed.fds _ fd' h1').2
      · exact absurd hfd (h.timed.fds _ _ h2').2
      · rw [e1, e2]
    · by_cases e : id' = id ∧ r' = r
      · obtain ⟨rfl, rfl⟩ := e
        exact ⟨_, put_heap_self, rfl⟩
      · have hne : id' ≠ id ∨ r' ≠ r := by
          by_cases e1 : id' = id
          · exact .inr fun e2 => e ⟨e1, e2⟩
          · exact .inl e1
        have ha' : t.eventmgr.armedFor t.timerfds r' id' :=
          (congrArg Option.isSome (timerOf_scheduled_ne h hid hfd hne)).symm.trans ha
        have hne' : r' ≠ r := by
          rintro rfl
          rw [h.timed.none_armed hj ht] at ha'
          cases ha'
        obtain ⟨k, hk, hki⟩ := h.timed.armed r' id' ha'
        exact ⟨k, by rw [put_heap_ne hne']; exact hk, hki⟩
    · by_cases e : r' = r
      · subst e
        rw [put_heap_self] at hk
        cases hk
        cases hki
        exact ⟨kind, hself⟩
      · rw [put_heap_ne e] at hk
        obtain ⟨kind', hcb'⟩ := h.timed.holds r' k id' hk hki
        exact ⟨kind', hcb hcb'⟩
  deleted l := by
    have := unloaded_put (t := t) { j with timerId := some id, state := .waiting } hj (by simp [hs]) l
    rw [show ((t.scheduled id fd st r kind).put r { j with timerId := some id, state := .waiting }).Unloaded l ↔
      t.Unloaded l from this]
    exact h.deleted l
  kinds := h.kinds
  group r' k c hk hc' := put_jobs { j with timerId := some id, state := .waiting }
    (P := fun r' k => ∀ c, childOf t.procs r' = some c → k.pgid = c.pid ∨ k.pgid = -1)
    (fun r' k hk c hc => h.group r' k c hk hc) (fun c hc => h.group r j c hj hc) r' k hk c hc'
  good r' k hk := by
    by_cases e : r' = r
    · subst e
      rw [put_heap_self] at hk
      cases hk
      rw [show ((t.scheduled id fd st r' kind).put r' _).lifeOf r' _ = _ from lifeOf_scheduled h hid ht]
      exact Life.good_wait (h.good r' j hj) ⟨by simp [lifeOf, history, childPid, hc], by simp [lifeOf, ht]⟩ hb
    · rw [put_heap_ne e] at hk
      have := h.good r' k hk
      unfold lifeOf at this ⊢
      rwa [show ((t.scheduled id fd st r kind).put r _).timerOf r' k.timerId = _ from jobTimer_scheduled_ne h hid hfd e k]
  started := h.started
  killed := h.killed

theorem fate_scheduled_ne (h : Inv busy t) (hid : t.eventmgr.timerIdMax < id) (hfd : t.timerfds.lookup fd = none)
    {r' : Ref} (hne : r' ≠ r) : (t.scheduled id fd st r kind).fate r' = t.fate r' :=
  fate_congr rfl Iff.rfl rfl fun k _ => jobTimer_scheduled_ne h hid hfd hne k

end Fresh

/-! ## A timer is cancelled, or read -/

def closed (t : Tables) (id : Nat) (fd : Fd) : Tables := { t with
  timerfds := t.timerfds.erase fd
  eventmgr := { t.eventmgr with
    timerfdMap := t.eventmgr.timerfdMap.erase id
    cleanupFds := t.eventmgr.cleanupFds.erase fd } }

def readTimer (t : Tables) (fd : Fd) : Tables :=
  { t with timerfds := t.timerfds.insert fd { state := .disarmed, watched := true } }

structure Silenced (id : Nat) (m m' : EventManager) (fds fds' : AList fun _ : Fd => TimerFd) : Prop where
  callbacks : m'.timerCallbacks = m.timerCallbacks
  silent : ∀ r, m'.timerOf fds' r id = none
  others : ∀ r id', id' ≠ id → m'.timerOf fds' r id' = m.timerOf fds r id'

section Silence

variable {id : Nat} {fd : Fd} {t' : Tables}

theorem silenced_closed (h : Timed t.eventmgr t.timerfds t.heap) (hm : t.eventmgr.timerfdMap.lookup id = some fd) :
    Silenced id t.eventmgr (t.closed id fd).eventmgr t.timerfds (t.closed id fd).timerfds where
  callbacks := rfl
  silent r := timerOf_no_fd (AList.lookup_erase ..)
  others r id' hne := by
    unfold EventManager.timerOf
    rw [show (t.closed id fd).eventmgr.timerfdMap.lookup id' = t.eventmgr.timerfdMap.lookup id' from AList.lookup_erase_ne hne]
    cases h2 : t.eventmgr.timerfdMap.lookup id' with
    | none => rfl
    | some fd' =>
      have hfd : fd' ≠ fd := by rintro rfl; exact hne (h.inj _ _ _ h2 hm)
      rw [Option.bind_some, Option.bind_some, show (t.closed id fd).timerfds.lookup fd' = t.timerfds.lookup fd' from
        AList.lookup_erase_ne hfd]
      rfl

theorem silenced_readTimer (h : Timed t.eventmgr t.timerfds t.heap) (hm : t.eventmgr.timerfdMap.lookup id = some fd) :
    Silenced id t.eventmgr (t.readTimer fd).eventmgr t.timerfds (t.readTimer fd).timerfds where
  callbacks := rfl
  silent r := by
    unfold EventManager.timerOf
    rw [show (t.readTimer fd).eventmgr.timerfdMap.lookup id = some fd from hm, Option.bind_some,
      show (t.readTimer fd).timerfds.lookup fd = some { state := .disarmed, watched := true } from AList.lookup_insert _]
    cases (t.readTimer fd).eventmgr.timerCallbacks.lookup id with
    | none => rfl
    | some cb => rfl
  others r id' hne := by
    unfold EventManager.timerOf
    rw [show (t.readTimer fd).eventmgr.timerfdMap.lookup id' = t.eventmgr.timerfdMap.lookup id' from rfl]
    cases h2 : t.eventmgr.timerfdMap.lookup id' with
    | none => rfl
    | some fd' =>
      have hfd : fd' ≠ fd := by rintro rfl; exact hne (h.inj _ _ _ h2 hm)
      rw [Option.bind_some, Option.bind_some, show (t.readTimer fd).timerfds.lookup fd' = t.timerfds.lookup fd' from
        AList.lookup_insert_ne hfd]
      rfl

/-- Only the job that holds the timer feels it. -/
theorem timerOf_silenced_ne (h : Inv busy t) (hs : Silenced id t.eventmgr t'.eventmgr t.timerfds t'.timerfds)
    (hj : t.heap r = some j) (ht : j.timerId = some id) {r' : Ref} (hne : r' ≠ r) {k : Job} (hk : t.heap r' = some k) :
    t'.timerOf r' k.timerId = t.timerOf r' k.timerId := by
  refine timerOf_congr fun id' hi => ?_
  have hne' : id' ≠ id := by
    rintro rfl
    obtain ⟨_, h1⟩ := h.timed.holds r j id' hj ht
    obtain ⟨_, h2⟩ := h.timed.holds r' k id' hk hi
    rw [h1] at h2
    cases h2
    exact hne rfl
  exact hs.others r' id' hne'

theorem timerOf_silenced_self (hs : Silenced id t.eventmgr t'.eventmgr t.timerfds t'.timerfds) (r : Ref) :
    t'.timerOf r (some id) = none := hs.silent r

theorem Timed.silenced (h : Timed t.eventmgr t.timerfds t.heap)
    (hs : Silenced id t.eventmgr t'.eventmgr t.timerfds t'.timerfds) (hmax : t'.eventmgr.timerIdMax = t.eventmgr.timerIdMax)
    (hmap : ∀ id' fd', t'.eventmgr.timerfdMap.lookup id' = some fd' →
      t.eventmgr.timerfdMap.lookup id' = some fd' ∧ t'.timerfds.lookup fd' ≠ none)
    (hfds : ∀ fd', t'.timerfds.lookup fd' ≠ none → t.timerfds.lookup fd' ≠ none) :
    Timed t'.eventmgr t'.timerfds t.heap where
  ids id' cb hcb := by rw [hmax]; exact h.ids id' cb (hs.callbacks ▸ hcb)
  fds id' fd' hm := by
    obtain ⟨hm, hfd⟩ := hmap id' fd' hm
    exact ⟨by rw [hs.callbacks]; exact (h.fds id' fd' hm).1, hfd⟩
  range fd' hfd := h.range fd' (hfds fd' hfd)
  inj id₁ id₂ fd' h1 h2 := h.inj id₁ id₂ fd' (hmap _ _ h1).1 (hmap _ _ h2).1
  armed r id' ha := by
    have hne : id' ≠ id := by rintro rfl; rw [armedFor, hs.silent r] at ha; cases ha
    rw [armedFor, hs.others r id' hne] at ha
    exact h.armed r id' ha
  holds r k id' hk hi := by rw [hs.callbacks]; exact h.holds r k id' hk hi

theorem Timed.closed (h : Timed t.eventmgr t.timerfds t.heap) (hm : t.eventmgr.timerfdMap.lookup id = some fd) :
    Timed (t.closed id fd).eventmgr (t.closed id fd).timerfds t.heap := by
  refine h.silenced (silenced_closed h hm) rfl (fun id' fd' hm' => ?_) fun fd' hfd' => ?_
  · have hne : id' ≠ id := by
      rintro rfl
      rw [show (t.closed id' fd).eventmgr.timerfdMap.lookup id' = none from AList.lookup_erase ..] at hm'
      cases hm'
    rw [show (t.closed id fd).eventmgr.timerfdMap.lookup id' = t.eventmgr.timerfdMap.lookup id' from
      AList.lookup_erase_ne hne] at hm'
    have hfd : fd' ≠ fd := by rintro rfl; exact hne (h.inj _ _ _ hm' hm)
    refine ⟨hm', ?_⟩
    rw [show (t.closed id fd).timerfds.lookup fd' = t.timerfds.lookup fd' from AList.lookup_erase_ne hfd]
    exact (h.fds id' fd' hm').2
  · by_cases e : fd' = fd
    · rw [e]; exact (h.fds id fd hm).2
    · rwa [show (t.closed id fd).timerfds.lookup fd' = t.timerfds.lookup fd' from AList.lookup_erase_ne e] at hfd'

theorem Timed.readTimer (h : Timed t.eventmgr t.timerfds t.heap) (hm : t.eventmgr.timerfdMap.lookup id = some fd) :
    Timed (t.readTimer fd).eventmgr (t.readTimer fd).timerfds t.heap := by
  have hiff : ∀ fd', (t.readTimer fd).timerfds.lookup fd' ≠ none ↔ t.timerfds.lookup fd' ≠ none := by
    intro fd'
    by_cases e : fd' = fd
    · subst e
      rw [show (t.readTimer fd').timerfds.lookup fd' = some _ from AList.lookup_insert _]
      exact iff_of_true (Option.some_ne_none _) (h.fds id fd' hm).2
    · rw [show (t.readTimer fd).timerfds.lookup fd' = t.timerfds.lookup fd' from AList.lookup_insert_ne e]
  exact h.silenced (silenced_readTimer h hm) rfl (fun id' fd' hm' => ⟨hm', (hiff fd').mpr (h.fds id' fd' hm').2⟩)
    fun fd' hfd' => (hiff fd').mp hfd'

/-- Nothing but the timer tables changes, and the timer a job holds falls silent. -/
theorem Inv.silenced (h : Inv busy t) (hs : Silenced id t.eventmgr t'.eventmgr t.timerfds t'.timerfds)
    (htimed : Timed t'.eventmgr t'.timerfds t.heap) (hj : t.heap r = some j) (ht : j.timerId = some id)
    (he : t' = { t with timerfds := t'.timerfds, eventmgr := { t.eventmgr with
      timerfdMap := t'.eventmgr.timerfdMap, cleanupFds := t'.eventmgr.cleanupFds } }) :
    Inv busy t' ∧ t'.lifeOf r j = { t.lifeOf r j with timer := none } ∧ ∀ r', r' ≠ r → t'.fate r' = t.fate r' := by
  have hlife : t'.lifeOf r j = { t.lifeOf r j with timer := none } := by
    unfold lifeOf
    rw [ht, timerOf_silenced_self hs r, show t'.history r = t.history r from by rw [he]; rfl]
  have hother := fun {r'} (hne : r' ≠ r) {k} => timerOf_silenced_ne h hs hj ht (k := k) hne
  have hhist : ∀ r', t'.history r' = t.history r' := fun r' => by rw [he]; rfl
  have hheap : t'.heap = t.heap := by rw [he]
  refine ⟨?_, hlife, fun r' hne => fate_congr (by rw [hheap]) (by rw [he]) (hhist r') fun k hk => hother hne hk⟩
  refine ⟨?_, ?_, ?_, hheap ▸ htimed, ?_, ?_, ?_, fun r' k hk => ?_, ?_, ?_⟩
  · rw [he]; exact let o := h.owned; ⟨o.stored, o.pended, o.owned, o.allocated⟩
  · rw [he]; exact h.forked
  · rw [he]; exact let g := h.registry; ⟨g.registered, g.watched, g.queued, g.once, g.busyKey, g.tracked⟩
  · rw [he]; exact h.deleted
  · rw [he]; exact h.kinds
  · rw [he]; exact h.group
  · rw [hheap] at hk
    by_cases e : r' = r
    · subst e
      rw [hj] at hk
      cases hk
      rw [hlife]
      have hg := h.good r' j hj
      exact ⟨hg.childPid, hg.pidChild, fun ht => by simp at ht, hg.waits, fun hb => by
        have := hg.fresh hb
        exact absurd (congrArg Life.timerSet this) (by simp [lifeOf, ht])⟩
    · have := h.good r' k hk
      unfold lifeOf at this ⊢
      rwa [hother e hk, hhist]
  · rw [he]; exact h.started
  · rw [he]; exact h.killed

theorem Inv.closed (h : Inv busy t) (hm : t.eventmgr.timerfdMap.lookup id = some fd) (hj : t.heap r = some j)
    (ht : j.timerId = some id) : Inv busy (t.closed id fd) ∧
      (t.closed id fd).lifeOf r j = { t.lifeOf r j with timer := none } ∧
      ∀ r', r' ≠ r → (t.closed id fd).fate r' = t.fate r' :=
  h.silenced (silenced_closed h.timed hm) (h.timed.closed hm) hj ht rfl

theorem Inv.readTimer (h : Inv busy t) (hm : t.eventmgr.timerfdMap.lookup id = some fd) (hj : t.heap r = some j)
    (ht : j.timerId = some id) : Inv busy (t.readTimer fd) ∧
      (t.readTimer fd).lifeOf r j = { t.lifeOf r j with timer := none } ∧
      ∀ r', r' ≠ r → (t.readTimer fd).fate r' = t.fate r' :=
  h.silenced (silenced_readTimer h.timed hm) (h.timed.readTimer hm) hj ht rfl

end Silence

end Tables

end Relaunchd
