/-
  Relaunchd.Properties.Timers — the timers of the event manager, on their own: what adding
  one, the expiry of one and deleting one make of the tables that hold them.

  A timer lives in four places: `timer_callbacks` and `timerfd_map` by its id, and
  `cleanup_fds` and the kernel's open descriptors by its descriptor. `Backend` adds the list
  of the timers that were added and have neither fired nor been deleted; between two
  operations on timers the rest of the program moves as it likes.
-/

import Relaunchd.Runs

namespace Relaunchd

open Prog EventManager Transition

variable {s s' : Sys} {r : Ref} {id : Nat} {fd : Fd} {ms : Int} {kind : TimerKind}

/-! ## What the operations do -/

structure Timers where
  callbacks : AList (fun _ : Nat => Ref × TimerKind)
  idMax : Nat
  fds : AList (fun _ : Nat => Fd)
  cleanup : Finset Fd
  opened : AList (fun _ : Fd => TimerFd)

def Sys.timers (s : Sys) : Timers where
  callbacks := s.eventmgr.timerCallbacks
  idMax := s.eventmgr.timerIdMax
  fds := s.eventmgr.timerfdMap
  cleanup := s.eventmgr.cleanupFds
  opened := s.kernel.timerfds

def Sys.timerAnswer (s : Sys) : TimerAnswer := s.kernel.answers.timers.headD (.watched 0)

structure Timers.New (t : Timers) (fd : Fd) : Prop where
  closed : t.opened.lookup fd = none
  range : timerEpfd < fd

def Timers.opens (t : Timers) (fd : Fd) (tfd : TimerFd) : Timers :=
  { t with cleanup := insert fd t.cleanup, opened := t.opened.insert fd tfd }

def Sys.created (s : Sys) : Sys :=
  s.updateKernel fun k => { k with answers := { k.answers with timers := k.answers.timers.tail } }

theorem timerfdCreate_eq (s : Sys) : timerfdCreate s =
    match s.timerAnswer with
    | .noFd => .throw "timerfd_create" s.created
    | .noWatch want => .ok (s.kernel.freeFd want, false) s.created
    | .watched want => .ok (s.kernel.freeFd want, true) s.created := by
  have hnext : nextTimer s = .ok s.timerAnswer s.created := rfl
  rw [timerfdCreate, bind_ok hnext]
  cases s.timerAnswer <;> rfl

theorem monitorTimer_wp : wp (monitorTimer id ms)
    (fun _ s' => (∃ want, s.timerAnswer = .watched want) ∧ 0 ≤ (timespecOf ms).1 ∧
      ∃ fd tfd, s.timers.New fd ∧ s'.timers = { s.timers.opens fd tfd with fds := insertNew id fd s.timers.fds })
    (fun s' => s.timerAnswer = .noFd ∧ s'.timers = s.timers ∨
      (∀ want, s.timerAnswer = .watched want → (timespecOf ms).1 < 0) ∧ s.timerAnswer ≠ .noFd ∧
        ∃ fd tfd, s.timers.New fd ∧ s'.timers = s.timers.opens fd tfd) s := by
  have hnew : ∀ want, s.timers.New (s.kernel.freeFd want) := fun want =>
    ⟨(freeFd_free s.kernel want).1, (freeFd_free s.kernel want).2⟩
  rw [monitorTimer, wp_bind, wp, timerfdCreate_eq]
  cases ha : s.timerAnswer with
  | noFd => exact .inl ⟨rfl, rfl⟩
  | noWatch want =>
    dsimp only
    rw [wp_bind, setTimerfd, wp_modify, wp_bind, wp_modify, wp_ite]
    split
    · exact .inr ⟨by simp, by simp, _, _, hnew want, rfl⟩
    · refine .inr ⟨by simp, by simp, s.kernel.freeFd want, { state := timerfdSettime s.kernel.now (timespecOf ms), watched := false },
        hnew want, ?_⟩
      show Timers.mk _ _ _ _ ((s.kernel.timerfds.insert _ _).insert _ _) = _
      rw [AList.insert_insert]
      rfl
  | watched want =>
    dsimp only
    rw [wp_bind, setTimerfd, wp_modify, wp_bind, wp_modify, wp_ite]
    split
    · rename_i hneg
      exact .inr ⟨fun _ _ => hneg, by simp, _, _, hnew want, rfl⟩
    · rename_i hpos
      refine ⟨⟨want, rfl⟩, not_lt.mp hpos, s.kernel.freeFd want,
        { state := timerfdSettime s.kernel.now (timespecOf ms), watched := true }, hnew want, ?_⟩
      show Timers.mk _ _ _ _ (((s.kernel.timerfds.insert _ _).insert _ _).insert _ _) = _
      rw [AList.insert_insert, AList.insert_insert]
      rfl

/-- What `addTimer` does before it returns, or fails. -/
theorem addTimer_wp : wp (addTimer ms r kind)
    (fun id s' => (∃ want, s.timerAnswer = .watched want) ∧ 0 ≤ (timespecOf ms).1 ∧ s.timers.idMax < id ∧
      ∃ fd tfd, s.timers.New fd ∧ s'.timers = { s.timers.opens fd tfd with
        idMax := id, fds := insertNew id fd s.timers.fds, callbacks := insertNew id (r, kind) s.timers.callbacks })
    (fun s' => ∃ id, s.timers.idMax < id ∧ (s.timerAnswer = .noFd ∧ s'.timers = { s.timers with idMax := id } ∨
      (∀ want, s.timerAnswer = .watched want → (timespecOf ms).1 < 0) ∧ s.timerAnswer ≠ .noFd ∧
        ∃ fd tfd, s.timers.New fd ∧ s'.timers = { s.timers.opens fd tfd with idMax := id })) s := by
  obtain ⟨id, hid, hnext⟩ : ∃ id, s.timers.idMax < id ∧
      getNextTimerId s = .ok id (s.updateEventmgr fun m => { m with timerIdMax := id }) :=
    ⟨_, lt_nextTimerIdFrom .., rfl⟩
  rw [addTimer, wp_bind, wp, hnext]
  dsimp only
  rw [wp_bind]
  refine wp_mono monitorTimer_wp (fun _ s₁ h => ?_) fun s₁ h => ⟨id, hid, ?_⟩
  · obtain ⟨ha, hms, fd, tfd, hnew, ht⟩ := h
    refine ⟨ha, hms, hid, fd, tfd, ⟨hnew.closed, hnew.range⟩, ?_⟩
    have hadd : ({ s₁.timers with callbacks := insertNew id (r, kind) s₁.timers.callbacks } : Timers) =
        { s.timers.opens fd tfd with
          idMax := id, fds := insertNew id fd s.timers.fds, callbacks := insertNew id (r, kind) s.timers.callbacks } := by
      rw [ht]
      rfl
    exact hadd
  · rcases h with ⟨ha, ht⟩ | ⟨hms, ha, fd, tfd, hnew, ht⟩
    · exact .inl ⟨ha, ht⟩
    · exact .inr ⟨hms, ha, fd, tfd, ⟨hnew.closed, hnew.range⟩, ht⟩

theorem addTimer_fails {w : String} (h : addTimer ms r kind s = .throw w s') : ∃ id, s.timers.idMax < id ∧
    (s.timerAnswer = .noFd ∧ s'.timers = { s.timers with idMax := id } ∨
      (∀ want, s.timerAnswer = .watched want → (timespecOf ms).1 < 0) ∧ s.timerAnswer ≠ .noFd ∧
        ∃ fd tfd, s.timers.New fd ∧ s'.timers = { s.timers.opens fd tfd with idMax := id }) := by
  have hwp : wp (addTimer ms r kind) _ _ s := addTimer_wp
  rw [wp, h] at hwp
  exact hwp

/-- The expiry of a timer is read. -/
theorem readTimer_fires (h : readTimer fd s = .ok (some (.timer id)) s') :
    s.timers.fds.lookup id = some fd ∧ (s.timers.opened.lookup fd).isSome ∧
      s'.timers = { s.timers with opened := s.timers.opened.insert fd { state := .disarmed, watched := true } } := by
  rw [readTimer, get_bind] at h
  cases hfd : s.kernel.timerfds.lookup fd with
  | none => rw [hfd] at h; cases h
  | some tfd =>
    rw [hfd] at h
    obtain ⟨st, watched⟩ := tfd
    cases st with
    | disarmed => cases h
    | armed deadline => cases watched with
      | false => cases h
      | true =>
        dsimp only at h
        rw [get_bind, ite_run] at h
        split at h
        · cases h
        simp only [bind, andThen, Prog.modify, Prog.get, Sys.updateKernel] at h
        cases hfind : s.eventmgr.timerfdMap.entries.find? (fun e : (_ : Nat) × Fd => e.2 == fd) with
        | none => rw [hfind] at h; cases h
        | some e =>
          rw [hfind] at h
          cases h
          have hmem := List.mem_of_find?_eq_some hfind
          have hkey : e.2 = fd := by simpa using List.find?_some hfind
          refine ⟨?_, congrArg Option.isSome hfd, rfl⟩
          rw [← hkey]
          exact AList.mem_lookup_iff.mpr hmem

/-- A timer that the backend knows is not deleted: `epoll_ctl(2)` does not find its descriptor. -/
theorem deleteTimer_throws (hr : ∀ fd, s.timers.fds.lookup id = some fd → timerEpfd < fd) :
    ∃ w s', deleteTimer id s = .throw w s' ∧ s'.heap = s.heap ∧ s'.timers.idMax = s.timers.idMax ∧
      ∀ id' fd, s'.timers.fds.lookup id' = some fd → s.timers.fds.lookup id' = some fd := by
  cases hfd : s.eventmgr.timerfdMap.lookup id with
  | none =>
    have hignore : ignoreTimer id s = .throw "out_of_range" s := by
      rw [ignoreTimer, get_bind, hfd]
      rfl
    exact ⟨_, s, bind_throw hignore, rfl, rfl, fun _ _ h => h⟩
  | some fd =>
    have hignore : ∃ s', ignoreTimer id s = .throw "epoll_ctl" s' ∧ s'.heap = s.heap ∧ s'.timers.idMax = s.timers.idMax ∧
        s'.timers.fds = s.timers.fds.erase id := by
      rw [ignoreTimer, get_bind, hfd]
      dsimp only
      rw [if_neg (not_interesting (hr fd hfd))]
      exact ⟨_, rfl, rfl, rfl, rfl⟩
    obtain ⟨s', hrun, hheap, hmax, hfds⟩ := hignore
    refine ⟨_, s', bind_throw hrun, hheap, hmax, fun id' fd' h => ?_⟩
    rw [hfds] at h
    by_cases e : id' = id
    · rw [e, AList.lookup_erase] at h
      cases h
    · exact (AList.lookup_erase_ne e).symm.trans h

/-! ## Runs -/

/-- The backend, and the timers that were added and have neither fired nor been deleted. -/
structure Backend where
  sys : Sys
  live : Finset Nat

namespace Backend

inductive Op where
  | add (ms : Int) (job : Ref) (callback : TimerKind)
  /-- The descriptor is readable, and its event is dispatched. -/
  | fire (fd : Fd)
  | delete (id : Nat)
  /-- Anything that is not about timers, and the rest of what a callback does. -/
  | other

def Init (b : Backend) : Prop := b.sys.timers = ⟨∅, 0, ∅, ∅, ∅⟩ ∧ b.live = ∅

inductive Step (b : Backend) : Op → Backend → Prop
  | added {ms : Int} {r : Ref} {kind : TimerKind} {id : Nat} {s' : Sys} : addTimer ms r kind b.sys = .ok id s' →
      Step b (.add ms r kind) ⟨s', insert id b.live⟩
  | notAdded {ms : Int} {r : Ref} {kind : TimerKind} {w : String} {s' : Sys} : addTimer ms r kind b.sys = .throw w s' →
      Step b (.add ms r kind) ⟨s', b.live⟩
  | fired {fd : Fd} {id : Nat} {s' : Sys} : readTimer fd b.sys = .ok (some (.timer id)) s' →
      (s'.timers.callbacks.lookup id).isSome → Step b (.fire fd) ⟨s', b.live.erase id⟩
  | deleted {id : Nat} {s' : Sys} : deleteTimer id b.sys = .ok () s' → Step b (.delete id) ⟨s', b.live.erase id⟩
  | notDeleted {id : Nat} {w : String} {s' : Sys} : deleteTimer id b.sys = .throw w s' → Step b (.delete id) ⟨s', b.live⟩
  | other {s' : Sys} : s'.timers = b.sys.timers → Step b .other ⟨s', b.live⟩

variable {b b' : Backend} {op : Op}

/-! ## Deleting -/

/-- The timer's descriptor is none of those the constructor opened. -/
def Ranged (b : Backend) : Prop := ∀ id fd, b.sys.timers.fds.lookup id = some fd → timerEpfd < fd

theorem Step.ranged (h : Step b op b') (hr : Ranged b) : Ranged b' := by
  cases h with
  | @added ms r kind id s' hadd =>
    obtain ⟨-, -, -, fd, tfd, hnew, ht⟩ := wp_ok addTimer_wp hadd
    intro id' fd' h
    rw [ht] at h
    simp only [lookup_insertNew] at h
    split at h
    · cases hold : b.sys.timers.fds.lookup id with
      | none => rw [hold] at h; cases h; exact hnew.range
      | some fd₀ => rw [hold] at h; cases h; exact hr id _ hold
    · exact hr id' fd' h
  | @notAdded ms r kind s' w hadd =>
    obtain ⟨id, -, ⟨-, ht⟩ | ⟨-, -, fd, tfd, -, ht⟩⟩ := addTimer_fails hadd
    · exact fun id' fd' h => hr id' fd' (by rw [ht] at h; exact h)
    · exact fun id' fd' h => hr id' fd' (by rw [ht] at h; exact h)
  | fired hread _ => exact fun id' fd' h => hr id' fd' (by rw [(readTimer_fires hread).2.2] at h; exact h)
  | @deleted id s' hdel =>
    obtain ⟨w, s'', hthrow, -⟩ := deleteTimer_throws (hr id)
    cases hdel.symm.trans hthrow
  | @notDeleted id s' w hdel =>
    obtain ⟨w', s'', hthrow, -, -, hkeep⟩ := deleteTimer_throws (hr id)
    cases hdel.symm.trans hthrow
    exact fun id' fd' h => hr id' fd' (hkeep id' fd' h)
  | other ht => exact fun id' fd' h => hr id' fd' (by rw [ht] at h; exact h)

theorem ranged (h : Reach Init Step b) : Ranged b := by
  refine h.invariant (P := Ranged) (fun b hi id fd hfd => ?_) fun _ _ _ hr hs => hs.ranged hr
  rw [hi.1] at hfd
  cases hfd

/-- The timer `id` is deleted: it is gone from all tables, its event is never dispatched any
    more, and every other timer is as it was. -/
structure Deletes (b : Backend) (id : Nat) (s' : Sys) : Prop where
  returns : deleteTimer id b.sys = .ok () s'
  callbacks : s'.timers.callbacks.lookup id = none
  fds : s'.timers.fds.lookup id = none
  closed : ∀ fd, b.sys.timers.fds.lookup id = some fd → fd ∉ s'.timers.cleanup ∧ s'.timers.opened.lookup fd = none
  silent : ∀ later, Later Step ⟨s', b.live.erase id⟩ later → ∀ fd s'', readTimer fd later.sys ≠ .ok (some (.timer id)) s''
  others : ∀ id', id' ≠ id → s'.timers.callbacks.lookup id' = b.sys.timers.callbacks.lookup id' ∧
    s'.timers.fds.lookup id' = b.sys.timers.fds.lookup id' ∧
    ∀ fd, b.sys.timers.fds.lookup id' = some fd → s'.timers.opened.lookup fd = b.sys.timers.opened.lookup fd

/-- No timer is ever deleted. -/
theorem never_deletes (h : Reach Init Step b) (id : Nat) : ¬ ∃ s', Deletes b id s' := by
  intro h'
  obtain ⟨s', hd⟩ := h'
  obtain ⟨w, s'', hthrow, -⟩ := deleteTimer_throws (ranged h id)
  cases hd.returns.symm.trans hthrow

def new : Backend := ⟨newManager, ∅⟩

theorem new_init : Init new := ⟨rfl, rfl⟩

/-- It has a timer. -/
theorem exists_added : ∃ s', addTimer 1000 0 .throttle newManager = .ok 1 s' ∧ Reach Init Step ⟨s', {1}⟩ := by
  obtain ⟨s', hs⟩ : ∃ s', addTimer 1000 0 .throttle newManager = .ok 1 s' := ⟨_, rfl⟩
  exact ⟨s', hs, .step (.add 1000 0 .throttle) (.init new_init) (.added hs)⟩

/-- The only timer there is cannot be deleted. -/
theorem timer_stays : ¬ ∀ b id, Reach Init Step b → id ∈ b.live → ∃ s', Deletes b id s' := by
  intro h
  obtain ⟨s', -, hreach⟩ := exists_added
  obtain ⟨s'', hd⟩ := h ⟨s', {1}⟩ 1 hreach (Finset.mem_singleton_self 1)
  obtain ⟨w, t, hthrow, -⟩ := deleteTimer_throws (ranged hreach 1)
  cases hd.returns.symm.trans hthrow

theorem never_deletes_first : ∃ b : Backend, 1 ∈ b.live ∧ ¬ ∃ s', Deletes b 1 s' := by
  obtain ⟨s', -, hreach⟩ := exists_added
  exact ⟨⟨s', {1}⟩, Finset.mem_singleton_self 1, never_deletes hreach 1⟩

/-! ## The tables -/

/-- The tables are those of the live timers. -/
structure Exact (b : Backend) : Prop where
  callbacks : ∀ id, (b.sys.timers.callbacks.lookup id).isSome ↔ id ∈ b.live
  fds : ∀ id, (b.sys.timers.fds.lookup id).isSome ↔ id ∈ b.live
  cleanup : ∀ fd, fd ∈ b.sys.timers.cleanup ↔ ∃ id ∈ b.live, b.sys.timers.fds.lookup id = some fd
  opened : ∀ fd, (b.sys.timers.opened.lookup fd).isSome ↔ fd ∈ b.sys.timers.cleanup

def Succeeds (b : Backend) : Op → Prop
  | .delete id => ∃ s', deleteTimer id b.sys = .ok () s'
  | _ => True

/-- No timer fires, and one that is added is set, or no descriptor is to be had for it. -/
def Keeps (b : Backend) : Op → Prop
  | .add ms _ _ => b.sys.timerAnswer = .noFd ∨ (∃ want, b.sys.timerAnswer = .watched want) ∧ 0 ≤ (timespecOf ms).1
  | .fire _ => False
  | _ => True

def Numbered (b : Backend) : Prop := ∀ id ∈ b.live, id ≤ b.sys.timers.idMax

theorem Exact.none {id : Nat} (h : Exact b) (hn : id ∉ b.live) :
    b.sys.timers.callbacks.lookup id = none ∧ b.sys.timers.fds.lookup id = none :=
  ⟨Option.not_isSome_iff_eq_none.mp fun hs => hn ((h.callbacks id).mp hs),
    Option.not_isSome_iff_eq_none.mp fun hs => hn ((h.fds id).mp hs)⟩

/-- A descriptor that is open for a live timer is not new. -/
theorem Exact.not_new {fd : Fd} (h : Exact b) (hnew : b.sys.timers.New fd) : fd ∉ b.sys.timers.cleanup := fun hm => by
  have := (h.opened fd).mpr hm
  rw [hnew.closed] at this
  cases this

/-- A timer is added. -/
theorem Exact.added {id : Nat} {fd : Fd} {tfd : TimerFd} {r : Ref} {kind : TimerKind} {s' : Sys} (h : Exact b)
    (hid : id ∉ b.live) (ht : s'.timers = { b.sys.timers.opens fd tfd with
      idMax := id, fds := insertNew id fd b.sys.timers.fds, callbacks := insertNew id (r, kind) b.sys.timers.callbacks }) :
    Exact ⟨s', insert id b.live⟩ := by
  obtain ⟨hcallback, hfd⟩ := h.none hid
  have hlookup : ∀ id', (insertNew id fd b.sys.timers.fds).lookup id' = if id' = id then some fd else b.sys.timers.fds.lookup id' :=
    fun id' => by rw [lookup_insertNew, hfd]; rfl
  refine ⟨fun id' => ?_, fun id' => ?_, fun fd' => ?_, fun fd' => ?_⟩
  · rw [ht, Finset.mem_insert, ← h.callbacks]
    show ((insertNew id (r, kind) b.sys.timers.callbacks).lookup id').isSome ↔ _
    rw [lookup_insertNew, hcallback]
    split <;> simp_all
  · rw [ht, Finset.mem_insert, ← h.fds]
    show ((insertNew id fd b.sys.timers.fds).lookup id').isSome ↔ _
    rw [hlookup]
    split <;> simp_all
  · rw [ht]
    show fd' ∈ insert fd b.sys.timers.cleanup ↔ ∃ id' ∈ insert id b.live, (insertNew id fd b.sys.timers.fds).lookup id' = some fd'
    rw [Finset.mem_insert, h.cleanup]
    constructor
    · intro h'
      rcases h' with rfl | ⟨id', hid', hfd'⟩
      · exact ⟨id, Finset.mem_insert_self .., (hlookup id).trans (if_pos rfl)⟩
      · have hne : id' ≠ id := fun e => hid (e ▸ hid')
        exact ⟨id', Finset.mem_insert_of_mem hid', (hlookup id').trans ((if_neg hne).trans hfd')⟩
    · intro h'
      obtain ⟨id', hid', hfd'⟩ := h'
      rw [hlookup] at hfd'
      split at hfd'
      · cases hfd'
        exact .inl rfl
      · rename_i hne
        exact .inr ⟨id', (Finset.mem_insert.mp hid').resolve_left hne, hfd'⟩
  · rw [ht]
    show ((b.sys.timers.opened.insert fd tfd).lookup fd').isSome ↔ fd' ∈ insert fd b.sys.timers.cleanup
    rw [Finset.mem_insert, ← h.opened]
    by_cases e : fd' = fd
    · subst e
      simp
    · rw [AList.lookup_insert_ne e]
      simp [e]

/-- The tables are as they were. -/
theorem Exact.same {s' : Sys} (h : Exact b) (hc : s'.timers.callbacks = b.sys.timers.callbacks)
    (hf : s'.timers.fds = b.sys.timers.fds) (hcl : s'.timers.cleanup = b.sys.timers.cleanup)
    (ho : s'.timers.opened = b.sys.timers.opened) : Exact ⟨s', b.live⟩ :=
  ⟨by rw [hc]; exact h.callbacks, by rw [hf]; exact h.fds, by rw [hcl, hf]; exact h.cleanup, by rw [ho, hcl]; exact h.opened⟩

theorem Step.numbered (h : Step b op b') (hn : Numbered b) (hr : Ranged b) : Numbered b' := by
  cases h with
  | added hadd =>
    obtain ⟨-, -, hid, fd, tfd, -, ht⟩ := wp_ok addTimer_wp hadd
    intro id' h
    rw [ht]
    rcases Finset.mem_insert.mp h with e | h
    · exact e.le
    · exact (hn id' h).trans hid.le
  | @notAdded ms r kind w s' hadd =>
    obtain ⟨id, hid, ⟨-, ht⟩ | ⟨-, -, fd, tfd, -, ht⟩⟩ := addTimer_fails hadd <;>
    · intro id' h
      rw [ht]
      exact (hn id' h).trans hid.le
  | fired hread _ =>
    intro id' h
    rw [(readTimer_fires hread).2.2]
    exact hn id' (Finset.mem_of_mem_erase h)
  | @deleted id s' hdel =>
    obtain ⟨w, s'', hthrow, -⟩ := deleteTimer_throws (hr id)
    cases hdel.symm.trans hthrow
  | @notDeleted id w s' hdel =>
    obtain ⟨w', s'', hthrow, -, hmax, -⟩ := deleteTimer_throws (hr id)
    cases hdel.symm.trans hthrow
    intro id' h
    rw [hmax]
    exact hn id' h
  | other ht =>
    intro id' h
    rw [ht]
    exact hn id' h

/-- A step keeps the tables exact if and only if no timer fires and none is lost as it is added. -/
theorem Step.exact_iff (hs : Step b op b') (hok : Succeeds b op) (h : Exact b) (hn : Numbered b) (hr : Ranged b) :
    Exact b' ↔ Keeps b op := by
  cases hs with
  | @added ms r kind id s' hadd =>
    obtain ⟨hwatched, hms, hid, fd, tfd, -, ht⟩ := wp_ok addTimer_wp hadd
    exact iff_of_true (h.added (fun hl => absurd (hn id hl) (not_le.mpr hid)) ht) (.inr ⟨hwatched, hms⟩)
  | @notAdded ms r kind w s' hadd =>
    obtain ⟨id, -, ⟨ha, ht⟩ | ⟨hlost, hne, fd, tfd, hnew, ht⟩⟩ := addTimer_fails hadd
    · exact iff_of_true (h.same (by rw [ht]) (by rw [ht]) (by rw [ht]) (by rw [ht])) (.inl ha)
    · -- the descriptor stays open, and no timer has it
      refine iff_of_false (fun h' => ?_) fun hk => ?_
      · have hm : fd ∈ s'.timers.cleanup := by rw [ht]; exact Finset.mem_insert_self ..
        obtain ⟨id', hl, hfd⟩ := (h'.cleanup fd).mp hm
        rw [show s'.timers.fds = b.sys.timers.fds by rw [ht]; rfl] at hfd
        exact h.not_new hnew ((h.cleanup fd).mpr ⟨id', hl, hfd⟩)
      · rcases hk with hk | ⟨⟨want, hk⟩, hms⟩
        · exact hne hk
        · exact absurd (hlost want hk) (not_lt.mpr hms)
  | @fired fd id s' hread hcallback =>
    refine iff_of_false (fun h' => ?_) fun hk => hk
    exact absurd ((h'.callbacks id).mp hcallback) (Finset.notMem_erase id b.live)
  | @deleted id s' hdel =>
    obtain ⟨w, s'', hthrow, -⟩ := deleteTimer_throws (hr id)
    cases hdel.symm.trans hthrow
  | @notDeleted id w s' hdel =>
    obtain ⟨s'', hok⟩ := hok
    cases hdel.symm.trans hok
  | other ht => exact iff_of_true (h.same (by rw [ht]) (by rw [ht]) (by rw [ht]) (by rw [ht])) trivial

/-- A timer of the job is on record with the descriptor. -/
def Holds (b : Backend) (r : Ref) (fd : Fd) : Prop :=
  fd ∈ b.sys.timers.cleanup ∧ ∃ id kind, b.sys.timers.fds.lookup id = some fd ∧ b.sys.timers.callbacks.lookup id = some (r, kind)

/-- A job adds a timer when it has none, as it does to be restarted. -/
def Alone (b : Backend) : Op → Prop
  | .add _ r _ => ∀ id ∈ b.live, ∀ kind, b.sys.timers.callbacks.lookup id ≠ some (r, kind)
  | _ => True

def Single (b : Backend) : Prop :=
  ∀ r id id' kind kind', b.sys.timers.callbacks.lookup id = some (r, kind) → b.sys.timers.callbacks.lookup id' = some (r, kind') →
    id = id'

abbrev Good (b : Backend) (op : Op) : Prop := Succeeds b op ∧ Keeps b op

theorem exact_of_run (h : Reach Init (Under Step Good) b) : Exact b ∧ Numbered b := by
  refine h.invariant_with (K := Ranged) (P := fun b => Exact b ∧ Numbered b) (fun b hb => ranged hb.of_under)
    (fun b hi => ?_) fun b op b' hr ⟨he, hn⟩ hs => ?_
  · obtain ⟨ht, hl⟩ := hi
    refine ⟨⟨?_, ?_, ?_, ?_⟩, ?_⟩ <;> simp [ht, hl, Numbered]
  · exact ⟨(hs.1.exact_iff hs.2.1 he hn hr).mpr hs.2.2, hs.1.numbered hn hr⟩

theorem single_of_run (h : Reach Init (Under Step fun b op => Good b op ∧ Alone b op) b) : Single b := by
  refine h.invariant_with (K := fun b => Exact b ∧ Ranged b ∧ Numbered b) (P := Single) (fun b hb => ?_) (fun b hi => ?_)
    fun b op b' ⟨he, hr, hn⟩ h₁ hs => ?_
  · have hgood := exact_of_run (hb.mono fun _ _ _ hs => ⟨hs.1, hs.2.1⟩)
    exact ⟨hgood.1, ranged hb.of_under, hgood.2⟩
  · intro r id id' kind kind' hc
    rw [hi.1] at hc
    cases hc
  · obtain ⟨hs, ⟨hok, hk⟩, hal⟩ := hs
    cases hs with
    | @added ms r kind id s' hadd =>
      obtain ⟨-, -, hid, fd, tfd, -, ht⟩ := wp_ok addTimer_wp hadd
      have hfresh : id ∉ b.live := fun hl => absurd (hn id hl) (not_le.mpr hid)
      have hlookup : ∀ id', s'.timers.callbacks.lookup id' =
          if id' = id then some (r, kind) else b.sys.timers.callbacks.lookup id' := fun id' => by
        rw [ht]
        show (insertNew id (r, kind) b.sys.timers.callbacks).lookup id' = _
        rw [lookup_insertNew, (he.none hfresh).1]
        rfl
      have hold : ∀ id' kind', b.sys.timers.callbacks.lookup id' ≠ some (r, kind') := fun id' kind' hc =>
        hal id' ((he.callbacks id').mp (Option.isSome_of_eq_some hc)) kind' hc
      intro r' id₁ id₂ kind₁ kind₂ h₁' h₂'
      change s'.timers.callbacks.lookup id₁ = _ at h₁'
      change s'.timers.callbacks.lookup id₂ = _ at h₂'
      rw [hlookup] at h₁' h₂'
      split at h₁' <;> split at h₂'
      · rename_i e₁ e₂
        exact e₁.trans e₂.symm
      · cases h₁'
        exact absurd h₂' (hold _ _)
      · cases h₂'
        exact absurd h₁' (hold _ _)
      · exact h₁ r' id₁ id₂ kind₁ kind₂ h₁' h₂'
    | notAdded hadd =>
      obtain ⟨id, -, ⟨-, ht⟩ | ⟨-, -, fd, tfd, -, ht⟩⟩ := addTimer_fails hadd <;>
      · intro r id id' kind kind' hc hc'
        rw [ht] at hc hc'
        exact h₁ r id id' kind kind' hc hc'
    | fired => exact hk.elim
    | @deleted id s' hdel =>
      obtain ⟨w, s'', hthrow, -⟩ := deleteTimer_throws (hr id)
      cases hdel.symm.trans hthrow
    | notDeleted hdel =>
      obtain ⟨s'', hok⟩ := hok
      cases hdel.symm.trans hok
    | other ht =>
      intro r id id' kind kind' hc hc'
      rw [ht] at hc hc'
      exact h₁ r id id' kind kind' hc hc'

/-- As long as no timer fires and none is lost as it is added, and no longer, the tables are those
    of the live timers; a job that adds a timer when it has none then holds one descriptor at most. -/
theorem tables_exact (h : Reach Init (Under Step Good) b) :
    Exact b ∧ (∀ op b', Step b op b' → Succeeds b op → (Exact b' ↔ Keeps b op)) ∧
      (Reach Init (Under Step fun b op => Good b op ∧ Alone b op) b → ∀ r fd fd', Holds b r fd → Holds b r fd' → fd = fd') := by
  obtain ⟨he, hn⟩ := exact_of_run h
  refine ⟨he, fun op b' hs hok => hs.exact_iff hok he hn (ranged h.of_under), fun hal r fd fd' hfd hfd' => ?_⟩
  obtain ⟨-, id, kind, hid, hc⟩ := hfd
  obtain ⟨-, id', kind', hid', hc'⟩ := hfd'
  have hsame : id = id' := single_of_run hal r id id' kind kind' hc hc'
  subst hsame
  exact Option.some.inj (hid.symm.trans hid')

theorem good_add : Good new (.add 1000 0 .throttle) := ⟨trivial, .inr ⟨⟨0, rfl⟩, by decide⟩⟩

theorem tables_exact_first : ∃ b : Backend, b.live = {1} ∧ Exact b := by
  obtain ⟨s', hs⟩ : ∃ s', addTimer 1000 0 .throttle newManager = .ok 1 s' := ⟨_, rfl⟩
  have hreach : Reach Init (Under Step Good) ⟨s', {1}⟩ :=
    .step (.add 1000 0 .throttle) (.init new_init) ⟨.added hs, good_add⟩
  exact ⟨_, rfl, (tables_exact hreach).1⟩

def waits (s : Sys) : Sys := s.updateKernel fun k => { k with now := 1000 }

def firesAndStays : Bool :=
  match addTimer 1000 0 .throttle newManager with
  | .ok 1 s' => match readTimer 7 (waits s') with
    | .ok (some (.timer 1)) t => (t.timers.callbacks.lookup 1).isSome
    | _ => false
  | _ => false

theorem exists_fired : ∃ s' t, addTimer 1000 0 .throttle newManager = .ok 1 s' ∧
    readTimer 7 (waits s') = .ok (some (.timer 1)) t ∧ (t.timers.callbacks.lookup 1).isSome := by
  have h : firesAndStays = true := by decide +kernel
  unfold firesAndStays at h
  split at h
  · rename_i s' hs
    split at h
    · rename_i t ht
      exact ⟨s', t, hs, ht, h⟩
    · cases h
  · cases h

/-- The timer has fired, and stays in all tables. -/
theorem fired_stays : ¬ ∀ b, Reach Init (Under Step Succeeds) b → Exact b := by
  intro h
  obtain ⟨s', t, hs, hread, hcallback⟩ := exists_fired
  have hadd : Reach Init (Under Step Succeeds) ⟨s', {1}⟩ :=
    .step (.add 1000 0 .throttle) (.init new_init) ⟨.added hs, trivial⟩
  have hwait : Reach Init (Under Step Succeeds) ⟨waits s', {1}⟩ := .step .other hadd ⟨.other rfl, trivial⟩
  have hfire : Reach Init (Under Step Succeeds) ⟨t, ({1} : Finset Nat).erase 1⟩ :=
    .step (.fire 7) hwait ⟨.fired hread hcallback, trivial⟩
  have hmem : 1 ∈ ({1} : Finset Nat).erase 1 := ((h _ hfire).callbacks 1).mp hcallback
  exact absurd hmem (by decide)

end Backend

/-! ## The timer of a throttled restart -/

/-- What `startAfterThrottleInterval` asks for, in milliseconds. -/
def throttleDelay (m : Manifest) (startedAt now : Nat) : Int := (m.throttleInterval - ((now : Int) - startedAt)) * 1000

variable {j : Job} {startedAt : Nat}

theorem this_ok (hj : s.heap r = some j) : this r s = .ok j s := by
  unfold this
  rw [hj]

theorem elapsed_eq (hj : s.heap r = some j) (hst : j.startedAt = some startedAt) :
    Job.elapsed r s = .ok (((s.clock 1 / 1000 : Nat) : Int) - startedAt) s.ticked := by
  have hnow : currentTime s = .ok (s.clock 1 / 1000) s.ticked := by
    rw [Sys.clock_one]
    rfl
  have hthis : this r s.ticked = .ok j s.ticked := this_ok hj
  rw [Job.elapsed, bind_ok hnow, bind_ok hthis, hst]
  rfl

theorem shouldThrottle_eq (hj : s.heap r = some j) (hst : j.startedAt = some startedAt) : Job.shouldThrottle r s =
    .ok (decide (((s.clock 1 / 1000 : Nat) : Int) - startedAt < j.manifest.throttleInterval)) s.ticked := by
  have hthis : this r s.ticked = .ok j s.ticked := this_ok hj
  rw [Job.shouldThrottle, bind_ok (elapsed_eq hj hst), bind_ok hthis]
  rfl

theorem startAfterThrottleInterval_eq (hj : s.heap r = some j) (hst : j.startedAt = some startedAt) :
    Job.startAfterThrottleInterval r s =
      (addTimer (throttleDelay j.manifest startedAt (s.clock 1 / 1000)) r .throttle >>= fun timerId =>
        setJob r fun j => { j with timerId := some timerId }) s.ticked := by
  have hthis : this r s.ticked = .ok j s.ticked := this_ok hj
  rw [Job.startAfterThrottleInterval, bind_ok (elapsed_eq hj hst), bind_ok hthis]
  rfl

/-- The seconds that remain, as a valid time that arms the timer. -/
structure Programs (spec : Int × Int) (seconds : Int) : Prop where
  exactly : spec = (seconds, 0)
  valid : 0 ≤ spec.1 ∧ 0 ≤ spec.2 ∧ spec.2 < 10 ^ 9
  arms : spec ≠ (0, 0)

theorem programs_iff {seconds : Int} : Programs (timespecOf (seconds * 1000)) seconds ↔ 0 < seconds ∧ seconds < 2 ^ 31 := by
  constructor
  · intro h
    obtain ⟨he, hv, ha⟩ := h
    have hlt : (timespecOf (seconds * 1000)).1 < 2 ^ 31 := Int.bmod_lt (by decide)
    rw [he] at hv ha hlt
    refine ⟨lt_of_le_of_ne hv.1 fun e => ha ?_, hlt⟩
    rw [← e]
  · intro h
    obtain ⟨hpos, hb⟩ := h
    have hbmod : seconds.bmod (2 ^ 32) = seconds := Int.bmod_eq_of_le (by omega) (by omega)
    rw [timespecOf_seconds hpos.le (by omega), hbmod]
    exact ⟨rfl, ⟨hpos.le, le_rfl, show (0 : Int) < 10 ^ 9 by decide⟩, fun e => hpos.ne' (congrArg Prod.fst e)⟩

/-- Where the guard lets a throttled restart pass, the timer is set to the seconds that remain
    when the clock is read again if and only if some do, and fewer than an `int` has room for. -/
theorem timespec_iff (hj : s.heap r = some j) (hst : j.startedAt = some startedAt) (hg : Job.shouldThrottle r s = .ok true s') :
    Job.startAfterThrottleInterval r s' =
      (addTimer (throttleDelay j.manifest startedAt (s'.clock 1 / 1000)) r .throttle >>= fun timerId =>
        setJob r fun j => { j with timerId := some timerId }) s'.ticked ∧
    (Programs (timespecOf (throttleDelay j.manifest startedAt (s'.clock 1 / 1000)))
        (j.manifest.throttleInterval - (((s'.clock 1 / 1000 : Nat) : Int) - startedAt)) ↔
      0 < j.manifest.throttleInterval - (((s'.clock 1 / 1000 : Nat) : Int) - startedAt) ∧
        j.manifest.throttleInterval - (((s'.clock 1 / 1000 : Nat) : Int) - startedAt) < 2 ^ 31) := by
  obtain rfl : s.ticked = s' := by
    injection (shouldThrottle_eq hj hst).symm.trans hg
  exact ⟨startAfterThrottleInterval_eq hj hst, programs_iff⟩

def started : Job := { manifest := { label := "job", program := some "/bin/job" }, manifestPath := "job.json", startedAt := some 0 }

def late (seconds : Nat) : Sys :=
  { stateFile := .null
    heap := fun _ => some started
    kernel := { now := seconds * 1000, users := ⟨fun _ => none, fun _ => none⟩, answers := { ticks := [0, 1000] } } }

theorem late_throttled {seconds : Nat} (h : seconds < 10) : Job.shouldThrottle 0 (late seconds) = .ok true (late seconds).ticked := by
  have hj : (late seconds).heap 0 = some started := rfl
  have hclock : (late seconds).clock 1 / 1000 = seconds := by
    simp only [Sys.clock, late, List.take_succ_cons, List.take_zero, List.sum_cons, List.sum_nil, Nat.add_zero]
    exact Nat.mul_div_cancel _ (by decide)
  rw [shouldThrottle_eq hj rfl, hclock]
  congr 1
  exact decide_eq_true (show ((seconds : Nat) : Int) - (0 : Nat) < (10 : Nat) by omega)

theorem timespec_in_time : ∃ s', Job.startAfterThrottleInterval 0 (late 5).ticked = (addTimer 4000 0 .throttle >>= fun timerId =>
    setJob 0 fun j => { j with timerId := some timerId }) s' ∧ Programs (timespecOf 4000) 4 := by
  have hj : (late 5).heap 0 = some started := rfl
  have hst : started.startedAt = some 0 := rfl
  have hguard : Job.shouldThrottle 0 (late 5) = .ok true (late 5).ticked := late_throttled (by decide)
  obtain ⟨hrun, hiff⟩ := timespec_iff hj hst hguard
  have hclock : (late 5).ticked.clock 1 / 1000 = 6 := by decide +kernel
  rw [hclock] at hrun hiff
  exact ⟨_, hrun, hiff.mpr (by decide)⟩

/-- The clock has moved on since the guard, and the timer is not set. -/
theorem too_late : ¬ ∀ (s s' : Sys) (r : Ref) (j : Job) (startedAt : Nat), s.heap r = some j → j.startedAt = some startedAt →
    j.manifest.throttleInterval < 2 ^ 32 → Job.shouldThrottle r s = .ok true s' →
      Programs (timespecOf (throttleDelay j.manifest startedAt (s'.clock 1 / 1000)))
        (j.manifest.throttleInterval - (((s'.clock 1 / 1000 : Nat) : Int) - startedAt)) := by
  intro h
  have hspec := h (late 9) _ 0 started 0 rfl rfl (by decide) (late_throttled (by decide))
  exact absurd (programs_iff.mp hspec).1 (by decide)

end Relaunchd
