/-
  Relaunchd.Properties.Restarting — what follows the exit of a job: how soon a job that is
  kept alive is started again, whether it always is, and what becomes of a periodic job.
-/

import Relaunchd.Runs
import Relaunchd.Writes

namespace Relaunchd

open Prog EventManager Tables Transition

variable {s s' : Sys} {e : Ev}

/-! ## The clock -/

def Aged (s : Sys) : Prop := ∀ r j t, s.heap r = some j → j.startedAt = some t → t * 1000 ≤ s.kernel.now

theorem Write.aged {may : Effect → Prop} (h : Write may s s') (ha : Aged s) : Aged s' := by
  intro r j' t hj ht
  rcases h.heap hj with ⟨-, hn⟩ | ⟨j, hs, -, e | e⟩
  · rw [hn] at ht
    cases ht
  · exact (ha r j t hs (e ▸ ht)).trans h.now
  · rw [e] at ht
    cases ht
    exact (Nat.div_mul_le_self _ _).trans h.now

theorem reachable_aged (h : Reachable s) : Aged s := by
  refine reachable_of_writes (P := Aged) (fun s hi => ?_) (fun s s' hw ha => hw.aged ha) h
  obtain ⟨stateFile, now, users, rfl⟩ := hi
  intro r j t hj
  cases hj

/-! ## Throttle timers -/

namespace Arming

variable {now due : Nat} {k ms : Int}

/-- A whole number of seconds that a `time_t` of 32 bits can hold. -/
theorem ofMilliseconds_seconds (h₀ : 0 < k) (h : k < 2 ^ 32) (hf : Arming.ofMilliseconds now (k * 1000) ≠ .failed) :
    Arming.ofMilliseconds now (k * 1000) = .armed (now + k.toNat * 1000) := by
  unfold Arming.ofMilliseconds at hf ⊢
  rw [timespecOf_seconds h₀.le h] at hf ⊢
  have hpos : ¬ k.bmod (2 ^ 32) < 0 := fun hneg => hf (if_pos hneg)
  have hk : k.bmod (2 ^ 32) = k := by
    have hmod : k % (2 ^ 32 : Nat) = k := Int.emod_eq_of_lt h₀.le (by simpa using h)
    rw [Int.bmod, hmod] at hpos ⊢
    split at hpos
    · rename_i hlt
      exact if_pos hlt
    · omega
  rw [if_neg hpos, hk, timerfdSettime, if_neg fun e => h₀.ne' (congrArg Prod.fst e)]
  simp [Arming.of]

theorem le_due (h : Arming.ofMilliseconds now ms = .armed due) : now ≤ due := by
  unfold Arming.ofMilliseconds timerfdSettime at h
  split at h
  · cases h
  · split at h
    · cases h
    · have := Arming.armed.inj h
      omega

end Arming

namespace Life

variable {l : Life}

/-- The timer of a throttled job does not expire before its interval has passed. -/
theorem throttleArming_due {now due st : Nat} (hb : l.manifest.Bounded) (hs : l.startedAt = some st) (hst : st * 1000 ≤ now)
    (h : l.throttleArming now = .armed due) : (st + l.manifest.throttleInterval) * 1000 ≤ due := by
  have helapsed : l.elapsed (now / 1000) = (now / 1000 : Nat) - st := by rw [elapsed, hs]; rfl
  have hlt := hb.throttleInterval
  rw [throttleArming, helapsed] at h
  generalize hk : (l.manifest.throttleInterval - ((now / 1000 : Nat) - st : Int)) = k at h
  by_cases hpos : 0 < k
  · rw [Arming.ofMilliseconds_seconds hpos (by omega) (by rw [h]; simp)] at h
    have hsum : st + l.manifest.throttleInterval = now / 1000 + k.toNat := by omega
    calc (st + l.manifest.throttleInterval) * 1000 = now / 1000 * 1000 + k.toNat * 1000 := by rw [hsum, Nat.add_mul]
      _ ≤ now + k.toNat * 1000 := Nat.add_le_add_right (Nat.div_mul_le_self _ _) _
      _ = due := Arming.armed.inj h
  · have hle : st + l.manifest.throttleInterval ≤ now / 1000 := by omega
    calc (st + l.manifest.throttleInterval) * 1000 ≤ now / 1000 * 1000 := Nat.mul_le_mul_right _ hle
      _ ≤ now := Nat.div_mul_le_self _ _
      _ ≤ due := Arming.le_due h

/-! ## How soon a job is started again -/

/-- The forks of a job are its throttle interval apart, and a timer it waits for expires no
    sooner than that after the last. -/
structure Spaced (l : Life) : Prop where
  pairs : l.forkedAt.Pairwise fun a b => a / 1000 + l.manifest.throttleInterval ≤ b / 1000
  started : ∀ a ∈ l.forkedAt, ∃ st, l.startedAt = some st ∧ a / 1000 ≤ st
  timer : ∀ kind due, l.timer = some (kind, due) → kind = .throttle ∧
    ∀ st, l.startedAt = some st → (st + l.manifest.throttleInterval) * 1000 ≤ due

/-- Only the history, `started_at` and the timer matter. -/
theorem Spaced.congr {l' : Life} (h : l.Spaced) (hm : l'.manifest = l.manifest) (hf : l'.forkedAt = l.forkedAt)
    (hs : l'.startedAt = l.startedAt) (ht : l'.timer = l.timer ∨ l'.timer = none) : l'.Spaced where
  pairs := by rw [hf, hm]; exact h.pairs
  started := by rw [hf, hs]; exact h.started
  timer kind due e := by
    rw [hs, hm]
    rcases ht with ht | ht <;> rw [ht] at e
    · exact h.timer kind due e
    · cases e

/-- A start no sooner than the interval after the last. -/
theorem Spaced.start {clock : Nat → Nat} (how : Start) (h : l.Spaced) (hclock : Monotone clock) (ht : l.timer = none)
    (hlate : ∀ st, l.startedAt = some st → st + l.manifest.throttleInterval ≤ clock 1 / 1000) : (l.start clock how).Spaced := by
  have h₁₂ : clock 1 / 1000 ≤ clock 2 / 1000 := Nat.div_le_div_right (hclock (by decide))
  have h₂₃ : clock 2 / 1000 ≤ clock 3 / 1000 := Nat.div_le_div_right (hclock (by decide))
  have hbefore : ∀ a ∈ l.forkedAt, a / 1000 + l.manifest.throttleInterval ≤ clock 1 / 1000 := fun a ha => by
    obtain ⟨st, hst, hle⟩ := h.started a ha
    have := hlate st hst
    omega
  have hnone : ∀ {l' : Life} {P : TimerKind → Nat → Prop}, l'.timer = l.timer →
      ∀ kind due, l'.timer = some (kind, due) → P kind due :=
    fun e kind due e' => by rw [e, ht] at e'; cases e'
  have hsame : ∀ t, clock 1 / 1000 ≤ t → ∀ a ∈ l.forkedAt, ∃ st, some t = some st ∧ a / 1000 ≤ st := fun t hle a ha =>
    ⟨t, rfl, by have := hbefore a ha; omega⟩
  have hforked : (l.forkedAt ++ [clock 2]).Pairwise fun a b => a / 1000 + l.manifest.throttleInterval ≤ b / 1000 :=
    List.pairwise_append.mpr ⟨h.pairs, List.pairwise_singleton .., fun a ha b hb => by
      rw [List.mem_singleton.mp hb]
      have := hbefore a ha
      omega⟩
  have hall : ∀ a ∈ l.forkedAt ++ [clock 2], ∃ st, some (clock 3 / 1000) = some st ∧ a / 1000 ≤ st := fun a ha => by
    rcases List.mem_append.mp ha with ha | ha
    · exact hsame _ (by omega) a ha
    · rw [List.mem_singleton.mp ha]
      exact ⟨_, rfl, h₂₃⟩
  cases how with
  | noPipe | noFork => exact ⟨h.pairs, hsame _ le_rfl, hnone rfl⟩
  | noExec | unwatched | started => exact ⟨hforked, hall, hnone rfl⟩

theorem Spaced.enter {state : Job.States} {how : Start} (h : l.Spaced) : (l.enter state how).Spaced := by
  obtain ⟨_, e⟩ := enter_eq state how l
  rw [e]
  exact h.congr rfl rfl rfl (.inl rfl)

theorem Spaced.unload (lookup : Decode Bool) (force sent : Bool) (h : l.Spaced) : (l.unload lookup force sent).Spaced := by
  refine unload_cases (P := Spaced) lookup force sent (fun _ => h) (fun _ _ => h.congr rfl rfl rfl (.inl rfl))
    fun kills sigterm _ _ => ?_
  obtain ⟨_, _, ht, e⟩ := unloadTriggered_eq { l with unloadRequested := true, kills, sigterm }
  rw [e]
  exact h.congr rfl rfl rfl ht

/-- An exit: the job is started at once if its interval has passed, and by a timer if not. -/
theorem Spaced.exit {clock : Nat → Nat} (how : Start) (h : l.Spaced) (hb : l.manifest.Bounded) (hclock : Monotone clock)
    (ht : l.timer = none) (hold : ∀ st, l.startedAt = some st → st * 1000 ≤ clock 0) :
    (l.reap.processExited clock how).Spaced := by
  have hr : l.reap.Spaced := h.congr rfl rfl rfl (.inl rfl)
  refine processExited_cases (P := Spaced) clock how (fun _ => hr) (fun _ _ _ _ => hr.congr rfl rfl rfl (.inl rfl)) (fun hrestarts => ?_)
    (fun _ => ?_) fun _ _ => hr.congr rfl rfl rfl (.inl rfl)
  · refine hr.start how (fun a b hab => hclock (Nat.succ_le_succ hab)) ht fun st hst => ?_
    have hpassed := (restarts_iff.mp hrestarts).2.2.1
    simp only [throttled, elapsed, hst, Option.getD_some, decide_eq_false_iff_not] at hpassed
    have h₁₂ : clock 1 / 1000 ≤ clock 2 / 1000 := Nat.div_le_div_right (hclock (by decide))
    show st + l.reap.manifest.throttleInterval ≤ clock 2 / 1000
    omega
  · cases ha : l.reap.throttleArming (clock 3) with
    | failed => exact hr
    | disarmed => exact hr.congr rfl rfl rfl (.inl rfl)
    | armed due =>
      refine ⟨hr.pairs, hr.started, fun kind due' e => ?_⟩
      cases e
      exact ⟨rfl, fun st hst => throttleArming_due hb hst ((hold st hst).trans (hclock (Nat.zero_le 3))) ha⟩

theorem Spaced.next {r : Ref} {a : Turn} (hs : Aged s) (ha : Given s e r l a) (he : l.Enabled a) (hg : l.Good)
    (hb : l.manifest.Bounded) (hk : l.manifest.keepAlive) (h : l.Spaced) : (l.next a).Spaced := by
  cases a with
  | boot lookup clock how arming =>
    have hfresh := hg.fresh he.1
    have hst : l.startedAt = none := by rw [hfresh]
    have h' : Spaced { l with boot := Manager.bootOf lookup } := h.congr rfl rfl rfl (.inl rfl)
    refine bootTriggered_cases (P := Spaced) lookup clock how arming h' (fun _ _ => ?_) fun _ hno => ?_
    · refine (h'.start how he.2.2.1 (by rw [hfresh]) fun st e => ?_).enter
      rw [show Life.startedAt { l with boot := Manager.bootOf lookup } = none from hst] at e
      cases e
    · rw [show (l.manifest.runAtLoad || l.manifest.keepAlive) = true by rw [hk, Bool.or_true]] at hno
      cases hno
  | exit clock how =>
    refine h.exit how hb he.2.2.2.1 (hg.timer_none (hg.not_set_of_child he.1)) fun st hst => ?_
    obtain ⟨hl, _, answers, _, _, _, _, -, -, -, -, rfl⟩ := ha.of_exit
    obtain ⟨j, hj, rfl⟩ := fate_eq_alive hl
    rw [Sys.clock_zero]
    exact hs r j st hj hst
  | throttleFires clock how =>
    obtain ⟨due, hdue, htimer⟩ := Fires.timer he
    refine Spaced.enter (Spaced.start how (h.congr rfl rfl rfl (.inr rfl)) (Fires.clock he) rfl fun st hst => ?_)
    have := (h.timer _ _ htimer).2 st hst
    exact (Nat.le_div_iff_mul_le (by decide)).mpr (this.trans hdue)
  | periodicFires clock how =>
    obtain ⟨due, -, htimer⟩ := Fires.timer he
    cases (h.timer _ _ htimer).1
  | unload lookup force sent => exact h.unload lookup force sent
  | kill =>
    obtain ⟨_, e⟩ := l.signal_eq
    rw [Life.next, e]
    exact h.congr rfl rfl rfl (.inl rfl)

end Life

/-- The forks of every job that is kept alive, by what the clock read then, in seconds. -/
def Throttled (s : Sys) : Prop := ∀ r j, s.heap r = some j → j.manifest.keepAlive →
  ((s.kernel.procs.filter (·.job == r)).map fun p => p.forkedAt / 1000).Pairwise fun a b => a + j.manifest.throttleInterval ≤ b

/-- In every state reached, two forks for a job that is kept alive are at least its throttle
    interval apart. -/
theorem forks_throttled (h : Reachable s) : Throttled s := by
  intro r j hj hk
  have hl : s.tables.fate r = .alive (s.tables.lifeOf r j) := fate_alive (t := s.tables) hj
  have hspaced := ((Runs.of_reachable h).lives
    (Q := fun l => l.Good ∧ l.manifest.Bounded ∧ (l.manifest.keepAlive → l.Spaced))
    (fun m hm => ⟨Life.good_new m, hm.bounded, fun _ => ⟨.nil, nofun, nofun⟩⟩)
    (fun s e r l a hr _ _ ha he hq => ⟨Life.good_next hq.1 he, by rw [Life.next_manifest]; exact hq.2.1, fun hk => by
      rw [Life.next_manifest] at hk
      exact (hq.2.2 hk).next (reachable_aged hr.reachable) ha he hq.1 hq.2.1 hk⟩) r _ hl).2.2 hk
  have hpairs := hspaced.pairs
  rw [show (s.tables.lifeOf r j).forkedAt = (s.kernel.procs.filter (·.job == r)).map (·.forkedAt) from rfl,
    List.pairwise_map] at hpairs
  rw [List.pairwise_map]
  exact hpairs

def throttledRun : List Ev :=
  [startWith [("KeepAlive", .bool true), ("ThrottleInterval", .uint 1)] {}, .childExits 0 (.exited 0),
    .handleEvent (.signal [.sigchld] [0]) {}, .timePasses 1000, .handleEvent (.timer 7) {}]

theorem forks_throttled_twice : ∃ s, Reachable s ∧ (s.kernel.procs.filter (·.job == 0)).length = 2 ∧ Throttled s := by
  obtain ⟨s, hs, hl⟩ := reachable_of_run throttledRun (fun s => (s.kernel.procs.filter (·.job == 0)).length == 2) (by decide +kernel)
  exact ⟨s, hs, by simpa using hl, forks_throttled hs⟩

/-! ## Whether it is -/

/-- Every fork, `execve(2)` and timer set-up of a step succeeds. -/
structure Answers.Succeed (a : Answers) : Prop where
  forks : ∀ f ∈ a.forks, ∃ pid getpgid, f = .started pid getpgid
  probes : ∀ probe ∈ a.probes, probe = true
  timers : ∀ t ∈ a.timers, t.fails = false

def Succeeds (_ : Sys) : Ev → Prop
  | .startRunning _ answers | .handleEvent _ answers => answers.Succeed
  | _ => True

theorem Start.From.succeeds {a : Answers} {how : Start} (h : how.From a) (ha : a.Succeed) : ∃ pid, how = .started pid := by
  obtain ⟨fork, probe, hf, hp, ho⟩ := h
  obtain ⟨pid, getpgid, rfl⟩ : ∃ pid getpgid, fork = .started pid getpgid := by
    rcases hf with hf | rfl
    · exact ha.forks fork hf
    · exact ⟨0, true, rfl⟩
  obtain rfl : probe = true := hp.elim (ha.probes probe) id
  exact ho

def Life.Succeeding (l : Life) : Turn → Prop
  | .boot _ _ how arming => (∃ pid, how = .started pid) ∧
    ∀ interval, l.manifest.startInterval = some interval → ∃ now, arming = .ofMilliseconds now interval
  | .exit clock how => l.reap.restarts (clock 1 / 1000) → ∃ pid, how = .started pid
  | .throttleFires _ how | .periodicFires _ how => ∃ pid, how = .started pid
  | _ => True

theorem Given.succeeding {r : Ref} {l : Life} {a : Turn} (h : Given s e r l a) (hC : Succeeds s e) : l.Succeeding a := by
  have hload : ∀ {answers : Answers}, answers.Succeed → Request.load.Gives answers l a → l.Succeeding a := by
    intro answers ha hq
    obtain ⟨lookup, clock, how, arming, rfl, hhow, harm⟩ := boot_of_load hq
    refine ⟨hhow.succeeds ha, harm.resolve_left fun ⟨⟨t, ht, hf⟩, _⟩ => ?_⟩
    rw [ha.timers t ht] at hf
    cases hf
  cases h with
  | starts _ hq => exact hload hC hq
  | load _ _ _ hq => exact hload hC hq
  | exit _ _ _ _ hof => exact fun hr => (hof hr).from.succeeds hC
  | @timer _ _ _ _ _ kind _ _ _ _ hof => cases kind <;> exact hof.from.succeeds hC
  | kill | unload | shutsDown => trivial

namespace Tables

variable {t : Tables} {r : Ref} {j : Job}

theorem timer_eq_some {kind : TimerKind} {due : Nat} : (t.lifeOf r j).timer = some (kind, due) ↔
    ∃ id, j.timerId = some id ∧ t.eventmgr.timerOf t.timerfds r id = some (kind, due) :=
  Option.bind_eq_some_iff

end Tables

/-- What a step must meet for a job that is kept alive to be started again: the readings of
    the clock in the two guards of an exit agree that it has to wait, if the first finds so,
    and the third does not find that the interval has just passed. -/
def KeepsUp (s : Sys) (e : Ev) : Prop := Succeeds s e ∧
  match e with
  | .handleEvent wakeup answers => ∀ p st i c l, (Ev.handleEvent wakeup answers).dispatched s = some (.proc p st i) →
      s.kernel.procs[i]? = some c → s.tables.fate c.job = .alive l → l.manifest.keepAlive → l.unloadRequested = false →
      l.throttled ((s.given answers).clock 1 / 1000) →
      l.throttled ((s.given answers).clock 2 / 1000) ∧ l.throttleArming ((s.given answers).clock 3) ≠ .disarmed
  | _ => True

/-- A job that is kept alive runs its program, or waits for a timer that will start it. -/
def Life.Up (l : Life) : Prop := l.state = .running ∧ l.child.isSome ∨ l.state = .waiting ∧ ∃ due, l.timer = some (.throttle, due)

def KeptUp (s : Sys) : Prop := ∀ r j, s.heap r = some j → j.manifest.keepAlive → j.boot = .enabled → j.unloadRequested = false →
  j.state = .running ∧ (∃ c ∈ s.kernel.procs, c.job = r ∧ c.live) ∨
  j.state = .waiting ∧ ∃ id due, j.timerId = some id ∧ s.eventmgr.timerOf s.kernel.timerfds r id = some (.throttle, due)

namespace Life

variable {l : Life}

/-- A job that is to be restarted: kept alive, bootstrapped while enabled, not asked to unload. -/
structure Kept (l : Life) : Prop where
  keepAlive : l.manifest.keepAlive
  boot : l.boot = .enabled
  flag : l.unloadRequested = false

theorem bootOf_enabled {lookup : Decode Bool} (h : Manager.bootOf lookup = .enabled) : lookup = .ok false := by
  unfold Manager.bootOf at h
  split at h
  · rfl
  · cases h

/-- Before its Bootstrap a job is not bootstrapped, and a request to unload stays. -/
theorem steady_of_next {a : Turn} (hb : (l.next a).boot = .enabled) (hu : (l.next a).unloadRequested = false)
    (hne : ∀ lookup clock how arming, a ≠ .boot lookup clock how arming) : l.boot = .enabled ∧ l.unloadRequested = false := by
  obtain ⟨-, hboot, hflag⟩ := l.next_fixed a
  refine ⟨?_, ?_⟩
  · rcases hboot with e | ⟨_, _, _, _, e⟩
    · exact e ▸ hb
    · exact absurd e (hne _ _ _ _)
  · by_contra hu'
    have := hflag (by simpa using hu')
    rw [hu] at this
    cases this

theorem Kept.of_next {a : Turn} (hk : (l.next a).Kept) (hne : ∀ lookup clock how arming, a ≠ .boot lookup clock how arming) :
    l.Kept := by
  obtain ⟨hb, hu⟩ := steady_of_next hk.boot hk.flag hne
  exact ⟨l.next_manifest a ▸ hk.keepAlive, hb, hu⟩

/-- An exit of a job that runs, when the readings of the clock agree. -/
theorem up_exit {clock : Nat → Nat} {how : Start} (hs : l.state = .running) (hk : l.Kept)
    (hhow : l.reap.restarts (clock 1 / 1000) → ∃ pid, how = .started pid)
    (harm : l.reap.awaits (clock 1 / 1000) (clock 2 / 1000) → l.reap.throttleArming (clock 3) ≠ .failed)
    (hagree : l.throttled (clock 1 / 1000) → l.throttled (clock 2 / 1000) ∧ l.throttleArming (clock 3) ≠ .disarmed) :
    (l.reap.processExited clock how).Up := by
  cases h₁ : l.throttled (clock 1 / 1000) with
  | false =>
    have hr := reap_restarts hs hk.keepAlive hk.flag h₁
    obtain ⟨pid, rfl⟩ := hhow hr
    rw [processExited_restarts hr]
    exact .inl ⟨hs, rfl⟩
  | true =>
    obtain ⟨h₂, hne⟩ := hagree h₁
    rw [processExited_waits (l := l.reap) hs hk.keepAlive hk.flag h₁ h₂]
    cases ha : l.reap.throttleArming (clock 3) with
    | failed => exact absurd ha (harm (reap_awaits hs hk.keepAlive hk.flag h₁ h₂))
    | disarmed => exact absurd ha hne
    | armed due => exact .inr ⟨rfl, due, rfl⟩

theorem up_next {r : Ref} {a : Turn} (hC : KeepsUp s e) (ha : Given s e r l a) (he : l.Enabled a) (hg : l.Good)
    (h : l.Kept → l.Up) (hk : (l.next a).Kept) : (l.next a).Up := by
  have hsucc := ha.succeeding hC.1
  cases a with
  | boot lookup clock how arming =>
    obtain ⟨⟨pid, rfl⟩, -⟩ := hsucc
    have hfixed := bootTriggered_fixed (l := { l with boot := Manager.bootOf lookup }) lookup clock (.started pid) arming
    have hka : l.manifest.keepAlive := (congrArg (·.1.keepAlive) hfixed).symm.trans hk.keepAlive
    obtain rfl := bootOf_enabled ((congrArg (·.2.1) hfixed).symm.trans hk.boot)
    have hnext : l.next (.boot (.ok false) clock (.started pid) arming) =
        (Life.start clock (.started pid) { l with boot := .enabled }).enter .running (.started pid) :=
      if_pos (by rw [hka, Bool.or_true])
    rw [hnext]
    exact .inl ⟨rfl, rfl⟩
  | exit clock how =>
    have hk' := hk.of_next nofun
    have hs : l.state = .running := by
      rcases h hk' with ⟨hs, -⟩ | ⟨-, due, ht⟩
      · exact hs
      · have hc := (hg.waits (hg.timerSet (by rw [ht]; rfl))).2
        have hc' := he.1
        rw [hc] at hc'
        cases hc'
    obtain ⟨hl, wakeup, answers, p, st, i, c, rfl, hd, hc, rfl, rfl⟩ := ha.of_exit
    exact up_exit hs hk' hsucc he.2.2.2.2 (hC.2 p st i c l hd hc hl hk'.keepAlive hk'.flag)
  | throttleFires clock how =>
    obtain ⟨pid, rfl⟩ := hsucc
    exact .inl ⟨rfl, rfl⟩
  | periodicFires clock how =>
    obtain ⟨due, -, ht⟩ := Fires.timer he
    rcases h (hk.of_next nofun) with ⟨-, hc⟩ | ⟨-, due', ht'⟩
    · rw [(hg.waits (hg.timerSet (Fires.isSome he))).2] at hc
      cases hc
    · rw [ht] at ht'
      cases ht'
  | unload lookup force sent =>
    revert hk
    refine unload_cases (P := fun l' => l'.Kept → l'.Up) lookup force sent (fun _ => h) (fun _ _ hk => nomatch hk.flag)
      fun kills sigterm _ _ hk => ?_
    cases (congrArg (·.2.2) unloadTriggered_fixed).symm.trans hk.flag
  | kill =>
    have hup := h (hk.of_next nofun)
    obtain ⟨_, e⟩ := l.signal_eq
    rw [Life.next, e]
    exact hup

end Life

/-- In a run whose steps succeed and whose readings of the clock agree, a job that is kept
    alive is always running or waiting to be started. -/
theorem kept_up (h : Runs KeepsUp s) : KeptUp s := by
  intro r j hj hka hb hu
  have hl : s.tables.fate r = .alive (s.tables.lifeOf r j) := fate_alive (t := s.tables) hj
  have hup := (h.lives (Q := fun l => l.Good ∧ (l.Kept → l.Up)) (fun m _ => ⟨Life.good_new m, fun hk => nomatch hk.boot⟩)
    (fun s e r l a _ _ hC ha he hq => ⟨Life.good_next hq.1 he, Life.up_next hC ha he hq.1 hq.2⟩) r _ hl).2 ⟨hka, hb, hu⟩
  rcases hup with ⟨hs, hc⟩ | ⟨hs, due, ht⟩
  · exact .inl ⟨hs, Tables.child_isSome.mp hc⟩
  · obtain ⟨id, hid, hdue⟩ := timer_eq_some.mp ht
    exact .inr ⟨hs, id, due, hid, hdue⟩

/-- The job exits a millisecond before its interval has passed, as the first guard finds; the
    second reads the clock a millisecond later. -/
def tickRun : List Ev :=
  [startWith [("KeepAlive", .bool true), ("ThrottleInterval", .uint 1)] {}, .childExits 0 (.exited 0),
    .handleEvent (.signal [.sigchld] [0]) { ticks := [999, 1] }]

theorem tickRun_succeeds (s : Sys) : ∀ e ∈ tickRun, Succeeds s e := by
  simp only [tickRun, List.forall_mem_cons]
  exact ⟨⟨nofun, nofun, nofun⟩, trivial, ⟨nofun, nofun, nofun⟩, nofun⟩

theorem kept_down : ¬ ∀ s, Runs Succeeds s → KeptUp s := by
  intro h
  obtain ⟨s, hs, hp⟩ := runs_of_run (C := Succeeds) (fun _ _ => true) tickRun
    (fun s => s.child 0 == none && (s.heap 0).any fun j => j.manifest.keepAlive && j.boot == .enabled && !j.unloadRequested &&
      j.state == .running) (fun s e he _ => tickRun_succeeds s e he) (by decide +kernel)
  rw [Bool.and_eq_true, Option.any_eq_true] at hp
  obtain ⟨hc, j, hj, hjs⟩ := hp
  simp only [Bool.and_eq_true, beq_iff_eq, Bool.not_eq_true'] at hc hjs
  obtain ⟨⟨⟨hka, hb⟩, hu⟩, hst⟩ := hjs
  rcases h s hs 0 j hj hka hb hu with ⟨-, c, hm, hc'⟩ | ⟨hw, -⟩
  · have := childOf_none.mp hc c hm hc'.1
    rw [hc'.2] at this
    cases this
  · rw [hst] at hw
    cases hw

def agrees (s : Sys) : Ev → Bool
  | .handleEvent wakeup answers =>
    match (Ev.handleEvent wakeup answers).dispatched s with
    | some (.proc _ _ i) => s.kernel.procs[i]?.all fun c => (s.heap c.job).all fun j =>
      !(s.tables.lifeOf c.job j).throttled ((s.given answers).clock 1 / 1000) ||
        (s.tables.lifeOf c.job j).throttled ((s.given answers).clock 2 / 1000) &&
          (s.tables.lifeOf c.job j).throttleArming ((s.given answers).clock 3) != .disarmed
    | _ => true
  | _ => true

theorem keepsUp_of_agrees (hs : Succeeds s e) (h : agrees s e) : KeepsUp s e := by
  refine ⟨hs, ?_⟩
  cases e with
  | timePasses | childExits | signalSent | startRunning => trivial
  | handleEvent wakeup answers =>
    intro p st i c l hd hc hl _ _ ht
    obtain ⟨j, hj, rfl⟩ := fate_eq_alive hl
    rw [agrees, hd] at h
    simp only [hc, show s.heap c.job = some j from hj, Option.all_some, ht, Bool.not_true, Bool.false_or, Bool.and_eq_true,
      bne_iff_ne] at h
    exact h

/-- A job that waits for its second start. -/
theorem kept_up_throttled : ∃ s, Runs KeepsUp s ∧ s.kernel.procs.length = 2 ∧ KeptUp s := by
  have hsucc : ∀ s, ∀ e ∈ throttledRun, Succeeds s e := by
    simp only [throttledRun, List.forall_mem_cons]
    exact fun s => ⟨⟨nofun, nofun, nofun⟩, trivial, ⟨nofun, nofun, nofun⟩, trivial, ⟨nofun, nofun, nofun⟩, nofun⟩
  obtain ⟨s, hs, hp⟩ := runs_of_run (C := KeepsUp) agrees throttledRun (fun s => s.kernel.procs.length == 2)
    (fun s e he ha => keepsUp_of_agrees (hsucc s e he) ha) (by decide +kernel)
  exact ⟨s, hs, by simpa using hp, kept_up hs⟩

/-! ## Periodic jobs -/

def Sys.runsOrWaits (s : Sys) (r : Ref) (j : Job) : Prop :=
  (∃ c ∈ s.kernel.procs, c.job = r ∧ c.live) ∨ ∃ id, j.timerId = some id ∧ s.armedFor r id

def Sys.neverExited (s : Sys) (r : Ref) : Prop := ∀ c ∈ s.kernel.procs, c.job = r → c.execed → c.dispatched = []

theorem Arming.ofMilliseconds_zero (now : Nat) : Arming.ofMilliseconds now (0 : Nat) = .disarmed := rfl

/-- A `uint32_t` of milliseconds. -/
theorem Arming.ofMilliseconds_pos {now interval : Nat} (h₀ : interval ≠ 0) (h : interval < 2 ^ 32) :
    ∃ due, Arming.ofMilliseconds now interval = .armed due := by
  have hmod : (interval : Int) % 2 ^ 64 = interval := Int.emod_eq_of_lt (by omega) (by omega)
  have hbmod : ((interval : Int) / 1000).bmod (2 ^ 32) = interval / 1000 := Int.bmod_eq_of_le (by omega) (by omega)
  have hspec : timespecOf interval = ((interval : Int) / 1000, (interval : Int) % 1000 * 1000000) := by
    simp only [timespecOf, hmod, hbmod]
  unfold Arming.ofMilliseconds timerfdSettime
  rw [hspec, if_neg (by simp only [not_lt]; omega), if_neg (by simp only [Prod.mk.injEq]; omega)]
  exact ⟨_, rfl⟩

namespace Life

variable {l : Life}

/-- A job with a `StartInterval` alone, bootstrapped while enabled and not asked to unload. -/
structure Periodic (l : Life) : Prop where
  interval : l.manifest.startInterval.isSome
  keepAlive : l.manifest.keepAlive = false
  boot : l.boot = .enabled
  flag : l.unloadRequested = false

theorem Periodic.of_next {a : Turn} (hp : (l.next a).Periodic) (hne : ∀ lookup clock how arming, a ≠ .boot lookup clock how arming) :
    l.Periodic := by
  obtain ⟨hb, hu⟩ := steady_of_next hp.boot hp.flag hne
  exact ⟨l.next_manifest a ▸ hp.interval, l.next_manifest a ▸ hp.keepAlive, hb, hu⟩

/-- It runs or waits exactly until its program first exits, unless its timer is set for no time. -/
def UntilExit (l : Life) : Prop := (l.child.isSome ∨ l.timer.isSome) ↔
  l.exits = 0 ∧ (l.manifest.startInterval ≠ some 0 ∨ l.manifest.runAtLoad)

theorem UntilExit.next {r : Ref} {a : Turn} (hC : Succeeds s e) (ha : Given s e r l a) (he : l.Enabled a) (hg : l.Good)
    (hb : l.manifest.Bounded) (h : l.Periodic → l.UntilExit) (hp : (l.next a).Periodic) : (l.next a).UntilExit := by
  have hsucc := ha.succeeding hC
  cases a with
  | boot lookup clock how arming =>
    obtain ⟨⟨pid, rfl⟩, harm⟩ := hsucc
    have hfixed := bootTriggered_fixed (l := { l with boot := Manager.bootOf lookup }) lookup clock (.started pid) arming
    have hm : (l.next (.boot lookup clock (.started pid) arming)).manifest = l.manifest := l.next_manifest _
    obtain rfl := bootOf_enabled ((congrArg (·.2.1) hfixed).symm.trans hp.boot)
    obtain ⟨interval, hi⟩ := Option.isSome_iff_exists.mp (hm ▸ hp.interval)
    have hka : l.manifest.keepAlive = false := hm ▸ hp.keepAlive
    have hexits : l.exits = 0 := by rw [hg.fresh he.1]
    cases hrun : l.manifest.runAtLoad with
    | true =>
      have hnext : l.next (.boot (.ok false) clock (.started pid) arming) =
          (Life.start clock (.started pid) { l with boot := .enabled }).enter .running (.started pid) :=
        if_pos (by rw [hrun, Bool.true_or])
      rw [hnext]
      exact iff_of_true (.inl rfl) ⟨hexits, .inr hrun⟩
    | false =>
      have hnext : l.next (.boot (.ok false) clock (.started pid) arming) = Life.wait .periodic arming { l with boot := .enabled } :=
        (if_neg (by rw [hrun, hka]; decide)).trans (if_pos (by rw [hi]; rfl))
      have hchild : l.child = none := (hg.idle_of_pending he.1).1
      have htimer : l.timer = none := by rw [hg.fresh he.1]
      obtain ⟨now, harm⟩ := harm interval hi
      rw [hnext, harm]
      by_cases hz : interval = 0
      · subst hz
        rw [Arming.ofMilliseconds_zero]
        refine iff_of_false (fun hor => ?_) fun hand => ?_
        · simp only [wait, hchild, htimer, Option.isSome_none, Bool.false_eq_true, or_self] at hor
        · rcases hand.2 with hne | hr
          · exact hne hi
          · exact Bool.false_ne_true (hrun.symm.trans hr)
      · obtain ⟨due, hdue⟩ : ∃ due, Arming.ofMilliseconds now interval = .armed due :=
          Arming.ofMilliseconds_pos hz (hb.startInterval interval hi)
        rw [hdue]
        exact iff_of_true (.inr rfl) ⟨hexits, .inl fun e => hz (Option.some.inj (hi.symm.trans e))⟩
  | exit clock how =>
    -- no transition is for the exit of a periodic job
    have hp' := hp.of_next (by simp)
    have hnext : l.next (.exit clock how) = l.reap := by
      by_cases hs : l.state = .running
      · exact processExited_periodic (l := l.reap) hs hp'.keepAlive hp'.interval hp'.flag
      · exact processExited_not_running hs
    have htimer : l.reap.timer = none := hg.timer_none (hg.not_set_of_child he.1)
    rw [hnext]
    refine iff_of_false (fun hor => ?_) fun hand => Nat.succ_ne_zero _ hand.1
    rcases hor with hc | ht
    · cases hc
    · rw [htimer] at ht
      cases ht
  | throttleFires clock how =>
    obtain ⟨pid, rfl⟩ := hsucc
    exact iff_of_true (.inl rfl) ((h (hp.of_next (by simp))).mp (.inr (Fires.isSome he)))
  | periodicFires clock how =>
    obtain ⟨pid, rfl⟩ := hsucc
    exact iff_of_true (.inl rfl) ((h (hp.of_next (by simp))).mp (.inr (Fires.isSome he)))
  | unload lookup force sent =>
    revert hp
    refine unload_cases (P := fun l' => l'.Periodic → l'.UntilExit) lookup force sent (fun _ => h) (fun _ _ hp => by cases hp.flag)
      fun kills sigterm _ _ hp => ?_
    cases (congrArg (·.2.2) unloadTriggered_fixed).symm.trans hp.flag
  | kill =>
    have huntil := h (hp.of_next (by simp))
    obtain ⟨_, e⟩ := l.signal_eq
    rw [Life.next, e]
    exact huntil

end Life

theorem exits_eq_zero (s : Sys) (r : Ref) : (s.tables.history r).exits = 0 ↔ s.neverExited r := by
  rw [show (s.tables.history r).exits = s.kernel.procs.countP fun p => p.job == r && (p.execed && !p.dispatched.isEmpty) from rfl,
    List.countP_eq_zero]
  refine forall₂_congr fun c _ => ?_
  simp only [Bool.and_eq_true, beq_iff_eq, Bool.not_eq_true', List.isEmpty_eq_false_iff, not_and, not_not]

/-- In a run whose steps succeed, a periodic job runs or waits to be started until its program
    first exits, and not after; one with an interval of zero only if it runs at load. -/
theorem periodic_until_exit (h : Runs Succeeds s) {r : Ref} {j : Job} {interval : Nat} (hj : s.heap r = some j)
    (hi : j.manifest.startInterval = some interval) (hk : j.manifest.keepAlive = false) (hb : j.boot = .enabled)
    (hu : j.unloadRequested = false) :
    s.runsOrWaits r j ↔ s.neverExited r ∧ (interval ≠ 0 ∨ j.manifest.runAtLoad) := by
  have hl : s.tables.fate r = .alive (s.tables.lifeOf r j) := fate_alive (t := s.tables) hj
  have huntil := (h.lives (Q := fun l => l.Good ∧ l.manifest.Bounded ∧ (l.Periodic → l.UntilExit))
    (fun m hm => ⟨Life.good_new m, hm.bounded, fun hp => nomatch hp.boot⟩)
    (fun s e r l a _ _ hC ha he hq => ⟨Life.good_next hq.1 he, by rw [Life.next_manifest]; exact hq.2.1,
      Life.UntilExit.next hC ha he hq.1 hq.2.1 hq.2.2⟩) r _ hl).2.2 ⟨by rw [lifeOf_manifest, hi]; rfl, hk, hb, hu⟩
  have htimer : (s.tables.lifeOf r j).timer.isSome ↔ ∃ id, j.timerId = some id ∧ s.armedFor r id := by
    rw [Option.isSome_iff_exists]
    constructor
    · intro h'
      obtain ⟨⟨kind, due⟩, ht⟩ := h'
      obtain ⟨id, hid, hdue⟩ := timer_eq_some.mp ht
      exact ⟨id, hid, Option.isSome_of_eq_some hdue⟩
    · intro h'
      obtain ⟨id, hid, ha⟩ := h'
      obtain ⟨⟨kind, due⟩, hdue⟩ := Option.isSome_iff_exists.mp ha
      exact ⟨(kind, due), timer_eq_some.mpr ⟨id, hid, hdue⟩⟩
  rw [Life.UntilExit, Tables.child_isSome, htimer, lifeOf_history, exits_eq_zero, lifeOf_manifest, hi] at huntil
  simp only [ne_eq, Option.some.injEq] at huntil
  exact huntil

def periodicRun : List Ev :=
  [startWith [("StartInterval", .uint 1)] {}, .timePasses 1, .handleEvent (.timer 7) {}, .childExits 0 (.exited 0),
    .handleEvent (.signal [.sigchld] [0]) {}]

/-- The periodic job of the run, after its first exit. -/
theorem periodicRun_exited : ∃ s j, Runs Succeeds s ∧ s.heap 0 = some j ∧ j.manifest.startInterval = some 1 ∧
    j.manifest.keepAlive = false ∧ j.boot = .enabled ∧ j.unloadRequested = false ∧ s.child 0 = none ∧ j.timerId = none := by
  have hsucc : ∀ s, ∀ e ∈ periodicRun, Succeeds s e := by
    simp only [periodicRun, List.forall_mem_cons]
    exact fun s => ⟨⟨nofun, nofun, nofun⟩, trivial, ⟨nofun, nofun, nofun⟩, trivial, ⟨nofun, nofun, nofun⟩, nofun⟩
  obtain ⟨s, hs, hp⟩ := runs_of_run (C := Succeeds) (fun _ _ => true) periodicRun
    (fun s => s.child 0 == none && (s.heap 0).any fun j => j.manifest.startInterval == some 1 && !j.manifest.keepAlive &&
      j.boot == .enabled && !j.unloadRequested && j.timerId == none) (fun s e he _ => hsucc s e he) (by decide +kernel)
  rw [Bool.and_eq_true, Option.any_eq_true] at hp
  obtain ⟨hc, j, hj, hjs⟩ := hp
  simp only [Bool.and_eq_true, beq_iff_eq, Bool.not_eq_true'] at hc hjs
  exact ⟨s, j, hs, hj, hjs.1.1.1.1, hjs.1.1.1.2, hjs.1.1.2, hjs.1.2, hc, hjs.2⟩

theorem periodic_stopped : ¬ ∀ (s : Sys) (r : Ref) (j : Job), Runs Succeeds s → s.heap r = some j →
    j.manifest.startInterval.isSome → j.manifest.keepAlive = false → j.boot = .enabled → j.unloadRequested = false →
    s.runsOrWaits r j := by
  intro h
  obtain ⟨s, j, hs, hj, hi, hk, hb, hu, hc, ht⟩ := periodicRun_exited
  rcases h s 0 j hs hj (by rw [hi]; rfl) hk hb hu with ⟨c, hm, hcj, hl⟩ | ⟨id, hid, -⟩
  · have := childOf_none.mp hc c hm hcj
    rw [hl] at this
    cases this
  · rw [ht] at hid
    cases hid

theorem periodic_until_exit_once : ∃ (s : Sys) (j : Job), s.heap 0 = some j ∧ j.manifest.startInterval = some 1 ∧
    (s.runsOrWaits 0 j ↔ s.neverExited 0 ∧ (1 ≠ 0 ∨ j.manifest.runAtLoad)) := by
  obtain ⟨s, j, hs, hj, hi, hk, hb, hu, -⟩ := periodicRun_exited
  exact ⟨s, j, hj, hi, periodic_until_exit hs hj hi hk hb hu⟩

end Relaunchd
