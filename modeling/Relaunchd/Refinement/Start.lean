/-
  Relaunchd.Refinement.Start — the specification of a start.
-/

import Relaunchd.Refinement.Frame

namespace Relaunchd

open Prog EventManager Tables

variable {busy : Option Int} {r : Ref} {l : Life} {s s' : Sys} {j : Job}

/-! ## A start -/

/-- How the answers to `fork` and to `kill(pid, 0)` make a start go. -/
def Start.Of : ForkAnswer → Bool → Start → Prop
  | .noPipe, _, how => how = .noPipe
  | .noFork, _, how => how = .noFork
  | .noExec _, _, how => how = .noExec
  | .started _ _, true, how => ∃ pid, how = .started pid
  | .started _ _, false, how => ∃ pid, how = .unwatched pid

theorem Start.Of.unprobed {fork : ForkAnswer} {how : Start} (h : how.Of fork true) (hn : ∀ pid, how ≠ .started pid)
    (probe : Bool) : how.Of fork probe := by
  cases fork with
  | started pid getpgid => obtain ⟨pid, rfl⟩ := h; exact absurd rfl (hn pid)
  | noPipe | noFork | noExec => exact h

theorem Start.Of.unwatched {fork : ForkAnswer} {pid : Int} (h : (Start.started pid).Of fork true) :
    (Start.unwatched pid).Of fork false := by
  cases fork with
  | started want getpgid => exact ⟨pid, rfl⟩
  | noPipe | noFork | noExec => cases h

def Start.From (a : Answers) (how : Start) : Prop :=
  ∃ fork probe, (fork ∈ a.forks ∨ fork = .started 0 true) ∧ (probe ∈ a.probes ∨ probe = true) ∧ how.Of fork probe

theorem Start.From.mono {a b : Answers} {how : Start} (h : how.From b) (hab : a.Left b) : how.From a := by
  obtain ⟨f, p, hf, hp, ho⟩ := h
  exact ⟨f, p, hf.imp_left fun hm => hab.forks hm, hp.imp_left fun hm => hab.probes hm, ho⟩

def Answers.nextFork (a : Answers) : ForkAnswer := a.forks.headD (.started 0 true)

def Answers.nextProbe (a : Answers) : Bool := a.probes.headD true

theorem Start.Of.from {a : Answers} {how : Start} (h : how.Of a.nextFork a.nextProbe) : how.From a :=
  ⟨_, _, mem_or_headD _ _, mem_or_headD _ _, h⟩

theorem nextFork_spec {E : Sys → Prop} :
    wp nextFork (fun a s' => a = s.kernel.answers.nextFork ∧ Took s s' ∧
      s'.kernel.answers.nextProbe = s.kernel.answers.nextProbe) E s :=
  ⟨rfl, ⟨rfl, ⟨rfl, rfl, rfl, rfl, rfl, rfl, left_tail.2.1⟩, rfl⟩, rfl⟩

theorem nextProbe_spec {E : Sys → Prop} :
    wp nextProbe (fun a s' => a = s.kernel.answers.nextProbe ∧ Took s s') E s :=
  ⟨rfl, rfl, ⟨rfl, rfl, rfl, rfl, rfl, rfl, left_tail.2.2.1⟩, rfl⟩

theorem wp_lookUpUser {Q : Unit → Sys → Prop} {E : Sys → Prop} (hj : s.heap r = some j) (h : Q () s) :
    wp (Job.lookUpUser r) Q E s := by
  simp only [Job.lookUpUser, wp_bind, wp_this hj, wp_get]
  split
  · exact h
  · split
    · trivial
    · split
      · exact h
      · split
        · trivial
        · exact h

def StartSpec (busy : Option Int) (r : Ref) (l : Life) (s : Sys) (throws : Bool) (s' : Sys) : Prop :=
  ∃ how : Start, how.throws = throws ∧ how.Sound ∧ how.Of s.kernel.answers.nextFork s.kernel.answers.nextProbe ∧
    Moves busy r (l.start s.clock how) s s'

/-- The parent's part of a start: it notes the pid, and then the time. -/
theorem note_spec (hj : s.heap r = some j) (f : Job → Job) (g : Nat → Job → Job) (b : Bool) :
    wp (do
        setJob r f
        let now ← currentTime
        setJob r (g now)
        return b)
      (fun b' s' => b' = b ∧ s'.tables = s.tables.put r (g (s.clock 1 / 1000) (f j)) ∧ Keeps s s' ∧
        s'.kernel.answers.nextProbe = s.kernel.answers.nextProbe) (fun _ => False) s := by
  simp only [wp_bind, wp_setJob, wp_currentTime, wp_pure, Sys.updateJob_clock]
  refine ⟨trivial, ?_, (keeps_updateJob ..).trans ((keeps_ticked _).trans (keeps_updateJob ..)), rfl⟩
  have hj₁ : (s.updateJob r f).ticked.heap r = some (f j) := Sys.updateJob_self hj
  rw [tables_updateJob hj₁, show (s.updateJob r f).ticked.tables = (s.updateJob r f).tables from rfl,
    tables_updateJob hj, put_put]

theorem lifeOf_addProc {t : Tables} {c : Proc} {j₁ : Job} (hn : childOf t.procs c.job = none) (hd : c.dispatched = []) :
    (t.addProc c).lifeOf c.job j₁ =
      { t.lifeOf c.job j₁ with
        child := if c.execed then some c.pid else none
        forks := (t.history c.job).forks + 1
        forkedAt := (t.history c.job).forkedAt ++ [c.forkedAt] } := by
  unfold lifeOf
  rw [history_addProc hn hd]
  rfl

/-- The life of a job for which a process was just forked. -/
theorem moves_fork (h : s.tables.Inv busy) (hj : s.heap r = some j) (hi : (s.tables.lifeOf r j).Idle)
    (hb : j.boot ≠ .pending) (c : Proc) (j₁ : Job) (how : Start) (clock : Nat → Nat) (hc : c.job = r)
    (hf : PidFree s.kernel.procs c.pid) (he : c.held → c.execed) (hd : c.dispatched = []) (hl : j₁.label = j.label) (hbt : j₁.boot = j.boot)
    (htm : j₁.timerId = j.timerId) (hst : j₁.state = j.state) (hpg : c.execed → j₁.pgid = c.pid ∨ j₁.pgid = -1)
    (hlife : (s.tables.addProc c).lifeOf r j₁ = (s.tables.lifeOf r j).start clock how) (hs : how.Sound) {s' : Sys}
    (ht : s'.tables = (s.tables.addProc c).put r j₁) (hk : Keeps s s') :
    Moves busy r ((s.tables.lifeOf r j).start clock how) s s' := by
  subst hc
  have hchild : childOf s.tables.procs c.job = none := Option.map_eq_none_iff.mp hi.1
  have hg : ((s.tables.lifeOf c.job j).start clock how).Good := Life.good_start (h.good _ j hj) hi hb hs
  refine ⟨?_, ?_, fun r' hne => ?_, hk⟩ <;> rw [ht]
  · exact h.addProc _ hj hf he hd hchild hl hbt htm hst hpg (hlife ▸ hg)
  · rw [fate_put_self, hlife]
  · rw [fate_put_ne hne, fate_addProc_ne (Ne.symm hne)]

/-- A child that runs, and that `addProcess` has not seen yet. -/
def Newborn (r : Ref) (pid : Int) (s : Sys) : Prop :=
  ∃ (i : Nat) (c : Proc), s.kernel.procs[i]? = some c ∧ c.job = r ∧ c.pid = pid ∧ c.held ∧
    c.stale = (s.eventmgr.processCallbacks.lookup pid).isSome

/-- What `run` does when it returns; the clock was read once before. -/
structure RunSpec (busy : Option Int) (r : Ref) (l : Life) (clock : Nat → Nat) (s : Sys) (how : Start) (running : Bool)
    (s' : Sys) : Prop where
  returns : how.throws = false
  sound : how.Sound
  answer : how.Of s.kernel.answers.nextFork true
  probe : s'.kernel.answers.nextProbe = s.kernel.answers.nextProbe
  moves : Moves busy r (l.start clock how) s s'
  born : match how with
    | .started pid => running = true ∧ Newborn r pid s'
    | _ => running = false

theorem run_spec (h : s.tables.Inv busy) (hl : s.tables.fate r = .alive l) (hi : l.Idle) (hb : l.boot ≠ .pending)
    (clock : Nat → Nat) (hclock : ∀ n, clock (n + 1) = s.clock n) (ht : l.startedAt = some (clock 1 / 1000)) :
    wp (Job.run r) (fun running s' => ∃ how, RunSpec busy r l clock s how running s')
      (fun s' => s.kernel.answers.nextFork = .noPipe ∧ Moves busy r l s s') s := by
  obtain ⟨j, hj, rfl⟩ := fate_eq_alive hl
  rw [Job.run, wp_bind]
  apply wp_lookUpUser hj
  rw [wp_bind]
  refine wp_mono nextFork_spec ?_ fun _ => id
  intro _ s₁ h'
  obtain ⟨rfl, ht₁, hp₁⟩ := h'
  rw [← ht₁.tables] at h hi hb ht hj
  have hj₁ : s₁.heap r = some j := hj
  have hn : childOf s₁.tables.procs r = none := Option.map_eq_none_iff.mp hi.1
  have hs : j.startedAt = some (clock 1 / 1000) := ht
  have hc₂ : s₁.ticked.kernel.now = clock 2 := by rw [← Sys.clock_one, ht₁.clock, hclock]
  have hc₃ : s₁.ticked.clock 1 = clock 3 := by rw [Sys.ticked_clock, ht₁.clock, hclock]
  have hk₁ : Keeps s s₁.ticked := ht₁.keeps.trans (keeps_ticked s₁)
  rw [← ht₁.tables]
  cases hfork : s.kernel.answers.nextFork with
  | noPipe => exact ⟨rfl, (Moves.refl h (fate_alive hj)).after ht₁.tables ht₁.keeps⟩
  | noFork =>
    dsimp only
    rw [wp_bind, wp_setJob, wp_pure]
    have hg : ((s₁.tables.lifeOf r j).start clock .noFork).Good := Life.good_start (h.good r j hj) hi hb trivial
    have he : (s₁.tables.lifeOf r j).start clock .noFork = s₁.tables.lifeOf r { j with pid := -1 } := by
      simp [lifeOf, Life.start, hs]
    refine ⟨.noFork, rfl, trivial, by rw [hfork]; rfl, hp₁, ?_, rfl⟩
    refine Moves.after ?_ ht₁.tables ht₁.keeps
    rw [he] at hg ⊢
    exact moves_put h hj₁ (fun j => { j with pid := -1 }) rfl rfl (.inl rfl) Iff.rfl rfl hg
  | noExec want =>
    dsimp only
    rw [wp_bind, wp_passTime, wp_bind, wp_gets, wp_bind, wp_modify]
    obtain ⟨s₂, hs₂⟩ : ∃ s₂, s₂ = s₁.ticked := ⟨_, rfl⟩
    rw [← hs₂] at hc₂ hc₃ hk₁ ⊢
    have ht₂ : s₂.tables = s₁.tables := by rw [hs₂]; rfl
    have hj₂ : s₂.heap r = some j := by rw [hs₂]; exact hj₁
    have hp₂ : s₂.kernel.answers.nextProbe = s₁.kernel.answers.nextProbe := by rw [hs₂]; rfl
    rw [← ht₂] at h hi hn ⊢
    refine wp_mono (note_spec (j := j) (by exact hj₂) _ _ false) ?_ fun _ => False.elim
    intro _ s' h'
    obtain ⟨rfl, ht', hk', hp'⟩ := h'
    refine ⟨.noExec, rfl, trivial, by rw [hfork]; rfl, hp'.trans (hp₂.trans hp₁), ?_, rfl⟩
    refine Moves.after ?_ (ht₂.trans ht₁.tables) hk₁
    have hk : Keeps s₂ (s₂.updateKernel (·.forkFailed (s₂.kernel.freePid want) r)) :=
      ⟨rfl, rfl, rfl, rfl, rfl, rfl, .refl _⟩
    refine moves_fork h hj₂ hi hb (.failed (s₂.kernel.freePid want) r s₂.kernel.now)
      { j with startedAt := some (s₂.clock 1 / 1000), pid := 0, sigterm := false } .noExec clock rfl
      (Kernel.freePid_free ..) (fun h => by cases h) rfl rfl rfl rfl rfl (fun h => by cases h) ?_ trivial ht' (hk.trans hk')
    refine (lifeOf_addProc (c := .failed (s₂.kernel.freePid want) r s₂.kernel.now) hn rfl).trans ?_
    rw [hc₂, hc₃]
    simp [Life.start, lifeOf, history, childPid, hn, Proc.failed]
  | started want getpgid =>
    dsimp only
    rw [wp_bind, wp_passTime, wp_bind, wp_gets, wp_bind, wp_modify]
    obtain ⟨s₂, hs₂⟩ : ∃ s₂, s₂ = s₁.ticked := ⟨_, rfl⟩
    rw [← hs₂] at hc₂ hc₃ hk₁ ⊢
    have ht₂ : s₂.tables = s₁.tables := by rw [hs₂]; rfl
    have hj₂ : s₂.heap r = some j := by rw [hs₂]; exact hj₁
    have hp₂ : s₂.kernel.answers.nextProbe = s₁.kernel.answers.nextProbe := by rw [hs₂]; rfl
    rw [← ht₂] at h hi hn ⊢
    refine wp_mono (note_spec (j := j) (by exact hj₂) _ _ true) ?_ fun _ => False.elim
    intro _ s' h'
    obtain ⟨rfl, ht', hk', hp'⟩ := h'
    have hpos := (Kernel.freePid_free s₂.kernel want).1
    have hk : Keeps s₂ (s₂.updateKernel (·.fork (s₂.kernel.freePid want) r
        (s₂.eventmgr.processCallbacks.lookup (s₂.kernel.freePid want)).isSome)) :=
      ⟨rfl, rfl, rfl, rfl, rfl, rfl, .refl _⟩
    refine ⟨.started (s₂.kernel.freePid want), rfl, hpos, by rw [hfork]; exact ⟨_, rfl⟩, hp'.trans (hp₂.trans hp₁), ?_, rfl, ?_⟩
    · refine Moves.after ?_ (ht₂.trans ht₁.tables) hk₁
      refine moves_fork h hj₂ hi hb (.forked (s₂.kernel.freePid want) r s₂.kernel.now _)
        { j with
          startedAt := some (s₂.clock 1 / 1000)
          pid := s₂.kernel.freePid want
          sigterm := false
          pgid := if getpgid then s₂.kernel.freePid want else -1 }
        (.started (s₂.kernel.freePid want)) clock rfl (Kernel.freePid_free ..) (fun _ => rfl) rfl rfl rfl rfl
        rfl (fun _ => ?_) ?_ hpos ht' (hk.trans hk')
      · cases getpgid
        · exact .inr rfl
        · exact .inl rfl
      · refine (lifeOf_addProc (c := .forked (s₂.kernel.freePid want) r s₂.kernel.now _) hn rfl).trans ?_
        rw [hc₃]
        unfold Proc.forked
        rw [hc₂]
        rfl
    · have hprocs := congrArg Tables.procs ht'
      have hcb := congrArg (fun t => t.eventmgr.processCallbacks) ht'
      refine ⟨s₂.kernel.procs.length, _, (congrArg (·[s₂.kernel.procs.length]?) hprocs).trans List.getElem?_concat_length,
        rfl, rfl, rfl, ?_⟩
      exact congrArg (fun m => (AList.lookup (s₂.kernel.freePid want) m).isSome) hcb.symm

theorem none_armed_of_idle (h : s.tables.Inv busy) (hj : s.heap r = some j) (hi : (s.tables.lifeOf r j).Idle) (id : Nat) :
    s.tables.eventmgr.armedFor s.tables.timerfds r id = false :=
  h.timed.none_armed hj (Option.not_isSome_iff_eq_none.mp (by rw [show j.timerId.isSome = false from hi.2]; exact nofun)) id

def entered (s : Sys) (r : Ref) : Sys :=
  (Sys.ticked { s with starts := s.starts ++ [⟨r, s.hasChild r, s.hasTimer r⟩] }).updateJob r fun j =>
    { j with startedAt := some (s.clock 1 / 1000) }

theorem moves_entered (h : s.tables.Inv busy) (hl : s.tables.fate r = .alive l) (hi : l.Idle) (hb : l.boot ≠ .pending) :
    Moves busy r { l with startedAt := some (s.clock 1 / 1000) } s (entered s r) := by
  obtain ⟨j, hj, rfl⟩ := fate_eq_alive hl
  have hn : childOf s.tables.procs r = none := Option.map_eq_none_iff.mp hi.1
  have hg := h.good r j hj
  have hk : Keeps s (Sys.ticked { s with starts := s.starts ++ [⟨r, s.hasChild r, s.hasTimer r⟩] }) :=
    ⟨rfl, rfl, rfl, rfl, rfl, rfl, left_tail.1⟩
  have hinv : Inv busy (Sys.ticked { s with starts := s.starts ++ [⟨r, s.hasChild r, s.hasTimer r⟩] }).tables :=
    h.logStart hn (none_armed_of_idle h hj hi)
  refine Moves.after' ?_ (fun r' => ?_) hk
  · exact moves_put hinv hj (fun j => { j with startedAt := some (s.clock 1 / 1000) }) rfl rfl (.inl rfl) Iff.rfl rfl
      ⟨hg.childPid, hg.pidChild, hg.timerSet, hg.waits, fun hb' => absurd hb' hb⟩
  · exact fate_congr rfl Iff.rfl rfl fun _ _ => rfl

theorem startJob_spec (h : s.tables.Inv busy) (hl : s.tables.fate r = .alive l) (hi : l.Idle) (hb : l.boot ≠ .pending) :
    wp (Job.startJob r) (fun _ => StartSpec busy r l s false) (StartSpec busy r l s true) s := by
  have henter := moves_entered h hl hi hb
  have hrun := run_spec henter.inv henter.life hi hb s.clock (fun n => (Sys.ticked_clock s n).symm) rfl
  rw [Job.startJob, wp_bind, wp_modify, wp_bind, wp_currentTime, wp_bind, wp_setJob, wp_bind]
  refine wp_mono hrun ?_ ?_
  · intro running s' h'
    obtain ⟨how, hret, hs, hans, hprobe, hm, hborn⟩ := h'
    replace hm := henter.trans hm
    rw [show Life.start s.clock how { l with startedAt := some (s.clock 1 / 1000) } = l.start s.clock how by
      cases how <;> rfl] at hm
    cases how with
    | noPipe | unwatched _ => cases hret
    | noFork | noExec =>
      subst hborn
      exact ⟨_, rfl, hs, hans.unprobed nofun _, hm⟩
    | started pid =>
      obtain ⟨rfl, i, c, hc, rfl, rfl, hch, hcs⟩ := hborn
      obtain ⟨j, hj, hlj⟩ := fate_eq_alive hm.life
      rw [if_pos rfl, wp_bind, wp_this hj, show j.pid = c.pid from (congrArg Life.pid hlj).symm, addProcess, wp_bind]
      refine wp_mono nextProbe_spec ?_ fun _ => id
      intro _ s₂ h'
      obtain ⟨rfl, ht₂⟩ := h'
      replace hm := hm.took ht₂
      rw [hprobe, show (entered s c.job).kernel.answers.nextProbe = s.kernel.answers.nextProbe from rfl, wp_ite]
      rcases Bool.eq_false_or_eq_true s.kernel.answers.nextProbe with hp | hp
      · rw [if_pos hp, wp_modify]
        refine ⟨.started c.pid, rfl, hs, by rw [hp]; exact hans, ?_⟩
        have hc₂ : s₂.tables.procs[i]? = some c := by rw [ht₂.tables]; exact hc
        have hcs₂ : c.stale = (s₂.tables.eventmgr.processCallbacks.lookup c.pid).isSome := by rw [ht₂.tables]; exact hcs
        refine ⟨hm.inv.register hc₂ hch hcs₂, ?_, fun r' hne => ?_, ?_⟩
        · exact (fate_register ..).trans hm.life
        · exact (fate_register ..).trans (hm.others r' hne)
        · exact hm.keeps.trans ⟨rfl, rfl, rfl, rfl, rfl, rfl, .refl _⟩
      · rw [hp, if_neg Bool.false_ne_true, wp_throw]
        exact ⟨.unwatched c.pid, rfl, hs, by rw [hp]; exact hans.unwatched, hm⟩
  · intro s' h'
    obtain ⟨hfork, hm⟩ := h'
    refine ⟨.noPipe, rfl, trivial, ?_, henter.trans hm⟩
    rw [show s.kernel.answers.nextFork = .noPipe from hfork]
    rfl

end Relaunchd
