/-
  Relaunchd.Properties.Signalling — which processes are signalled.
-/

import Relaunchd.Runs
import Relaunchd.Writes

namespace Relaunchd

open Prog EventManager Tables Transition

variable {s s' : Sys} {e : Ev}

/-- Every pid that went to `kill(2)` was, at that moment, the pid of an unreaped process forked
    for the same job. -/
def SignalsOwn (s : Sys) : Prop :=
  ∀ k ∈ s.kernel.kills, 0 < k.pid ∧ (∃ c, k.child = some c ∧ c.job = k.job ∧ c.pid = k.pid ∧ c.held) ∧
    ∃ p ∈ s.kernel.procs, p.job = k.job ∧ p.pid = k.pid

/-- The step signals a job that has the life `l`. -/
inductive Signals (s : Sys) : Ev → Life → Prop
  | kill {wakeup : Wakeup} {answers : Answers} {message : Option Json} {l : Life} :
      (Ev.handleEvent wakeup answers).dispatched s = some (.socket message) → s.state = .running →
      Request.of answers.files message = .kill l.manifest.label → Signals s (.handleEvent wakeup answers) l
  | unload {e : Ev} {l : Life} : Asks s e l → l.state = .running → l.unloadRequested = false → Signals s e l
  | force {e : Ev} {l : Life} : Forces s e → l.boot ≠ .pending → Signals s e l

/-- The step reads a batch of signals with a SIGCHLD, and reaps every zombie. -/
def Reaps (s : Sys) (e : Ev) : Prop :=
  s.eventmgr.pendingEvents = [] ∧ .sigchld ∈ s.kernel.signals ∧
    ∃ signals children answers, e = .handleEvent (.signal signals children) answers

/-- No job is signalled after a fork for it failed, when its `pid` is -1 until the next fork,
    nor once its child is reaped, be it by the step itself. -/
def SignalsUnreaped (s : Sys) (e : Ev) : Prop :=
  ∀ label r l, s.jobs.lookup label = some r → s.tables.fate r = .alive l → Signals s e l →
    l.pid ≠ -1 ∧ ∀ c, s.child r = some c → c.held ∧ (Reaps s e → c.state = .running)

/-- Only a job that was bootstrapped is signalled, and it is stored. -/
theorem Signals.stored {l : Life} (hs : Signals s e l) (h : Sound s) {r : Ref} (hl : s.tables.fate r = .alive l)
    (hp : l.pid ≠ 0) : s.jobs.lookup l.manifest.label = some r := by
  obtain ⟨j, hj, rfl⟩ := fate_eq_alive hl
  refine h.stored hj fun hb => hp ?_
  exact congrArg Life.pid ((h.inv.good r j hj).fresh hb)

theorem SignalsUnreaped.pid (hC : SignalsUnreaped s e) (h : Sound s) {r : Ref} {l : Life} (hl : s.tables.fate r = .alive l)
    (hs : Signals s e l) : l.pid ≠ -1 := by
  intro hp
  exact (hC _ r l (hs.stored h hl (by rw [hp]; decide)) hl hs).1 hp

/-! ## The pids -/

/-- Every pid a job has is a child's or records a failed fork, and only pids of children
    went to `kill(2)`. -/
def Fate.Signalled : Fate → Prop
  | .unborn => True
  | .alive l => (0 ≤ l.pid ∨ l.pid = -1) ∧ ∀ pid ∈ l.kills, 0 < pid
  | .gone history => ∀ pid ∈ history.kills, 0 < pid

section Signalled

variable {l : Life}

theorem Fate.Signalled.start {clock : Nat → Nat} {how : Start} (h : (Fate.alive l).Signalled) (hs : how.Sound) :
    (Fate.alive (l.start clock how)).Signalled := by
  cases how with
  | noPipe => exact h
  | noFork => exact ⟨.inr rfl, h.2⟩
  | noExec => exact ⟨.inl le_rfl, h.2⟩
  | unwatched pid | started pid => exact ⟨.inl (le_of_lt hs), h.2⟩

/-- Only the pid and the signals sent matter. -/
theorem Fate.Signalled.congr {l' : Life} (h : (Fate.alive l).Signalled) (hp : l'.pid = l.pid) (hk : l'.kills = l.kills) :
    (Fate.alive l').Signalled := by
  rw [Fate.Signalled, hp, hk]
  exact h

theorem Fate.Signalled.enter {how : Start} {state : Job.States} (h : (Fate.alive l).Signalled) :
    (Fate.alive (l.enter state how)).Signalled := by
  obtain ⟨_, e⟩ := l.enter_eq state how
  rw [e]
  exact h

theorem Fate.Signalled.wait {kind : TimerKind} {arming : Arming} (h : (Fate.alive l).Signalled) :
    (Fate.alive (l.wait kind arming)).Signalled := by
  cases arming <;> exact h

theorem Fate.Signalled.signal (h : (Fate.alive l).Signalled) (hf : l.pid ≠ -1) : (Fate.alive l.signal).Signalled := by
  unfold Life.signal
  split
  · exact h
  · refine ⟨h.1, fun pid hp => ?_⟩
    rcases List.mem_append.mp hp with hp | hp
    · exact h.2 pid hp
    · rw [List.mem_singleton.mp hp]
      rcases h.1 with h | h <;> omega

theorem Fate.Signalled.unloadTriggered (h : (Fate.alive l).Signalled) : (Fate.alive l.unloadTriggered).Signalled := by
  obtain ⟨_, _, -, e⟩ := l.unloadTriggered_eq
  rw [e]
  exact h

theorem Fate.Signalled.unload {lookup : Decode Bool} {force sent : Bool} (h : (Fate.alive l).Signalled)
    (hf : l.state = .running → l.unloadRequested = false → l.pid ≠ -1) :
    (Fate.alive (l.unload lookup force sent)).Signalled := by
  by_cases hi : l.state = .unloaded ∨ l.unloadRequested
  · rwa [Life.unload_ignored hi]
  obtain ⟨hs, hu⟩ := not_or.mp hi
  rw [Bool.not_eq_true] at hu
  have hflag : (Fate.alive { l with unloadRequested := true }).Signalled := h
  by_cases hl : ∃ disabled, lookup = .ok disabled ∧ (disabled && !force) = false
  · obtain ⟨disabled, hl, hd⟩ := hl
    rw [Life.unload_accepted hs hu hl hd]
    apply Fate.Signalled.unloadTriggered
    unfold Life.stopRequested
    split
    · exact hflag
    · rename_i hr
      exact (hflag.signal (hf (not_not.mp hr) hu)).congr rfl rfl
  · rw [Life.unload_refused hs hu fun disabled e => by
      by_contra hd
      exact hl ⟨disabled, e, by simpa using hd⟩]
    exact hflag

theorem Fate.Signalled.next {r : Ref} {a : Turn} (hs : Sound s) (hC : SignalsUnreaped s e) (ha : Given s e r l a) (he : l.Enabled a)
    (h : (Fate.alive l).Signalled) : (Fate.alive (l.next a)).Signalled := by
  have hboot : ∀ lookup clock how arming, how.Sound → (Fate.alive (l.bootstrap lookup clock how arming)).Signalled := by
    intro lookup clock how arming hs
    have hbooted : (Fate.alive { l with boot := Manager.bootOf lookup }).Signalled := h
    exact Life.bootTriggered_cases (P := fun l => (Fate.alive l).Signalled) lookup clock how arming hbooted
      (fun _ _ => (hbooted.start hs).enter) fun _ _ _ => hbooted.wait
  cases ha with
  | starts _ hq =>
    obtain ⟨lookup, clock, how, arming, rfl, -⟩ := boot_of_load hq
    exact hboot _ _ _ _ he.2.1
  | load _ _ _ hq =>
    obtain ⟨lookup, clock, how, arming, rfl, -⟩ := boot_of_load hq
    exact hboot _ _ _ _ he.2.1
  | kill hd hrun hq hlabel hl hp hm =>
    exact h.signal (hp ▸ hC.pid hs hl (.kill hd hrun (by rw [← hm, hlabel]; exact hq)))
  | unload hd hrun hq hlabel hsent hl =>
    refine h.unload fun hr hu => ?_
    rcases hl with hl | hl | hl
    · exact hC.pid hs hl (.unload (.request hd hrun hq hlabel) hr hu)
    · rw [hr] at hl
      cases hl
    · rw [hu] at hl
      cases hl
  | exit hd hproc hl hchild hof =>
    have hreap : (Fate.alive l.reap).Signalled := ⟨.inl le_rfl, h.2⟩
    exact Life.processExited_cases (P := fun l => (Fate.alive l).Signalled) _ _ (fun _ => hreap) (fun _ _ _ _ => hreap)
      (fun _ => hreap.start he.2.1) (fun _ => hreap.wait) fun _ _ => hreap
  | @timer wakeup answers timerId r l kind how hd hcb hl hof =>
    have hfire : (Fate.alive l.fire).Signalled := h
    have hsound := (Life.enabled_fires.mp he).sound
    cases kind with
    | throttle => exact (hfire.start hsound).enter
    | periodic => exact Life.next_periodic ▸ hfire.start hsound
  | shutsDown hd hsig hrun hl hsent =>
    exact h.unload fun hr hu => hC.pid hs hl (.unload (.shutdown hd hsig hrun) hr hu)

end Signalled

/-! ## The processes -/

/-- The child on record with a signal is among the processes. -/
def KillsForked (s : Sys) : Prop :=
  ∀ k ∈ s.kernel.kills, ∀ c, k.child = some c → ∃ p ∈ s.kernel.procs, p.job = c.job ∧ p.pid = c.pid

theorem Write.killsForked {may : Effect → Prop} (h : Write may s s') (hk : KillsForked s) : KillsForked s' := by
  have hstill : ∀ k ∈ s.kernel.kills, ∀ c, k.child = some c → ∃ p ∈ s'.kernel.procs, p.job = c.job ∧ p.pid = c.pid := by
    intro k hk' c hc
    obtain ⟨p, hp, hpj, hpp⟩ := hk k hk' c hc
    obtain ⟨i, hi⟩ := List.mem_iff_getElem?.mp hp
    obtain ⟨p', hp', hf⟩ := h.proc hi
    exact ⟨p', List.mem_of_getElem? hp', hf.job.trans hpj, hf.pid.trans hpp⟩
  cases h with
  | kills r pid sig =>
    intro k hk' c hc
    rcases List.mem_append.mp hk' with hk' | hk'
    · exact hstill k hk' c hc
    · rw [List.mem_singleton.mp hk'] at hc
      exact ⟨c, (childOf_some hc).1, rfl, rfl⟩
  | answers | time | kernel | forks | fades | dispatches | eventmgr | job | records | creates | destroys | boots | booted | deletes
  | clears | overrides | manager | replies =>
    exact hstill

theorem reachable_killsForked (h : Reachable s) : KillsForked s := by
  refine reachable_of_writes (P := KillsForked) (fun s hi => ?_) (fun s s' hw hk => hw.killsForked hk) h
  obtain ⟨stateFile, now, users, rfl⟩ := hi
  exact nofun

/-! ## What is reaped before a signal is sent -/

/-- Only zombies are reaped. -/
theorem reapOne_running {i : Nat} {p : Proc} (hp : s.kernel.procs[i]? = some p) (hr : p.state = .running) (child : Nat) :
    (EventManager.reapOne child s).kernel.procs[i]? = some p := by
  unfold EventManager.reapOne
  split
  · rename_i hc
    have hne : child ≠ i := by
      rintro rfl
      rw [hp] at hc
      cases hc
      cases hr
    have hmodify : (s.kernel.procs.modify child fun p => { p with state := .reaped })[i]? = some p :=
      (List.getElem?_modify_ne _ _ hne).trans hp
    dsimp only
    split
    · exact hmodify
    · exact hmodify
  · exact hp

theorem getPendingEvent_kernel {E : Sys → Prop} :
    wp getPendingEvent (fun event s' => s'.kernel = s.kernel ∧ (event = none → s' = s ∧ s.eventmgr.pendingEvents = [])) E s := by
  rw [getPendingEvent, wp_bind, wp_get]
  cases hq : s.eventmgr.pendingEvents with
  | nil => exact ⟨rfl, fun _ => ⟨rfl, rfl⟩⟩
  | cons event rest => exact ⟨rfl, fun h => by cases h⟩

theorem getSignalEvents_running {E : Sys → Prop} {i : Nat} {p : Proc} (signals : List Signal) (children : List Nat)
    (hp : s.kernel.procs[i]? = some p) (hr : .sigchld ∈ s.kernel.signals → p.state = .running) :
    wp (getSignalEvents signals children) (fun _ u => u.kernel.procs[i]? = some p) E s := by
  rw [getSignalEvents, wp_bind, wp_get]
  dsimp only
  obtain ⟨taken, htaken⟩ : ∃ taken, taken = if signals.isPerm s.kernel.signals then signals else s.kernel.signals := ⟨_, rfl⟩
  have hmem : .sigchld ∈ taken → .sigchld ∈ s.kernel.signals := by
    rw [htaken]
    split
    · rename_i hperm
      exact (List.isPerm_iff.mp hperm).mem_iff.mp
    · exact id
  rw [← htaken, wp_bind, wp_modify, wp_bind, wp_modify, wp_ite]
  split
  · rename_i hchld
    rw [wp_bind, wp_get, wp_modify]
    have hall : ∀ (children : List Nat) (s : Sys), s.kernel.procs[i]? = some p →
        (children.foldl (fun s child => EventManager.reapOne child s) s).kernel.procs[i]? = some p := by
      intro children
      induction children with
      | nil => exact fun _ => id
      | cons child rest ih => exact fun s hp => ih _ (reapOne_running hp (hr (hmem hchld)) child)
    exact hall _ _ hp
  · exact hp

/-- An unreaped process is not reaped while the manager waits, unless it is a zombie and the
    wait ends with a batch of signals. -/
theorem nextEvent_running {i : Nat} {p : Proc} {wakeup : Wakeup} (hp : s.kernel.procs[i]? = some p)
    (hr : s.eventmgr.pendingEvents = [] → .sigchld ∈ s.kernel.signals →
      (∃ signals children, wakeup = .signal signals children) → p.state = .running) :
    wp (nextEvent wakeup) (fun _ u => u.kernel.procs[i]? = some p) (fun _ => True) s := by
  unfold nextEvent
  rw [wp_bind]
  refine wp_mono getPendingEvent_kernel (fun event u hu => ?_) fun _ => id
  obtain ⟨hkernel, hnone⟩ := hu
  cases event with
  | some event =>
    rw [wp_pure, hkernel]
    exact hp
  | none =>
    obtain ⟨rfl, hq⟩ := hnone rfl
    cases wakeup with
    | interrupted => trivial
    | nothing => exact hp
    | signal signals children =>
      dsimp only
      rw [wp_bind]
      have hzombie : .sigchld ∈ u.kernel.signals → p.state = .running := fun hchld => hr hq hchld ⟨signals, children, rfl⟩
      refine wp_mono (getSignalEvents_running signals children hp hzombie) (fun _ v hv => ?_) fun _ => id
      refine wp_mono getPendingEvent_kernel (fun event w hw => ?_) fun _ => id
      rw [hw.1]
      exact hv
    | socket message =>
      dsimp only
      rw [wp_bind, wp_get]
      split
      · exact hp
      · exact hp
    | timer fd =>
      dsimp only
      rw [EventManager.readTimer, wp_bind, wp_get]
      split
      · rw [wp_bind, wp_get, wp_ite]
        split
        · exact hp
        rw [wp_bind, wp_modify, wp_bind, wp_get]
        split
        · exact hp
        · trivial
      · exact hp

/-- The child of a job that is signalled is still unreaped when its event is taken. -/
theorem SignalsUnreaped.stays {wakeup : Wakeup} {answers : Answers} {event : Event} {u : Sys} {r : Ref} {l : Life} {c : Proc}
    (hC : SignalsUnreaped s (.handleEvent wakeup answers)) (h : Sound s) (hl : s.tables.fate r = .alive l)
    (hs : Signals s (.handleEvent wakeup answers) l) (hc : s.child r = some c) (hu : Still s u)
    (hnext : nextEvent wakeup (s.given answers) = .ok (some event) u) : c.held ∧ u.child r = some c := by
  obtain ⟨hmem, hcr, hlive⟩ := childOf_some hc
  have hchild : l.child = some c.pid := by
    obtain ⟨j, hj, rfl⟩ := fate_eq_alive hl
    exact congrArg (Option.map (·.pid)) hc
  have hp : l.pid ≠ 0 := by
    obtain ⟨j, hj, rfl⟩ := fate_eq_alive hl
    obtain ⟨hpos, hpid⟩ := (h.inv.good r j hj).childPid _ hchild
    omega
  obtain ⟨hheld, hrun⟩ := (hC _ r l (hs.stored h hl hp) hl hs).2 c hc
  obtain ⟨i, hi⟩ := List.mem_iff_getElem?.mp hmem
  have hi' : u.kernel.procs[i]? = some c :=
    wp_ok (Q := fun _ u => u.kernel.procs[i]? = some c) (nextEvent_running (s := s.given answers) hi fun hq hchld hw => by
      obtain ⟨signals, children, rfl⟩ := hw
      exact hrun ⟨hq, hchld, signals, children, answers, rfl⟩) hnext
  exact ⟨hheld, hcr ▸ hu.inv.forked.childOf_eq hi' hlive⟩

/-! ## The steps that reap nothing -/

def Reapless (effect : Effect) : Prop := effect ≠ .reap

def ReapedBefore (s : Sys) (c : Proc) : Prop := c.held ∨ ∃ p ∈ s.kernel.procs, p.job = c.job ∧ p.live ∧ p.held = false

/-- The processes signalled since `s` had been reaped in `s`, or were not yet. -/
structure SentSince (s s' : Sys) : Prop where
  procs : ∀ c ∈ s'.kernel.procs, c.live → ReapedBefore s c
  kills : ∀ k ∈ s'.kernel.kills, k ∈ s.kernel.kills ∨ ∀ c, k.child = some c → c.job = k.job ∧ c.live ∧ ReapedBefore s c

theorem SentSince.refl (h : ∀ c ∈ s.kernel.procs, c.live → ReapedBefore s c) : SentSince s s := ⟨h, fun _ hk => .inl hk⟩

theorem Write.sentSince {u : Sys} (h : Write Reapless s s') (hu : SentSince u s) : SentSince u s' := by
  cases h with
  | kills r pid sig =>
    refine ⟨hu.procs, fun k hk => ?_⟩
    rcases List.mem_append.mp hk with hk | hk
    · exact hu.kills k hk
    rw [List.mem_singleton.mp hk]
    refine .inr fun c hc => ?_
    obtain ⟨hmem, hjob, hlive⟩ := childOf_some hc
    exact ⟨hjob, hlive, hu.procs c hmem hlive⟩
  | forks p _ hheld =>
    refine ⟨fun c hc hlive => ?_, hu.kills⟩
    rcases List.mem_append.mp hc with hc | hc
    · exact hu.procs c hc hlive
    · rw [List.mem_singleton.mp hc] at hlive ⊢
      exact .inl (hheld hlive)
  | fades procs hreap => exact absurd rfl hreap
  | dispatches child r =>
    refine ⟨fun c hc hlive => ?_, hu.kills⟩
    obtain ⟨i, hi⟩ := List.mem_iff_getElem?.mp hc
    by_cases e : child = i
    · subst e
      obtain ⟨p, hp, rfl⟩ := Option.map_eq_some_iff.mp ((List.getElem?_modify_eq ..).symm.trans hi)
      simp [Proc.live] at hlive
    · exact hu.procs c (List.mem_of_getElem? ((List.getElem?_modify_ne _ _ e).symm.trans hi)) hlive
  | answers | time | kernel | eventmgr | job | records | creates | destroys | boots | booted | deletes | clears | overrides
  | manager | replies => exact ⟨hu.procs, hu.kills⟩

theorem sentSince_of_writes (h : Writes Reapless s s') (hs : ∀ c ∈ s.kernel.procs, c.live → ReapedBefore s c) : SentSince s s' := by
  induction h with
  | refl => exact .refl hs
  | tail _ hw ih => exact hw.sentSince ih

theorem reapedBefore_of_live {c : Proc} (hc : c ∈ s.kernel.procs) (hl : c.live) : ReapedBefore s c := by
  cases hh : c.held with
  | true => exact .inl hh
  | false => exact .inr ⟨c, hc, rfl, hl, hh⟩

theorem sentSince_of_traced {x : M Unit} {u : Sys} (hx : Traced Reapless x) (hu : Writes Reapless u s) :
    wp x (fun _ => SentSince u) (fun _ => True) s :=
  wp_mono (hx s trivial) (fun _ _ hw => sentSince_of_writes (hu.trans hw) fun _ => reapedBefore_of_live) fun _ _ => trivial

/-- The callbacks of the signals that shut the manager down. -/
theorem wp_signalCallback {Q : Unit → Sys → Prop} {E : Sys → Prop} {sig : Signal} (hsig : sig.shutsDown)
    (h : ∀ pendingResult, wp Manager.handleShutdownSignal Q E { s with pendingResult }) : wp (Manager.signalCallback sig) Q E s := by
  cases sig with
  | sigchld | sigpipe => cases hsig
  | sigint | sigusr1 | sigusr2 | sigterm => exact h _

/-- A request reaps nothing. -/
theorem socket_sent (message : Option Json) : wp (EventManager.dispatch (.socket message)) (fun _ => SentSince s) (fun _ => True) s :=
  sentSince_of_traced (.rpcDispatch (by simp [Reapless]) (by simp [Reapless]) (by simp [Reapless])) .refl

/-- Nor does the first shutdown signal. -/
theorem signal_sent {sig : Signal} (hsig : sig.shutsDown) (hs : s.state = .running) :
    wp (EventManager.dispatch (.signal sig)) (fun _ => SentSince s) (fun _ => True) s := by
  refine wp_signalCallback hsig fun pendingResult => ?_
  rw [Manager.handleShutdownSignal, wp_bind, wp_get, hs]
  exact sentSince_of_traced (.execute [] fun e => by cases e) (.single (.manager .running s.listening pendingResult s.starts))

/-! ## The jobs a step signals -/

namespace Life

variable {l : Life}

theorem start_kills (clock : Nat → Nat) (how : Start) : (l.start clock how).kills = l.kills := by cases how <;> rfl

theorem enter_kills (state : Job.States) (how : Start) : (l.enter state how).kills = l.kills := by
  obtain ⟨_, e⟩ := l.enter_eq state how
  rw [e]

theorem wait_kills (kind : TimerKind) (arming : Arming) : (l.wait kind arming).kills = l.kills := by cases arming <;> rfl

theorem bootstrap_kills (lookup : Decode Bool) (clock : Nat → Nat) (how : Start) (arming : Arming) :
    (l.bootstrap lookup clock how arming).kills = l.kills :=
  bootTriggered_cases (P := fun l' => l'.kills = l.kills) lookup clock how arming rfl
    (fun _ _ => (enter_kills _ _).trans (start_kills _ _)) fun _ _ _ => wait_kills _ _

theorem processExited_kills (clock : Nat → Nat) (how : Start) : (l.reap.processExited clock how).kills = l.kills :=
  processExited_cases (P := fun l' => l'.kills = l.kills) clock how (fun _ => rfl) (fun _ _ _ _ => rfl)
    (fun _ => start_kills _ _) (fun _ => wait_kills _ _) fun _ _ => rfl

/-- Only a job that is Running and was not asked before is signalled by an unload. -/
theorem unload_kills (lookup : Decode Bool) (force sent : Bool) :
    (l.unload lookup force sent).kills = l.kills ∨ l.state = .running ∧ l.unloadRequested = false := by
  by_cases hs : l.state = .running
  · cases hu : l.unloadRequested with
    | false => exact .inr ⟨hs, rfl⟩
    | true => exact .inl (by rw [unload_ignored (.inr hu)])
  · have hstop : ({ l with unloadRequested := true } : Life).stopRequested sent = { l with unloadRequested := true } :=
      if_pos hs
    unfold unload
    split
    · exact .inl rfl
    dsimp only
    split
    · split
      · exact .inl rfl
      · rw [hstop]
        exact .inl (congrArg History.kills unloadTriggered_history)
    · exact .inl rfl

end Life

def Fate.kills : Fate → List Int
  | .unborn => []
  | .alive l => l.kills
  | .gone history => history.kills

theorem fate_kills (h : s.tables.Inv none) (r : Ref) : (s.tables.fate r).kills = (s.tables.history r).kills := by
  unfold fate
  split
  · rfl
  · split
    · rfl
    · rename_i hr
      refine Eq.symm (List.map_eq_nil_iff.mpr (List.filter_eq_nil_iff.mpr fun k hk hkr => hr ?_))
      exact (beq_iff_eq.mp hkr) ▸ (h.killed k hk).1

/-- A turn that adds to the signals of a job is that of a step that signals it. -/
theorem Given.signals {r : Ref} {l : Life} {a : Turn} (h : Given s e r l a) :
    (l.next a).kills = l.kills ∨ ∃ l₀, s.tables.fate r = .alive l₀ ∧ Signals s e l₀ := by
  cases h with
  | starts _ hq | load _ _ _ hq =>
    obtain ⟨lookup, clock, how, arming, rfl, -⟩ := boot_of_load hq
    exact .inl (Life.bootstrap_kills lookup clock how arming)
  | @kill _ _ _ _ _ _ l₀ hd hrun hq hlabel hl hp hm =>
    exact .inr ⟨l₀, hl, .kill hd hrun (by rw [← hm, hlabel]; exact hq)⟩
  | @unload _ _ _ _ _ _ lookup force sent hd hrun hq hlabel hsent hl =>
    rcases Life.unload_kills (l := l) lookup force sent with hk | ⟨hs, hu⟩
    · exact .inl hk
    rcases hl with hl | hl | hl
    · exact .inr ⟨l, hl, .unload (.request hd hrun hq hlabel) hs hu⟩
    · rw [hs] at hl
      cases hl
    · rw [hu] at hl
      cases hl
  | exit => exact .inl (Life.processExited_kills _ _)
  | @timer _ _ _ _ _ kind how =>
    cases kind with
    | throttle => exact .inl ((Life.enter_kills _ _).trans (Life.start_kills _ _))
    | periodic => exact .inl (Life.next_periodic ▸ Life.start_kills _ _)
  | @shutsDown _ _ _ _ _ sent hd hsig hrun hl hsent =>
    rcases Life.unload_kills (l := l) (Job.disabledIn l.manifest s.stateFile) true sent with hk | ⟨hs, hu⟩
    · exact .inl hk
    · exact .inr ⟨l, hl, .unload (.shutdown hd hsig hrun) hs hu⟩

/-- A signal that is new after a step went to a job the step signals. -/
theorem new_signals {r : Ref} (hinv : s.tables.Inv none) (hinv' : s'.tables.Inv none)
    (h : Fate.Steps (Given s e r) (Deleted s e r) (s.tables.fate r) (s'.tables.fate r)) :
    (s'.tables.history r).kills = (s.tables.history r).kills ∨ ∃ l, s.tables.fate r = .alive l ∧ Signals s e l := by
  rw [← fate_kills hinv, ← fate_kills hinv']
  refine h.keeps (Q := fun f => f.kills = (s.tables.fate r).kills ∨ ∃ l, s.tables.fate r = .alive l ∧ Signals s e l)
    (fun _ _ hf => hf) (fun l a hl _ hg => ?_) (fun _ hl _ _ => hl) (.inl rfl)
  rcases hl with hl | hl
  · exact hg.signals.imp_left fun hk => hk.trans hl
  · exact .inr hl

/-! ## The forced unloads -/

def KillsHeld (s : Sys) : Prop := ∀ k ∈ s.kernel.kills, ∀ c, k.child = some c → c.held

/-- Every job with a pid has an unreaped child, which leads its group. -/
structure PidsHeld (s : Sys) : Prop where
  once : ∀ (i k : Nat) (p q : Proc), s.kernel.procs[i]? = some p → s.kernel.procs[k]? = some q → p.held → q.held →
    p.pid = q.pid → i = k
  jobs : ∀ r j, s.heap r = some j → j.pid ≠ 0 → j.pid ≠ -1 ∧ (j.pgid = j.pid ∨ j.pgid = -1) ∧
    ∃ c, s.child r = some c ∧ c.pid = j.pid ∧ c.held

theorem PidsHeld.of_same (h : PidsHeld s) (hp : s'.kernel.procs = s.kernel.procs)
    (hh : ∀ r j', s'.heap r = some j' → j'.pid ≠ 0 → ∃ j, s.heap r = some j ∧ j'.pid = j.pid ∧ j'.pgid = j.pgid) : PidsHeld s' := by
  refine ⟨hp ▸ h.once, fun r j' hj' hpid => ?_⟩
  obtain ⟨j, hj, e, eg⟩ := hh r j' hj' hpid
  rw [Sys.child, hp, e, eg]
  exact h.jobs r j hj (e ▸ hpid)

theorem PidsHeld.updateJob (h : PidsHeld s) (r : Ref) {f : Job → Job} (hf : ∀ j, (f j).pid = j.pid ∧ (f j).pgid = j.pgid) :
    PidsHeld (s.updateJob r f) := by
  refine h.of_same rfl fun r' j' hj' _ => ?_
  simp only [Sys.updateJob, Function.update_apply] at hj'
  split at hj'
  · rename_i e
    obtain ⟨j, hj, rfl⟩ := Option.map_eq_some_iff.mp hj'
    exact ⟨j, e ▸ hj, hf j⟩
  · exact ⟨j', hj', rfl, rfl⟩

def reapPid (pid : Int) (procs : List Proc) : List Proc :=
  procs.map fun p => if p.pid == pid then { p with state := .reaped } else p

theorem reapPid_reapPid (pid : Int) (procs : List Proc) : reapPid pid (reapPid pid procs) = reapPid pid procs := by
  rw [reapPid, reapPid, List.map_map]
  refine List.map_congr_left fun p _ => ?_
  by_cases e : p.pid = pid
  · simp [e]
  · simp [e]

theorem getElem?_reapPid {pid : Int} {procs : List Proc} {i : Nat} {p' : Proc} (h : (reapPid pid procs)[i]? = some p') :
    ∃ p, procs[i]? = some p ∧ p'.pid = p.pid ∧ (p'.held → p' = p ∧ p.pid ≠ pid) := by
  rw [reapPid, List.getElem?_map] at h
  obtain ⟨p, hp, rfl⟩ := Option.map_eq_some_iff.mp h
  refine ⟨p, hp, ?_⟩
  by_cases e : p.pid = pid
  · simp [e, Proc.held]
  · simp [e]

theorem childOf_reapPid (pid : Int) (procs : List Proc) (r : Ref) :
    childOf (reapPid pid procs) r = (childOf procs r).map fun p => if p.pid == pid then { p with state := .reaped } else p := by
  have hsame : ∀ p : Proc, ((if p.pid == pid then { p with state := .reaped } else p).job == r &&
      (if p.pid == pid then { p with state := .reaped } else p).live) = (p.job == r && p.live) := by
    intro p
    split
    · rfl
    · rfl
  rw [childOf, reapPid, List.find?_map]
  congr 2
  funext p
  exact hsame p

/-- When the child of one job is reaped and its pid forgotten, the other jobs keep theirs. -/
theorem PidsHeld.forced (h : PidsHeld s) {r : Ref} {j : Job} (hj : s.heap r = some j) (hp : j.pid ≠ 0)
    (hprocs : s'.kernel.procs = reapPid j.pid s.kernel.procs) (hr : ∀ j', s'.heap r = some j' → j'.pid = 0)
    (hothers : ∀ r', r' ≠ r → s'.heap r' = s.heap r') : PidsHeld s' := by
  obtain ⟨-, -, c, hc, hcp, hheld⟩ := h.jobs r j hj hp
  refine ⟨fun i k p q hi hk hph hqh e => ?_, fun r' j' hj' hp' => ?_⟩
  · rw [hprocs] at hi hk
    obtain ⟨p', hi, -, he⟩ := getElem?_reapPid hi
    obtain ⟨q', hk, -, hf⟩ := getElem?_reapPid hk
    obtain ⟨rfl, -⟩ := he hph
    obtain ⟨rfl, -⟩ := hf hqh
    exact h.once i k p q hi hk hph hqh e
  · have hne : r' ≠ r := by
      rintro rfl
      exact hp' (hr j' hj')
    rw [hothers r' hne] at hj'
    obtain ⟨hp1, hg, c', hc', hcp', hheld'⟩ := h.jobs r' j' hj' hp'
    refine ⟨hp1, hg, c', ?_, hcp', hheld'⟩
    have hpid : c'.pid ≠ j.pid := by
      intro e
      obtain ⟨hm, hcr, -⟩ := childOf_some hc
      obtain ⟨hm', hcr', -⟩ := childOf_some hc'
      obtain ⟨i, hi⟩ := List.mem_iff_getElem?.mp hm
      obtain ⟨k, hk⟩ := List.mem_iff_getElem?.mp hm'
      have hik : i = k := h.once i k c c' hi hk hheld hheld' (hcp.trans e.symm)
      rw [hik, hk] at hi
      cases hi
      exact hne (hcr'.symm.trans hcr)
    rw [Sys.child, hprocs, childOf_reapPid, show childOf s.kernel.procs r' = some c' from hc', Option.map_some,
      if_neg (by simpa using hpid)]

theorem cancelTimerIfSet_pidsHeld (h : PidsHeld s) (hk : KillsHeld s) (r : Ref) :
    wp (Job.cancelTimerIfSet r) (fun _ s' => PidsHeld s' ∧ KillsHeld s') (fun _ => True) s := by
  rw [Job.cancelTimerIfSet, wp_bind]
  refine wp_this_of fun k _ => ?_
  rw [wp_ite]
  split
  swap
  · exact ⟨h, hk⟩
  rw [Job.cancelTimer, wp_bind]
  refine wp_this_of fun k _ => ?_
  split
  · trivial
  rw [wp_bind, deleteTimer, wp_bind, ignoreTimer, wp_bind, wp_get]
  split
  · trivial
  rw [wp_bind, wp_modify, wp_bind, wp_modify, wp_ite]
  split
  · rw [wp_pure, wp_modify, wp_setJob]
    refine ⟨PidsHeld.updateJob ?_ r fun _ => ⟨rfl, rfl⟩, hk⟩
    exact h.of_same rfl fun _ j hj _ => ⟨j, hj, rfl, rfl⟩
  · trivial

/-- The group of a job is gone with its child. -/
theorem killProcessGroup_reapPid {E : Sys → Prop} {r : Ref} {j : Job} {procs : List Proc} (hj : s.heap r = some j)
    (hg : j.pgid = j.pid ∨ j.pgid = -1) (hp : s.kernel.procs = reapPid j.pid procs) :
    wp (Job.killProcessGroup r) (fun _ s' => s'.kernel.procs = reapPid j.pid procs ∧ s'.heap = s.heap ∧
      s'.kernel.kills = s.kernel.kills) E s := by
  rw [Job.killProcessGroup, wp_bind, wp_this hj, wp_ite]
  split
  · exact ⟨hp, rfl, rfl⟩
  rename_i hneg
  have hpgid : j.pgid = j.pid := hg.resolve_right (by omega)
  rw [wp_ite]
  split
  · exact ⟨hp, rfl, rfl⟩
  · refine ⟨?_, rfl, rfl⟩
    have hreap : reapPid j.pgid s.kernel.procs = reapPid j.pid procs := by rw [hpgid, hp, reapPid_reapPid]
    exact hreap

theorem forceUnloadJob_pidsHeld {E : Sys → Prop} (h : PidsHeld s) (hk : KillsHeld s) (r : Ref) :
    wp (Job.forceUnloadJob r) (fun _ s' => PidsHeld s' ∧ KillsHeld s') E s := by
  apply wp_noexcept
  rw [wp_bind]
  refine wp_this_of fun j hj => ?_
  have hrest : ∀ s₁, PidsHeld s₁ → KillsHeld s₁ → wp (do
      Job.cancelTimerIfSet r
      setJob r fun j => { j with state := .unloaded }) (fun _ s' => PidsHeld s' ∧ KillsHeld s') (fun _ => True) s₁ := by
    intro s₁ h₁ hk₁
    rw [wp_bind]
    refine wp_mono (cancelTimerIfSet_pidsHeld h₁ hk₁ r) (fun _ s₂ h₂ => ?_) fun _ => id
    exact ⟨h₂.1.updateJob r fun _ => ⟨rfl, rfl⟩, h₂.2⟩
  dsimp only
  rw [wp_ite]
  split
  swap
  · exact hrest s h hk
  rename_i hp
  obtain ⟨hne, hg, c, hc, hcp, hheld⟩ := h.jobs r j hj hp
  rw [wp_bind, Job.logKill, wp_modify, wp_bind, nextKill, wp_answer, wp_bind, wp_modify, wp_bind]
  generalize hs₁ : Sys.updateKernel _ (Job.waitFor j.pid) = s₁
  have hprocs : s₁.kernel.procs = reapPid j.pid s.kernel.procs := by
    rw [← hs₁, Sys.updateKernel_kernel, Job.waitFor, if_neg hne]
    rfl
  have hheap : s₁.heap = s.heap := by rw [← hs₁]; rfl
  have hkills : KillsHeld s₁ := by
    rw [← hs₁]
    intro k hk' d hd
    rw [Sys.updateKernel_kernel, Job.waitFor, if_neg hne] at hk'
    rcases List.mem_append.mp hk' with hk' | hk'
    · exact hk k hk' d hd
    · rw [List.mem_singleton.mp hk'] at hd
      obtain rfl : c = d := Option.some.inj (hc.symm.trans hd)
      exact hheld
  refine wp_mono (killProcessGroup_reapPid (s := s₁) (by rw [hheap]; exact hj) hg hprocs) (fun _ s₂ h₂ => ?_) fun _ => id
  obtain ⟨hprocs₂, hheap₂, hkills₂⟩ := h₂
  rw [wp_bind, deleteProcess, wp_modify, wp_bind, wp_setJob]
  refine hrest _ (h.forced hj hp hprocs₂ (fun j' hj' => ?_) fun r' hne => ?_) ?_
  · simp only [Sys.updateJob, Function.update_self, Option.map_eq_some_iff] at hj'
    obtain ⟨_, -, rfl⟩ := hj'
    rfl
  · exact (Function.update_of_ne hne ..).trans (congrFun (hheap₂.trans hheap) r')
  · exact fun k hk' => hkills k (hkills₂ ▸ hk')

/-- No signal of a second shutdown goes astray. -/
theorem forced_held {E : Sys → Prop} (hinv : s.tables.Inv none) (h : PidsHeld s) (hk : KillsHeld s) (hs : s.state = .gracefulShutdown) :
    wp (do
      Manager.forceUnloadAllJobs
      Manager.execute [] .allJobsExited) (fun _ => KillsHeld) E s := by
  rw [wp_bind]
  apply wp_noexcept
  rw [wp_bind, wp_get, wp_bind]
  refine wp_mono visiting_spec ?_ fun _ => id
  intro order s₁ h'
  obtain ⟨-, htook⟩ := h'
  have hpidsHeld : PidsHeld s₁ := h.of_same (congrArg Tables.procs htook.tables) fun r j hj _ =>
    ⟨j, (congrFun (congrArg Tables.heap htook.tables) r).symm.trans hj, rfl, rfl⟩
  have hheld : KillsHeld s₁ := by
    intro k hk'
    rw [show s₁.kernel.kills = s.kernel.kills from congrArg Tables.kills htook.tables] at hk'
    exact hk k hk'
  have hloop : wp (forEach Manager.forceUnloadOne order) (fun _ s' => PidsHeld s' ∧ KillsHeld s') (fun _ => True) s₁ := by
    refine wp_forEach (I := fun s' => PidsHeld s' ∧ KillsHeld s') ⟨hpidsHeld, hheld⟩ fun label _ s₂ h₂ => ?_
    rw [Manager.forceUnloadOne, wp_bind, wp_get]
    cases s₂.jobs.lookup label with
    | none => exact h₂
    | some r => exact forceUnloadJob_pidsHeld h₂.1 h₂.2 r
  rw [wp_bind]
  refine wp_mono (wp_and (forceEach_spec (E := fun _ => True) hinv ((Forcing.refl s).took htook) order) hloop) (fun _ s₂ h₂ => ?_) fun _ _ => trivial
  obtain ⟨hforcing, -, hheld₂⟩ := h₂
  rw [wp_modify, execute_allJobsExited]
  · rw [foldl_destroy]
    exact hheld₂
  · rw [foldl_destroy]
    exact hforcing.state.trans hs

/-! ## A step -/

theorem Write.kills_prefix {may : Effect → Prop} (h : Write may s s') : s.kernel.kills <+: s'.kernel.kills := by
  cases h with
  | kills r pid sig => exact List.prefix_append ..
  | answers | time | kernel | forks | fades | dispatches | eventmgr | job | records | creates | destroys | boots | booted | deletes
  | clears | overrides | manager | replies => exact List.prefix_rfl

theorem Writes.kills_prefix (h : Writes anyEffect s s') : s.kernel.kills <+: s'.kernel.kills := by
  induction h with
  | refl => exact List.prefix_rfl
  | tail _ hw ih => exact ih.trans hw.kills_prefix

/-- A signal that is new is in its job's history. -/
theorem history_kills_ne {k : Kill} (hp : s.kernel.kills <+: s'.kernel.kills) (hk' : k ∈ s'.kernel.kills) (hk : k ∉ s.kernel.kills) :
    (s'.tables.history k.job).kills ≠ (s.tables.history k.job).kills := by
  obtain ⟨new, hnew⟩ := hp
  have hmem : k ∈ new.filter (·.job == k.job) := by
    rw [← hnew] at hk'
    exact List.mem_filter.mpr ⟨(List.mem_append.mp hk').resolve_left hk, by simp⟩
  intro e
  have hlen : ((s.kernel.kills ++ new).filter (·.job == k.job)).length = (s.kernel.kills.filter (·.job == k.job)).length := by
    have hpids : ((s'.kernel.kills.filter (·.job == k.job)).map (·.pid)).length =
        ((s.kernel.kills.filter (·.job == k.job)).map (·.pid)).length := congrArg List.length e
    rwa [List.length_map, List.length_map, ← hnew] at hpids
  rw [List.filter_append, List.length_append] at hlen
  exact absurd (List.length_pos_of_mem hmem) (by omega)

/-- Taking a request or a signal leaves the jobs as they are. -/
theorem Takes.still {answers : Answers} {event : Event} {u : Sys} (h : Sound s) (ht : Takes (s.given answers) event u)
    (he : (∃ message, event = .socket message) ∨ ∃ sig, event = .signal sig) : Still s u := by
  have hgiven : Still s (s.given answers) := given_woken h.inv answers
  cases ht with
  | @queued w _ rest hw hq =>
    rcases he with ⟨message, rfl⟩ | ⟨sig, rfl⟩
    · exact (hw.inv.kinds (.socket message) (by rw [show w.tables.eventmgr.pendingEvents = _ from hq]; exact List.mem_cons_self)).elim
    · exact hgiven.trans (popped_woken hw hq rfl fun _ => rfl).toStill
  | socket => exact hgiven
  | timer =>
    rcases he with ⟨_, he⟩ | ⟨_, he⟩
    · cases he
    · cases he

/-- The step that destroys the jobs signals unreaped processes only. -/
theorem next_forced_held (h : Sound s) (hpids : ∀ r, (s.tables.fate r).Signalled) (hC : SignalsUnreaped s e) (hn : Next s e s')
    (hf : Forces s e) (hk : KillsHeld s) : KillsHeld s' := by
  obtain ⟨hgrace, sig, hsig, hd⟩ := hf
  obtain ⟨wakeup, answers, u, rfl, hnext, hdispatch⟩ := hn.dispatches hd
  have htakes : Takes (s.given answers) (.signal sig) u :=
    wp_ok (Q := Waits (s.given answers)) (nextEvent_spec (s := s.given answers) h.inv wakeup) hnext
  have hstill : Still s u := htakes.still h (.inr ⟨sig, rfl⟩)
  have hpidsHeld : PidsHeld u := by
    refine ⟨hstill.inv.forked.heldOnce, fun r j hj hp => ?_⟩
    have hj' : s.heap r = some j := hstill.heap ▸ hj
    have hl : s.tables.fate r = .alive (s.tables.lifeOf r j) := fate_alive hj'
    have hboot : (s.tables.lifeOf r j).boot ≠ .pending := fun hb => hp (congrArg Life.pid ((h.inv.good r j hj').fresh hb))
    have hsignals : Signals s (.handleEvent wakeup answers) (s.tables.lifeOf r j) := .force ⟨hgrace, sig, hsig, hd⟩ hboot
    have hne : j.pid ≠ -1 := hC.pid h hl hsignals
    have hpos : 0 < j.pid := by
      have hsig := hpids r
      rw [hl] at hsig
      have hpid : 0 ≤ j.pid ∨ j.pid = -1 := hsig.1
      omega
    obtain ⟨c, hc, hcp⟩ := Option.map_eq_some_iff.mp
      (show childPid s.kernel.procs r = some j.pid from (h.inv.good r j hj').pidChild hpos)
    obtain ⟨hheld, hc'⟩ := hC.stays h hl hsignals hc hstill hnext
    refine ⟨hne, ?_, c, hc', hcp, hheld⟩
    rw [← hcp]
    exact hstill.inv.group r j c hj hc'
  have hkills : KillsHeld u := by
    intro k hk'
    exact hk k (hstill.kills ▸ hk')
  refine wp_ok (Q := fun _ => KillsHeld) (E := fun _ => True) ?_ hdispatch
  refine wp_signalCallback hsig fun pendingResult => ?_
  have hpidsHeld' : PidsHeld { u with pendingResult } := hpidsHeld.of_same rfl fun _ j hj _ => ⟨j, hj, rfl, rfl⟩
  have hinv : ({ u with pendingResult } : Sys).tables.Inv none := hstill.inv
  have hkills' : KillsHeld { u with pendingResult } := hkills
  have hstate : ({ u with pendingResult } : Sys).state = .gracefulShutdown := hstill.state.trans hgrace
  generalize ({ u with pendingResult } : Sys) = v at hpidsHeld' hinv hkills' hstate ⊢
  rw [Manager.handleShutdownSignal, wp_bind, wp_get, hstate]
  exact forced_held hinv hpidsHeld' hkills' hstate

/-- So does any other step that meets the condition. -/
theorem next_held (h : Sound s) (hpids : ∀ r, (s.tables.fate r).Signalled) (hC : SignalsUnreaped s e) (hn : Next s e s')
    (hk : KillsHeld s) : KillsHeld s' := by
  by_cases hforces : Forces s e
  · exact next_forced_held h hpids hC hn hforces hk
  rcases next_lives h hn with ⟨hsound, hsteps⟩ | ⟨w, hforces', -⟩
  swap
  · exact absurd hforces' hforces
  intro k hk' c hc
  by_cases hold : k ∈ s.kernel.kills
  · exact hk k hold c hc
  obtain ⟨l, hl, hsignals⟩ := (new_signals h.inv hsound.inv (hsteps k.job)).resolve_left
    (history_kills_ne hn.writes.kills_prefix hk' hold)
  have hsent : ∃ wakeup answers event u, e = .handleEvent wakeup answers ∧
      nextEvent wakeup (s.given answers) = .ok (some event) u ∧ Still s u ∧ SentSince u s' := by
    have hmessage : ∀ message, e.dispatched s = some (.socket message) → ∃ wakeup answers event u, e = .handleEvent wakeup answers ∧
        nextEvent wakeup (s.given answers) = .ok (some event) u ∧ Still s u ∧ SentSince u s' := by
      intro message hd
      obtain ⟨wakeup, answers, u, rfl, hnext, hdispatch⟩ := hn.dispatches hd
      have htakes : Takes (s.given answers) (.socket message) u :=
        wp_ok (Q := Waits (s.given answers)) (nextEvent_spec (s := s.given answers) h.inv wakeup) hnext
      exact ⟨wakeup, answers, _, u, rfl, hnext, htakes.still h (.inl ⟨message, rfl⟩),
        wp_ok (Q := fun _ => SentSince u) (socket_sent message) hdispatch⟩
    cases hsignals with
    | kill hd => exact hmessage _ hd
    | unload hasks =>
      cases hasks with
      | request hd => exact hmessage _ hd
      | @shutdown _ _ sig _ hd hsig hrun =>
        obtain ⟨wakeup, answers, u, e', hnext, hdispatch⟩ := hn.dispatches hd
        have htakes : Takes (s.given answers) (.signal sig) u :=
          wp_ok (Q := Waits (s.given answers)) (nextEvent_spec (s := s.given answers) h.inv wakeup) hnext
        have hstill : Still s u := htakes.still h (.inr ⟨sig, rfl⟩)
        exact ⟨wakeup, answers, _, u, e', hnext, hstill,
          wp_ok (Q := fun _ => SentSince u) (signal_sent hsig (hstill.state.trans hrun)) hdispatch⟩
    | force hf => exact absurd hf hforces
  obtain ⟨wakeup, answers, event, u, rfl, hnext, hstill, hsent⟩ := hsent
  obtain ⟨hcj, -, hbefore⟩ := (hsent.kills k hk').resolve_left (fun hku => hold (hstill.kills ▸ hku)) c hc
  rcases hbefore with hheld | ⟨p, hp, hpj, hlive, hreaped⟩
  · exact hheld
  -- the job's child was unreaped when the event was taken
  obtain ⟨i, hi⟩ := List.mem_iff_getElem?.mp hp
  have hup : u.child k.job = some p := by
    rw [← hcj, ← hpj]
    exact hstill.inv.forked.childOf_eq hi hlive
  obtain ⟨p₀, hi₀, hfade⟩ := hstill.procs.get hi
  have hsp : s.child k.job = some p₀ := by
    rw [← hcj, ← hpj, hfade.job]
    exact h.inv.forked.childOf_eq hi₀ (hfade.live ▸ hlive)
  obtain ⟨hheld, hup₀⟩ := hC.stays h hl hsignals hsp hstill hnext
  rw [hup] at hup₀
  cases hup₀
  rw [hreaped] at hheld
  cases hheld

/-! ## Every signal -/

/-- A job's signals are on record in its history. -/
theorem mem_history_kills {k : Kill} (hk : k ∈ s.kernel.kills) : k.pid ∈ (s.tables.history k.job).kills :=
  List.mem_map_of_mem (List.mem_filter.mpr ⟨hk, by simp⟩)

theorem Sound.kill_pos (h : Sound s) (hf : ∀ r, (s.tables.fate r).Signalled) {k : Kill} (hk : k ∈ s.kernel.kills) : 0 < k.pid := by
  have hpos := hf k.job
  unfold fate at hpos
  split at hpos
  · exact hpos.2 _ (mem_history_kills hk)
  · rw [if_pos (h.inv.killed k hk).1] at hpos
    exact hpos _ (mem_history_kills hk)

/-- As long as the manager is not finished, the pids are sound. -/
theorem runs_signalled (h : Runs SignalsUnreaped s) (hs : s.state ≠ .finished) : ∀ r, (s.tables.fate r).Signalled :=
  h.fates (Q := Fate.Signalled) trivial (fun _ _ => ⟨.inl le_rfl, nofun⟩)
    (fun _ _ _ _ _ _ hs hC ha he hl => hl.next hs hC ha he) (fun _ _ _ _ _ _ _ _ _ hl => hl.2) hs

theorem runs_killsHeld (h : Runs SignalsUnreaped s) : KillsHeld s := by
  induction h with
  | init hi =>
    obtain ⟨stateFile, now, users, rfl⟩ := hi
    intro k hk
    cases hk
  | @step s s' e hr hn ih => exact next_held (Runs.sound hr hn.1.1) (runs_signalled hr hn.1.1) hn.2 hn.1 ih

/-- In every run in which no job is signalled after a fork for it failed, or once its child is
    reaped, every pid that goes to `kill(2)` is positive, and a process forked for the job holds it. -/
theorem signals_own (h : Runs SignalsUnreaped s) : SignalsOwn s := by
  have hforked := reachable_killsForked h.reachable
  have hheld := runs_killsHeld h
  have hown : ∀ k ∈ s.kernel.kills, 0 < k.pid → (0 < k.pid → ∃ c, k.child = some c ∧ c.job = k.job ∧ c.pid = k.pid) →
      0 < k.pid ∧ (∃ c, k.child = some c ∧ c.job = k.job ∧ c.pid = k.pid ∧ c.held) ∧
        ∃ p ∈ s.kernel.procs, p.job = k.job ∧ p.pid = k.pid := by
    intro k hk hpos hchild
    obtain ⟨c, hc, hcj, hcp⟩ := hchild hpos
    obtain ⟨p, hp, hpj, hpp⟩ := hforked k hk c hc
    exact ⟨hpos, ⟨c, hc, hcj, hcp, hheld k hk c hc⟩, p, hp, hpj.trans hcj, hpp.trans hcp⟩
  rcases h.fates_cases (Q := Fate.Signalled) trivial (fun _ _ => ⟨.inl le_rfl, nofun⟩)
    (fun _ _ _ _ _ _ hs hC ha he hl => hl.next hs hC ha he) (fun _ _ _ _ _ _ _ _ _ hl => hl.2) with
    ⟨hsound, hfates⟩ | ⟨s₀, e, w, hsound, hC, hforces, hw, hf, hfates⟩
  · exact fun k hk => hown k hk (hsound.kill_pos hfates hk) (hsound.inv.killed k hk).2.2
  · intro k hk
    rcases hf.kills k hk with hk' | ⟨j, hj, hb, hp, hp0, hchild⟩
    · have hsound' : Sound w := hsound.still hw
      have hpos := hsound'.kill_pos (fun r => hw.fates r ▸ hfates r) hk'
      exact hown k hk hpos (hsound'.inv.killed k hk').2.2
    · have hl : s₀.tables.fate k.job = .alive (w.tables.lifeOf k.job j) := (hw.fates k.job).symm.trans (fate_alive hj)
      have hsig := hfates k.job
      rw [hl] at hsig
      have hne : j.pid ≠ -1 := hC.pid hsound hl (.force hforces hb)
      have hpid : 0 ≤ j.pid ∨ j.pid = -1 := hsig.1
      exact hown k hk (by omega) hchild

def forkFailsRun (fork : ForkAnswer) : List Ev :=
  [startWith [("RunAtLoad", .bool true)] { forks := [fork] }, requestOf "kill" [("Label", .str "job"), ("Signal", .str "TERM")]]

/-- The signal goes to every process launchd may signal. -/
theorem signals_all : ¬ ∀ s, Reachable s → SignalsOwn s := by
  intro h
  obtain ⟨s, hs, hp⟩ := reachable_of_run (forkFailsRun .noFork) (fun s => s.kernel.kills.any (·.pid == -1)) (by decide +kernel)
  obtain ⟨k, hk, hkp⟩ := List.any_eq_true.mp hp
  have hpos := (h s hs k hk).1
  rw [beq_iff_eq.mp hkp] at hpos
  cases hpos

/-- A child that exits is reaped with the batch of signals that the shutdown is in, and signalled. -/
example : ∃ s, Reachable s ∧ s.kernel.kills.any (fun k => k.child.any (!·.held)) = true :=
  reachable_of_run [startWith [("RunAtLoad", .bool true)] { forks := [.started 7 true] }, .childExits 0 (.exited 0),
    .signalSent .sigterm, .handleEvent (.signal [.sigterm, .sigchld] [0]) {}] _ (by decide +kernel)

/-- Before a request or a signal is handled, every job's child is unreaped, and it stays so. -/
def unreapedRun (s : Sys) (e : Ev) : Bool :=
  match e.dispatched s with
  | some (.socket _) | some (.signal _) =>
    s.kernel.signals.all (· != .sigchld) && s.jobs.entries.all fun entry =>
      (s.heap entry.2).any (·.pid != -1) && (s.child entry.2).all (·.held)
  | _ => true

theorem Signals.dispatched {l : Life} (h : Signals s e l) :
    (∃ message, e.dispatched s = some (.socket message)) ∨ ∃ sig, e.dispatched s = some (.signal sig) := by
  cases h with
  | kill hd => exact .inl ⟨_, hd⟩
  | unload hasks =>
    cases hasks with
    | request hd => exact .inl ⟨_, hd⟩
    | shutdown hd => exact .inr ⟨_, hd⟩
  | force hf =>
    obtain ⟨-, sig, -, hd⟩ := hf
    exact .inr ⟨sig, hd⟩

theorem SignalsUnreaped.of_unreapedRun (h : unreapedRun s e) : SignalsUnreaped s e := by
  intro label r l hr hl hsignals
  have hjobs : (s.kernel.signals.all (· != .sigchld) && s.jobs.entries.all fun entry =>
      (s.heap entry.2).any (·.pid != -1) && (s.child entry.2).all (·.held)) = true := by
    rcases hsignals.dispatched with ⟨message, hd⟩ | ⟨sig, hd⟩
    · rwa [unreapedRun, hd] at h
    · rwa [unreapedRun, hd] at h
  simp only [Bool.and_eq_true, List.all_eq_true] at hjobs
  obtain ⟨hquiet, hall⟩ := hjobs
  obtain ⟨hpid, hheld⟩ := hall ⟨label, r⟩ (AList.mem_lookup_iff.mp hr)
  obtain ⟨j, hj, rfl⟩ := fate_eq_alive hl
  rw [show s.heap r = some j from hj] at hpid
  refine ⟨by simpa using hpid, fun c hc => ⟨?_, fun hreaps => ?_⟩⟩
  · rw [hc] at hheld
    exact hheld
  · exact absurd (hquiet _ hreaps.2.1) (by decide)

def signalledRun : List Ev :=
  [startWith [("RunAtLoad", .bool true), ("KeepAlive", .bool true)] { forks := [.started 7 true] },
    requestOf "kill" [("Label", .str "job"), ("Signal", .str "TERM")], .timePasses 20000, .childExits 0 (.signaled 15),
    .handleEvent (.signal [.sigchld] [0]) { forks := [.started 8 true] },
    .signalSent .sigterm, .handleEvent (.signal [.sigterm] []) {}, .signalSent .sigterm, .handleEvent (.signal [.sigterm] []) {}]

theorem signals_own_killed : ∃ s, Runs SignalsUnreaped s ∧
    s.kernel.kills.map (fun k => (k.pid, k.sig)) = [(7, SIGTERM), (8, SIGTERM), (8, SIGKILL)] ∧ SignalsOwn s := by
  obtain ⟨s, hs, hp⟩ := runs_of_run (C := SignalsUnreaped) unreapedRun signalledRun
    (fun s => s.kernel.kills.map (fun k => (k.pid, k.sig)) == [(7, SIGTERM), (8, SIGTERM), (8, SIGKILL)])
    (fun s e _ hc => .of_unreapedRun hc) (by decide +kernel)
  exact ⟨s, hs, by simpa using hp, signals_own hs⟩

end Relaunchd
