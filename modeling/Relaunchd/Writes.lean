/-
  Relaunchd.Writes — every change the program makes to its state, one at a time.

  `Write` lists the changes. A program is `Traced` when the state it starts in and the one
  it ends in, however it ends, are a number of them apart; every step of the program is. So
  what each write keeps holds after every step, and after one that throws as well.
-/

import Relaunchd.Tables

namespace Relaunchd

open Prog EventManager

inductive Effect where
  | override (label : String) (enabled : Bool)
  /-- A job leaves `pending_jobs` to be bootstrapped. -/
  | boot
  /-- The exit of a job's child goes on record. -/
  | record
  /-- A client gets its reply. -/
  | reply
  /-- A process exits, or is reaped. -/
  | reap

/-- One change, of those a program may make. A job's `started_at` is only ever set to what
    the clock reads. -/
inductive Write (may : Effect → Prop) (s : Sys) : Sys → Prop
  | answers (answers : Answers) : answers.writes = s.kernel.answers.writes ∨ may .reply →
      Write may s (s.updateKernel fun k => { k with answers })
  | time (ms : Nat) : Write may s (s.updateKernel fun k => { k with now := k.now + ms })
  | kernel (timerfds : AList fun _ : Fd => TimerFd) (signals : List Signal) (groupKills : List (Ref × Int)) :
      Write may s (s.updateKernel fun k => { k with timerfds, signals, groupKills })
  | kills (r : Ref) (pid sig : Int) :
      Write may s (s.updateKernel fun k => { k with kills := k.kills ++ [⟨r, pid, sig, s.child r⟩] })
  | forks (p : Proc) : p.dispatched = [] → (p.live → p.held) →
      Write may s (s.updateKernel fun k => { k with procs := k.procs ++ [p] })
  | fades (procs : List Proc) : may .reap → Fading s.kernel.procs procs →
      Write may s (s.updateKernel fun k => { k with procs })
  | dispatches (child : Nat) (r : Ref) : Write may s (s.updateKernel (·.dispatch child r))
  | eventmgr (f : EventManager → EventManager) : Write may s (s.updateEventmgr f)
  | job (r : Ref) (f : Job → Job) : (∀ j, (f j).manifest = j.manifest) →
      (∀ j, (f j).startedAt = j.startedAt ∨ (f j).startedAt = some (s.kernel.now / 1000)) →
      (∀ j, (f j).lastExitStatus = j.lastExitStatus) → Write may s (s.updateJob r f)
  | records (r : Ref) (status : WaitStatus) : may .record → Write may s (s.updateJob r (Job.recordExit status))
  | creates (manifest : Manifest) (path : String) :
      s.jobs.lookup manifest.label = none → s.pendingJobs.lookup manifest.label = none →
      (∃ disabled, Manager.overrideDisables manifest.label s.stateFile = .ok disabled) → Write may s
      { s with
        heap := Function.update s.heap s.nextRef (some { manifest, manifestPath := path })
        pendingJobs := insertNew manifest.label (some s.nextRef) s.pendingJobs
        nextRef := s.nextRef + 1 }
  | destroys (r : Ref) : Write may s (Manager.destroy r s)
  | boots (label : String) (r : Ref) : may .boot → s.jobs.lookup label = none → s.pendingJobs.lookup label = some (some r) →
      Write may s { s with jobs := s.jobs.insert label r, pendingJobs := s.pendingJobs.insert label none }
  | booted : may .boot → Write may s { s with pendingJobs := ∅ }
  | deletes (label : String) : Write may s { s with jobs := s.jobs.erase label }
  | clears : Write may s { s with jobs := ∅ }
  | overrides (label : String) (enabled : Bool) (doc : Json) : may (.override label enabled) →
      Manager.overridden label enabled s.stateFile = .ok doc →
      Write may s { s with stateFile := doc, overrides := s.overrides ++ [(label, enabled)] }
  | manager (state : Manager.States) (listening : Bool) (pendingResult : ManagerResult) (starts : List StartCall) :
      Write may s { s with state, listening, pendingResult, starts }
  | replies (reply : Json) : may .reply → Write may s { s with replies := s.replies ++ [reply] }

section Write

variable {may : Effect → Prop} {s s' : Sys}

theorem Write.now (h : Write may s s') : s.kernel.now ≤ s'.kernel.now := by
  cases h with
  | time ms => exact Nat.le_add_right _ _
  | answers | kernel | kills | forks | fades | dispatches | eventmgr | job | records | creates | destroys | boots | booted | deletes
  | clears | overrides | manager | replies => exact le_rfl

theorem Write.nextRef (h : Write may s s') : s.nextRef ≤ s'.nextRef := by
  cases h with
  | creates => exact Nat.le_succ _
  | answers | time | kernel | kills | forks | fades | dispatches | eventmgr | job | records | destroys | boots | booted | deletes
  | clears | overrides | manager | replies => exact le_rfl

/-- A job is new, or it was there with the same manifest. -/
theorem Write.heap (h : Write may s s') {r : Ref} {j' : Job} (hj : s'.heap r = some j') :
    (r = s.nextRef ∧ j'.startedAt = none) ∨ ∃ j, s.heap r = some j ∧ j'.manifest = j.manifest ∧
      (j'.startedAt = j.startedAt ∨ j'.startedAt = some (s.kernel.now / 1000)) := by
  cases h with
  | job r' f hm hf =>
    simp only [Sys.updateJob, Function.update_apply] at hj
    split at hj
    · rename_i e
      obtain ⟨j, hs, rfl⟩ := Option.map_eq_some_iff.mp hj
      exact .inr ⟨j, e ▸ hs, hm j, hf j⟩
    · exact .inr ⟨j', hj, rfl, .inl rfl⟩
  | records r' status =>
    simp only [Sys.updateJob, Function.update_apply] at hj
    split at hj
    · rename_i e
      obtain ⟨j, hs, rfl⟩ := Option.map_eq_some_iff.mp hj
      exact .inr ⟨j, e ▸ hs, Job.recordExit_manifest status j, .inl (Job.recordExit_startedAt status j)⟩
    · exact .inr ⟨j', hj, rfl, .inl rfl⟩
  | creates manifest path =>
    simp only [Function.update_apply] at hj
    split at hj
    · rename_i e
      cases hj
      exact .inl ⟨e, rfl⟩
    · exact .inr ⟨j', hj, rfl, .inl rfl⟩
  | destroys r' =>
    simp only [Manager.destroy, Function.update_apply] at hj
    split at hj
    · cases hj
    · exact .inr ⟨j', hj, rfl, .inl rfl⟩
  | answers | time | kernel | kills | forks | fades | dispatches | eventmgr | boots | booted | deletes | clears | overrides
  | manager | replies =>
    exact .inr ⟨j', hj, rfl, .inl rfl⟩

/-- A process stays in its place, and what was dispatched of it stays on record. -/
structure Proc.Follows (p p' : Proc) : Prop where
  pid : p'.pid = p.pid
  job : p'.job = p.job
  dispatched : p.dispatched <+: p'.dispatched

theorem Proc.Follows.refl (p : Proc) : p.Follows p := ⟨rfl, rfl, List.prefix_rfl⟩

theorem Proc.Follows.trans {p p' p'' : Proc} (h : p.Follows p') (h' : p'.Follows p'') : p.Follows p'' :=
  ⟨h'.pid.trans h.pid, h'.job.trans h.job, h.dispatched.trans h'.dispatched⟩

theorem Write.proc (h : Write may s s') {i : Nat} {p : Proc} (hp : s.kernel.procs[i]? = some p) :
    ∃ p', s'.kernel.procs[i]? = some p' ∧ p.Follows p' := by
  cases h with
  | forks q => exact ⟨p, (List.getElem?_append_left (List.getElem?_eq_some_iff.mp hp).1).trans hp, .refl p⟩
  | fades procs _ hf =>
    obtain ⟨p', hp', hfade⟩ := hf.get_of hp
    exact ⟨p', hp', hfade.pid, hfade.job, hfade.dispatched ▸ List.prefix_rfl⟩
  | dispatches child r =>
    by_cases e : child = i
    · subst e
      refine ⟨{ p with dispatched := p.dispatched ++ [r] }, ?_, rfl, rfl, List.prefix_append ..⟩
      exact (List.getElem?_modify_eq ..).trans (by rw [hp]; rfl)
    · exact ⟨p, (List.getElem?_modify_ne _ _ e).trans hp, .refl p⟩
  | answers | time | kernel | kills | eventmgr | job | records | creates | destroys | boots | booted | deletes | clears | overrides
  | manager | replies => exact ⟨p, hp, .refl p⟩

end Write

abbrev Writes (may : Effect → Prop) : Sys → Sys → Prop := Relation.ReflTransGen (Write may)

theorem Writes.proc {s s' : Sys} (h : Writes may s s') {i : Nat} {p : Proc} (hp : s.kernel.procs[i]? = some p) :
    ∃ p', s'.kernel.procs[i]? = some p' ∧ p.Follows p' := by
  induction h with
  | refl => exact ⟨p, hp, .refl p⟩
  | tail _ hw ih =>
    obtain ⟨p₁, hp₁, hf₁⟩ := ih
    obtain ⟨p₂, hp₂, hf₂⟩ := hw.proc hp₁
    exact ⟨p₂, hp₂, hf₁.trans hf₂⟩

def Traced (may : Effect → Prop) (x : M α) : Prop := Within (fun _ => True) (Writes may) x

theorem Sys.ticked_writes (s : Sys) : Writes may s s.ticked := by
  refine .tail (.single (.answers { s.kernel.answers with ticks := s.kernel.answers.ticks.tail } (.inl rfl))) ?_
  exact .time (s.kernel.answers.ticks.headD 0)

namespace Traced

variable {α β : Type} {may : Effect → Prop}

/-! ## Building blocks -/

theorem bind {x : M α} {f : α → M β} (hx : Traced may x) (hf : ∀ a, Traced may (f a)) : Traced may (x >>= f) :=
  Within.bind (fun _ _ _ _ => trivial) (fun _ _ _ h h' => h.trans h') hx hf

theorem catches {x : M α} {h : String → M α} (hx : Traced may x) (hh : ∀ w, Traced may (h w)) : Traced may (tryCatch x h) :=
  Within.tryCatch (fun _ _ _ _ => trivial) (fun _ _ _ h h' => h.trans h') hx hh

theorem loops {f : β → M Unit} (bs : List β) (hf : ∀ b, Traced may (f b)) : Traced may (forEach f bs) :=
  Within.forEach (fun _ _ => .refl) (fun _ _ _ _ => trivial) (fun _ _ _ h h' => h.trans h') bs hf

theorem same {x : M α} (h : ∀ s, wp x (fun _ s' => s' = s) (fun s' => s' = s) s) : Traced may x :=
  Within.of_same (fun _ _ => .refl) h

theorem done (a : α) : Traced may (pure a) := same fun _ => rfl

theorem throws (w : String) : Traced may (throw w : M α) := same fun _ => rfl

theorem crashes (w : String) : Traced may (crash w : M α) := fun _ _ => trivial

theorem reads (f : Sys → α) : Traced may (gets f) := same fun _ => rfl

theorem readsAll : Traced may (get : M Sys) := same fun _ => rfl

theorem derefs (r : Ref) : Traced may (this r) := same fun _ => wp_this_of fun _ _ => rfl

theorem decodes (d : Decode α) : Traced may (ofDecode d) := same fun _ => wp_ofDecode (fun _ _ => rfl) fun _ _ => rfl

theorem branches (c : Prop) [Decidable c] {x y : M α} (hx : Traced may x) (hy : Traced may y) :
    Traced may (if c then x else y) := by
  split
  · exact hx
  · exact hy

theorem writes {f : Sys → Sys} (h : ∀ s, Write may s (f s)) : Traced may (modify f) := fun s _ => .single (h s)

theorem noexcepts {x : M α} (h : Traced may x) : Traced may (noexcept x) := h.catches fun _ => crashes _

/-! ## Answers and the clock -/

theorem answers {field : Answers → List α} {rest : Answers → List α → Answers} {success : α}
    (h : ∀ a as, (rest a as).writes = a.writes ∨ may .reply) : Traced may (answer field rest success) :=
  fun _ _ => .single (.answers _ (h _ _))

theorem visits (keys : List String) : Traced may (visiting keys) := (answers (by intros; exact .inl rfl)).bind fun _ => done _

theorem passTime : Traced may passTime := (answers (by intros; exact .inl rfl)).bind fun _ => writes fun _ => .time _

theorem currentTime : Traced may currentTime := passTime.bind fun _ => reads _

/-- Some fields of a job change. -/
theorem sets (r : Ref) (f : Job → Job) (hm : ∀ j, (f j).manifest = j.manifest) (hs : ∀ j, (f j).startedAt = j.startedAt)
    (hl : ∀ j, (f j).lastExitStatus = j.lastExitStatus) : Traced may (setJob r f) :=
  writes fun _ => .job r f hm (fun j => .inl (hs j)) hl

/-- The clock is read, and the reading becomes a job's `started_at`. -/
theorem stamps {r : Ref} {f : Nat → Job → Job} {x : Nat → M α} (hm : ∀ now j, (f now j).manifest = j.manifest)
    (hs : ∀ now j, (f now j).startedAt = some now) (hl : ∀ now j, (f now j).lastExitStatus = j.lastExitStatus)
    (hx : ∀ now, Traced may (x now)) :
    Traced may (do
      let now ← Relaunchd.currentTime
      setJob r (f now)
      x now) := by
  intro s _
  rw [wp_bind, wp_currentTime, wp_bind, wp_setJob, Sys.clock_one]
  have h : Writes may s (s.ticked.updateJob r (f (s.ticked.kernel.now / 1000))) :=
    s.ticked_writes.tail (.job r _ (hm _) (fun j => .inr (hs _ j)) (hl _))
  exact wp_mono (hx _ _ trivial) (fun _ _ h' => h.trans h') fun _ h' => h.trans h'

/-! ## Timers and processes -/

theorem timerfdCreate : Traced may timerfdCreate :=
  (answers (by intros; exact .inl rfl)).bind fun a => by
    cases a with
    | noFd => exact throws _
    | noWatch | watched => exact reads _

theorem setTimerfd (tfd : Fd) (watched : Bool) (state : Kernel → TimerState) : Traced may (setTimerfd tfd watched state) :=
  writes fun s => .kernel (s.kernel.timerfds.insert tfd { state := state s.kernel, watched }) s.kernel.signals s.kernel.groupKills

theorem monitorTimer (timerId : Nat) (milliseconds : Int) : Traced may (monitorTimer timerId milliseconds) :=
  timerfdCreate.bind fun _ => (setTimerfd _ _ _).bind fun _ => (writes fun _ => .eventmgr _).bind fun _ =>
    branches _ (throws _) <| (setTimerfd _ _ _).bind fun _ =>
      branches _ ((setTimerfd _ _ _).bind fun _ => writes fun _ => .eventmgr _) (throws _)

theorem addTimer (milliseconds : Int) (r : Ref) (kind : TimerKind) : Traced may (addTimer milliseconds r kind) :=
  (readsAll.bind fun _ => (writes fun _ => .eventmgr _).bind fun _ => done _).bind fun _ =>
    (monitorTimer _ _).bind fun _ => (writes fun _ => .eventmgr _).bind fun _ => done _

theorem ignoreTimer (timerId : Nat) : Traced may (ignoreTimer timerId) :=
  readsAll.bind fun s => by
    split
    · exact throws _
    · rename_i tfd _
      exact (writes fun s => .kernel (s.kernel.timerfds.erase tfd) s.kernel.signals s.kernel.groupKills).bind fun _ =>
        (writes fun _ => .eventmgr _).bind fun _ => branches _ (done _) (throws _)

theorem deleteTimer (timerId : Nat) : Traced may (deleteTimer timerId) :=
  (ignoreTimer _).bind fun _ => writes fun _ => .eventmgr _

theorem addProcess (pid : Int) (r : Ref) : Traced may (addProcess pid r) :=
  (answers (by intros; exact .inl rfl)).bind fun _ => branches _ (writes fun _ => .eventmgr _) (throws _)

theorem deleteProcess (pid : Int) : Traced may (deleteProcess pid) := writes fun _ => .eventmgr _

/-! ## Jobs -/

theorem isDisabled (r : Ref) : Traced may (Job.isDisabled r) :=
  (derefs r).bind fun _ => readsAll.bind fun _ => decodes _

theorem lookUpUser (r : Ref) : Traced may (Job.lookUpUser r) :=
  (derefs r).bind fun _ => readsAll.bind fun _ => by
    split
    · exact done _
    · apply branches _ (crashes _)
      split
      · exact done _
      · exact branches _ (crashes _) (done _)

theorem run (r : Ref) : Traced may (Job.run r) :=
  (lookUpUser r).bind fun _ => (answers (by intros; exact .inl rfl)).bind fun a => by
    cases a with
    | noPipe => exact throws _
    | noFork => exact (sets r _ (by intro; rfl) (by intro; rfl) (by intro; rfl)).bind fun _ => done _
    | noExec =>
      exact passTime.bind fun _ => (reads _).bind fun pid =>
        (writes fun s => .forks (.failed pid r s.kernel.now) rfl (by simp [Proc.live, Proc.failed])).bind fun _ =>
        (sets r _ (by intro; rfl) (by intro; rfl) (by intro; rfl)).bind fun _ =>
          stamps (fun _ _ => rfl) (fun _ _ => rfl) (fun _ _ => rfl) fun _ => done _
    | started =>
      exact passTime.bind fun _ => (reads _).bind fun pid =>
        (writes fun s => .forks (.forked pid r s.kernel.now _) rfl fun _ => rfl).bind fun _ =>
        (sets r _ (by intro; rfl) (by intro; rfl) (by intro; rfl)).bind fun _ =>
          stamps (fun _ _ => rfl) (fun _ _ => rfl) (fun _ _ => rfl) fun _ => done _

theorem startJob (r : Ref) : Traced may (Job.startJob r) :=
  (writes fun s => .manager s.state s.listening s.pendingResult _).bind fun _ =>
    stamps (fun _ _ => rfl) (fun _ _ => rfl) (fun _ _ => rfl) fun _ => (run r).bind fun _ =>
      branches _ ((derefs r).bind fun _ => addProcess _ _) (done _)

theorem elapsed (r : Ref) : Traced may (Job.elapsed r) :=
  currentTime.bind fun _ => (derefs r).bind fun _ => by
    split
    · exact done _
    · exact crashes _

theorem shouldThrottle (r : Ref) : Traced may (Job.shouldThrottle r) :=
  (elapsed r).bind fun _ => (derefs r).bind fun _ => done _

theorem startAfterThrottleInterval (r : Ref) : Traced may (Job.startAfterThrottleInterval r) :=
  (elapsed r).bind fun _ => (derefs r).bind fun _ => (addTimer _ _ _).bind fun _ => sets r _ (by intro; rfl) (by intro; rfl) (by intro; rfl)

theorem schedulePeriodicJob (r : Ref) : Traced may (Job.schedulePeriodicJob r) :=
  (derefs r).bind fun _ => branches _ (crashes _) <| by
    split
    · exact throws _
    · exact (addTimer _ _ _).bind fun _ => sets r _ (by intro; rfl) (by intro; rfl) (by intro; rfl)

theorem cancelTimerIfSet (r : Ref) : Traced may (Job.cancelTimerIfSet r) :=
  (derefs r).bind fun _ => branches _ ((derefs r).bind fun _ => by
    split
    · exact throws _
    · exact (deleteTimer _).bind fun _ => sets r _ (by intro; rfl) (by intro; rfl) (by intro; rfl)) (done _)

theorem logKill (r : Ref) (pid sig : Int) : Traced may (Job.logKill r pid sig) :=
  writes fun _ => .kills r pid sig

theorem killJob (r : Ref) (sig : Int) : Traced may (Job.killJob r sig) :=
  (derefs r).bind fun _ => branches _ (done _) <| (logKill _ _ _).bind fun _ => answers (by intros; exact .inl rfl)

theorem terminate (r : Ref) : Traced may (Job.terminate r) :=
  (killJob r _).bind fun _ => sets r _ (fun _ => by split <;> rfl) (fun _ => by split <;> rfl) fun _ => by split <;> rfl

/-- Some processes are reaped. -/
theorem reaps {f : Kernel → List Proc} (hmay : may .reap) (h : ∀ k, Fading k.procs (f k)) :
    Traced may (modify (·.updateKernel fun k => { k with procs := f k })) :=
  writes fun s => .fades (f s.kernel) hmay (h s.kernel)

theorem logGroupKill (r : Ref) (pgid : Int) : Traced may (Job.logGroupKill r pgid) :=
  writes fun s => .kernel s.kernel.timerfds s.kernel.signals _

theorem killProcessGroup (hmay : may .reap) (r : Ref) : Traced may (Job.killProcessGroup r) :=
  (derefs r).bind fun j => branches _ (done _) <| branches _ (done _) <|
    (logGroupKill r j.pgid).bind fun _ => (reaps hmay fun k => .reap k fun p => p.pid == j.pgid).bind fun _ => done _

theorem submitDelete (r : Ref) : Traced may (Job.submitDelete r) := (derefs r).bind fun _ => writes fun _ => .eventmgr _

/-- A machine whose guards and actions on a trigger are traced. -/
theorem fsm {State Trigger : Type} [DecidableEq State] [DecidableEq Trigger] {setState : State → M Unit} {trigger : Trigger}
    {state : M State} {transitions : List (Fsm.Trans Sys State Trigger)} (hset : ∀ state, Traced may (setState state))
    (hstate : Traced may state) (h : ∀ t ∈ transitions, t.trigger = trigger → Traced may t.guard ∧ Traced may t.action) :
    Traced may (Fsm.execute setState trigger state transitions) :=
  Fsm.execute_keeps (P := fun _ => Traced may) ⟨done, bind⟩ hset hstate h

theorem transitions {execute : Job.Triggers → M Unit} (he : ∀ trigger, Traced may (execute trigger)) (r : Ref) :
    ∀ t ∈ Job.transitions execute r, Traced may t.guard ∧ Traced may t.action := by
  have hflag : Traced may (do return !(← this r).unloadRequested) := (derefs r).bind fun _ => done _
  simp only [Job.transitions, List.forall_mem_cons]
  refine ⟨⟨?_, he _⟩, ⟨?_, schedulePeriodicJob r⟩, ⟨done _, startJob r⟩, ⟨done _, submitDelete r⟩,
    ⟨done _, (cancelTimerIfSet r).bind fun _ => startJob r⟩, ⟨done _, (cancelTimerIfSet r).bind fun _ => submitDelete r⟩,
    ⟨(derefs r).bind fun _ => done _, done _⟩, ⟨?_, startJob r⟩, ⟨done _, terminate r⟩, ⟨?_, startAfterThrottleInterval r⟩,
    ⟨(derefs r).bind fun _ => done _, submitDelete r⟩, ⟨done _, submitDelete r⟩, nofun⟩
  · exact (isDisabled r).bind fun _ => branches _ (done _) <| (derefs r).bind fun _ => (derefs r).bind fun _ => done _
  · exact (isDisabled r).bind fun _ => branches _ (done _) <| (derefs r).bind fun _ => (derefs r).bind fun _ => done _
  · exact (derefs r).bind fun _ => branches _ (done _) <| (shouldThrottle r).bind fun _ => branches _ (done _) hflag
  · exact (derefs r).bind fun _ => branches _ (done _) <| (shouldThrottle r).bind fun _ => branches _ (done _) hflag

theorem executeNested (depth : Nat) (r : Ref) (trigger : Job.Triggers) : Traced may (Job.executeNested depth r trigger) := by
  induction depth generalizing trigger with
  | zero => exact crashes _
  | succ depth ih =>
    exact (fsm (fun _ => sets r _ (by intro; rfl) (by intro; rfl) (by intro; rfl)) ((derefs r).bind fun _ => done _)
      fun t ht _ => transitions ih r t ht).bind fun _ => done _

theorem reapChildProcess (hmay : may .record) (hreap : may .reap) (r : Ref) (status : WaitStatus) :
    Traced may (Job.reapChildProcess r status) :=
  (writes fun _ => .records r status hmay).bind fun _ => (sets r _ (by intro; rfl) (by intro; rfl) (by intro; rfl)).bind fun _ =>
    (killProcessGroup hreap r).bind fun _ => done _

theorem processCallback (hmay : may .record) (hreap : may .reap) (r : Ref) (status : WaitStatus) (child : Nat) :
    Traced may (Job.processCallback r status child) :=
  (derefs r).bind fun _ => (writes fun _ => .dispatches child r).bind fun _ =>
    (reapChildProcess hmay hreap r status).bind fun _ => executeNested 2 r _

theorem timerCallback (r : Ref) (kind : TimerKind) : Traced may (Job.timerCallback r kind) := by
  cases kind with
  | throttle => exact (derefs r).bind fun _ => (sets r _ (by intro; rfl) (by intro; rfl) (by intro; rfl)).bind fun _ => executeNested 2 r _
  | periodic => exact (derefs r).bind fun _ => (sets r _ (by intro; rfl) (by intro; rfl) (by intro; rfl)).bind fun _ => startJob r

theorem unloadJob (r : Ref) (force : Bool) : Traced may (Job.unloadJob r force) :=
  (derefs r).bind fun _ => branches _ (done _) <| branches _ (done _) <| (sets r _ (by intro; rfl) (by intro; rfl) (by intro; rfl)).bind fun _ =>
    (isDisabled r).bind fun _ => branches _ (done _) <| (executeNested 2 r _).bind fun _ =>
      (executeNested 2 r _).bind fun _ => done _

theorem forceUnloadJob (hmay : may .reap) (r : Ref) : Traced may (Job.forceUnloadJob r) := by
  have hwait : ∀ pid : Int, Traced may (modify (·.updateKernel (Job.waitFor pid))) := fun pid => writes fun s => by
    rw [Sys.updateKernel, Job.waitFor_eq]
    exact .fades _ hmay (.waitFor pid s.kernel)
  exact noexcepts <| (derefs r).bind fun _ => by
    dsimp only
    have hrest : Traced may (do
        Job.cancelTimerIfSet r
        setJob r fun j => { j with state := .unloaded }) :=
      (cancelTimerIfSet r).bind fun _ => sets r _ (by intro; rfl) (by intro; rfl) (by intro; rfl)
    exact branches _ ((logKill _ _ _).bind fun _ => (answers (by intros; exact .inl rfl)).bind fun _ => (hwait _).bind fun _ =>
      (killProcessGroup hmay r).bind fun _ => (deleteProcess _).bind fun _ =>
        (sets r _ (by intro; rfl) (by intro; rfl) (by intro; rfl)).bind fun _ => hrest) hrest

/-! ## The manager -/

theorem overrideJobEnabled {label : String} {enabled : Bool} (hmay : may (.override label enabled)) :
    Traced may (Manager.overrideJobEnabled label enabled) := by
  intro s _
  rw [Manager.overrideJobEnabled, wp_bind, wp_get, wp_bind]
  refine wp_ofDecode (fun doc hd => ?_) fun _ _ => .refl
  rw [wp_bind, StateFile.setValue, wp_bind, nextRename, wp_answer, wp_ite]
  have hw : Write may s (s.updateKernel fun k => { k with answers := { k.answers with renames := k.answers.renames.tail } }) :=
    .answers { s.kernel.answers with renames := s.kernel.answers.renames.tail } (.inl rfl)
  split
  · exact .tail (.single hw) (.overrides label enabled doc hmay hd)
  · exact .single hw

theorem jobExists (label : String) : Traced may (Manager.jobExists label) := (decodes _).bind fun _ => reads _

theorem getJob (label : String) : Traced may (Manager.getJob label) :=
  readsAll.bind fun _ => by
    split
    · exact done _
    · exact throws _

theorem parse (path : String) : Traced may (Manifest.parse path) :=
  branches _ (readsAll.bind fun _ => by
    split
    · exact done _
    · exact throws _) (throws _)

/-- An override leaves the jobs alone. -/
theorem overrideJobEnabled_maps {label : String} {enabled : Bool} {s : Sys} (hmay : may (.override label enabled)) :
    wp (Manager.overrideJobEnabled label enabled)
      (fun _ s' => Writes may s s' ∧ s'.jobs = s.jobs ∧ s'.pendingJobs = s.pendingJobs) (Writes may s) s := by
  have hmaps : wp (Manager.overrideJobEnabled label enabled) (fun _ s' => s'.jobs = s.jobs ∧ s'.pendingJobs = s.pendingJobs)
      (fun _ => True) s := by
    rw [Manager.overrideJobEnabled, wp_bind, wp_get, wp_bind]
    refine wp_ofDecode (fun doc hd => ?_) fun _ _ => trivial
    rw [wp_bind, StateFile.setValue, wp_bind, nextRename, wp_answer, wp_ite]
    split
    · exact ⟨rfl, rfl⟩
    · trivial
  exact wp_mono (wp_and (overrideJobEnabled hmay s trivial) hmaps) (fun _ _ h => h) fun _ h => h.1

theorem loadManifestDoc {doc : Json} {path : String} {overrideDisabled forceLoad : Bool}
    (hmay : overrideDisabled → ∀ m, Manifest.fromJson doc = .ok m → may (.override m.label true)) :
    Traced may (Manager.loadManifestDoc doc path overrideDisabled forceLoad) := by
  intro s _
  rw [Manager.loadManifestDoc, wp_bind, wp_get, wp_ite]
  split
  · exact .refl
  split
  · exact .refl
  · trivial
  rename_i manifest hm
  rw [wp_bind, Manager.isDuplicate, wp_gets, wp_ite]
  split
  · exact .refl
  rename_i hdup
  simp only [Bool.or_eq_true, not_or, Bool.not_eq_true, Option.isSome_eq_false_iff, Option.isNone_iff_eq_none] at hdup
  dsimp only
  have hrest : ∀ s', Writes may s s' ∧ s'.jobs = s.jobs ∧ s'.pendingJobs = s.pendingJobs → wp
      (if manifest.disabled && !forceLoad then pure false
        else do
          let disabled ← ofDecode (Manager.overrideDisables manifest.label (← get).stateFile)
          if disabled && !forceLoad then pure false
          else do
            Manager.addPending manifest path
            pure true)
      (fun _ => Writes may s) (Writes may s) s' := by
    intro s' h
    obtain ⟨hw, hjobs, hpending⟩ := h
    rw [wp_ite]
    split
    · exact hw
    rw [wp_bind, wp_get, wp_bind]
    refine wp_ofDecode (fun disabled hd => ?_) fun _ _ => hw
    rw [wp_ite]
    split
    · exact hw
    exact hw.tail (.creates manifest path (hjobs ▸ hdup.1) (hpending ▸ hdup.2) ⟨disabled, hd⟩)
  rw [wp_ite]
  split
  · rename_i ho
    rw [wp_bind]
    exact wp_mono (overrideJobEnabled_maps (hmay ho manifest hm)) (fun _ s' => hrest s') fun _ => id
  · exact hrest s ⟨.refl, rfl, rfl⟩

section Loads

variable {overrideDisabled forceLoad : Bool} (hmay : overrideDisabled → ∀ label, may (.override label true))

include hmay

theorem loadOne (path : String) : Traced may (Manager.loadOne path overrideDisabled forceLoad) :=
  (((parse _).bind fun _ => loadManifestDoc fun h _ _ => hmay h _).bind fun _ => done _).catches fun _ => done _

theorem loadEach (error : Bool) (entries : List String) :
    Traced may (Manager.loadEach overrideDisabled forceLoad error entries) := by
  induction entries generalizing error with
  | nil => exact done _
  | cons file rest ih => exact (loadOne hmay _).bind fun _ => ih _

theorem loadAllManifests (path : String) : Traced may (Manager.loadAllManifests path overrideDisabled forceLoad) :=
  readsAll.bind fun _ => branches _ (done _) <| readsAll.bind fun _ => by
    split
    · exact done _
    · exact loadEach hmay _ _
    · exact loadOne hmay _

end Loads

theorem startPending (hmay : may .boot) (label : String) : Traced may (Manager.startPending label) := by
  intro s _
  rw [Manager.startPending, wp_bind, wp_get, wp_ite]
  split
  · trivial
  rename_i hn
  split
  · rename_i r hp
    rw [wp_bind, wp_modify]
    have hw : Write may s { s with jobs := s.jobs.insert label r, pendingJobs := s.pendingJobs.insert label none } :=
      .boots label r hmay (by simpa using hn) hp
    have hrest : Traced may (do
        Manager.markBootstrap r
        Job.execute r .bootstrap) :=
      ((derefs _).bind fun _ => readsAll.bind fun _ => sets _ _ (by intro; rfl) (by intro; rfl) (by intro; rfl)).bind fun _ => executeNested 2 _ _
    exact wp_mono (hrest _ trivial) (fun _ _ h => .head hw h) fun _ h => .head hw h
  · trivial

theorem startAllJobs (hmay : may .boot) : Traced may Manager.startAllJobs :=
  readsAll.bind fun _ => (visits _).bind fun order => (loops order (startPending hmay)).bind fun _ =>
    writes fun _ => .booted hmay

section Unloads

variable {overrideDisabled forceUnload : Bool} (hmay : overrideDisabled → ∀ label, may (.override label false))

include hmay

theorem unloadJobRef (r : Ref) : Traced may (Manager.unloadJobRef r overrideDisabled forceUnload) :=
  (derefs r).bind fun _ => readsAll.bind fun _ => by
    split
    · dsimp only
      split
      · rename_i ho
        exact (overrideJobEnabled (hmay ho _)).bind fun _ => unloadJob _ _
      · exact unloadJob _ _
    · exact done _

theorem unloadLabel (label : String) : Traced may (Manager.unloadJob label overrideDisabled forceUnload) :=
  (jobExists _).bind fun _ => branches _ (done _) <| (getJob _).bind fun _ => unloadJobRef hmay _

theorem unloadJobAt (path : String) : Traced may (Manager.unloadJobAt path overrideDisabled forceUnload) :=
  (((parse _).bind fun _ => done _).catches fun _ => done _).bind fun _ => by
    split
    · exact done _
    · exact branches _ ((decodes _).bind fun _ => (decodes _).bind fun _ => unloadLabel hmay _) (done _)

end Unloads

theorem unloadAllJobs : Traced may Manager.unloadAllJobs := by
  refine noexcepts <| readsAll.bind fun _ => (visits _).bind fun order => loops order fun label => ?_
  refine readsAll.bind fun _ => ?_
  split
  · exact done _
  · exact (derefs _).bind fun _ => branches _ (((unloadJob _ _).bind fun _ => done _).catches fun _ => done _) (done _)

theorem forceUnloadAllJobs (hmay : may .reap) : Traced may Manager.forceUnloadAllJobs := by
  refine noexcepts <| readsAll.bind fun _ => (visits _).bind fun order => (loops order fun label => ?_).bind fun _ => ?_
  · refine readsAll.bind fun _ => ?_
    split
    · exact done _
    · exact forceUnloadJob hmay _
  · intro s _
    have hfold : ∀ (entries : List (Sigma fun _ : String => Ref)) (t : Sys),
        Writes may t (entries.foldl (fun s e => Manager.destroy e.2 s) t) := by
      intro entries
      induction entries with
      | nil => exact fun _ => .refl
      | cons e rest ih => exact fun t => .head (.destroys e.2) (ih _)
    exact (hfold s.jobs.entries s).tail .clears

theorem deleteJob (label : String) : Traced may (Manager.deleteJob label) := by
  intro s _
  rw [Manager.deleteJob, wp_modify]
  split
  · rename_i r _
    exact .tail (.single (.destroys r)) (.deletes label)
  · exact .refl

/-- The actions of the manager's machine; only a start loads and boots jobs. -/
theorem execute {trigger : Manager.Triggers} (loadPaths : List String) (hmay : trigger = .startRequested → may .boot) :
    Traced may (Manager.execute loadPaths trigger) := by
  have hset : ∀ state, Traced may (modify fun s => { s with state } : M Unit) := fun state =>
    writes fun s => .manager state s.listening s.pendingResult s.starts
  have hlisten : ∀ listening, Traced may (modify fun s => { s with listening } : M Unit) := fun listening =>
    writes fun s => .manager s.state listening s.pendingResult s.starts
  refine (fsm hset (reads _) ?_).bind fun _ => done _
  simp only [Manager.transitions, List.forall_mem_cons]
  exact ⟨fun _ => ⟨done _, done _⟩,
    fun h => ⟨done _, (hlisten _).bind fun _ =>
      (loops _ fun _ => (loadAllManifests nofun _).bind fun _ => done _).bind fun _ => startAllJobs (hmay h.symm)⟩,
    fun h => ⟨reads _, startAllJobs (hmay h.symm)⟩, fun _ => ⟨done _, (hlisten _).bind fun _ => unloadAllJobs⟩,
    fun _ => ⟨done _, done _⟩, fun _ => ⟨done _, done _⟩, nofun⟩

theorem handleShutdownSignal (hmay : may .reap) : Traced may Manager.handleShutdownSignal :=
  readsAll.bind fun _ => by
    split
    · exact execute _ nofun
    · exact (forceUnloadAllJobs hmay).bind fun _ => execute _ nofun
    · exact execute _ nofun
    · exact done _

theorem signalCallback (hmay : may .reap) (sig : Signal) : Traced may (Manager.signalCallback sig) := by
  have h : ∀ pendingResult, Traced may (do
      modify fun s => { s with pendingResult }
      Manager.handleShutdownSignal) := fun pendingResult =>
    (writes fun s => .manager s.state s.listening pendingResult s.starts).bind fun _ => handleShutdownSignal hmay
  cases sig with
  | sigchld => exact throws _
  | sigpipe => exact done _
  | sigint | sigusr1 | sigusr2 | sigterm => exact h _

/-! ## Requests -/

theorem killLabel (label signal : String) : Traced may (Manager.killJob label signal) := by
  unfold Manager.killJob
  split
  · exact done _
  · exact (jobExists _).bind fun _ => branches _ (done _) <| (getJob _).bind fun _ => killJob _ _

theorem listRows (rows : List Json) (labels : List String) : Traced may (Manager.listRows rows labels) := by
  induction labels generalizing rows with
  | nil => exact done _
  | cons label rest ih =>
    refine bind (readsAll.bind fun _ => ?_) fun _ => ih _
    split
    · exact done _
    · exact (derefs _).bind fun _ => (decodes _).bind fun _ => done _

section Requests

variable (hmay : ∀ label enabled, may (.override label enabled))

include hmay

theorem loadPaths (overrideDisabled forceLoad error : Bool) (paths : List Json) :
    Traced may (Rpc.loadPaths overrideDisabled forceLoad error paths) := by
  induction paths generalizing error with
  | nil => exact done _
  | cons path rest ih => exact (decodes _).bind fun _ => (loadAllManifests (fun _ label => hmay label true) _).bind fun _ => ih _

theorem unloadEntries (overrideDisabled forceUnload : Bool) (entries : List String) :
    Traced may (Rpc.unloadEntries overrideDisabled forceUnload entries) := by
  induction entries with
  | nil => exact done _
  | cons file rest ih => exact (unloadJobAt (fun _ label => hmay label false) _).bind fun _ => branches _ ih (done _)

theorem unloadPaths (overrideDisabled forceUnload isError : Bool) (paths : List Json) :
    Traced may (Rpc.unloadPaths overrideDisabled forceUnload isError paths) := by
  induction paths generalizing isError with
  | nil => exact done _
  | cons path rest ih =>
    refine (decodes _).bind fun _ => readsAll.bind fun _ => ?_
    split
    · exact done _
    · exact (unloadEntries hmay _ _ _).bind fun _ => ih _
    · exact (unloadJobAt (fun _ label => hmay label false) _).bind fun _ => branches _ (ih _) (done _)

/-- Only the handlers of loads and submits boot jobs. -/
theorem handlers : ∀ h ∈ Rpc.handlers, (h.1 = "load" ∨ h.1 = "submit" → may .boot) → ∀ args, Traced may (h.2 args) := by
  simp only [Rpc.handlers, List.forall_mem_cons]
  refine ⟨fun _ args => ?_, fun _ args => ?_, fun _ args => ?_, fun _ args => ?_, fun hb args => ?_, fun _ args => ?_,
    fun hb args => ?_, fun _ args => ?_, fun _ args => done _, nofun⟩
  · exact (decodes _).bind fun _ => (overrideJobEnabled (hmay _ _)).bind fun _ => done _
  · exact (decodes _).bind fun _ => (overrideJobEnabled (hmay _ _)).bind fun _ => done _
  · exact (decodes _).bind fun _ => (decodes _).bind fun _ => (killLabel _ _).bind fun _ => done _
  · exact readsAll.bind fun _ => (visits _).bind fun _ => (listRows _ _).bind fun _ => done _
  · exact (decodes _).bind fun _ => (decodes _).bind fun _ => (decodes _).bind fun _ => (loadPaths hmay _ _ _ _).bind fun _ =>
      (execute _ fun _ => hb (.inl trivial)).bind fun _ => done _
  · exact (decodes _).bind fun _ => (unloadLabel nofun _).bind fun _ => done _
  · exact (decodes _).bind fun _ => (loadManifestDoc nofun).bind fun _ =>
      (execute _ fun _ => hb (.inr trivial)).bind fun _ => done _
  · exact (decodes _).bind fun _ => (decodes _).bind fun _ => (decodes _).bind fun _ =>
      (unloadPaths hmay _ _ _ _).bind fun _ => done _

theorem handlerFor {message : Json} {handler : Json → M Json} (h : Rpc.handlerFor message = .ok handler)
    (hb : Rpc.Boots message → may .boot) (args : Json) : Traced may (handler args) := by
  obtain ⟨method, hmem, hmethod⟩ := Rpc.of_handler h
  exact handlers hmay (method, handler) hmem (fun hl => hb ⟨method, hmethod, hl⟩) args

omit hmay in
theorem writeMessage (hr : may .reply) (reply : Json) : Traced may (Rpc.writeMessage reply) :=
  (answers (by intros; exact .inr hr)).bind fun _ => branches _ (writes fun _ => .replies reply hr) (throws _)

theorem rpcDispatch {message : Option Json} (hr : may .reply)
    (hb : ∀ args, message = some args → Rpc.Boots args → may .boot) : Traced may (Rpc.rpcDispatch message) := by
  refine catches ?_ fun _ => done _
  cases message with
  | none => exact throws _
  | some message =>
    intro s _
    dsimp only
    rw [wp_bind]
    refine wp_ofDecode (fun handler hh => ?_) fun _ _ => .refl
    exact ((handlerFor hmay hh (hb message rfl) _).catches fun _ => done _).bind (fun _ => writeMessage hr _) s trivial

end Requests

/-! ## Steps -/

theorem fading_reapOne (hmay : may .reap) (child : Nat) (s : Sys) : Writes may s (EventManager.reapOne child s) := by
  unfold EventManager.reapOne
  split
  · have hw : Write may s _ := .fades (s.kernel.procs.modify child fun p => { p with state := .reaped }) hmay
      (.reaped _ _)
    dsimp only
    split
    · exact .tail (.single hw) (.eventmgr _)
    · exact .single hw
  · exact .refl

theorem getPendingEvent : Traced may getPendingEvent :=
  readsAll.bind fun _ => by
    split
    · exact done _
    · exact (writes fun _ => .eventmgr _).bind fun _ => done _

theorem nextEvent (hmay : may .reap) (wakeup : Wakeup) : Traced may (nextEvent wakeup) := by
  refine getPendingEvent.bind fun _ => ?_
  split
  · exact done _
  · cases wakeup with
    | interrupted => exact throws _
    | nothing => exact done _
    | signal signals children =>
      have hfold : ∀ (children : List Nat) (s : Sys),
          Writes may s (children.foldl (fun s child => EventManager.reapOne child s) s) := by
        intro children
        induction children with
        | nil => exact fun _ => .refl
        | cons child rest ih => exact fun s => (fading_reapOne hmay child s).trans (ih _)
      refine bind (readsAll.bind fun _ => (writes fun s => .kernel s.kernel.timerfds [] s.kernel.groupKills).bind fun _ =>
        (writes fun _ => .eventmgr _).bind fun _ => branches _ (readsAll.bind fun _ => fun s _ => hfold _ s) (done _)) fun _ =>
        getPendingEvent
    | socket message => exact readsAll.bind fun _ => branches _ (done _) (done _)
    | timer fd =>
      refine readsAll.bind fun s => ?_
      split
      · refine readsAll.bind fun _ => branches _ (done _) ?_
        refine (writes fun s => .kernel (s.kernel.timerfds.insert fd _) s.kernel.signals s.kernel.groupKills).bind fun _ =>
          readsAll.bind fun _ => ?_
        split
        · exact done _
        · exact throws _
      · exact done _

theorem dispatch {event : Event} (hmay : ∀ label enabled, may (.override label enabled)) (hreap : may .reap)
    (hb : ∀ args, event = .socket (some args) → Rpc.Boots args → may .boot)
    (hr : ∀ pid status child, event = .proc pid status child → may .record)
    (hs : ∀ message, event = .socket message → may .reply) : Traced may (dispatch event) := by
  cases event with
  | ipc method arg => exact branches _ (deleteJob _) (throws _)
  | signal sig => exact signalCallback hreap sig
  | proc pid status child =>
    refine readsAll.bind fun _ => ?_
    split
    · exact throws _
    · exact (processCallback (hr _ _ _ rfl) hreap _ _ _).bind fun _ => deleteProcess _
  | socket message => exact rpcDispatch hmay (hs message rfl) fun args he => hb args (congrArg Event.socket he)
  | timer id =>
    refine readsAll.bind fun _ => ?_
    split
    · exact throws _
    · exact timerCallback _ _

theorem waitForEvent (hmay : ∀ effect, may effect) (wakeup : Wakeup) : Traced may (waitForEvent wakeup) :=
  (nextEvent (hmay _) wakeup).bind fun _ => by
    split
    · exact done _
    · exact dispatch (fun _ _ => hmay _) (hmay _) (fun _ _ _ => hmay _) (fun _ _ _ _ => hmay _) fun _ _ => hmay _

theorem handleEvent (hmay : ∀ effect, may effect) (wakeup : Wakeup) : Traced may (Manager.handleEvent wakeup) :=
  readsAll.bind fun _ => by
    split
    · exact throws _
    · exact waitForEvent hmay _
    · exact readsAll.bind fun _ => branches _ (execute _ nofun) (waitForEvent hmay _)
    · exact done _

end Traced

section Steps

variable {may : Effect → Prop}

theorem raise_writes (s : Sys) (sig : Signal) : Writes may s (s.updateKernel (·.raise sig)) := by
  rw [Sys.updateKernel, Kernel.raise]
  split
  · exact .refl
  · exact .single (.kernel s.kernel.timerfds (s.kernel.signals ++ [sig]) s.kernel.groupKills)

theorem childExits_writes (hmay : may .reap) (s : Sys) (child : Nat) (status : WaitStatus) :
    Writes may s (s.updateKernel (·.childExits child status)) := by
  rw [Sys.updateKernel, Kernel.childExits]
  split
  · rename_i hc
    have hf : Fading s.kernel.procs (s.kernel.procs.modify child fun p => { p with state := .zombie status }) :=
      Fading.modify fun p hp => by
        rw [hc] at hp
        cases hp
        exact ⟨rfl, rfl, fun _ => rfl⟩
    exact .trans (.single (.fades _ hmay hf)) (raise_writes (s.updateKernel fun k =>
      { k with procs := k.procs.modify child fun p => { p with state := .zombie status } }) .sigchld)
  · exact .refl

/-- Whatever a step does is a number of writes. -/
theorem step_traced (hmay : ∀ effect, may effect) (e : Ev) : Traced may (step e) := by
  have hanswers : ∀ answers, Traced may (modify (·.updateKernel fun k => { k with answers }) : M Unit) := fun answers =>
    .writes fun _ => .answers answers (.inr (hmay _))
  cases e with
  | timePasses ms => exact .writes fun _ => .time ms
  | childExits child status => exact fun s _ => childExits_writes (hmay _) s child status
  | signalSent sig => exact fun s _ => raise_writes s sig
  | startRunning paths answers =>
    exact (hanswers answers).bind fun _ => Traced.readsAll.bind fun _ => .branches _ (.execute _ fun _ => hmay _) (.done _)
  | handleEvent wakeup answers => exact (hanswers answers).bind fun _ => .handleEvent hmay wakeup

def anyEffect (_ : Effect) : Prop := True

theorem Next.writes {s s' : Sys} {e : Ev} (h : Next s e s') : Writes anyEffect s s' :=
  wp_ok (Q := fun _ => Writes anyEffect s) (step_traced (fun _ => trivial) e s trivial) h.2

theorem Writes.keeps {P : Sys → Prop} (hP : ∀ s s', Write may s s' → P s → P s') {s s' : Sys} (h : Writes may s s')
    (hs : P s) : P s' := by
  induction h with
  | refl => exact hs
  | tail _ hw ih => exact hP _ _ hw ih

/-- What every write keeps is an invariant. -/
theorem reachable_of_writes {P : Sys → Prop} (h₀ : ∀ s, Init s → P s) (hP : ∀ s s', Write anyEffect s s' → P s → P s')
    {s : Sys} (h : Reachable s) : P s :=
  h.invariant h₀ fun _ _ _ hs hn => hn.writes.keeps hP hs

end Steps

end Relaunchd
