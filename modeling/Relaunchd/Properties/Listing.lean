/-
  Relaunchd.Properties.Listing — what `listJobs` shows of every job, against what became of
  its children on the way there: the pid of the child it has, and how the last one whose exit
  was dispatched had ended.

  A death by signal goes on record without the signal, and a fork that fails leaves its
  result in place of a pid.
-/

import Relaunchd.Properties.Refusals
import Relaunchd.Writes

namespace Relaunchd

open Prog EventManager Tables Transition

variable {s s' : Sys} {e : Ev} {r : Ref} {p : Int} {st : WaitStatus} {i : Nat}

abbrev Exits := List (Ref × WaitStatus)

variable {exits : Exits}

def noteExits (s : Sys) (e : Ev) (exits : Exits) : Exits :=
  match e.dispatched s with
  | some (.proc _ status child) => ((s.kernel.procs[child]?).map fun c => (c.job, status)).toList ++ exits
  | _ => exits

theorem noteExits_append (s : Sys) (e : Ev) (exits : Exits) : noteExits s e exits = noteExits s e [] ++ exits := by
  unfold noteExits
  split
  · rw [List.append_nil]
  · rfl

/-- A state that a run reaches whose steps meet `C`, and the exits dispatched on the way. -/
abbrev Watched (C : Sys → Ev → Prop) : Sys → Exits → Prop := Noted Init (Under Next C) noteExits []

/-! ## The rows -/

/-- The last exit status as the manual has it. -/
def documentedStatus : Option WaitStatus → Int
  | none => 0
  | some (.exited code) => code
  | some (.signaled sig) => -sig

/-- The row that the manual promises for the job that `label` leads to. -/
def documentedRow (s : Sys) (exits : Exits) (label : String) (r : Ref) : Json :=
  .obj [("LastExitStatus", .int (documentedStatus (exits.lookup r))), ("Label", .str label),
    ("PID", .str (match s.child r with
      | some c => toString c.pid
      | none => "-"))]

/-- `listJobs` answers with these rows, in some order. -/
def ListsJobs (s : Sys) (exits : Exits) : Prop := ∀ answers, ∃ rows s',
  Manager.listJobs (s.given answers) = .ok (.arr rows) s' ∧
    rows.Perm (s.jobs.entries.map fun entry => documentedRow s exits entry.1 entry.2)

/-! ## Exit statuses -/

def recordedStatus : Option WaitStatus → Int
  | none => 0
  | some (.exited code) => code
  | some (.signaled _) => -1

structure ExitsRecorded (s : Sys) (exits : Exits) : Prop where
  status : ∀ r j, s.heap r = some j → j.lastExitStatus = recordedStatus (exits.lookup r)
  fresh : ∀ r, s.nextRef ≤ r → exits.lookup r = none

def Unrecorded (effect : Effect) : Prop := effect ≠ .record

theorem unrecorded_reap : Unrecorded .reap := by simp [Unrecorded]

theorem ExitsRecorded.of_eq (h : ExitsRecorded s exits) (hh : s'.heap = s.heap) (hn : s'.nextRef = s.nextRef) : ExitsRecorded s' exits :=
  ⟨fun r j hj => h.status r j (hh ▸ hj), fun r hr => h.fresh r (hn ▸ hr)⟩

theorem Write.recorded (h : Write Unrecorded s s') (hr : ExitsRecorded s exits) : ExitsRecorded s' exits := by
  cases h with
  | job r' f _ _ hl =>
    refine ⟨fun r j hj => ?_, hr.fresh⟩
    simp only [Sys.updateJob, Function.update_apply] at hj
    split at hj
    · rename_i e
      obtain ⟨j₀, hj₀, rfl⟩ := Option.map_eq_some_iff.mp hj
      rw [hl, e]
      exact hr.status r' j₀ hj₀
    · exact hr.status r j hj
  | records r' status hmay => exact absurd rfl hmay
  | creates manifest path =>
    refine ⟨fun r j hj => ?_, fun r hlt => hr.fresh r (Nat.le_of_succ_le hlt)⟩
    simp only [Function.update_apply] at hj
    split at hj
    · rename_i e
      cases hj
      rw [e, hr.fresh _ le_rfl]
      rfl
    · exact hr.status r j hj
  | destroys r' =>
    refine ⟨fun r j hj => ?_, hr.fresh⟩
    simp only [Manager.destroy, Function.update_apply] at hj
    split at hj
    · cases hj
    · exact hr.status r j hj
  | answers | time | kernel | kills | forks | fades | dispatches | eventmgr | boots | booted | deletes | clears | overrides
  | manager | replies =>
    exact hr.of_eq rfl rfl

theorem Writes.recorded (h : Writes Unrecorded s s') (hr : ExitsRecorded s exits) : ExitsRecorded s' exits :=
  h.keeps (fun _ _ hw => hw.recorded) hr

theorem recordExit_status (status : WaitStatus) (j : Job) :
    (Job.recordExit status j).lastExitStatus = recordedStatus (some status) := by
  cases status <;> rfl

/-- The callback records the exit, and nothing that follows changes the record. -/
theorem dispatch_recorded (hcb : s.eventmgr.processCallbacks.lookup p = some r) (hlt : ∀ j, s.heap r = some j → r < s.nextRef)
    (hr : ExitsRecorded s exits) :
    wp (EventManager.dispatch (.proc p st i)) (fun _ s' => ExitsRecorded s' ((r, st) :: exits)) (fun _ => True) s := by
  have hrest : Traced Unrecorded (setJob r (fun j => { j with pid := 0 }) >>= fun _ => Job.killProcessGroup r) :=
    (Traced.sets r _ (by intro; rfl) (by intro; rfl) (by intro; rfl)).bind fun _ => .killProcessGroup unrecorded_reap r
  have hend : Traced Unrecorded (Job.execute r .processExited >>= fun _ => deleteProcess p) :=
    (Traced.executeNested 2 r _).bind fun _ => .deleteProcess p
  rw [EventManager.dispatch, wp_bind, wp_get, hcb]
  dsimp only
  rw [wp_bind, Job.processCallback, wp_bind]
  refine wp_this_of fun j hj => ?_
  rw [wp_bind, wp_modify, wp_bind, Job.reapChildProcess, wp_bind, wp_setJob]
  have hu : ExitsRecorded ((s.updateKernel (·.dispatch i r)).updateJob r (Job.recordExit st)) ((r, st) :: exits) := by
    refine ⟨fun r' j' hj' => ?_, fun r' hle => ?_⟩
    · simp only [Sys.updateJob, Sys.updateKernel, Function.update_apply] at hj'
      split at hj'
      · rename_i e
        obtain ⟨j₀, -, rfl⟩ := Option.map_eq_some_iff.mp hj'
        rw [recordExit_status, e, List.lookup_cons_self]
      · rename_i e
        rw [List.lookup_cons, beq_false_of_ne e]
        exact hr.status r' j' hj'
    · have hne : r' ≠ r := (lt_of_lt_of_le (hlt j hj) hle).ne'
      rw [List.lookup_cons, beq_false_of_ne hne]
      exact hr.fresh r' hle
  rw [← bind_assoc, wp_bind]
  refine wp_mono (hrest _ trivial) (fun _ u hw => ?_) fun _ _ => trivial
  rw [wp_pure, ← wp_bind]
  exact wp_mono (hend u trivial) (fun _ _ hw' => Writes.recorded (hw.trans hw') hu) fun _ _ => trivial

/-- A call that dispatches nothing waited for nothing, or found that all jobs are gone. -/
theorem Next.idle {wakeup : Wakeup} {answers : Answers} (hn : Next s (.handleEvent wakeup answers) s')
    (hd : (Ev.handleEvent wakeup answers).dispatched s = none) :
    nextEvent wakeup (s.given answers) = .ok none s' ∨ Manager.execute [] .allJobsExited (s.given answers) = .ok () s' := by
  have hwait : ¬ (s.state = .gracefulShutdown ∧ s.jobs.keys.isEmpty) → waitForEvent wakeup (s.given answers) = .ok () s' →
      nextEvent wakeup (s.given answers) = .ok none s' := by
    intro hs hw
    rw [Ev.dispatched, if_neg hs] at hd
    simp only [waitForEvent, bind, andThen] at hw
    cases hnext : nextEvent wakeup (s.given answers) with
    | throw | crash => rw [hnext] at hw; cases hw
    | ok event u =>
      rw [hnext] at hd hw
      cases hd
      cases hw
      rfl
  have hhandle : Manager.handleEvent wakeup (s.given answers) = .ok () s' := hn.2
  rw [handleEvent_eq, show (s.given answers).state = s.state from rfl, show (s.given answers).jobs = s.jobs from rfl] at hhandle
  cases hs : s.state with
  | unconfigured =>
    rw [hs] at hhandle
    cases hhandle
  | running =>
    rw [hs] at hhandle
    exact .inl (hwait (fun h => by rw [hs] at h; cases h.1) hhandle)
  | gracefulShutdown =>
    rw [hs] at hhandle
    dsimp only at hhandle
    split at hhandle
    · exact .inr hhandle
    · rename_i hempty
      exact .inl (hwait (fun h => hempty h.2) hhandle)
  | finished => exact absurd hs hn.1

/-- A step that dispatches no exit records none. -/
theorem Next.unrecorded (hn : Next s e s') (he : ∀ p st i, e.dispatched s ≠ some (.proc p st i)) : Writes Unrecorded s s' := by
  have hboot : Unrecorded .boot := nofun
  have hanswers : ∀ answers, Writes Unrecorded s (s.given answers) := fun answers =>
    .single (.answers answers (.inr nofun))
  cases e with
  | timePasses ms =>
    cases hn.2
    exact .single (.time ms)
  | childExits child status =>
    cases hn.2
    exact childExits_writes unrecorded_reap s child status
  | signalSent sig =>
    cases hn.2
    exact raise_writes s sig
  | startRunning paths answers =>
    have hrest : Traced Unrecorded (do
        if (← Prog.get).state = .unconfigured then Manager.startRunning paths else return () : M Unit) :=
      Traced.readsAll.bind fun _ => .branches _ (.execute _ fun _ => hboot) (.done _)
    exact wp_ok (Q := fun _ => Writes Unrecorded s) (wp_mono (hrest (s.given answers) trivial) (fun _ _ hw => (hanswers answers).trans hw)
      fun _ hw => (hanswers answers).trans hw) hn.2
  | handleEvent wakeup answers =>
    cases hd : (Ev.handleEvent wakeup answers).dispatched s with
    | some event =>
      obtain ⟨wakeup', answers', u, e, hnext, hdispatch⟩ := hn.dispatches hd
      cases e
      have hwait : Writes Unrecorded (s.given answers) u :=
        wp_ok (Q := fun _ => Writes Unrecorded (s.given answers)) (Traced.nextEvent unrecorded_reap wakeup _ trivial) hnext
      have hcallback : Traced Unrecorded (EventManager.dispatch event) :=
        .dispatch (fun _ _ => nofun) unrecorded_reap (fun _ _ _ => hboot)
        (fun p st i e => absurd (hd.trans (congrArg some e)) (he p st i)) fun _ _ => nofun
      exact (hanswers answers).trans (hwait.trans (wp_ok (Q := fun _ => Writes Unrecorded u) (hcallback u trivial) hdispatch))
    | none =>
      refine (hanswers answers).trans ?_
      rcases hn.idle hd with hnext | hall
      · exact wp_ok (Q := fun _ => Writes Unrecorded (s.given answers)) (Traced.nextEvent unrecorded_reap wakeup _ trivial) hnext
      · have hexecute : Traced Unrecorded (Manager.execute [] .allJobsExited) := .execute [] nofun
        exact wp_ok (Q := fun _ => Writes Unrecorded (s.given answers)) (hexecute _ trivial) hall

/-- A step puts the exit it dispatches on record, and no other. -/
theorem next_recorded (h : Sound s) (hr : ExitsRecorded s exits) (hn : Next s e s') : ExitsRecorded s' (noteExits s e exits) := by
  by_cases he : ∃ p st i, e.dispatched s = some (.proc p st i)
  · obtain ⟨p, st, i, he⟩ := he
    obtain ⟨wakeup, answers, u, rfl, hnext, hdispatch⟩ := hn.dispatches he
    have hwrites : Writes Unrecorded s u :=
      .head (.answers answers (.inr nofun)) (wp_ok (Q := fun _ => Writes Unrecorded (s.given answers))
        (Traced.nextEvent unrecorded_reap wakeup _ trivial) hnext)
    cases wp_ok (nextEvent_spec (s := s.given answers) h.inv wakeup) hnext with
    | @queued w _ rest hwoken hq =>
      obtain ⟨-, c, hc, -, -, -, hcb⟩ := hwoken.inv.registry.queued p st i (by
        rw [show w.tables.eventmgr.pendingEvents = _ from hq]; exact List.mem_cons_self)
      obtain ⟨c₀, hc₀, hf⟩ := hwoken.procs.get hc
      have hnote : noteExits s (.handleEvent wakeup answers) exits = (c.job, st) :: exits := by
        rw [noteExits, he]
        dsimp only
        rw [show s.kernel.procs[i]? = some c₀ from hc₀, hf.job]
        rfl
      rw [hnote]
      have hspec : wp (EventManager.dispatch (.proc p st i)) (fun _ s' => ExitsRecorded s' ((c.job, st) :: exits)) (fun _ => True)
          (w.popped rest) :=
        dispatch_recorded hcb (fun j hj => hwoken.inv.owned.allocated c.job j hj) (hwrites.recorded hr)
      exact wp_ok (Q := fun _ s' => ExitsRecorded s' ((c.job, st) :: exits)) hspec hdispatch
  · have hnote : noteExits s e exits = exits := by
      unfold noteExits
      split
      · rename_i p st i hd
        exact absurd ⟨p, st, i, hd⟩ he
      · rfl
    rw [hnote]
    exact (hn.unrecorded fun p st i hd => he ⟨p, st, i, hd⟩).recorded hr

/-- In every run, every job has the status of its last exit on record. -/
theorem exits_recorded {C : Sys → Ev → Prop} (h : Watched C s exits) : ExitsRecorded s exits := by
  induction h with
  | init hi =>
    obtain ⟨stateFile, now, users, rfl⟩ := hi
    refine ⟨fun r j hj => ?_, fun _ _ => rfl⟩
    cases hj
  | step e hr hn ih =>
    have hsound : Sound _ := Runs.sound hr.reach hn.1.1
    exact next_recorded hsound ih hn.1

/-! ## Pids -/

/-- What a step must meet for the list to be right: no fork fails in it, and if it dispatches
    a death by signal, the signal is the one whose number is 1. -/
def ListsStep (s : Sys) : Ev → Prop
  | .startRunning _ answers => s.state = .unconfigured → ForkAnswer.noFork ∉ answers.forks
  | .handleEvent wakeup answers =>
    match (Ev.handleEvent wakeup answers).dispatched s with
    | some (.socket message) => Request.of answers.files message = .load → ForkAnswer.noFork ∉ answers.forks
    | some (.proc _ st i) => (∀ sig, st = .signaled sig → sig = 1) ∧
      ∀ c l, s.kernel.procs[i]? = some c → s.tables.fate c.job = .alive l → l.reap.restarts ((s.given answers).clock 1 / 1000) →
        answers.nextFork ≠ .noFork
    | some (.timer _) => answers.nextFork ≠ .noFork
    | _ => True
  | _ => True

theorem Start.From.forks {a : Answers} {how : Start} (h : how.From a) (ha : ForkAnswer.noFork ∉ a.forks) : how ≠ .noFork := by
  obtain ⟨fork, probe, hf, -, ho⟩ := h
  rintro rfl
  cases fork with
  | noFork => exact hf.elim ha nofun
  | noPipe | noExec => cases ho
  | started want getpgid => cases probe <;> exact absurd ho nofun

theorem Start.Of.forks {fork : ForkAnswer} {probe : Bool} {how : Start} (h : how.Of fork probe) (hf : fork ≠ .noFork) :
    how ≠ .noFork := by
  rintro rfl
  cases fork with
  | noFork => exact hf rfl
  | noPipe | noExec => cases h
  | started want getpgid => cases probe <;> exact absurd h nofun

namespace Life

variable {l : Life} {clock : Nat → Nat} {how : Start}

def Blank (l : Life) : Prop := l.child = none → l.pid = 0

theorem Blank.start (h : l.Blank) (hf : how ≠ .noFork) : (l.start clock how).Blank := by
  cases how with
  | noFork => exact absurd rfl hf
  | noPipe => exact h
  | noExec => exact fun _ => rfl
  | unwatched | started => exact nofun

theorem Blank.enter {state : Job.States} (h : l.Blank) : (l.enter state how).Blank := by
  obtain ⟨_, e⟩ := enter_eq state how l
  rw [e]
  exact h

theorem Blank.wait {kind : TimerKind} {arming : Arming} (h : l.Blank) : (l.wait kind arming).Blank := by
  cases arming <;> exact h

theorem Blank.reap : l.reap.Blank := fun _ => rfl

theorem Blank.unload {lookup : Decode Bool} {force sent : Bool} (h : l.Blank) : (l.unload lookup force sent).Blank := by
  refine unload_cases (P := Blank) lookup force sent (fun _ => h) (fun _ _ => h) fun kills sigterm _ _ => ?_
  obtain ⟨_, _, -, e⟩ := unloadTriggered_eq { l with unloadRequested := true, kills, sigterm }
  rw [e]
  exact h

theorem Blank.boots {lookup : Decode Bool} {arming : Arming} (h : l.Blank) (hf : how ≠ .noFork) :
    (l.bootstrap lookup clock how arming).Blank := by
  have hb : Blank { l with boot := Manager.bootOf lookup } := h
  exact bootTriggered_cases (P := Blank) lookup clock how arming hb (fun _ _ => (hb.start hf).enter) fun _ _ _ => hb.wait

theorem Blank.exited (hf : l.reap.restarts (clock 1 / 1000) → how ≠ .noFork) : (l.reap.processExited clock how).Blank :=
  processExited_cases (P := Blank) clock how (fun _ => .reap) (fun _ _ _ _ => .reap) (fun hr => Blank.start .reap (hf hr))
    (fun _ => Blank.wait .reap) fun _ _ => .reap

end Life

theorem Life.Blank.next {l : Life} {a : Turn} (hC : ListsStep s e) (ha : Given s e r l a) (h : l.Blank) : (l.next a).Blank := by
  cases ha with
  | starts hs hq =>
    obtain ⟨lookup, clock, how, arming, rfl, hhow, -⟩ := boot_of_load hq
    exact h.boots (hhow.forks (hC hs))
  | load hd hs hload hq =>
    obtain ⟨lookup, clock, how, arming, rfl, hhow, -⟩ := boot_of_load hq
    rw [ListsStep, hd] at hC
    exact h.boots (hhow.forks (hC hload))
  | kill =>
    obtain ⟨kills, e⟩ := signal_eq l
    rw [Life.next, e]
    exact h
  | unload => exact h.unload
  | @exit wakeup answers p st i r l how hd hproc hl hchild hof =>
    obtain ⟨c, hc, rfl⟩ := hproc
    rw [ListsStep, hd] at hC
    exact Blank.exited fun hr => (hof hr).forks (hC.2 c l hc hl hr)
  | @timer wakeup answers timerId r l kind how hd hcb hl hof =>
    rw [ListsStep, hd] at hC
    have hfire : l.fire.Blank := h
    cases kind with
    | throttle => exact (hfire.start (hof.forks hC)).enter
    | periodic => exact hfire.start (hof.forks hC)
  | shutsDown hd hsig hrun hl hsent => exact h.unload

/-- In a run in which no fork fails, the pid on record is that of the child, or 0. -/
theorem pid_recorded (h : Runs ListsStep s) {j : Job} (hj : s.heap r = some j) :
    j.pid = (s.child r).elim 0 (·.pid) ∧ ∀ c, s.child r = some c → c.pid ≠ 0 := by
  have hlife : (s.tables.lifeOf r j).Good ∧ (s.tables.lifeOf r j).Blank := by
    refine h.lives (Q := fun l => l.Good ∧ l.Blank) (fun m _ => ⟨Life.good_new m, fun _ => rfl⟩)
      (fun s e r l a _ _ hC ha he hl => ⟨Life.good_next hl.1 he, hl.2.next hC ha⟩) r _ (fate_alive hj)
  have hchild : (s.tables.lifeOf r j).child = (s.child r).map (·.pid) := rfl
  cases hc : s.child r with
  | none => exact ⟨hlife.2 (by rw [hchild, hc]; rfl), nofun⟩
  | some c =>
    obtain ⟨hpos, hpid⟩ := hlife.1.childPid c.pid (by rw [hchild, hc]; rfl)
    refine ⟨hpid, fun c' hc' => ?_⟩
    cases hc'
    exact hpos.ne'

/-! ## The list -/

def jobRow (j : Job) : Json :=
  .obj [("LastExitStatus", .int j.lastExitStatus), ("Label", .str j.label), ("PID", .str (if j.pid = 0 then "-" else toString j.pid))]

theorem listJob_eq {label : String} {j : Job} (hl : s.jobs.lookup label = some r) (hj : s.heap r = some j)
    (hne : j.label.isEmpty = false) : Manager.listJob label s = .ok (some (jobRow j)) s := by
  have hstring : ofDecode (Label.string j.label) s = .ok j.label s := by
    rw [Label.string, if_neg (by rw [hne]; exact Bool.false_ne_true)]
    rfl
  unfold Manager.listJob
  rw [bind_ok (show Prog.get s = .ok s s from rfl), hl]
  dsimp only
  rw [bind_ok (show this r s = .ok j s by unfold this; rw [hj]), bind_ok hstring]
  rfl

theorem listRows_eq {row : String → Json} {labels : List String} (h : ∀ label ∈ labels, Manager.listJob label s = .ok (some (row label)) s)
    (rows : List Json) : Manager.listRows rows labels s = .ok (rows ++ labels.map row) s := by
  induction labels generalizing rows with
  | nil =>
    rw [List.map_nil, List.append_nil]
    rfl
  | cons label rest ih =>
    rw [Manager.listRows, bind_ok (h label List.mem_cons_self), ih (fun l hl => h l (List.mem_cons_of_mem _ hl)),
      List.map_cons, Option.toList_some, List.append_assoc]
    rfl

theorem visiting_eq (keys : List String) (s : Sys) :
    ∃ order s', visiting keys s = .ok order s' ∧ order.Perm keys ∧ s'.jobs = s.jobs ∧ s'.heap = s.heap := by
  refine ⟨_, _, rfl, ?_, rfl, rfl⟩
  split
  · rename_i hp
    exact List.isPerm_iff.mp hp
  · exact .refl _

/-- The rows are those of the jobs. -/
theorem listJobs_rows {row : String → Json}
    (h : ∀ label ∈ s.jobs.keys, ∃ r j, s.jobs.lookup label = some r ∧ s.heap r = some j ∧ j.label.isEmpty = false ∧ row label = jobRow j) :
    ∃ rows s', Manager.listJobs s = .ok (.arr rows) s' ∧ rows.Perm (s.jobs.keys.map row) := by
  obtain ⟨order, u, hv, hperm, hjobs, hheap⟩ := visiting_eq s.jobs.keys s
  have hrows : Manager.listRows [] order u = .ok ([] ++ order.map row) u := by
    refine listRows_eq (fun label hm => ?_) []
    obtain ⟨r, j, hl, hj, hne, hrow⟩ := h label (hperm.mem_iff.mp hm)
    rw [hrow]
    exact listJob_eq (hjobs ▸ hl) (hheap ▸ hj) hne
  refine ⟨order.map row, u, ?_, hperm.map row⟩
  rw [Manager.listJobs, bind_ok (show Prog.get s = .ok s s from rfl), bind_ok hv, bind_ok hrows]
  rfl

/-- A label in `jobs` is that of the job it leads to. -/
theorem reachable_stored (h : Reachable s) {label : String} (hl : s.jobs.lookup label = some r) :
    ∃ j, s.heap r = some j ∧ j.label = label := by
  rcases (Runs.of_reachable h).cases with hsound | ⟨_, _, _, _, _, _, _, _, _, hf⟩
  · obtain ⟨j, hj, hlabel, -⟩ := hsound.inv.owned.stored label r hl
    exact ⟨j, hj, hlabel⟩
  · rw [hf.jobs] at hl
    cases hl

/-- In a run whose steps meet the condition, the only signal on record is the one whose
    number is 1. -/
theorem signals_one (h : Watched ListsStep s exits) : ∀ x ∈ exits, ∀ sig, x.2 = .signaled sig → sig = 1 := by
  induction h with
  | init => exact nofun
  | @step s s' exits e _ hn ih =>
    have hC := hn.2
    unfold noteExits
    split
    · rename_i p st i hd
      intro x hx
      rcases List.mem_append.mp hx with hx | hx
      · obtain ⟨c, -, rfl⟩ := Option.map_eq_some_iff.mp (Option.mem_toList.mp hx)
        cases e with
        | timePasses | childExits | signalSent | startRunning => cases hd
        | handleEvent wakeup answers =>
          rw [ListsStep, hd] at hC
          exact hC.1
      · exact ih x hx
    · exact ih

theorem documented_of_recorded {status : Option WaitStatus} (h : ∀ sig, status = some (.signaled sig) → sig = 1) :
    recordedStatus status = documentedStatus status := by
  rcases status with _ | code | sig
  · rfl
  · rfl
  · rw [h sig rfl]
    rfl

/-- In every run in which no fork fails and no exit is dispatched but normal ones and deaths
    by signal 1, the list is right in every state reached. -/
theorem lists_jobs (h : Watched ListsStep s exits) : ListsJobs s exits := by
  have hruns : Runs ListsStep s := h.reach
  have hrecorded := exits_recorded h
  intro answers
  have hrow : ∀ label r, s.jobs.lookup label = some r →
      ∃ j, s.heap r = some j ∧ j.label.isEmpty = false ∧ documentedRow s exits label r = jobRow j := by
    intro label r hl
    obtain ⟨j, hj, hlabel⟩ := reachable_stored hruns.reachable hl
    have hstatus : j.lastExitStatus = documentedStatus (exits.lookup r) := by
      rw [hrecorded.status r j hj]
      refine documented_of_recorded fun sig hsig => ?_
      obtain ⟨_, _, rfl, -⟩ := List.lookup_eq_some_iff.mp hsig
      exact signals_one h (r, .signaled sig) (List.mem_append_right _ List.mem_cons_self) sig rfl
    obtain ⟨hpid, hpos⟩ := pid_recorded hruns hj
    refine ⟨j, hj, reachable_label hruns.reachable hj, ?_⟩
    rw [documentedRow, jobRow, hstatus, hlabel, hpid]
    cases hc : s.child r with
    | none => rfl
    | some c => rw [Option.elim_some, if_neg (hpos c hc)]
  obtain ⟨row, hrowOf⟩ : ∃ row : String → Json, ∀ label r, s.jobs.lookup label = some r → row label = documentedRow s exits label r :=
    ⟨fun label => (s.jobs.lookup label).elim .null (documentedRow s exits label), fun label r hl => by dsimp only; rw [hl, Option.elim_some]⟩
  have hkeys : ∀ label ∈ (s.given answers).jobs.keys, ∃ r j, (s.given answers).jobs.lookup label = some r ∧
      (s.given answers).heap r = some j ∧ j.label.isEmpty = false ∧ row label = jobRow j := by
    intro label hm
    obtain ⟨r, hl⟩ := Option.isSome_iff_exists.mp (AList.lookup_isSome.mpr (AList.mem_keys.mp hm))
    obtain ⟨j, hj, hne, hdoc⟩ := hrow label r hl
    exact ⟨r, j, hl, hj, hne, (hrowOf label r hl).trans hdoc⟩
  obtain ⟨rows, s', hlist, hperm⟩ := listJobs_rows hkeys
  refine ⟨rows, s', hlist, hperm.trans (.of_eq ?_)⟩
  rw [AList.keys, List.keys, List.map_map]
  refine List.map_congr_left fun entry hm => hrowOf entry.1 entry.2 ?_
  exact AList.mem_lookup_iff.mpr hm

def exitRun (status : WaitStatus) : List Ev := [startWith [("RunAtLoad", .bool true)] {}, .childExits 0 status]

def reapsOne : Ev := .handleEvent (.signal [.sigchld] [0]) {}

def dispatchesNormally (s : Sys) (e : Ev) : Bool :=
  match e.dispatched s with
  | some (.proc _ (.signaled _) _) => false
  | _ => true

theorem lists_jobs_exited : ∃ s exits, Watched ListsStep s exits ∧ (∃ j, s.heap 0 = some j ∧ j.lastExitStatus = 3) ∧
    ListsJobs s exits := by
  have hC : ∀ s e, e ∈ exitRun (.exited 3) ++ [reapsOne] → dispatchesNormally s e → ListsStep s e := by
    intro s e he hc
    simp only [exitRun, List.cons_append, List.nil_append, List.mem_cons, List.not_mem_nil, or_false] at he
    rcases he with rfl | rfl | rfl
    · exact fun _ => nofun
    · trivial
    · unfold dispatchesNormally at hc
      rw [reapsOne] at hc ⊢
      rw [ListsStep]
      cases hd : (Ev.handleEvent (.signal [.sigchld] [0]) {}).dispatched s with
      | none => trivial
      | some event =>
        rw [hd] at hc
        cases event with
        | socket message => exact fun _ => nofun
        | proc p st i =>
          refine ⟨fun sig hsig => ?_, fun _ _ _ _ _ => nofun⟩
          rw [hsig] at hc
          cases hc
        | timer id => exact nofun
        | ipc | signal => trivial
  obtain ⟨s, hs, hp⟩ := runs_of_run dispatchesNormally (exitRun (.exited 3) ++ [reapsOne])
    (fun s => (s.heap 0).any (·.lastExitStatus == 3)) hC (by decide +kernel)
  obtain ⟨exits, hnoted⟩ : ∃ exits, Watched ListsStep s exits := hs.noted
  obtain ⟨j, hj, hstatus⟩ := (Option.any_eq_true ..).mp hp
  exact ⟨s, exits, hnoted, ⟨j, hj, by simpa using hstatus⟩, lists_jobs hnoted⟩

def allShowDeath (s : Sys) : Bool :=
  match Manager.listJobs (s.given {}) with
  | .ok (.arr rows) _ => rows.all fun row => match row with
    | .obj ((_, .int n) :: _) => n == -1
    | _ => false
  | _ => false

/-- A child that dies by SIGTERM is listed with a last exit status of -1. -/
theorem signal_unlisted : ¬ ∀ s exits, Watched (fun _ _ => True) s exits → ListsJobs s exits := by
  intro h
  obtain ⟨s, hs, hp⟩ := reachable_of_run (exitRun (.signaled 15)) (fun s => s.state == .running &&
    noteExits s reapsOne [] == [(0, .signaled 15)] &&
      (final? (step reapsOne) s).any fun t => t.jobs.lookup "job" == some 0 && allShowDeath t) (by decide +kernel)
  simp only [Bool.and_eq_true, beq_iff_eq] at hp
  obtain ⟨⟨hrunning, hnote⟩, hp⟩ := hp
  obtain ⟨t, ht, hp⟩ := (Option.any_eq_true ..).mp hp
  simp only [Bool.and_eq_true, beq_iff_eq] at hp
  obtain ⟨u, ht⟩ := final?_eq_some.mp ht
  have hnext : Next s reapsOne t := ⟨by rw [hrunning]; nofun, ht⟩
  obtain ⟨exits, hnoted⟩ : ∃ exits, Watched (fun _ _ => True) s exits := (Runs.of_reachable hs).noted
  obtain ⟨rows, s', hlist, hperm⟩ := h t _ (hnoted.step reapsOne ⟨hnext, trivial⟩) {}
  have hrow : documentedRow t (noteExits s reapsOne exits) "job" 0 ∈ rows :=
    hperm.mem_iff.mpr (List.mem_map.mpr ⟨⟨"job", 0⟩, AList.mem_lookup_iff.mp hp.1, rfl⟩)
  have hall := hp.2
  unfold allShowDeath at hall
  rw [hlist] at hall
  have hshown := List.all_eq_true.mp hall _ hrow
  rw [documentedRow, noteExits_append, hnote] at hshown
  cases hshown

end Relaunchd
