/-
  Relaunchd.Properties.Launching — what a child does before it executes its program, and
  what its parent makes of it.

  The steps a manifest asks for are taken in their order. The first that fails is the last,
  and its status is what the parent reads, but for one errno: the `close(2)` after a
  `dup2(2)` that failed may fail for a reason of its own.
-/

import Relaunchd.Properties.Credentials

namespace Relaunchd

open Prog

namespace Child

/-! ## The steps -/

/-- One step of the set-up, with what its failure is reported as. -/
inductive Step where
  | call (c : Syscall) (code : ExecErrorCode)
  /-- A file takes the place of a standard descriptor. -/
  | redirect (oldfd : Nat) (path : String) (flags : OpenFlags) (mode : Nat) (context : ExecErrorContext)

def userSteps (manifest : Manifest) (ctx : ExecutionContext) : List Step :=
  match manifest.userName, ctx.gid, ctx.uid with
  | some user, some gid, some uid =>
    (if manifest.initGroups then [.call (.initgroups user gid) .initGroupsFailed] else []) ++
      [.call (.setgid gid) .setGroupIdFailed, .call (.setuid uid) .setUserIdFailed]
  | _, _, _ => []

/-- The steps that a manifest asks for, in the order in which they are taken. -/
def steps (manifest : Manifest) (ctx : ExecutionContext) : List Step := List.flatten
  [ [.call .setsid .createSessionFailed],
    manifest.nice.toList.map fun nice : Nat => .call (.setpriority ((nice : Int).bmod (2 ^ 32))) .setPriorityFailed,
    manifest.workingDirectory.toList.map fun path => .call (.chdir path) .setWorkingDirectoryFailed,
    manifest.rootDirectory.toList.map fun path => .call (.chroot path) .setRootDirectoryFailed,
    userSteps manifest ctx,
    [ .redirect 0 manifest.stdinPath .rdonly 0 .redirectStdin,
      .redirect 1 manifest.stdoutPath .create 0o600 .redirectStdout,
      .redirect 2 manifest.stderrPath .create 0o600 .redirectStderr,
      .call (.calloc (ctx.environ.length + 1)) .memoryAllocationFailed,
      .call (.calloc (manifest.programArguments.length + 1)) .memoryAllocationFailed ] ]

inductive Step.Done : Step → List (Syscall × Answer) → Prop
  | call {c : Syscall} {code : ExecErrorCode} {v : Nat} : Done (.call c code) [(c, .ok v)]
  | redirect {oldfd : Nat} {path : String} {flags : OpenFlags} {mode : Nat} {context : ExecErrorContext} {fd v w : Nat} :
      Done (.redirect oldfd path flags mode context)
        [(.openFile path flags mode, .ok fd), (.dup2 fd oldfd, .ok v), (.close fd, .ok w)]

inductive Step.Failed : Step → List (Syscall × Answer) → ExecStatus → Prop
  | call {c : Syscall} {code : ExecErrorCode} {errno : Nat} : Failed (.call c code) [(c, .error errno)] ⟨code, errno, .childProcess⟩
  | openFile {oldfd : Nat} {path : String} {flags : OpenFlags} {mode : Nat} {context : ExecErrorContext} {errno : Nat} :
      Failed (.redirect oldfd path flags mode context) [(.openFile path flags mode, .error errno)] ⟨.openFailed, errno, context⟩
  /-- The new descriptor is closed, whether that succeeds or not. -/
  | dup2 {oldfd : Nat} {path : String} {flags : OpenFlags} {mode : Nat} {context : ExecErrorContext} {fd errno : Nat} {a : Answer} :
      Failed (.redirect oldfd path flags mode context)
        [(.openFile path flags mode, .ok fd), (.dup2 fd oldfd, .error errno), (.close fd, a)] ⟨.dup2Failed, errno, context⟩
  | close {oldfd : Nat} {path : String} {flags : OpenFlags} {mode : Nat} {context : ExecErrorContext} {fd v errno : Nat} :
      Failed (.redirect oldfd path flags mode context)
        [(.openFile path flags mode, .ok fd), (.dup2 fd oldfd, .ok v), (.close fd, .error errno)] ⟨.closeFailed, errno, context⟩

inductive Taken : List Step → List (Syscall × Answer) → Prop
  | nil : Taken [] []
  | cons {step : Step} {rest : List Step} {l calls : List (Syscall × Answer)} :
      step.Done l → Taken rest calls → Taken (step :: rest) (l ++ calls)

/-- The steps have been taken up to one that failed; this is its status. -/
inductive Stopped : List Step → List (Syscall × Answer) → ExecStatus → Prop
  | here {step : Step} {rest : List Step} {l : List (Syscall × Answer)} {status : ExecStatus} :
      step.Failed l status → Stopped (step :: rest) l status
  | later {step : Step} {rest : List Step} {l calls : List (Syscall × Answer)} {status : ExecStatus} :
      step.Done l → Stopped rest calls status → Stopped (step :: rest) (l ++ calls) status

/-- Every call succeeds up to the `dup2(2)` of a file, which fails, and the `close(2)` after
    it fails for another reason. -/
def LosesErrno : List Step → List Answer → Prop
  | [], _ => False
  | .call _ _ :: rest, answers => (answers.headD (.ok 0)).isOk ∧ LosesErrno rest answers.tail
  | .redirect .. :: rest, answers =>
    match answers.headD (.ok 0), answers.tail.headD (.ok 0), answers.tail.tail.headD (.ok 0) with
    | .ok _, .error errno, .error errno' => errno ≠ errno'
    | .ok _, .ok _, .ok _ => LosesErrno rest answers.tail.tail.tail
    | _, _, _ => False

/-! ## The stages take the steps -/

def Step.stage : Step → Stage
  | .call c code => attempt c code
  | .redirect oldfd path flags mode context => Child.redirect oldfd path flags mode context

section Stages

variable {manifest : Manifest} {ctx : ExecutionContext} {s : Setup}

theorem inOrder_one (stage : Stage) : inOrder [stage] = stage := by
  funext s
  cases h : stage s with
  | ok r s' =>
    rw [inOrder_cons h]
    cases r <;> rfl
  | throw | crash => simp only [inOrder, bind, andThen, h]

theorem inOrder_inline (before stages after : List Stage) :
    inOrder (before ++ inOrder stages :: after) = inOrder (before ++ (stages ++ after)) := by
  induction before with
  | nil =>
    funext s
    rw [List.nil_append, List.nil_append, inOrder_append]
    simp only [inOrder, bind, andThen]
    cases inOrder stages s with
    | ok r s' =>
      cases r with
      | some status => rfl
      | none => exact congrFun (inOrder_one (inOrder after)).symm s'
    | throw | crash => rfl
  | cons stage before ih => simp only [List.cons_append, inOrder, ih]

theorem attemptIf_eq {value : Option α} {c : α → Syscall} {code : ExecErrorCode} :
    attemptIf value c code = inOrder ((value.toList.map fun a => .call (c a) code).map Step.stage) := by
  cases value with
  | none => rfl
  | some a => exact (inOrder_one _).symm

/-- The context has the user and the group that the manifest asks for. -/
def Provides (manifest : Manifest) (ctx : ExecutionContext) : Prop :=
  manifest.userName.isSome → ctx.gid.isSome ∧ ctx.uid.isSome

theorem becomeUser_eq (h : Provides manifest ctx) : becomeUser manifest ctx = inOrder ((userSteps manifest ctx).map Step.stage) := by
  unfold becomeUser userSteps
  cases hu : manifest.userName with
  | none => rfl
  | some user =>
    obtain ⟨hg, hi⟩ := h (by rw [hu]; rfl)
    obtain ⟨gid, hg⟩ := Option.isSome_iff_exists.mp hg
    obtain ⟨uid, hi⟩ := Option.isSome_iff_exists.mp hi
    rw [hg, hi]
    cases manifest.initGroups <;> rfl

theorem startChildProcess_eq (h : Provides manifest ctx) : startChildProcess manifest ctx =
    inOrder (setUmask manifest :: ((steps manifest ctx).map Step.stage ++ [execute manifest ctx])) := by
  rw [startChildProcess, stages, attemptIf_eq, attemptIf_eq, attemptIf_eq, becomeUser_eq h]
  simp only [steps, List.flatten_cons, List.flatten_nil, List.map_append, List.append_assoc, List.append_nil]
  refine (inOrder_inline [_, _] _ _).trans ?_
  rw [← List.append_assoc]
  refine (inOrder_inline _ _ _).trans ?_
  rw [← List.append_assoc]
  refine (inOrder_inline _ _ _).trans ?_
  rw [← List.append_assoc]
  refine (inOrder_inline _ _ _).trans ?_
  simp only [List.append_assoc]
  rfl

end Stages

/-! ## What becomes of the steps -/

def firstFailed (calls : List (Syscall × Answer)) : Option (Syscall × Answer) := calls.find? (!·.2.isOk)

section Outcome

variable {step : Step} {rest : List Step} {l calls : List (Syscall × Answer)} {status : ExecStatus} {last : Stage} {s : Setup}

theorem Step.Done.isOk (h : step.Done l) {c : Syscall × Answer} (hc : c ∈ l) : c.2.isOk = true := by
  cases h with
  | call =>
    rw [List.mem_singleton.mp hc]
    rfl
  | redirect =>
    simp only [List.mem_cons, List.not_mem_nil, or_false] at hc
    rcases hc with rfl | rfl | rfl <;> rfl

theorem firstFailed_append (h : step.Done l) : firstFailed (l ++ calls) = firstFailed calls := by
  rw [firstFailed, List.find?_append]
  have hnone : l.find? (!·.2.isOk) = none := List.find?_eq_none.mpr fun c hc => by simp [h.isOk hc]
  rw [hnone]
  rfl

theorem Taken.firstFailed (h : Taken rest calls) (tail : List (Syscall × Answer)) :
    Child.firstFailed (calls ++ tail) = Child.firstFailed tail := by
  induction h with
  | nil => rfl
  | cons hd _ ih => rw [List.append_assoc, firstFailed_append hd, ih]

theorem Step.Failed.firstFailed (h : step.Failed l status) : ∃ c, Child.firstFailed l = some (c, .error status.savedErrno) := by
  cases h <;> exact ⟨_, rfl⟩

/-- The errno of the status is that of the first call that failed. -/
theorem Stopped.firstFailed (h : Stopped rest calls status) : ∃ c, Child.firstFailed calls = some (c, .error status.savedErrno) := by
  induction h with
  | here hf => exact hf.firstFailed
  | later hd _ ih => rwa [firstFailed_append hd]

/-- How the steps, and then the last stage, can go. -/
inductive Outcome (last : Stage) (steps : List Step) (s : Setup) : Prop
  | taken {calls : List (Syscall × Answer)} {s' : Setup} : ¬ LosesErrno steps s.answers → Taken steps calls →
      s'.calls = s.calls ++ calls → inOrder (steps.map Step.stage ++ [last]) s = last s' → Outcome last steps s
  | stopped {calls : List (Syscall × Answer)} {status : ExecStatus} {s' : Setup} : ¬ LosesErrno steps s.answers →
      Stopped steps calls status → s'.calls = s.calls ++ calls →
      inOrder (steps.map Step.stage ++ [last]) s = .ok (some status) s' → Outcome last steps s
  | lost {calls : List (Syscall × Answer)} {c : Syscall} {errno : Nat} {status : ExecStatus} {s' : Setup} :
      LosesErrno steps s.answers → firstFailed calls = some (c, .error errno) → status.savedErrno ≠ errno →
      s'.calls = s.calls ++ calls → inOrder (steps.map Step.stage ++ [last]) s = .ok (some status) s' → Outcome last steps s

/-- A step that succeeds. -/
theorem Outcome.later {t : Setup} (h : step.Done l) (hrun : step.stage s = .ok none t) (hcalls : t.calls = s.calls ++ l)
    (hloses : LosesErrno (step :: rest) s.answers ↔ LosesErrno rest t.answers) (ho : Outcome last rest t) :
    Outcome last (step :: rest) s := by
  have hcons : inOrder ((step :: rest).map Step.stage ++ [last]) s = inOrder (rest.map Step.stage ++ [last]) t :=
    inOrder_cons hrun
  cases ho with
  | taken hn ht hc hr => exact .taken (mt hloses.mp hn) (.cons h ht) (by rw [hc, hcalls, List.append_assoc]) (hcons.trans hr)
  | stopped hn ht hc hr => exact .stopped (mt hloses.mp hn) (.later h ht) (by rw [hc, hcalls, List.append_assoc]) (hcons.trans hr)
  | lost hl hf hne hc hr =>
    exact .lost (hloses.mpr hl) ((firstFailed_append h).trans hf) hne (by rw [hc, hcalls, List.append_assoc]) (hcons.trans hr)

/-- A step that fails. -/
theorem Outcome.here {t : Setup} (h : step.Failed l status) (hrun : step.stage s = .ok (some status) t) (hcalls : t.calls = s.calls ++ l)
    (hloses : ¬ LosesErrno (step :: rest) s.answers) : Outcome last (step :: rest) s :=
  .stopped hloses (.here h) hcalls (inOrder_cons hrun)

/-- What `redirect` reports when `dup2(2)` and `close(2)` are answered so. -/
def redirectReport (context : ExecErrorContext) : Answer → Answer → Option ExecStatus
  | .error errno, .ok _ => some ⟨.dup2Failed, errno, context⟩
  | .error _, .error errno' => some ⟨.dup2Failed, errno', context⟩
  | .ok _, .error errno => some ⟨.closeFailed, errno, context⟩
  | .ok _, .ok _ => none

theorem outcome (last : Stage) (steps : List Step) (s : Setup) : Outcome last steps s := by
  induction steps generalizing s with
  | nil => exact .taken id .nil (List.append_nil _).symm (congrFun (inOrder_one last) s)
  | cons step rest ih =>
    cases step with
    | call c code =>
      cases ha : s.answers.headD (.ok 0) with
      | ok v =>
        refine .later (t := s.after c) .call ?_ (by rw [Setup.after, ha]) ?_ (ih _)
        · simp only [Step.stage, attempt, call_bind, ha]
          rfl
        · simp only [LosesErrno, ha, Setup.after]
          exact and_iff_right rfl
      | error errno =>
        refine .here (t := s.after c) .call ?_ (by rw [Setup.after, ha]) ?_
        · simp only [Step.stage, attempt, call_bind, ha]
          rfl
        · simp only [LosesErrno, ha]
          exact fun h => by cases h.1
    | redirect oldfd path flags mode context =>
      cases ha : s.answers.headD (.ok 0) with
      | error errno =>
        refine .here (t := s.after (.openFile path flags mode)) .openFile ?_ (by rw [Setup.after, ha]) ?_
        · simp only [Step.stage, redirect, replaceFd, bind_assoc, call_bind, ha]
          rfl
        · simp only [LosesErrno, ha]
          exact id
      | ok fd =>
        let s₃ := ((s.after (.openFile path flags mode)).after (.dup2 fd oldfd)).after (.close fd)
        have hcalls : s₃.calls = s.calls ++ [(.openFile path flags mode, .ok fd), (.dup2 fd oldfd, s.answers.tail.headD (.ok 0)),
            (.close fd, s.answers.tail.tail.headD (.ok 0))] := by simp [s₃, Setup.after, -List.headD_eq_head?_getD, ha]
        have hrun : ∀ {b d : Answer}, s.answers.tail.headD (.ok 0) = b → s.answers.tail.tail.headD (.ok 0) = d →
            Step.stage (.redirect oldfd path flags mode context) s = .ok (redirectReport context b d) s₃ := by
          intro b d hb hd
          have hb' : (s.after (.openFile path flags mode)).answers.headD (.ok 0) = b := hb
          have hd' : ((s.after (.openFile path flags mode)).after (.dup2 fd oldfd)).answers.headD (.ok 0) = d := hd
          simp only [Step.stage, redirect, replaceFd, bind_assoc, call_bind, ha, hb']
          cases b <;> simp only [attempt, bind_assoc, call_bind, hd'] <;> cases d <;> rfl
        cases hb : s.answers.tail.headD (.ok 0) with
        | error errno =>
          cases hd : s.answers.tail.tail.headD (.ok 0) with
          | ok v => exact .here .dup2 (hrun hb hd) (by rw [hcalls, hb]) (by simp only [LosesErrno, ha, hb, hd]; exact id)
          | error errno' =>
            by_cases hne : errno = errno'
            · subst hne
              exact .here .dup2 (hrun hb hd) (by rw [hcalls, hb]) (by simp only [LosesErrno, ha, hb, hd]; exact fun h => h rfl)
            · exact .lost (by simp only [LosesErrno, ha, hb, hd]; exact hne) (by rw [hb]; rfl) (Ne.symm hne) hcalls
                (inOrder_cons (hrun hb hd))
        | ok v =>
          cases hd : s.answers.tail.tail.headD (.ok 0) with
          | error errno =>
            exact .here .close (hrun hb hd) (by rw [hcalls, hb, hd]) (by simp only [LosesErrno, ha, hb, hd]; exact id)
          | ok w =>
            exact .later .redirect (hrun hb hd) (by rw [hcalls, hb, hd]) (by simp only [LosesErrno, ha, hb, hd]; exact Iff.rfl) (ih s₃)

end Outcome

/-- A step of the set-up does not execute the program, and a failure is not reported as a success. -/
def Step.Plain : Step → Prop
  | .call c code => c.isExecve = false ∧ code ≠ .execSuccess
  | .redirect .. => True

section Plain

variable {manifest : Manifest} {ctx : ExecutionContext} {step : Step} {l calls : List (Syscall × Answer)} {status : ExecStatus}
  {rest : List Step}

theorem userSteps_plain (h : step ∈ userSteps manifest ctx) : step.Plain := by
  unfold userSteps at h
  split at h
  · simp only [List.mem_append, List.mem_cons, List.not_mem_nil, or_false] at h
    rcases h with h | rfl | rfl
    · split at h
      · rw [List.mem_singleton.mp h]
        exact ⟨rfl, nofun⟩
      · cases h
    · exact ⟨rfl, nofun⟩
    · exact ⟨rfl, nofun⟩
  · cases h

theorem steps_plain (h : step ∈ steps manifest ctx) : step.Plain := by
  simp only [steps, List.flatten_cons, List.flatten_nil, List.mem_append, List.mem_cons, List.not_mem_nil, or_false, List.mem_map] at h
  rcases h with rfl | ⟨_, -, rfl⟩ | ⟨_, -, rfl⟩ | ⟨_, -, rfl⟩ | h | rfl | rfl | rfl | rfl | rfl
  case inr.inr.inr.inr.inl => exact userSteps_plain h
  all_goals trivial

theorem Step.Done.noExecve (h : step.Done l) (hp : step.Plain) : ∀ c ∈ l, c.1.isExecve = false := by
  cases h with
  | call => exact List.forall_mem_singleton.mpr hp.1
  | redirect => simp [Syscall.isExecve]

theorem Step.Failed.noExecve (h : step.Failed l status) (hp : step.Plain) : ∀ c ∈ l, c.1.isExecve = false := by
  cases h with
  | call => exact List.forall_mem_singleton.mpr hp.1
  | openFile | dup2 | close => simp [Syscall.isExecve]

theorem Step.Failed.code (h : step.Failed l status) (hp : step.Plain) : status.errorCode ≠ .execSuccess := by
  cases h with
  | call => exact hp.2
  | openFile | dup2 | close => exact nofun

/-- Where a step fails, nothing is executed, and a failure is reported. -/
theorem Stopped.refused (h : Stopped rest calls status) (hp : ∀ step ∈ rest, step.Plain) :
    (∀ c ∈ calls, c.1.isExecve = false) ∧ status.errorCode ≠ .execSuccess := by
  induction h with
  | here hf =>
    have hplain := hp _ List.mem_cons_self
    exact ⟨hf.noExecve hplain, hf.code hplain⟩
  | later hd _ ih =>
    obtain ⟨hcalls, hcode⟩ := ih fun step hs => hp step (List.mem_cons_of_mem _ hs)
    refine ⟨fun c hc => ?_, hcode⟩
    rcases List.mem_append.mp hc with hc | hc
    · exact hd.noExecve (hp _ List.mem_cons_self) c hc
    · exact hcalls c hc

end Plain

end Child

/-! ## The parent -/

section Parent

variable {s : Sys} {r : Ref} {j : Job} {environ : List String} {ctx : ExecutionContext} {pid : Int} {getpgid : Bool}

theorem lookUpUser_ok (hj : s.heap r = some j) (h : Job.executionContext s.kernel.users j.manifest environ = some ctx) :
    Job.lookUpUser r s = .ok () s := by
  simp only [Job.lookUpUser, bind, andThen, this, hj, Prog.get]
  unfold Job.executionContext at h
  cases hu : j.manifest.userName with
  | none => rfl
  | some user =>
    rw [hu] at h
    simp only at h ⊢
    cases hp : s.kernel.users.getpwnam user with
    | none =>
      rw [hp] at h
      cases h
    | some pwent =>
      cases hg : j.manifest.groupName with
      | none => rfl
      | some group =>
        cases hgr : s.kernel.users.getgrnam group with
        | none =>
          rw [hp, hg] at h
          simp [hgr] at h
        | some gid => simp [hgr]; rfl

/-- The parent has a child that runs its program. -/
def Launched (s s' : Sys) (r : Ref) : Prop := ∃ j' p, Job.run r s = .ok true s' ∧ s'.heap r = some j' ∧ j'.pid = p.pid ∧ j'.pid ≠ 0 ∧
  s'.kernel.procs = s.kernel.procs ++ [p] ∧ p.job = r ∧ p.execed ∧ p.state = .running

/-- The parent has reaped its child, and has none. -/
def Reaped (s s' : Sys) (r : Ref) : Prop := ∃ j' p, Job.run r s = .ok false s' ∧ s'.heap r = some j' ∧ j'.pid = 0 ∧
  s'.kernel.procs = s.kernel.procs ++ [p] ∧ p.job = r ∧ p.execed = false ∧ p.state = .reaped

theorem nextFork_ok {fork : ForkAnswer} (hf : s.kernel.answers.nextFork = fork) :
    ∃ s₁, nextFork s = .ok fork s₁ ∧ s₁.heap = s.heap ∧ s₁.kernel.procs = s.kernel.procs := by
  subst hf
  exact ⟨_, rfl, rfl, rfl⟩

theorem run_started (hj : s.heap r = some j) (h : Job.executionContext s.kernel.users j.manifest environ = some ctx)
    (hf : s.kernel.answers.nextFork = .started pid getpgid) : ∃ s', Launched s s' r := by
  obtain ⟨s₁, hnext, hheap, hprocs⟩ := nextFork_ok hf
  have hfree : s₁.ticked.kernel.freePid pid ≠ 0 := ne_of_gt (s₁.ticked.kernel.freePid_free pid).1
  have hlook := lookUpUser_ok hj h
  rw [← hheap] at hj
  unfold Launched
  rw [← hprocs]
  exact ⟨_, _, .forked _ r s₁.ticked.kernel.now _, (bind_ok hlook).trans ((bind_ok hnext).trans rfl),
    Sys.updateJob_self (Sys.updateJob_self hj), rfl, hfree, rfl, rfl, rfl, rfl⟩

theorem run_noExec (hj : s.heap r = some j) (h : Job.executionContext s.kernel.users j.manifest environ = some ctx)
    (hf : s.kernel.answers.nextFork = .noExec pid) : ∃ s', Reaped s s' r := by
  obtain ⟨s₁, hnext, hheap, hprocs⟩ := nextFork_ok hf
  have hlook := lookUpUser_ok hj h
  rw [← hheap] at hj
  unfold Reaped
  rw [← hprocs]
  exact ⟨_, _, .failed _ r s₁.ticked.kernel.now, (bind_ok hlook).trans ((bind_ok hnext).trans rfl),
    Sys.updateJob_self (Sys.updateJob_self hj), rfl, rfl, rfl, rfl, rfl⟩

end Parent

/-! ## Child and parent -/

section Launches

open Child

/-- Every step has been taken, and `execve(2)` is called; the parent reads whether it failed. -/
def Executes (manifest : Manifest) (ctx : ExecutionContext) (calls : List (Syscall × Answer)) (read : ExecStatus) : Prop :=
  ∃ path mask before a, manifest.program = some path ∧ Taken (steps manifest ctx) before ∧
    calls = (.umask (manifest.umask.getD defaultUmask), mask) ::
      (before ++ [(.execve path manifest.programArguments ctx.environ, a)]) ∧
    read = match a with
      | .ok _ => ⟨.execSuccess, 0, .parentProcess⟩
      | .error errno => ⟨.execFailed, errno, .childProcess⟩

/-- A step fails, the program is not executed, and the parent reads the status of that step. -/
def GivesUp (manifest : Manifest) (ctx : ExecutionContext) (calls : List (Syscall × Answer)) (read : ExecStatus) : Prop :=
  ∃ mask before, Stopped (steps manifest ctx) before read ∧
    calls = (.umask (manifest.umask.getD defaultUmask), mask) :: before ∧
    (∀ c ∈ calls, c.1.isExecve = false) ∧ read.errorCode ≠ .execSuccess

/-- A start whose child's calls are answered so executes the program, or gives up with the status
    of the step that failed; and the parent does as the status says. -/
def Launches (users : Users) (manifest : Manifest) (environ : List String) (answers : List Answer) : Prop :=
  ∀ ctx, Job.executionContext users manifest environ = some ctx →
    ∃ status s', startChildProcess manifest ctx { answers } = .ok status s' ∧
      (Executes manifest ctx s'.calls (readStatus (writeStatus status)) ∨
        GivesUp manifest ctx s'.calls (readStatus (writeStatus status))) ∧
      ∀ s r j pid getpgid, s.heap r = some j → j.manifest = manifest → s.kernel.users = users →
        s.kernel.answers.nextFork = answerOf pid getpgid (readStatus (writeStatus status)) →
        if (readStatus (writeStatus status)).errorCode = .execSuccess then ∃ s', Launched s s' r else ∃ s', Reaped s s' r

variable {users : Users} {manifest : Manifest} {environ : List String} {ctx : ExecutionContext} {answers : List Answer}

theorem executionContext_provides (h : Job.executionContext users manifest environ = some ctx) : Provides manifest ctx := by
  intro hu
  obtain ⟨user, hu⟩ := Option.isSome_iff_exists.mp hu
  rw [executionContext_eq hu] at h
  obtain ⟨pwent, -, h⟩ := Option.bind_eq_some_iff.mp h
  obtain ⟨gid, -, rfl⟩ := Option.map_eq_some_iff.mp h
  exact ⟨rfl, rfl⟩

/-- The parent does as the status says. -/
theorem run_answered {s : Sys} {r : Ref} {j : Job} {pid : Int} {getpgid : Bool} {status : ExecStatus} (hj : s.heap r = some j)
    (h : Job.executionContext s.kernel.users j.manifest environ = some ctx)
    (hf : s.kernel.answers.nextFork = answerOf pid getpgid status) :
    if status.errorCode = .execSuccess then ∃ s', Launched s s' r else ∃ s', Reaped s s' r := by
  unfold answerOf at hf
  split
  · rename_i hcode
    rw [if_pos hcode] at hf
    exact run_started hj h hf
  · rename_i hcode
    rw [if_neg hcode] at hf
    exact run_noExec hj h hf

/-- The child's set-up, from its first call on. -/
theorem startChildProcess_after (h : Provides manifest ctx) (answers : List Answer) :
    startChildProcess manifest ctx { answers } = inOrder ((steps manifest ctx).map Step.stage ++ [execute manifest ctx])
      (Setup.after { answers } (.umask (manifest.umask.getD defaultUmask))) := by
  have hmask : setUmask manifest { answers } = .ok none (Setup.after { answers } (.umask (manifest.umask.getD defaultUmask))) := rfl
  rw [startChildProcess_eq h, inOrder_cons hmask]

theorem execute_run {path : String} (hp : manifest.program = some path) (ctx : ExecutionContext) (s : Setup) :
    ∃ status s' a, execute manifest ctx s = .ok status s' ∧
      s'.calls = s.calls ++ [(.execve path manifest.programArguments ctx.environ, a)] ∧
      readStatus (writeStatus status) = match a with
        | .ok _ => ⟨.execSuccess, 0, .parentProcess⟩
        | .error errno => ⟨.execFailed, errno, .childProcess⟩ := by
  have hexec : execute manifest ctx = attempt (.execve path manifest.programArguments ctx.environ) .execFailed := by
    rw [execute, hp]
    rfl
  rw [hexec, attempt, call_bind]
  have hcalls : ∀ {a}, s.answers.headD (.ok 0) = a →
      (s.after (.execve path manifest.programArguments ctx.environ)).calls =
        s.calls ++ [(.execve path manifest.programArguments ctx.environ, a)] := by
    intro a ha
    rw [← ha]
    rfl
  cases ha : s.answers.headD (.ok 0) <;> exact ⟨_, _, _, rfl, hcalls ha, rfl⟩

structure Unrestricted (manifest : Manifest) : Prop where
  userName : manifest.userName = none
  nice : manifest.nice = none
  workingDirectory : manifest.workingDirectory = none
  rootDirectory : manifest.rootDirectory = none

theorem exists_plain : ∃ m : Manifest, m.Decoded ∧ Unrestricted m := by
  have hm : ∃ m, Manifest.fromJson (.obj [("Label", .str "job"), ("Program", .str "/bin/job")]) = .ok m ∧ Unrestricted m :=
    ⟨_, rfl, rfl, rfl, rfl, rfl⟩
  obtain ⟨m, hm, hplain⟩ := hm
  exact ⟨m, ⟨_, hm⟩, hplain⟩

theorem launches_of (hm : manifest.Decoded)
    (h : ∀ ctx, Job.executionContext users manifest environ = some ctx → ¬ LosesErrno (steps manifest ctx) answers.tail) :
    Launches users manifest environ answers := by
  intro ctx hctx
  obtain ⟨path, hpath⟩ := Option.isSome_iff_exists.mp hm.program
  rw [startChildProcess_after (executionContext_provides hctx)]
  have hparent : ∀ (status : ExecStatus) (s : Sys) (r : Ref) (j : Job) (pid : Int) (getpgid : Bool), s.heap r = some j →
      j.manifest = manifest → s.kernel.users = users → s.kernel.answers.nextFork = answerOf pid getpgid status →
      if status.errorCode = .execSuccess then ∃ s', Launched s s' r else ∃ s', Reaped s s' r := by
    intro status s r j pid getpgid hj hman husers hf
    subst hman husers
    exact run_answered hj hctx hf
  cases outcome (execute manifest ctx) (steps manifest ctx)
    (Setup.after { answers } (.umask (manifest.umask.getD defaultUmask))) with
  | @taken before s₁ _ ht hc hr =>
    obtain ⟨status, s', a, hs', hcalls, hread⟩ := execute_run hpath ctx s₁
    have hall : s'.calls = (.umask (manifest.umask.getD defaultUmask), answers.headD (.ok 0)) ::
        (before ++ [(.execve path manifest.programArguments ctx.environ, a)]) := by
      rw [hcalls, hc]
      rfl
    exact ⟨status, s', hr.trans hs', .inl ⟨path, _, before, a, hpath, ht, hall, hread⟩, hparent _⟩
  | @stopped before status s' _ ht hc hr =>
    have hrefused := ht.refused fun _ => steps_plain
    refine ⟨some status, s', hr, .inr ⟨_, before, ht, hc, fun c hmem => ?_, hrefused.2⟩, hparent _⟩
    rw [hc] at hmem
    rcases List.mem_cons.mp hmem with rfl | hmem
    · rfl
    · exact hrefused.1 c hmem
  | lost hl => exact absurd hl (h ctx hctx)

/-- The set-up of a manifest that has been decoded lets no exception out. -/
theorem startChildProcess_returns (hm : manifest.Decoded) (hctx : Job.executionContext users manifest environ = some ctx)
    (answers : List Answer) : ∃ status s', startChildProcess manifest ctx { answers } = .ok status s' := by
  obtain ⟨path, hpath⟩ := Option.isSome_iff_exists.mp hm.program
  rw [startChildProcess_after (executionContext_provides hctx)]
  cases outcome (execute manifest ctx) (steps manifest ctx)
    (Setup.after { answers } (.umask (manifest.umask.getD defaultUmask))) with
  | @taken before s₁ _ _ _ hr =>
    obtain ⟨status, s', -, hs', -, -⟩ := execute_run hpath ctx s₁
    exact ⟨status, s', hr.trans hs'⟩
  | stopped _ _ _ hr => exact ⟨_, _, hr⟩
  | lost _ _ _ _ hr => exact ⟨_, _, hr⟩

/-- The status has the errno of the `close(2)`. -/
theorem not_launches (hctx : Job.executionContext users manifest environ = some ctx)
    (hl : LosesErrno (steps manifest ctx) answers.tail) : ¬ Launches users manifest environ answers := by
  intro h
  obtain ⟨status, s', hs', hcalls, -⟩ := h ctx hctx
  rw [startChildProcess_after (executionContext_provides hctx)] at hs'
  cases outcome (execute manifest ctx) (steps manifest ctx)
    (Setup.after { answers } (.umask (manifest.umask.getD defaultUmask))) with
  | taken hn | stopped hn => exact hn hl
  | @lost calls c errno status' _ _ hf hne hc hr =>
    rw [hr] at hs'
    cases hs'
    have hread : readStatus (writeStatus (some status')) = status' := rfl
    have hall : s'.calls = (.umask (manifest.umask.getD defaultUmask), answers.headD (.ok 0)) :: calls := hc
    rw [hread, hall] at hcalls
    rcases hcalls with ⟨path, mask, before, a, -, ht, hcalls, hstatus⟩ | ⟨mask, before, ht, hcalls, -, -⟩
    · obtain rfl := (List.cons.inj hcalls).2
      rw [ht.firstFailed] at hf
      cases a with
      | ok v => cases hf
      | error errno' =>
        cases hf
        exact hne (by rw [hstatus])
    · obtain rfl := (List.cons.inj hcalls).2
      obtain ⟨c', hc'⟩ := ht.firstFailed
      rw [hf] at hc'
      cases hc'
      exact hne rfl

/-- A start goes as its caller relies on unless the `dup2(2)` of a file fails and the `close(2)` after it
    fails for another reason. -/
theorem launches_iff (hm : manifest.Decoded) : Launches users manifest environ answers ↔
    ∀ ctx, Job.executionContext users manifest environ = some ctx → ¬ LosesErrno (steps manifest ctx) answers.tail :=
  ⟨fun h _ hctx hl => not_launches hctx hl h, launches_of hm⟩

/-- A job without a session of its own: `setsid(2)` fails. -/
theorem launches_no_session : ∃ manifest : Manifest, manifest.Decoded ∧
    Launches ⟨fun _ => none, fun _ => none⟩ manifest [] [.ok 0, .error 1] := by
  obtain ⟨m, hm, -⟩ := exists_plain
  exact ⟨m, hm, (launches_iff hm).mpr fun ctx _ => fun h => nomatch h.1⟩

/-- `dup2(2)` fails with 16, and the `close(2)` of the new descriptor with 5. -/
theorem errno_lost : ¬ ∀ (users : Users) (manifest : Manifest) (environ : List String) (answers : List Answer),
    manifest.Decoded → Launches users manifest environ answers := by
  intro h
  obtain ⟨m, hm, hplain⟩ := exists_plain
  have hctx : Job.executionContext ⟨fun _ => none, fun _ => none⟩ m [] = some ⟨none, none, []⟩ := by
    rw [Job.executionContext, hplain.userName]
  refine not_launches hctx ?_ (h _ m [] [.ok 0, .ok 0, .ok 7, .error 16, .error 5] hm)
  have hsteps : ∃ rest path flags mode context, steps m ⟨none, none, []⟩ =
      .call .setsid .createSessionFailed :: .redirect 0 path flags mode context :: rest := by
    simp only [steps, userSteps, hplain.userName, hplain.nice, hplain.workingDirectory, hplain.rootDirectory]
    exact ⟨_, _, _, _, _, rfl⟩
  obtain ⟨rest, path, flags, mode, context, hsteps⟩ := hsteps
  rw [hsteps]
  have hne : (16 : Nat) ≠ 5 := by decide
  exact ⟨rfl, hne⟩

end Launches

end Relaunchd
