/-
  Relaunchd.Job — the job object (`src/job.h`, `src/job.cc`). A method takes the address of
  its object.

  The steps a forked child takes before `execve(2)` end in one status, which the parent
  reads from the pipe; that status is the answer to the fork. Logging is left out.
-/

import Relaunchd.EventManager
import Relaunchd.Fsm

namespace Relaunchd

open Prog EventManager

namespace Job

/-! ## Disabled jobs -/

/-- `isDisabled`, for a manifest and a state document. -/
def disabledIn (manifest : Manifest) (state : Json) : Decode Bool := do
  let overrides ← state.atKey "Overrides"
  if overrides.contains manifest.label then do
    let jobState ← (← state.key "Overrides").key manifest.label
    return !(← (← jobState.atKey "Enabled").getBool)
  else return manifest.disabled

def isDisabled (r : Ref) : M Bool := do
  let j ← this r
  ofDecode (disabledIn j.manifest (← get).stateFile)

/-! ## Starting -/

/-- The look-ups of `run`: an entry that is missing is a null pointer it dereferences. -/
def lookUpUser (r : Ref) : M Unit := do
  let j ← this r
  let users := (← get).kernel.users
  match j.manifest.userName with
  | none => pure ()
  | some user =>
    if (users.getpwnam user).isNone then crash "null passwd entry"
    else match j.manifest.groupName with
      | none => pure ()
      | some group => if (users.getgrnam group).isNone then crash "null group entry" else pure ()

def run (r : Ref) : M Bool := do
  lookUpUser r
  match ← nextFork with
  | .noPipe => throw "pipe"
  | .noFork => do
    setJob r fun j => { j with pid := -1 }
    return false
  | .noExec want => do
    passTime
    let pid ← gets (·.kernel.freePid want)
    modify (·.updateKernel (·.forkFailed pid r))
    setJob r fun j => { j with pid, sigterm := false }
    let now ← currentTime
    setJob r fun j => { j with startedAt := some now, pid := 0 }
    return false
  | .started want getpgid => do
    passTime
    let pid ← gets (·.kernel.freePid want)
    modify fun s => s.updateKernel (·.fork pid r (s.eventmgr.processCallbacks.lookup pid).isSome)
    setJob r fun j => { j with pid, sigterm := false }
    let now ← currentTime
    setJob r fun j => { j with startedAt := some now, pgid := if getpgid then pid else -1 }
    return true

def startJob (r : Ref) : M Unit := do
  modify fun s => { s with starts := s.starts ++ [⟨r, s.hasChild r, s.hasTimer r⟩] }
  let now ← currentTime
  setJob r fun j => { j with startedAt := some now }
  if ← run r then addProcess (← this r).pid r
  -- "FIXME -- what to do here?? throttle and retry?"
  else pure ()

/-! ## Timers -/

/-- `current_time() - *started_at`; the two readings are compared as `time_t`. -/
def elapsed (r : Ref) : M Int := do
  let now ← currentTime
  match (← this r).startedAt with
  | some startedAt => return (now : Int) - startedAt
  | none => crash "started_at is not set"

def shouldThrottle (r : Ref) : M Bool := do
  let elapsed ← elapsed r
  return elapsed < (← this r).manifest.throttleInterval

def startAfterThrottleInterval (r : Ref) : M Unit := do
  let elapsed ← elapsed r
  let seconds : Int := (← this r).manifest.throttleInterval - elapsed
  let timerId ← addTimer (seconds * 1000) r .throttle
  setJob r fun j => { j with timerId := some timerId }

def schedulePeriodicJob (r : Ref) : M Unit := do
  let j ← this r
  if j.timerId.isSome then crash "!timer_id" else
  match j.manifest.startInterval with
  | none => throw "bad_optional_access"
  | some interval => do
    let timerId ← addTimer interval r .periodic
    setJob r fun j => { j with timerId := some timerId }

def cancelTimer (r : Ref) : M Unit := do
  match (← this r).timerId with
  | none => throw "bad_optional_access"
  | some timerId => do
    deleteTimer timerId
    setJob r fun j => { j with timerId := none }

/-! ## Signals -/

/-- Ghost: a `kill(2)` is on record with the child the job has. -/
def logKill (r : Ref) (pid sig : Int) : M Unit :=
  modify fun s => s.updateKernel fun k => { k with kills := k.kills ++ [⟨r, pid, sig, s.child r⟩] }

def killJob (r : Ref) (signum : Int) : M Bool := do
  let j ← this r
  if j.pid = 0 then return true
  else do
    logKill r j.pid signum
    nextKill

/-- The action of StopRequested; a signal that was sent is on record (ghost). -/
def terminate (r : Ref) : M Unit := do
  let sent ← killJob r SIGTERM
  setJob r fun j => if j.pid ≠ 0 ∧ sent then { j with sigterm := true } else j

/-- Ghost: the loop of `killProcessGroup` is on record. -/
def logGroupKill (r : Ref) (pgid : Int) : M Unit :=
  modify (·.updateKernel fun k => { k with groupKills := k.groupKills ++ [(r, pgid)] })

/-- SIGKILL to the group, then `waitpid(2)` until no child is left in it. -/
def killProcessGroup (r : Ref) : M Bool := do
  let j ← this r
  if j.pgid < 0 then return false
  else if j.manifest.abandonProcessGroup then return false
  else do
    logGroupKill r j.pgid
    modify (·.updateKernel (·.reap fun p => p.pid == j.pgid))
    return true

/-! ## The state machine -/

/-- What the transitions to Unloaded do. -/
def submitDelete (r : Ref) : M Unit := do
  submitIpcCallback "delete_job" (← this r).label

def cancelTimerIfSet (r : Ref) : M Unit := do
  if (← this r).timerId.isSome then cancelTimer r else pure ()

/-- `initFSM`; `execute` runs a trigger on the job's own machine. -/
def transitions (execute : Triggers → M Unit) (r : Ref) : List (Fsm.Trans Sys States Triggers) :=
  [ -- From: Loaded
    { fromState := .loaded, toState := .running, trigger := .bootstrap
      guard := do
        if ← isDisabled r then return false
        else return (← this r).manifest.runAtLoad || (← this r).manifest.keepAlive
      action := execute .startRequested },
    { fromState := .loaded, toState := .waiting, trigger := .bootstrap
      guard := do
        if ← isDisabled r then return false
        else return (← this r).manifest.startInterval.isSome && !(← this r).manifest.runAtLoad
      action := schedulePeriodicJob r },
    { fromState := .loaded, toState := .running, trigger := .startRequested
      guard := return true
      action := startJob r },
    { fromState := .loaded, toState := .unloaded, trigger := .unloadRequested
      guard := return true
      action := submitDelete r },
    -- From: Waiting
    { fromState := .waiting, toState := .running, trigger := .startRequested
      guard := return true
      action := do
        cancelTimerIfSet r
        startJob r },
    { fromState := .waiting, toState := .unloaded, trigger := .unloadRequested
      guard := return true
      action := do
        cancelTimerIfSet r
        submitDelete r },
    -- From: Running
    { fromState := .running, toState := .exited, trigger := .processExited
      guard := do
        let j ← this r
        return !j.manifest.keepAlive && !j.manifest.startInterval.isSome && !j.unloadRequested
      action := return () },
    { fromState := .running, toState := .running, trigger := .processExited
      guard := do
        if !(← this r).manifest.keepAlive then return false
        else if ← shouldThrottle r then return false
        else return !(← this r).unloadRequested
      action := startJob r },
    { fromState := .running, toState := .running, trigger := .stopRequested
      guard := return true
      action := terminate r },
    { fromState := .running, toState := .waiting, trigger := .processExited
      guard := do
        if !(← this r).manifest.keepAlive then return false
        else if !(← shouldThrottle r) then return false
        else return !(← this r).unloadRequested
      action := startAfterThrottleInterval r },
    { fromState := .running, toState := .unloaded, trigger := .processExited
      guard := return (← this r).unloadRequested
      action := submitDelete r },
    -- From: Exited
    { fromState := .exited, toState := .unloaded, trigger := .unloadRequested
      guard := return true
      action := submitDelete r } ]

/-- `fsm.execute`. Only the action of a Bootstrap executes a trigger, and the action of that
    one does not. -/
def executeNested : Nat → Ref → Triggers → M Unit
  | 0, _, _ => crash "nested too deep"
  | depth + 1, r, trigger => do
    let _ ← Fsm.execute (fun state => setJob r fun j => { j with state }) trigger
      (return (← this r).state) (transitions (executeNested depth r) r)

def execute (r : Ref) (trigger : Triggers) : M Unit := executeNested 2 r trigger

/-! ## Callbacks -/

def recordExit (status : WaitStatus) (j : Job) : Job :=
  match status with
  | .exited code => { j with lastExitStatus := code }
  | .signaled sig => { j with lastExitStatus := -1, termSignal := sig }

@[simp] theorem recordExit_manifest (status : WaitStatus) (j : Job) : (recordExit status j).manifest = j.manifest := by
  cases status <;> rfl

@[simp] theorem recordExit_startedAt (status : WaitStatus) (j : Job) : (recordExit status j).startedAt = j.startedAt := by
  cases status <;> rfl

def reapChildProcess (r : Ref) (status : WaitStatus) : M Unit := do
  setJob r (recordExit status)
  setJob r fun j => { j with pid := 0 }
  let _ ← killProcessGroup r

/-- The callback `startJob` registers; `child` is the process that exited (ghost). -/
def processCallback (r : Ref) (status : WaitStatus) (child : Nat) : M Unit := do
  let _ ← this r
  modify (·.updateKernel (·.dispatch child r))
  reapChildProcess r status
  execute r .processExited

def timerCallback (r : Ref) : TimerKind → M Unit
  | .throttle => do
    let _ ← this r
    setJob r fun j => { j with timerId := none }
    execute r .startRequested
  | .periodic => do
    let _ ← this r
    setJob r fun j => { j with timerId := none }
    startJob r

/-! ## Unloading -/

def unloadJob (r : Ref) (forceUnload : Bool) : M Bool := do
  let j ← this r
  if j.state = .unloaded then return false
  else if j.unloadRequested then return false
  else do
    setJob r fun j => { j with unloadRequested := true }
    if (← isDisabled r) && !forceUnload then return false
    else do
      execute r .stopRequested
      execute r .unloadRequested
      return true

/-- `waitpid(pid, ...)` of a child that was sent SIGKILL; -1 stands for any child. -/
def waitFor (pid : Int) (k : Kernel) : Kernel :=
  if pid = -1 then
    match k.procs.findIdx? (·.held) with
    | some i => { k with procs := k.procs.modify i fun p => { p with state := .reaped } }
    | none => k
  else k.reap fun p => p.pid == pid

def forceUnloadJob (r : Ref) : M Unit := noexcept do
  let j ← this r
  if j.pid ≠ 0 then
    logKill r j.pid SIGKILL
    let _ ← nextKill
    modify (·.updateKernel (waitFor j.pid))
    let _ ← killProcessGroup r
    deleteProcess j.pid
    setJob r fun j => { j with pid := 0, pgid := -1 }
  cancelTimerIfSet r
  setJob r fun j => { j with state := .unloaded }

end Job

end Relaunchd
