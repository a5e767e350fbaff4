/-
  Relaunchd.Child — the child that `Job::run` forks, up to `execve(2)` (`src/job.cc`,
  `src/exec_monitor.h`).

  The child's state is the list of the system calls it made, with what they answered. What
  they are going to answer is given; an empty list answers with success. The environment of
  the new program is a parameter.
-/

import Relaunchd.Job

namespace Relaunchd

open Prog

inductive ExecErrorCode where
  | execSuccess
  | createSessionFailed
  | setWorkingDirectoryFailed
  | setRootDirectoryFailed
  | setPriorityFailed
  | initGroupsFailed
  | setGroupIdFailed
  | setLoginFailed
  | setUserIdFailed
  | openFailed
  | readFailed
  | closeFailed
  | dup2Failed
  | memoryAllocationFailed
  | execFailed
  | forkHandlerFailed
  deriving DecidableEq, Repr

/-- `ExecStatus::errorContext` -/
inductive ExecErrorContext where
  | childProcess
  | redirectStdin
  | redirectStdout
  | redirectStderr
  | parentProcess
  deriving DecidableEq, Repr

structure ExecStatus where
  errorCode : ExecErrorCode
  savedErrno : Nat := 0
  errorContext : ExecErrorContext := .childProcess
  deriving DecidableEq, Repr

structure ExecutionContext where
  gid : Option Nat
  uid : Option Nat
  environ : List String
  deriving DecidableEq, Repr

namespace Child

/-! ## System calls -/

inductive OpenFlags where
  | rdonly
  /-- `O_CREAT | O_WRONLY` -/
  | create
  deriving DecidableEq, Repr

inductive Syscall where
  | umask (mask : Nat)
  | setsid
  /-- `PRIO_PROCESS`, of the child itself. -/
  | setpriority (prio : Int)
  | chdir (path : String)
  | chroot (path : String)
  | initgroups (user : String) (group : Nat)
  | setgid (gid : Nat)
  | setuid (uid : Nat)
  | openFile (path : String) (flags : OpenFlags) (mode : Nat)
  | dup2 (oldfd newfd : Nat)
  | close (fd : Nat)
  | calloc (count : Nat)
  | execve (path : String) (argv envp : List String)
  deriving DecidableEq, Repr

abbrev Answer := Except Nat Nat

structure Setup where
  calls : List (Syscall × Answer) := []
  answers : List Answer := []

/-- A part of `start_child_process`: the status it returns with, if it does. -/
abbrev Stage := Prog Setup (Option ExecStatus)

def call (c : Syscall) : Prog Setup Answer := fun s =>
  .ok (s.answers.headD (.ok 0)) { calls := s.calls ++ [(c, s.answers.headD (.ok 0))], answers := s.answers.tail }

def Setup.after (s : Setup) (c : Syscall) : Setup :=
  { calls := s.calls ++ [(c, s.answers.headD (.ok 0))], answers := s.answers.tail }

theorem call_bind {s : Setup} {c : Syscall} {f : Answer → Prog Setup α} :
    (call c >>= f) s = f (s.answers.headD (.ok 0)) (s.after c) := rfl

/-- `if (c < 0) return ExecStatus{code, errno};` -/
def attempt (c : Syscall) (code : ExecErrorCode) : Stage := do
  match ← call c with
  | .ok _ => return none
  | .error errno => return some { errorCode := code, savedErrno := errno }

def inOrder : List Stage → Stage
  | [] => return none
  | stage :: rest => do
    match ← stage with
    | some status => return some status
    | none => inOrder rest

/-! ## The set-up -/

/-- `replace_fd`; `errno` is read after the `close(2)`. -/
def replaceFd (oldfd : Nat) (path : String) (flags : OpenFlags) (mode : Nat) : Stage := do
  match ← call (.openFile path flags mode) with
  | .error errno => return some { errorCode := .openFailed, savedErrno := errno }
  | .ok newfd =>
    match ← call (.dup2 newfd oldfd) with
    | .error errno =>
      match ← call (.close newfd) with
      | .error errno' => return some { errorCode := .dup2Failed, savedErrno := errno' }
      | .ok _ => return some { errorCode := .dup2Failed, savedErrno := errno }
    | .ok _ => attempt (.close newfd) .closeFailed

def redirect (oldfd : Nat) (path : String) (flags : OpenFlags) (mode : Nat) (errorContext : ExecErrorContext) : Stage := do
  match ← replaceFd oldfd path flags mode with
  | some status => return some { status with errorContext }
  | none => return none

def attemptIf (value : Option α) (c : α → Syscall) (code : ExecErrorCode) : Stage :=
  match value with
  | some a => attempt (c a) code
  | none => return none

/-- `S_IWGRP | S_IWOTH` -/
def defaultUmask : Nat := 0o022

def setUmask (manifest : Manifest) : Stage := do
  let _ ← call (.umask (manifest.umask.getD defaultUmask))
  return none

/-- Become the user. `HAVE_SETLOGIN` is not set. -/
def becomeUser (manifest : Manifest) (ctx : ExecutionContext) : Stage :=
  match manifest.userName with
  | none => return none
  | some user =>
    match ctx.gid, ctx.uid with
    | some gid, some uid => inOrder
      [ if manifest.initGroups then attempt (.initgroups user gid) .initGroupsFailed else return none,
        attempt (.setgid gid) .setGroupIdFailed,
        attempt (.setuid uid) .setUserIdFailed ]
    | _, _ => throw "bad_optional_access"

def stages (manifest : Manifest) (ctx : ExecutionContext) : List Stage :=
  [ setUmask manifest,
    attempt .setsid .createSessionFailed,
    attemptIf manifest.nice (fun nice => .setpriority ((nice : Int).bmod (2 ^ 32))) .setPriorityFailed,
    attemptIf manifest.workingDirectory .chdir .setWorkingDirectoryFailed,
    attemptIf manifest.rootDirectory .chroot .setRootDirectoryFailed,
    becomeUser manifest ctx,
    redirect 0 manifest.stdinPath .rdonly 0 .redirectStdin,
    redirect 1 manifest.stdoutPath .create 0o600 .redirectStdout,
    redirect 2 manifest.stderrPath .create 0o600 .redirectStderr,
    attempt (.calloc (ctx.environ.length + 1)) .memoryAllocationFailed,
    attempt (.calloc (manifest.programArguments.length + 1)) .memoryAllocationFailed ]

def execute (manifest : Manifest) (ctx : ExecutionContext) : Stage :=
  match manifest.program.or manifest.programArguments.head? with
  | none => throw "path cannot be empty"
  | some path => attempt (.execve path manifest.programArguments ctx.environ) .execFailed

/-- It returns a status; none means that `execve(2)` did not return, and the program runs. -/
def startChildProcess (manifest : Manifest) (ctx : ExecutionContext) : Stage :=
  inOrder (stages manifest ctx ++ [execute manifest ctx])

/-! ## The pipe -/

/-- What is in the pipe when the child has exited or runs its program. -/
def writeStatus (status : Option ExecStatus) : List ExecStatus := status.toList

/-- `readStatus`: an empty pipe that no child can write to any more means success. -/
def readStatus (pipe : List ExecStatus) : ExecStatus :=
  pipe.headD { errorCode := .execSuccess, errorContext := .parentProcess }

/-- What the parent makes of the status is the answer to the fork. -/
def answerOf (pid : Int) (getpgid : Bool) (status : ExecStatus) : ForkAnswer :=
  if status.errorCode = .execSuccess then .started pid getpgid else .noExec pid

end Child

namespace Job

/-- The context `run` builds: none where it dereferences a null pointer. -/
def executionContext (users : Users) (manifest : Manifest) (environ : List String) : Option ExecutionContext :=
  match manifest.userName with
  | none => some ⟨none, none, environ⟩
  | some user => do
    let pwent ← users.getpwnam user
    let uid := pwent.uid
    let gid ← match manifest.groupName with
      | some group => users.getgrnam group
      | none => pure pwent.gid
    return ⟨uid, gid, environ⟩

end Job

end Relaunchd
