/-
  Relaunchd.System — the state of a running launchd: the job objects, the manager's tables,
  the event manager's tables (epoll backend), and the part of the kernel they talk to.

  A `Job` is an object with an address (`Ref`). The callbacks it registers capture that
  address, so `heap` says which addresses still hold a job; an address is not used again.

  What the kernel answers is not determined by the program. `Answers` lists, for one
  dispatch, how far the clock moves before each reading, how each start of a program goes,
  how each timer is set up, and so on; each system call takes the next answer from its
  list, and an empty list answers with success.

  Ghost fields (marked) record what has happened; no program text reads them.
-/

import Relaunchd.Lib.Prog
import Relaunchd.Manifest

namespace Relaunchd

abbrev Ref := Nat

abbrev Fd := Nat

/-! ## Jobs (`src/job.h`) -/

inductive Job.States where
  | loaded
  | waiting
  | running
  | exited
  | unloaded
  deriving DecidableEq, Repr

inductive Job.Triggers where
  | bootstrap
  | startRequested
  | stopRequested
  | processExited
  | unloadRequested
  deriving DecidableEq, Repr

inductive Boot where
  /-- Not bootstrapped: the job is in `pending_jobs`. -/
  | pending
  /-- Bootstrapped while enabled. -/
  | enabled
  /-- Bootstrapped while disabled, or while its state could not be looked up. -/
  | disabled
  deriving DecidableEq, Repr

structure Job where
  manifest : Manifest
  manifestPath : String
  /-- `fsm.state()` -/
  state : Job.States := .loaded
  startedAt : Option Nat := none
  pid : Int := 0
  pgid : Int := -1
  lastExitStatus : Int := 0
  termSignal : Int := 0
  timerId : Option Nat := none
  unloadRequested : Bool := false
  /-- Ghost. -/
  boot : Boot := .pending
  /-- Ghost: an unload sent SIGTERM to the present child. -/
  sigterm : Bool := false
  deriving DecidableEq, Repr

def Job.label (j : Job) : String := j.manifest.label

/-! ## The kernel -/

/-- The status `waitpid(2)` reports. Neither call of the program asks for stopped or
    continued children, so a status is an exit or a death by signal. -/
inductive WaitStatus where
  | exited (code : Nat)
  | signaled (sig : Nat)
  deriving DecidableEq, Repr

inductive ProcState where
  | running
  | zombie (status : WaitStatus)
  | reaped
  deriving DecidableEq, Repr

/-- A process that `Job::run` forked. It leads its own session, so its process group has
    its pid. -/
structure Proc where
  pid : Int
  /-- Ghost: the job it was forked for. -/
  job : Ref
  /-- The status the parent read was success. -/
  execed : Bool
  state : ProcState
  /-- Ghost: what the clock read when it was forked, in milliseconds. -/
  forkedAt : Nat
  /-- Ghost: when it was forked, `process_callbacks` still had an entry for its pid. -/
  stale : Bool := false
  /-- Ghost: the jobs whose callback was handed its exit. -/
  dispatched : List Ref := []
  deriving DecidableEq, Repr

namespace Proc

/-- Not reaped: the kernel keeps the pid for it. -/
def held (p : Proc) : Bool := p.state != .reaped

/-- A child of its job: it runs the program and its exit was not handed to any callback. -/
def live (p : Proc) : Bool := p.execed && p.dispatched.isEmpty

end Proc

inductive TimerState where
  | disarmed
  /-- It has expired once the clock reads `deadline` milliseconds. -/
  | armed (deadline : Nat)
  deriving DecidableEq, Repr

structure TimerFd where
  state : TimerState
  /-- It is on the interest list of `timer_epfd`. -/
  watched : Bool
  deriving DecidableEq, Repr

/-- When its expiry will be reported: it has not been read and is being waited for. -/
def TimerFd.due (t : TimerFd) : Option Nat :=
  match t with
  | { state := .armed deadline, watched := true } => some deadline
  | _ => none

inductive Signal where
  | sigchld
  | sigpipe
  | sigint
  | sigusr1
  | sigusr2
  | sigterm
  deriving DecidableEq, Repr

/-- How one `Job::run` goes. -/
inductive ForkAnswer where
  /-- `pipe(2)` or `fcntl(2)` fails. -/
  | noPipe
  | noFork
  /-- The child reports a step that failed before or at `execve(2)`. -/
  | noExec (pid : Int)
  /-- The program runs; `getpgid(2)` may still fail. -/
  | started (pid : Int) (getpgid : Bool)
  deriving DecidableEq, Repr

/-- How one timerfd is created and put on the interest list. -/
inductive TimerAnswer where
  | noFd
  | noWatch (fd : Fd)
  | watched (fd : Fd)
  deriving DecidableEq, Repr

inductive Node where
  | missing
  /-- A file, with what `json::parse` makes of it. -/
  | file (doc : Option Json)
  /-- A directory, with its entries in the order the iterator yields them. -/
  | directory (entries : List String)

structure Answers where
  /-- How many milliseconds pass before each reading of the clock. -/
  ticks : List Nat := []
  forks : List ForkAnswer := []
  /-- Does `kill(pid, 0)` of a new child succeed? -/
  probes : List Bool := []
  timers : List TimerAnswer := []
  /-- Does `kill(pid, sig)` succeed? -/
  kills : List Bool := []
  /-- Does the `rename(2)` of a new state file succeed? -/
  renames : List Bool := []
  /-- Is a reply written in full? -/
  writes : List Bool := []
  /-- The order in which a loop visits an unordered map. -/
  orders : List (List String) := []
  files : String → Node := fun _ => .missing

structure Passwd where
  uid : Nat
  gid : Nat

structure Users where
  getpwnam : String → Option Passwd
  getgrnam : String → Option Nat

/-- Ghost: a call of `kill(2)` by `Job::killJob` or `Job::forceUnloadJob`, with the child
    its job had. -/
structure Kill where
  job : Ref
  pid : Int
  sig : Int
  child : Option Proc
  deriving DecidableEq, Repr

structure Kernel where
  /-- Every process forked so far, in order. -/
  procs : List Proc := []
  timerfds : AList (fun _ : Fd => TimerFd) := ∅
  /-- Pending on the signalfd. -/
  signals : List Signal := []
  /-- CLOCK_MONOTONIC, in milliseconds. -/
  now : Nat
  users : Users
  answers : Answers := {}
  /-- Ghost. -/
  kills : List Kill := []
  /-- Ghost: the process groups that `Job::killProcessGroup` killed, each with its job. -/
  groupKills : List (Ref × Int) := []

/-! ## The event manager (`src/event.h`) -/

inductive Event where
  /-- `proc_event`; `child` (ghost) is the process's place in `procs`. -/
  | proc (pid : Int) (status : WaitStatus) (child : Nat)
  | signal (sig : Signal)
  /-- `socket_event`: a connection, and the message read from it if one can be read. -/
  | socket (message : Option Json)
  | timer (id : Nat)
  | ipc (method arg : String)

/-- The two callbacks a job gives a timer. -/
inductive TimerKind where
  /-- `startAfterThrottleInterval`: execute StartRequested. -/
  | throttle
  /-- `schedulePeriodicJob`: start the job. -/
  | periodic
  deriving DecidableEq, Repr

structure EventManager where
  processCallbacks : AList (fun _ : Int => Ref) := ∅
  timerCallbacks : AList (fun _ : Nat => Ref × TimerKind) := ∅
  timerIdMax : Nat := 0
  pendingEvents : List Event := []
  watchPids : Finset Int := ∅
  timerfdMap : AList (fun _ : Nat => Fd) := ∅
  /-- The timerfds among `cleanup_fds`. -/
  cleanupFds : Finset Fd := ∅
  /-- Ghost: the processes `addProcess` took, by their place in `procs`. -/
  added : List Nat := []

/-! ## The manager (`src/manager.h`) -/

inductive Manager.States where
  | unconfigured
  | running
  | gracefulShutdown
  | finished
  deriving DecidableEq, Repr

inductive Manager.Triggers where
  | startRequested
  | stopRequested
  | allJobsExited
  deriving DecidableEq, Repr

inductive ManagerResult where
  | exit
  | reboot
  | halt
  | haltAndPowerDown
  | singleUserMode
  deriving DecidableEq, Repr

/-- Ghost: an entry into `Job::startJob`, with what the job had then. -/
structure StartCall where
  job : Ref
  child : Bool
  timer : Bool
  deriving DecidableEq, Repr

structure Sys where
  /-- `Manager::fsm.state()` -/
  state : Manager.States := .unconfigured
  jobs : AList (fun _ : String => Ref) := ∅
  /-- A moved-from pointer is null. -/
  pendingJobs : AList (fun _ : String => Option Ref) := ∅
  /-- `state_file`'s current value. -/
  stateFile : Json
  pendingResult : ManagerResult := .exit
  /-- The RPC socket is open. -/
  listening : Bool := false
  heap : Ref → Option Job := fun _ => none
  nextRef : Ref := 0
  eventmgr : EventManager := {}
  kernel : Kernel
  /-- Ghost. -/
  starts : List StartCall := []
  /-- Ghost: the replies written to RPC clients. -/
  replies : List Json := []
  /-- Ghost: what `overrideJobEnabled` wrote, in order. -/
  overrides : List (String × Bool) := []

abbrev M := Prog Sys

open Prog

/-- The child of a job: the process that runs its program, and whose exit it was not handed yet. -/
def childOf (procs : List Proc) (r : Ref) : Option Proc := procs.find? fun p => p.job == r && p.live

/-- Some process forked for the job has not been reaped, or its exit was not dispatched. -/
def hasChildIn (procs : List Proc) (r : Ref) : Bool := procs.any fun p => p.job == r && (p.live || p.held)

namespace EventManager

variable (m : EventManager) (timerfds : AList fun _ : Fd => TimerFd)

/-- The callback that the expiry of the timer `id` is still to run for `r`, and when. -/
def timerOf (r : Ref) (id : Nat) : Option (TimerKind × Nat) :=
  match m.timerCallbacks.lookup id, ((m.timerfdMap.lookup id).bind timerfds.lookup).bind TimerFd.due with
  | some cb, some due => if cb.1 = r then some (cb.2, due) else none
  | _, _ => none

def armedFor (r : Ref) (id : Nat) : Bool := (m.timerOf timerfds r id).isSome

def hasTimer (r : Ref) : Bool := m.timerCallbacks.keys.any (m.armedFor timerfds r)

end EventManager

namespace Sys

variable (s : Sys)

def child (r : Ref) : Option Proc := childOf s.kernel.procs r

def hasChild (r : Ref) : Bool := hasChildIn s.kernel.procs r

def armedFor (r : Ref) (id : Nat) : Bool := s.eventmgr.armedFor s.kernel.timerfds r id

def hasTimer (r : Ref) : Bool := s.eventmgr.hasTimer s.kernel.timerfds r

def updateJob (r : Ref) (f : Job → Job) : Sys := { s with heap := Function.update s.heap r ((s.heap r).map f) }

def updateKernel (f : Kernel → Kernel) : Sys := { s with kernel := f s.kernel }

def updateEventmgr (f : EventManager → EventManager) : Sys := { s with eventmgr := f s.eventmgr }

@[simp] theorem updateJob_state (r : Ref) (f : Job → Job) : (s.updateJob r f).state = s.state := rfl
@[simp] theorem updateJob_jobs (r : Ref) (f : Job → Job) : (s.updateJob r f).jobs = s.jobs := rfl
@[simp] theorem updateJob_pendingJobs (r : Ref) (f : Job → Job) : (s.updateJob r f).pendingJobs = s.pendingJobs := rfl
@[simp] theorem updateJob_stateFile (r : Ref) (f : Job → Job) : (s.updateJob r f).stateFile = s.stateFile := rfl
@[simp] theorem updateJob_listening (r : Ref) (f : Job → Job) : (s.updateJob r f).listening = s.listening := rfl
@[simp] theorem updateJob_nextRef (r : Ref) (f : Job → Job) : (s.updateJob r f).nextRef = s.nextRef := rfl
@[simp] theorem updateJob_eventmgr (r : Ref) (f : Job → Job) : (s.updateJob r f).eventmgr = s.eventmgr := rfl
@[simp] theorem updateJob_kernel (r : Ref) (f : Job → Job) : (s.updateJob r f).kernel = s.kernel := rfl
@[simp] theorem updateJob_starts (r : Ref) (f : Job → Job) : (s.updateJob r f).starts = s.starts := rfl

@[simp] theorem updateKernel_state (f : Kernel → Kernel) : (s.updateKernel f).state = s.state := rfl
@[simp] theorem updateKernel_jobs (f : Kernel → Kernel) : (s.updateKernel f).jobs = s.jobs := rfl
@[simp] theorem updateKernel_pendingJobs (f : Kernel → Kernel) : (s.updateKernel f).pendingJobs = s.pendingJobs := rfl
@[simp] theorem updateKernel_stateFile (f : Kernel → Kernel) : (s.updateKernel f).stateFile = s.stateFile := rfl
@[simp] theorem updateKernel_listening (f : Kernel → Kernel) : (s.updateKernel f).listening = s.listening := rfl
@[simp] theorem updateKernel_heap (f : Kernel → Kernel) : (s.updateKernel f).heap = s.heap := rfl
@[simp] theorem updateKernel_nextRef (f : Kernel → Kernel) : (s.updateKernel f).nextRef = s.nextRef := rfl
@[simp] theorem updateKernel_eventmgr (f : Kernel → Kernel) : (s.updateKernel f).eventmgr = s.eventmgr := rfl
@[simp] theorem updateKernel_kernel (f : Kernel → Kernel) : (s.updateKernel f).kernel = f s.kernel := rfl
@[simp] theorem updateKernel_starts (f : Kernel → Kernel) : (s.updateKernel f).starts = s.starts := rfl

@[simp] theorem updateEventmgr_state (f : EventManager → EventManager) : (s.updateEventmgr f).state = s.state := rfl
@[simp] theorem updateEventmgr_jobs (f : EventManager → EventManager) : (s.updateEventmgr f).jobs = s.jobs := rfl
@[simp] theorem updateEventmgr_pendingJobs (f : EventManager → EventManager) : (s.updateEventmgr f).pendingJobs = s.pendingJobs := rfl
@[simp] theorem updateEventmgr_stateFile (f : EventManager → EventManager) : (s.updateEventmgr f).stateFile = s.stateFile := rfl
@[simp] theorem updateEventmgr_listening (f : EventManager → EventManager) : (s.updateEventmgr f).listening = s.listening := rfl
@[simp] theorem updateEventmgr_heap (f : EventManager → EventManager) : (s.updateEventmgr f).heap = s.heap := rfl
@[simp] theorem updateEventmgr_nextRef (f : EventManager → EventManager) : (s.updateEventmgr f).nextRef = s.nextRef := rfl
@[simp] theorem updateEventmgr_eventmgr (f : EventManager → EventManager) : (s.updateEventmgr f).eventmgr = f s.eventmgr := rfl
@[simp] theorem updateEventmgr_kernel (f : EventManager → EventManager) : (s.updateEventmgr f).kernel = s.kernel := rfl
@[simp] theorem updateEventmgr_starts (f : EventManager → EventManager) : (s.updateEventmgr f).starts = s.starts := rfl

variable {s} in
theorem updateJob_self {r : Ref} {f : Job → Job} {j : Job} (h : s.heap r = some j) :
    (s.updateJob r f).heap r = some (f j) := by
  simp [updateJob, h]

end Sys

def this (r : Ref) : M Job := fun s =>
  match s.heap r with
  | some j => .ok j s
  | none => .crash "use after free"

def setJob (r : Ref) (f : Job → Job) : M Unit := modify (·.updateJob r f)

def ofDecode : Decode α → M α
  | .ok a => pure a
  | .error (.exn w) => throw w
  | .error (.abort w) => crash w

/-! ## Rules -/

section Rules

variable {s : Sys} {r : Ref} {j : Job} {Q : α → Sys → Prop} {E : Sys → Prop}

theorem wp_this {Q : Job → Sys → Prop} (h : s.heap r = some j) : wp (this r) Q E s = Q j s := by
  simp only [wp, this, h]

/-- A pointer that is followed and does not crash the program points to a job. -/
theorem wp_this_of {Q : Job → Sys → Prop} (h : ∀ j, s.heap r = some j → Q j s) : wp (this r) Q E s := by
  unfold wp this
  cases hj : s.heap r with
  | none => trivial
  | some j => exact h j hj

@[simp] theorem wp_setJob {Q : Unit → Sys → Prop} (f : Job → Job) :
    wp (setJob r f) Q E s = Q () (s.updateJob r f) := rfl

theorem wp_ofDecode {d : Decode α} (h : ∀ a, d = .ok a → Q a s) (hE : ∀ w, d = .error (.exn w) → E s) :
    wp (ofDecode d) Q E s := by
  cases d with
  | ok a => exact h a rfl
  | error e => cases e with
    | exn w => exact hE w rfl
    | abort w => trivial

end Rules

end Relaunchd
