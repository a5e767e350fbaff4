/-
  Relaunchd.Run — the event loop, and the runs of the whole program.

  Between two events the program sleeps in `handleEvent`, and the rest of the system moves:
  children exit, signals arrive, time passes. `step` is one such move or one call of
  `handleEvent` with its answers; `Next` takes the calls that return. One that throws or
  crashes ends the program, as nothing in `main` catches it.
-/

import Relaunchd.Lib.Transition
import Relaunchd.RpcServer

namespace Relaunchd

open Prog EventManager

/-! ## Dispatch -/

namespace EventManager

/-- The callbacks that `waitForEvent` runs. -/
def dispatch : Event → M Unit
  | .ipc method arg => if method = "delete_job" then Manager.deleteJob arg else throw "out_of_range"
  | .signal sig => Manager.signalCallback sig
  | .proc pid status child => do
    match (← get).eventmgr.processCallbacks.lookup pid with
    | none => throw "out_of_range"
    | some r => do
      Job.processCallback r status child
      deleteProcess pid
  | .socket message => Rpc.rpcDispatch message
  | .timer timerId => do
    match (← get).eventmgr.timerCallbacks.lookup timerId with
    | none => throw "out_of_range"
    | some (r, callback) => Job.timerCallback r callback

def waitForEvent (wakeup : Wakeup) : M Unit := do
  match ← nextEvent wakeup with
  | none => return ()
  | some event => dispatch event

end EventManager

def Manager.handleEvent (wakeup : Wakeup) : M Unit := do
  match (← get).state with
  | .unconfigured => throw "unsupported state"
  | .running => waitForEvent wakeup
  | .gracefulShutdown => do
    if (← get).jobs.keys.isEmpty then Manager.execute [] .allJobsExited
    else waitForEvent wakeup
  | .finished => return ()

/-! ## The environment -/

namespace Kernel

variable (k : Kernel)

def childExits (child : Nat) (status : WaitStatus) : Kernel :=
  match k.procs[child]? with
  | some { state := .running, .. } =>
    Kernel.raise { k with procs := k.procs.modify child fun p => { p with state := .zombie status } } .sigchld
  | _ => k

end Kernel

/-! ## Runs -/

inductive Ev where
  | timePasses (milliseconds : Nat)
  /-- The process at place `child` of `procs`. -/
  | childExits (child : Nat) (status : WaitStatus)
  | signalSent (sig : Signal)
  /-- `startRunning`, with which `main` begins. -/
  | startRunning (loadPaths : List String) (answers : Answers)
  | handleEvent (wakeup : Wakeup) (answers : Answers)

def step : Ev → M Unit
  | .timePasses ms => modify (·.updateKernel fun k => { k with now := k.now + ms })
  | .childExits child status => modify (·.updateKernel (·.childExits child status))
  | .signalSent sig => modify (·.updateKernel (·.raise sig))
  | .startRunning loadPaths answers => do
    modify (·.updateKernel fun k => { k with answers })
    if (← get).state = .unconfigured then Manager.startRunning loadPaths else return ()
  | .handleEvent wakeup answers => do
    modify (·.updateKernel fun k => { k with answers })
    Manager.handleEvent wakeup

/-- A manager as it is constructed: with whatever its state file holds. -/
def Init (s : Sys) : Prop :=
  ∃ stateFile now users, s = { stateFile, kernel := { now, users } }

/-- The program runs until the manager is finished. -/
def Next (s : Sys) (e : Ev) (s' : Sys) : Prop := s.state ≠ .finished ∧ step e s = .ok () s'

abbrev Reachable (s : Sys) : Prop := Transition.Reach Init Next s

/-- Run a list of events, as long as they pass a check; `none` when one fails it or ends the
    program. -/
def run (check : Sys → Ev → Bool) (s : Sys) : List Ev → Option Sys
  | [] => some s
  | e :: es =>
    if s.state = .finished then none
    else if check s e then (final? (step e) s).bind fun s' => run check s' es
    else none

end Relaunchd
