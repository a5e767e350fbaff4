/-
  Relaunchd.ProcessTree — the processes below launchd, and the loop of
  `Job::killProcessGroup` (`src/job.cc`) that clears one of their groups.

  Launchd makes itself a subreaper before it starts anything (`become_a_subreaper`), so a
  process whose parent dies becomes a child of launchd, and `waitpid(-pgid)` sees it. Every
  job leads a session of its own. What the processes do meanwhile is up to them: they fork,
  leave the group or the session, become subreapers or another user, and die, in any order.

  `top` is the parent of an orphan that has no subreaper above it. It is launchd where
  `prctl(2)` succeeded, and process 1 otherwise.
-/

import Relaunchd.Job
import Relaunchd.Lib.Transition

namespace Relaunchd

open Transition

namespace ProcessTree

/-- A process, until it is reaped. -/
structure Task where
  pid : Int
  parent : Int
  pgid : Int
  sid : Int
  subreaper : Bool := false
  /-- Launchd may not send signals to its user. -/
  foreign : Bool := false
  /-- SIGKILL is pending: it does nothing any more but die. -/
  killed : Bool := false
  zombie : Bool := false
  /-- Ghost: the job it descends from. -/
  job : Ref
  /-- Ghost: launchd itself forked it, in `Job::run`. -/
  spawned : Bool := false
  /-- Ghost: how many processes were forked before it. -/
  born : Nat
  deriving DecidableEq

inductive Stage where
  | idle
  /-- Before `killpg(2)`. -/
  | killing (pgid : Int)
  /-- Before `waitpid(2)`. -/
  | waiting (pgid : Int)
  | returned (pgid : Int) (result : Bool)
  deriving DecidableEq

def Stage.free : Stage → Bool
  | .idle | .returned _ _ => true
  | .killing _ | .waiting _ => false

structure Host where
  tasks : List Task := []
  stage : Stage := .idle
  /-- Ghost: how many processes were forked. -/
  born : Nat := 0
  /-- Ghost: how many the present call has reaped. -/
  reaped : Nat := 0

inductive Move where
  /-- `Job::run`: the child leads its own session by the time its program runs. -/
  | spawn (pid : Int) (job : Ref)
  /-- Any other `waitpid(2)` of launchd. -/
  | collect (pid : Int)
  /-- `killProcessGroup`, past its two ifs. -/
  | call (pgid : Int)
  | killpg
  /-- `waitpid(2)` finds a dead child in the group. -/
  | reap (pid : Int)
  /-- `waitpid(2)` finds no child in the group. -/
  | echild
  /-- Either call fails otherwise. -/
  | fail
  | fork (pid child : Int)
  | setsid (pid : Int)
  /-- A process moves itself or one of its children. -/
  | setpgid (caller pid pgid : Int)
  /-- `prctl(2)`, or a program of another user. -/
  | alter (pid : Int) (subreaper foreign : Bool)
  | die (pid : Int)
  /-- Somebody else's child is reaped. -/
  | vanish (pid : Int)

namespace Host

variable (launchd top : Int) (host : Host)

def find (pid : Int) : Option Task := host.tasks.find? (·.pid = pid)

def Acts (pid : Int) : Prop := (host.find pid).any fun t => !t.zombie && !t.killed

instance (pid : Int) : Decidable (host.Acts pid) := inferInstanceAs (Decidable (_ = true))

/-- A pid can be handed out when it names no process, no group and no session. -/
def Free (pid : Int) : Prop :=
  0 < pid ∧ pid ≠ launchd ∧ pid ≠ top ∧ ∀ t ∈ host.tasks, t.pid ≠ pid ∧ t.pgid ≠ pid ∧ t.sid ≠ pid

instance (pid : Int) : Decidable (host.Free launchd top pid) := inferInstanceAs (Decidable (_ ∧ _))

/-- Where an orphan goes: the nearest subreaper from there up. -/
def heir : Nat → Int → Int
  | 0, _ => top
  | fuel + 1, pid => match host.find pid with
    | some t => if t.subreaper && !t.zombie then t.pid else heir fuel t.parent
    | none => top

def edit (pid : Int) (f : Task → Task) : Host := { host with tasks := host.tasks.map fun t => if t.pid = pid then f t else t }

def remove (pid : Int) : Host := { host with tasks := host.tasks.filter (·.pid ≠ pid) }

def add (t : Task) : Host := { host with tasks := host.tasks ++ [t], born := host.born + 1 }

/-- A process ends, and its children become those of another. -/
def orphan (pid heir : Int) : Host :=
  { host with tasks := host.tasks.map fun t =>
      if t.pid = pid then { t with zombie := true } else if t.parent = pid then { t with parent := heir } else t }

/-- SIGKILL to whom launchd may send it. -/
def signal (pgid : Int) : Host :=
  { host with tasks := host.tasks.map fun t => if t.pgid = pgid ∧ t.foreign = false then { t with killed := true } else t }

def Dead (pid : Int) : Prop := (host.find pid).any fun t => t.zombie && t.parent = launchd

instance (pid : Int) : Decidable (host.Dead launchd pid) := inferInstanceAs (Decidable (_ = true))

def setpgid (caller pid pgid : Int) : Option Host :=
  match host.find caller, host.find pid with
  | some c, some t =>
    if (c.zombie = false ∧ c.killed = false) ∧ t.zombie = false ∧ (c.pid = t.pid ∨ t.parent = c.pid) ∧ t.sid = c.sid ∧
        t.sid ≠ t.pid ∧ (pgid = t.pid ∨ ∃ q ∈ host.tasks, q.pgid = pgid ∧ q.sid = t.sid) then
      some (host.edit t.pid fun t => { t with pgid })
    else none
  | _, _ => none

/-- The two calls of the loop. -/
def loop : Move → Option Host
  | .killpg => match host.stage with
    | .killing pgid => some { host.signal pgid with stage := .waiting pgid }
    | _ => none
  | .reap pid => match host.stage with
    | .waiting pgid =>
      if host.Dead launchd pid ∧ (host.find pid).any (·.pgid = pgid) then
        some { host.remove pid with stage := .killing pgid, reaped := host.reaped + 1 }
      else none
    | _ => none
  | .echild => match host.stage with
    | .waiting pgid =>
      if ∀ t ∈ host.tasks, t.parent = launchd → t.pgid ≠ pgid then some { host with stage := .returned pgid true } else none
    | _ => none
  | .fail => match host.stage with
    | .killing pgid | .waiting pgid => some { host with stage := .returned pgid false }
    | _ => none
  | _ => none

def step : Move → Option Host
  | .spawn pid job =>
    if host.stage.free ∧ host.Free launchd top pid then
      some (host.add { pid, parent := launchd, pgid := pid, sid := pid, job, spawned := true, born := host.born })
    else none
  | .collect pid => if host.stage.free ∧ host.Dead launchd pid then some (host.remove pid) else none
  | .call pgid => if host.stage.free then some { host with stage := .killing pgid, reaped := 0 } else none
  | .fork pid child =>
    if host.Acts pid ∧ host.Free launchd top child then
      (host.find pid).map fun t =>
        host.add { t with pid := child, parent := pid, subreaper := false, spawned := false, born := host.born }
    else none
  | .setsid pid =>
    if host.Acts pid ∧ ∀ t ∈ host.tasks, t.pgid ≠ pid then some (host.edit pid fun t => { t with pgid := pid, sid := pid })
    else none
  | .setpgid caller pid pgid => host.setpgid caller pid pgid
  | .alter pid subreaper foreign =>
    if host.Acts pid then some (host.edit pid fun t => { t with subreaper, foreign }) else none
  | .die pid => match host.find pid with
    | some t => if t.zombie then none else some (host.orphan t.pid (host.heir top host.tasks.length t.parent))
    | none => none
  | .vanish pid => if (host.find pid).any fun t => t.zombie && t.parent ≠ launchd then some (host.remove pid) else none
  | move => host.loop launchd move

def Init (host : Host) : Prop := host = {}

def Next (host : Host) (move : Move) (host' : Host) : Prop := host.step launchd top move = some host'

abbrev Reachable (host : Host) : Prop := Reach Init (Next launchd top) host

/-- The children that `Job::run` forked and that are not reaped. -/
def children : List Int := (host.tasks.filter (·.spawned)).map (·.pid)

end Host

/-- The manager's kernel holds the same children. -/
def Shows (host : Host) (k : Kernel) : Prop := ∀ pid, pid ∈ host.children ↔ ∃ p ∈ k.procs, p.held ∧ p.pid = pid

end ProcessTree

end Relaunchd
