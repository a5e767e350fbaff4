/-
  Relaunchd.Rendezvous — how a client finds its manager (`src/channel.cc`, `src/domain.cc`).

  Every launchd binds a socket to the name `rpc.sock` in the state directory of its domain,
  and a client connects to the name in its own. When the name is taken, `bindAndListen`
  removes it and binds again; nobody asks whether another launchd listens there. The calls
  of several launchds come in any order; in between a launchd can stop listening or be
  killed, and other programs make and remove files.

  `sun_path` has 108 bytes. `strncpy` writes all but the last, which nothing initializes;
  what is unlinked is the whole path.
-/

import Relaunchd.Lib.Codec
import Relaunchd.Lib.Transition

namespace Relaunchd

open Codec Transition

def ascii (text : String) : Bytes := text.toList.map fun c => c.toNat.toUInt8

/-! ## Domains -/

inductive DomainType where
  | system
  | user
  | gui
  deriving DecidableEq, Repr

structure Domain where
  dtype : DomainType
  statedir : Bytes

/-- `operator/` of paths, where the one on the right is relative. -/
def joinPath (dir name : Bytes) : Bytes :=
  if dir = [] ∨ dir.getLast? = some 47 then dir ++ name else dir ++ 47 :: name

namespace Domain

variable (uid : Nat) (env : String → Option Bytes) (pkgstatedir : Bytes)

def detectDomainType : DomainType :=
  if uid = 0 then .system
  else if (env "DISPLAY").isSome then .gui
  else .user

def detectStateDir (dtype : DomainType) : Except String Bytes :=
  if dtype = .system then .ok pkgstatedir
  else
    let stateHome := match env "XDG_STATE_HOME" with
      | some dir => dir
      | none => match env "HOME" with
        | some home => joinPath (joinPath home (ascii ".local")) (ascii "state")
        | none => []
    if stateHome = [] then .error "unable to determine the state directory"
    else .ok (joinPath stateHome (ascii "relaunchd"))

def new (t : Option DomainType) (statedir : Option Bytes) : Except String Domain := do
  let dtype := t.getD (detectDomainType uid env)
  match statedir with
  | some statedir => return { dtype, statedir }
  | none => return { dtype, statedir := ← detectStateDir env pkgstatedir dtype }

/-- What a manager binds to, and a client connects to. -/
def socketPath (domain : Domain) : Bytes := joinPath domain.statedir (ascii "rpc.sock")

variable {uid env pkgstatedir} {t t' : Option DomainType} {d d' : Domain}

theorem detectStateDir_of_new (h : new uid env pkgstatedir t none = .ok d) :
    detectStateDir env pkgstatedir d.dtype = .ok d.statedir := by
  unfold new at h
  dsimp only [bind, Except.bind, pure, Except.pure] at h
  split at h
  · cases h
  · rename_i statedir hdir
    cases h
    exact hdir

/-- "User and GUI share the same state directory", so what is bound for one is unlinked for the other. -/
theorem socketPath_shared (h : new uid env pkgstatedir t none = .ok d) (h' : new uid env pkgstatedir t' none = .ok d')
    (hd : d.dtype ≠ .system) (hd' : d'.dtype ≠ .system) : d.socketPath = d'.socketPath := by
  have hdir := detectStateDir_of_new h
  have hdir' := detectStateDir_of_new h'
  unfold detectStateDir at hdir hdir'
  rw [if_neg hd] at hdir
  rw [if_neg hd'] at hdir'
  have hsame : d.statedir = d'.statedir := Except.ok.inj (hdir.symm.trans hdir')
  rw [socketPath, socketPath, hsame]

end Domain

/-! ## The address -/

/-- `sizeof(addr.sun_path)` -/
def sunPathSize : Nat := 108

/-- `strncpy(addr.sun_path, path.c_str(), sizeof(addr.sun_path) - 1)`, where the last byte is
    what it was. -/
def sunPath (path : Bytes) (last : UInt8) : Bytes :=
  let copied := (untilNul path).take (sunPathSize - 1)
  copied ++ List.replicate (sunPathSize - 1 - copied.length) 0 ++ [last]

/-- The name that the kernel finds there. -/
def nameIn (path : Bytes) (last : UInt8) : Bytes := untilNul (sunPath path last)

namespace Rendezvous

/-! ## The host -/

/-- What a name is bound to. A socket that was left by a launchd of an earlier boot is a file. -/
inductive Node where
  | socket (server : Nat)
  | file
  | directory
  deriving DecidableEq

/-- How far a launchd has come with `bindAndListen`. -/
inductive Stage where
  | starting
  /-- `bind(2)` failed with EADDRINUSE. -/
  | inUse
  | unlinked
  | bound
  | listening
  /-- After `unbindAndStopListening`, which leaves the name. -/
  | closed
  /-- An exception has left it. -/
  | failed
  | killed
  deriving DecidableEq, Repr

structure Server where
  domain : Domain
  /-- The byte of `addr.sun_path` that is never written. -/
  last : UInt8
  stage : Stage := .starting

/-- What it unlinks: the `c_str` of the path. -/
def Server.path (c : Server) : Bytes := untilNul c.domain.socketPath

def Server.name (c : Server) : Bytes := nameIn c.domain.socketPath c.last

structure Host where
  nodes : Bytes → Option Node
  /-- In the order they were started. -/
  servers : List Server := []
  /-- Ghost: every `bind(2)` that succeeded, with its name. -/
  binds : List (Bytes × Nat) := []

inductive Move where
  | launch (domain : Domain) (last : UInt8)
  /-- The next call of a launchd's `bindAndListen`; `listens` is what `listen(2)` does. -/
  | advance (i : Nat) (listens : Bool)
  | stop (i : Nat)
  | kill (i : Nat)
  | create (name : Bytes) (directory : Bool)
  | remove (name : Bytes)

namespace Host

variable (writable : Bytes → Bool) (host : Host)

def setStage (i : Nat) (stage : Stage) : Host := { host with servers := host.servers.modify i fun c => { c with stage } }

def named (i : Nat) (name : Bytes) : Host :=
  { host with nodes := Function.update host.nodes name (some (.socket i)), binds := host.binds ++ [(name, i)] }

/-- `bind(2)`, and what comes of a launchd when the name is taken. -/
def bind (i : Nat) (c : Server) (taken : Stage) : Host :=
  if (host.nodes c.name).isSome then host.setStage i taken
  else if writable c.name then (host.named i c.name).setStage i .bound
  else host.setStage i .failed

/-- `unlink(2)`, whose result nobody looks at. -/
def unlink (path : Bytes) : Host :=
  match host.nodes path with
  | some (.socket _) | some .file =>
    if writable path then { host with nodes := Function.update host.nodes path none } else host
  | some .directory | none => host

/-- The calls of `bindAndListen`, one by one. -/
def call (i : Nat) (c : Server) (listens : Bool) : Option Host :=
  match c.stage with
  | .starting => some (host.bind writable i c .inUse)
  | .inUse => some ((host.unlink writable c.path).setStage i .unlinked)
  | .unlinked => some (host.bind writable i c .failed)
  | .bound => some (host.setStage i (if listens then .listening else .failed))
  | .listening | .closed | .failed | .killed => none

def advance (i : Nat) (listens : Bool) : Option Host := (host.servers[i]?).bind fun c => host.call writable i c listens

def step : Move → Option Host
  | .launch domain last => some { host with servers := host.servers ++ [{ domain, last }] }
  | .advance i listens => host.advance writable i listens
  | .stop i => if (host.servers[i]?).any (·.stage = .listening) then some (host.setStage i .closed) else none
  | .kill i => some (host.setStage i .killed)
  | .create name directory =>
    if (host.nodes name).isNone then
      some { host with nodes := Function.update host.nodes name (some (if directory then .directory else .file)) }
    else none
  | .remove name => some { host with nodes := Function.update host.nodes name none }

def Init (host : Host) : Prop := host.servers = [] ∧ host.binds = [] ∧ ∀ name i, host.nodes name ≠ some (.socket i)

def Next (host : Host) (move : Move) (host' : Host) : Prop := host.step writable move = some host'

abbrev Reachable (host : Host) : Prop := Reach Init (Next writable) host

/-- `connect(2)`: the launchd it reaches. None when it fails, which `invokeMethod` ignores. -/
def connect (domain : Domain) (last : UInt8) : Option Nat :=
  match host.nodes (nameIn domain.socketPath last) with
  | some (.socket i) => if (host.servers[i]?).any (·.stage = .listening) then some i else none
  | some .file | some .directory | none => none

/-- Nobody else runs: all that `bindAndListen` does. -/
def settle (i : Nat) : Nat → Host → Host
  | 0, host => host
  | fuel + 1, host => match host.advance writable i true with
    | some host' => settle i fuel host'
    | none => host

/-- A launchd is started, and nobody else runs until it listens or fails. -/
def start (domain : Domain) (last : UInt8) : Host :=
  settle writable host.servers.length 4 { host with servers := host.servers ++ [{ domain, last }] }

end Host

end Rendezvous

end Relaunchd
