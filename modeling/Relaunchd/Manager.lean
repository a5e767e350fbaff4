/-
  Relaunchd.Manager — the manager (`src/manager.h`, `src/manager.cc`) and the state file it
  keeps (`src/state_file.cc`).

  A path is a string, and `Answers.files` says what it names while one event is handled.
-/

import Relaunchd.Job

namespace Relaunchd

open Prog EventManager

/-! ## The state file -/

/-- `StateFile::setValue`: the new value is written to another file, which is renamed. -/
def StateFile.setValue (value : Json) : M Unit := do
  if ← nextRename then modify fun s => { s with stateFile := value }
  else throw "rename"

def Manifest.parse (path : String) : M Json := do
  if extension path = ".json" then
    match (← get).kernel.answers.files path with
    | .file (some doc) => return doc
    | _ => throw "parse_error"
  else throw "parse failed"

namespace Manager

def jobExists (label : String) : M Bool := do
  let _ ← ofDecode (Label.string label)
  gets fun s => (s.jobs.lookup label).isSome

def getJob (label : String) : M Ref := do
  match (← get).jobs.lookup label with
  | some r => return r
  | none => throw "out_of_range"

/-! ## Overrides -/

/-- The document `overrideJobEnabled` stores. -/
def overridden (label : String) (enabled : Bool) (doc : Json) : Decode Json := do
  let overrides ← doc.atKey "Overrides"
  let overrides ←
    if overrides.contains label then do
      overrides.set label (← (← overrides.atKey label).set "Enabled" (.bool enabled))
    else overrides.emplace label (.obj [("Enabled", .bool enabled)])
  doc.set "Overrides" overrides

def overrideJobEnabled (label : String) (enabled : Bool) : M Unit := do
  StateFile.setValue (← ofDecode (overridden label enabled (← get).stateFile))
  modify fun s => { s with overrides := s.overrides ++ [(label, enabled)] }

/-! ## Loading -/

/-- `jobs.count(label) > 0 || pending_jobs.count(label) > 0` -/
def isDuplicate (label : String) : M Bool :=
  gets fun s => (s.jobs.lookup label).isSome || (s.pendingJobs.lookup label).isSome

def addPending (manifest : Manifest) (path : String) : M Unit :=
  modify fun s => { s with
    heap := Function.update s.heap s.nextRef (some { manifest, manifestPath := path })
    pendingJobs := insertNew manifest.label (some s.nextRef) s.pendingJobs
    nextRef := s.nextRef + 1 }

/-- The override the state file has for the label says disabled. -/
def overrideDisables (label : String) (state : Json) : Decode Bool := do
  if (← state.atKey "Overrides").contains label then do
    let jobState ← (← state.key "Overrides").key label
    return !(← (← jobState.atKey "Enabled").getBool)
  else return false

def loadManifestDoc (doc : Json) (path : String) (overrideDisabled forceLoad : Bool) : M Bool := do
  if (← get).state = .gracefulShutdown then return false
  else match Manifest.fromJson doc with
    | .error (.exn _) => return false
    | .error (.abort why) => crash why
    | .ok manifest => do
      if ← isDuplicate manifest.label then return false
      else do
        if overrideDisabled then overrideJobEnabled manifest.label true
        if manifest.disabled && !forceLoad then return false
        else do
          let disabled ← ofDecode (overrideDisables manifest.label (← get).stateFile)
          if disabled && !forceLoad then return false
          else do
            addPending manifest path
            return true

def loadManifest (path : String) (overrideDisabled forceLoad : Bool) : M Bool := do
  loadManifestDoc (← Manifest.parse path) path overrideDisabled forceLoad

/-- Load one of the manifests `loadAllManifests` finds; true if that is an error. -/
def loadOne (path : String) (overrideDisabled forceLoad : Bool) : M Bool :=
  tryCatch (do return !(← loadManifest path overrideDisabled forceLoad)) fun _ => return true

def loadEach (overrideDisabled forceLoad : Bool) : Bool → List String → M Bool
  | error, [] => return error
  | error, file :: rest => do
    let failed ← loadOne file overrideDisabled forceLoad
    loadEach overrideDisabled forceLoad (error || failed) rest

/-- `loadAllManifests` returns its error flag, but false for a path that is not there. -/
def loadAllManifests (path : String) (overrideDisabled forceLoad : Bool) : M Bool := do
  if (← get).state = .gracefulShutdown then return false
  else match (← get).kernel.answers.files path with
    | .missing => return false
    | .directory entries => loadEach overrideDisabled forceLoad false entries
    | .file _ => loadOne path overrideDisabled forceLoad

def loadEachPath : List String → M Unit :=
  forEach fun path => do
    let _ ← loadAllManifests path false false

/-- Ghost: what becomes of the Bootstrap of a job, by what looking up its disabled state gives. -/
def bootOf : Decode Bool → Boot
  | .ok false => .enabled
  | _ => .disabled

def markBootstrap (r : Ref) : M Unit := do
  let j ← this r
  let boot := bootOf (Job.disabledIn j.manifest (← get).stateFile)
  setJob r fun j => { j with boot }

/-- The body of the loop of `startAllJobs`. -/
def startPending (label : String) : M Unit := do
  let s ← get
  if (s.jobs.lookup label).isSome then crash "assert(false)"
  else match s.pendingJobs.lookup label with
    | some (some r) => do
      modify fun s => { s with
        jobs := s.jobs.insert label r
        pendingJobs := s.pendingJobs.insert label none }
      markBootstrap r
      Job.execute r .bootstrap
    | _ => crash "null pointer"

def startAllJobs : M Unit := do
  let order ← visiting (← get).pendingJobs.keys
  forEach startPending order
  modify fun s => { s with pendingJobs := ∅ }

/-! ## Unloading -/

/-- `unloadJob` of a job. -/
def unloadJobRef (r : Ref) (overrideDisabled forceUnload : Bool) : M Bool := do
  let label := (← this r).label
  if ((← get).jobs.lookup label).isSome then do
    if overrideDisabled then overrideJobEnabled label false
    Job.unloadJob r forceUnload
  else return false

/-- `unloadJob` of a label. -/
def unloadJob (label : String) (overrideDisabled forceUnload : Bool) : M Bool := do
  if !(← jobExists label) then return false
  else unloadJobRef (← getJob label) overrideDisabled forceUnload

/-- `unloadJob` of a manifest's file. -/
def unloadJobAt (path : String) (overrideDisabled forceUnload : Bool) : M Bool := do
  match ← tryCatch (do return some (← Manifest.parse path)) fun _ => return none with
  | none => return false
  | some doc =>
    if doc.contains "Label" then do
      let buf ← ofDecode (doc.atKey "Label" >>= Json.getString)
      let label ← ofDecode (Label.make buf)
      unloadJob label overrideDisabled forceUnload
    else return false

/-- The body of the loop of `unloadAllJobs`. -/
def unloadOne (label : String) : M Unit := do
  match (← get).jobs.lookup label with
  | none => pure ()
  | some r => do
    let j ← this r
    if j.state ≠ .unloaded ∧ !j.unloadRequested then
      tryCatch (do let _ ← Job.unloadJob r true) fun _ => pure ()
    else pure ()

def unloadAllJobs : M Unit := noexcept do
  let order ← visiting (← get).jobs.keys
  forEach unloadOne order

/-- The destructor of `Job`: the object is gone. -/
def destroy (r : Ref) (s : Sys) : Sys := { s with heap := Function.update s.heap r none }

/-- The IPC method `delete_job`. -/
def deleteJob (label : String) : M Unit := modify fun s =>
  match s.jobs.lookup label with
  | some r => { destroy r s with jobs := s.jobs.erase label }
  | none => s

/-- The body of the loop of `forceUnloadAllJobs`. -/
def forceUnloadOne (label : String) : M Unit := do
  match (← get).jobs.lookup label with
  | none => pure ()
  | some r => Job.forceUnloadJob r

def forceUnloadAllJobs : M Unit := noexcept do
  let order ← visiting (← get).jobs.keys
  forEach forceUnloadOne order
  modify fun s => { s.jobs.entries.foldl (fun s e => destroy e.2 s) s with jobs := ∅ }

/-! ## Requests -/

def killJob (label signameOrNumber : String) : M Bool := do
  match getSignalByName signameOrNumber with
  | none => return false
  | some signum =>
    if !(← jobExists label) then return false
    else Job.killJob (← getJob label) signum

def listJob (label : String) : M (Option Json) := do
  match (← get).jobs.lookup label with
  | none => return none
  | some r => do
    let j ← this r
    return some (.obj [("LastExitStatus", .int j.lastExitStatus),
      ("Label", .str (← ofDecode (Label.string j.label))),
      ("PID", .str (if j.pid = 0 then "-" else toString j.pid))])

/-- The rows of `listJobs`, after those already there. -/
def listRows : List Json → List String → M (List Json)
  | rows, [] => return rows
  | rows, label :: rest => do
    let row ← listJob label
    listRows (rows ++ row.toList) rest

def listJobs : M Json := do
  let order ← visiting (← get).jobs.keys
  return .arr (← listRows [] order)

/-! ## The state machine -/

/-- `initFSM`. `setupSignalHandlers` and `startRpcServer` come down to the open socket;
    `loadPaths` are the domain's. -/
def transitions (loadPaths : List String) : List (Fsm.Trans Sys States Triggers) :=
  [ { fromState := .unconfigured, toState := .finished, trigger := .stopRequested
      guard := return true
      action := return () },
    { fromState := .unconfigured, toState := .running, trigger := .startRequested
      guard := return true
      action := do
        modify fun s => { s with listening := true }
        loadEachPath loadPaths
        startAllJobs },
    { fromState := .running, toState := .running, trigger := .startRequested
      guard := gets fun s => !s.pendingJobs.keys.isEmpty
      action := startAllJobs },
    { fromState := .running, toState := .gracefulShutdown, trigger := .stopRequested
      guard := return true
      action := do
        -- Prevent users from submitting new jobs
        modify fun s => { s with listening := false }
        unloadAllJobs },
    { fromState := .gracefulShutdown, toState := .finished, trigger := .stopRequested
      guard := return true
      action := return () },
    { fromState := .gracefulShutdown, toState := .finished, trigger := .allJobsExited
      guard := return true
      action := return () } ]

def execute (loadPaths : List String) (trigger : Triggers) : M Unit := do
  let _ ← Fsm.execute (fun state => modify fun s => { s with state }) trigger (gets (·.state)) (transitions loadPaths)

def startRunning (loadPaths : List String) : M Unit := execute loadPaths .startRequested

/-- A request calls `startRunning` too, but the manager is running then: no default path is
    loaded. -/
def startLoaded : M Unit := startRunning []

def handleShutdownSignal : M Unit := do
  match (← get).state with
  | .unconfigured => execute [] .stopRequested
  | .gracefulShutdown => do
    forceUnloadAllJobs
    execute [] .allJobsExited
  | .running => execute [] .stopRequested
  | .finished => return ()

/-- The callbacks of `setupSignalHandlers`. SIGCHLD has none: the backend keeps it. -/
def signalCallback : Signal → M Unit
  | .sigchld => throw "out_of_range"
  | .sigpipe => return ()
  | .sigint => do
    modify fun s => { s with pendingResult := .reboot }
    handleShutdownSignal
  | .sigusr1 => do
    modify fun s => { s with pendingResult := .halt }
    handleShutdownSignal
  | .sigusr2 => do
    modify fun s => { s with pendingResult := .haltAndPowerDown }
    handleShutdownSignal
  | .sigterm => do
    modify fun s => { s with pendingResult := .singleUserMode }
    handleShutdownSignal

end Manager

end Relaunchd
