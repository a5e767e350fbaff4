/-
  Relaunchd.RpcServer — the requests of `launchctl` (`src/rpc_server.cc`).

  A request is an array: the method's name, then its arguments. The handlers read the
  arguments with the `const` form of `operator[]`, whose failure no handler can catch.
-/

import Relaunchd.Manager

namespace Relaunchd

open Prog

namespace Rpc

def errorReply (error : Bool) : Json := .obj [("error", .bool error)]

/-- `args[1][key]` -/
def argument (args : Json) (key : String) : Decode Json := do (← args.index 1).key key

def labelArgument (args : Json) : Decode String := do Label.make (← (← argument args "Label").getString)

/-! ## The handlers -/

def opDisable (args : Json) : M Json := do
  Manager.overrideJobEnabled (← ofDecode (labelArgument args)) false
  return errorReply false

def opEnable (args : Json) : M Json := do
  Manager.overrideJobEnabled (← ofDecode (labelArgument args)) true
  return errorReply false

def opKill (args : Json) : M Json := do
  let label ← ofDecode (labelArgument args)
  let signameOrNum ← ofDecode (argument args "Signal" >>= Json.getString)
  return errorReply (← Manager.killJob label signameOrNum)

def opList (_args : Json) : M Json := Manager.listJobs

/-- The loop of `opLoad` over its paths. -/
def loadPaths (overrideDisabled forceLoad : Bool) : Bool → List Json → M Bool
  | error, [] => return error
  | error, path :: rest => do
    let ok ← Manager.loadAllManifests (← ofDecode path.getString) overrideDisabled forceLoad
    loadPaths overrideDisabled forceLoad (error || !ok) rest

def opLoad (args : Json) : M Json := do
  let forceLoad ← ofDecode (argument args "Force" >>= Json.getBool)
  let overrideDisabled ← ofDecode (argument args "OverrideDisabled" >>= Json.getBool)
  let paths ← ofDecode (argument args "Paths")
  let error ← loadPaths overrideDisabled forceLoad false paths.elements
  Manager.startLoaded
  return errorReply error

/-- The loop of `opUnload` over a directory: it stops at the first failure. -/
def unloadEntries (overrideDisabled forceUnload : Bool) : List String → M Bool
  | [] => return false
  | file :: rest => do
    if ← Manager.unloadJobAt file overrideDisabled forceUnload then unloadEntries overrideDisabled forceUnload rest
    else return true

/-- The loop of `opUnload` over its paths: a failure in a directory does not stop it. -/
def unloadPaths (overrideDisabled forceUnload : Bool) : Bool → List Json → M Bool
  | isError, [] => return isError
  | isError, path :: rest => do
    let path ← ofDecode path.getString
    match (← get).kernel.answers.files path with
    | .missing => return true
    | .directory entries => do
      let failed ← unloadEntries overrideDisabled forceUnload entries
      unloadPaths overrideDisabled forceUnload (isError || failed) rest
    | .file _ =>
      if ← Manager.unloadJobAt path overrideDisabled forceUnload then
        unloadPaths overrideDisabled forceUnload isError rest
      else return true

def opUnload (args : Json) : M Json := do
  let forceUnload ← ofDecode (argument args "Force" >>= Json.getBool)
  let overrideDisabled ← ofDecode (argument args "OverrideDisabled" >>= Json.getBool)
  let paths ← ofDecode (argument args "Paths")
  return errorReply (← unloadPaths overrideDisabled forceUnload false paths.elements)

def opRemove (args : Json) : M Json := do
  let label ← ofDecode (labelArgument args)
  return errorReply (← Manager.unloadJob label false false)

def opSubmit (args : Json) : M Json := do
  let doc ← ofDecode (args.index 1)
  let ok ← Manager.loadManifestDoc doc "/dev/null" false false
  Manager.startLoaded
  return errorReply ok

def version : String := "relaunch version 0.7.0"

def opVersion (_args : Json) : M Json :=
  return .obj [("error", .bool false), ("version", .str version)]

def handlers : List (String × (Json → M Json)) :=
  [("disable", opDisable), ("enable", opEnable), ("kill", opKill), ("list", opList), ("load", opLoad),
   ("remove", opRemove), ("submit", opSubmit), ("unload", opUnload), ("version", opVersion)]

/-! ## Dispatch -/

/-- `writeMessage`: a reply the kernel takes a part of is an exception. If it takes nothing,
    since `write(2)` fails, there is none, but nothing comes after. -/
def writeMessage (reply : Json) : M Unit := do
  if ← nextWrite then modify fun s => { s with replies := s.replies ++ [reply] }
  else throw "write"

def handlerFor (message : Json) : Decode (Json → M Json) := do
  let method ← (← message.atIndex 0).getString
  match handlers.find? (·.1 == method) with
  | some handler => .ok handler.2
  | none => .error (.exn "out_of_range")

/-- The method of a message, when a handler is found for it. -/
theorem of_handler {message : Json} {handler : Json → M Json} (h : handlerFor message = .ok handler) :
    ∃ method, (method, handler) ∈ handlers ∧ message.atIndex 0 >>= Json.getString = .ok method := by
  obtain ⟨value, hvalue, h⟩ := bind_eq_ok.mp h
  obtain ⟨method, hmethod, h⟩ := bind_eq_ok.mp h
  cases hf : handlers.find? (·.1 == method) with
  | none => rw [hf] at h; cases h
  | some entry =>
    rw [hf] at h
    cases h
    have hkey := List.find?_some hf
    simp only [beq_iff_eq] at hkey
    exact ⟨method, hkey ▸ List.mem_of_find?_eq_some hf, bind_eq_ok.mpr ⟨value, hvalue, hmethod⟩⟩

theorem handlerFor_faults (message : Json) : (handlerFor message).FaultsIn Json.exceptions := by
  refine .bind (Json.atIndex_faults _ _) fun j => .bind (Json.getString_faults j) fun method => ?_
  split
  · exact .done _
  · exact fun e he => by cases he; decide

/-- The request loads jobs, and boots those that are pending. -/
def Boots (message : Json) : Prop :=
  ∃ method, message.atIndex 0 >>= Json.getString = .ok method ∧ (method = "load" ∨ method = "submit")

/-- `rpc_dispatch`; no message means that reading it failed. -/
def rpcDispatch (message : Option Json) : M Unit :=
  tryCatch (do
    match message with
    | none => throw "read"
    | some message => do
      let handler ← ofDecode (handlerFor message)
      let response ← tryCatch (handler message) fun _ => return errorReply true
      writeMessage response)
    fun _ => return ()

end Rpc

end Relaunchd
