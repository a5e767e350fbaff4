/-
  Relaunchd.Failures — the texts of the exceptions and crashes the programs can end in.

  The operations of a job have a list of their own, and no text in it is about reading a
  document that is missing something. The manager adds what reading one can end in. Only
  the loop that boots the pending jobs can find a job booted already.
-/

import Relaunchd.Run
import Relaunchd.StateDoc

namespace Relaunchd

open Prog EventManager Decode

def Job.failures : List String :=
  ["use after free", "type_error", "out_of_range", "null passwd entry", "null group entry", "pipe", "kill",
   "started_at is not set", "!timer_id", "bad_optional_access", "timerfd_create", "timerfd_settime", "epoll_ctl",
   "nested too deep"]

def Fault.text : Fault → String
  | .exn w => w
  | .abort w => w

/-- The `const` accessors abort where the checked ones throw. -/
def Json.constFaults : List Fault := exceptions ++ [.abort "json: missing key", .abort "json: index out of range"]

def Manager.failures : List String :=
  Job.failures ++ (Manifest.faults ++ Json.constFaults).map Fault.text ++
    ["rename", "parse_error", "parse failed", "unsupported state", "epoll_wait",
     "timer FD does not match any known timer IDs", "read", "write"]

theorem Json.key_faults (j : Json) (k : String) : (j.key k).FaultsIn constFaults := by
  unfold Json.key
  split
  · split
    · exact .done _
    · exact fun e he => by cases he; decide
  · exact fun e he => by cases he; decide

theorem Json.index_faults (j : Json) (i : Nat) : (j.index i).FaultsIn constFaults := by
  unfold Json.index
  split
  · split
    · exact .done _
    · exact fun e he => by cases he; decide
  · exact fun e he => by cases he; decide

namespace Fails

/-! ## Building blocks -/

variable {α : Type} {texts : List String}

theorem derefs (h : "use after free" ∈ texts) (r : Ref) : FailsIn texts (this r) := fun s w hw => by
  unfold this at hw
  cases hj : s.heap r with
  | none => rw [hj] at hw; cases hw; exact h
  | some j => rw [hj] at hw; cases hw

theorem decodes {faults : List Fault} {d : Decode α} (hd : d.FaultsIn faults) (ht : ∀ e ∈ faults, e.text ∈ texts) :
    FailsIn texts (ofDecode d) := by
  cases d with
  | ok a => exact .returns a
  | error e =>
    have he := ht e (hd e rfl)
    cases e with
    | exn w => exact .throws he
    | abort w => exact .crashes he

/-- What follows runs on what was decoded. -/
theorem decodesThen {β : Type} {faults : List Fault} {d : Decode β} {f : β → M α} (hd : d.FaultsIn faults)
    (ht : ∀ e ∈ faults, e.text ∈ texts) (hf : ∀ b, d = .ok b → FailsIn texts (f b)) : FailsIn texts (ofDecode d >>= f) := by
  cases d with
  | ok b => exact hf b rfl
  | error e =>
    have he := ht e (hd e rfl)
    cases e with
    | exn w => exact fun s v hv => by cases hv; exact he
    | abort w => exact fun s v hv => by cases hv; exact he

theorem answers {field : Answers → List α} {rest : Answers → List α → Answers} {success : α} :
    FailsIn texts (answer field rest success) := nofun

theorem sets (r : Ref) (f : Job → Job) : FailsIn texts (setJob r f) := .modify _

theorem visits (keys : List String) : FailsIn texts (visiting keys) := .bind answers fun _ => .returns _

theorem passTime : FailsIn texts passTime := .bind answers fun _ => .modify _

theorem currentTime : FailsIn texts currentTime := .bind passTime fun _ => .gets _

/-- A machine whose guards and actions fail so. -/
theorem fsm {State Trigger : Type} [DecidableEq State] [DecidableEq Trigger] {setState : State → M Unit} {trigger : Trigger}
    {state : M State} {transitions : List (Fsm.Trans Sys State Trigger)} (hset : ∀ state, FailsIn texts (setState state))
    (hstate : FailsIn texts state)
    (h : ∀ t ∈ transitions, t.trigger = trigger → FailsIn texts t.guard ∧ FailsIn texts t.action) :
    FailsIn texts (Fsm.execute setState trigger state transitions) :=
  Fsm.execute_keeps (P := fun _ => FailsIn texts) ⟨.returns, .bind⟩ hset hstate h

/-! ## Timers and processes -/

section Jobs

open Job (failures)

theorem addTimer (milliseconds : Int) (r : Ref) (kind : TimerKind) : FailsIn failures (addTimer milliseconds r kind) := by
  have hcreate : FailsIn failures timerfdCreate := .bind answers fun a => by
    cases a with
    | noFd => exact .throws (by decide)
    | noWatch | watched => exact .gets _
  have hmonitor : ∀ timerId, FailsIn failures (monitorTimer timerId milliseconds) := fun timerId =>
    .bind hcreate fun _ => .bind (.modify _) fun _ => .bind (.modify _) fun _ =>
      .branches _ (.throws (by decide)) <| .bind (.modify _) fun _ =>
        .branches _ (.bind (.modify _) fun _ => .modify _) (.throws (by decide))
  exact .bind (.bind .get fun _ => .bind (.modify _) fun _ => .returns _) fun _ => .bind (hmonitor _) fun _ =>
    .bind (.modify _) fun _ => .returns _

theorem deleteTimer (timerId : Nat) : FailsIn failures (deleteTimer timerId) :=
  .bind (.bind .get fun s => by
    split
    · exact .throws (by decide)
    · exact .bind (.modify _) fun _ => .bind (.modify _) fun _ => .branches _ (.returns _) (.throws (by decide)))
    fun _ => .modify _

theorem addProcess (pid : Int) (r : Ref) : FailsIn failures (addProcess pid r) :=
  .bind answers fun _ => .branches _ (.modify _) (.throws (by decide))

/-! ## Jobs -/

theorem reads (r : Ref) : FailsIn failures (this r) := derefs (by decide) r

theorem isDisabled (r : Ref) : FailsIn failures (Job.isDisabled r) :=
  .bind (reads r) fun _ => .bind .get fun _ => decodes (disabledIn_faults _) (by decide)

theorem lookUpUser (r : Ref) : FailsIn failures (Job.lookUpUser r) :=
  .bind (reads r) fun _ => .bind .get fun _ => by
    split
    · exact .returns _
    · refine .branches _ (.crashes (by decide)) ?_
      split
      · exact .returns _
      · exact .branches _ (.crashes (by decide)) (.returns _)

theorem run (r : Ref) : FailsIn failures (Job.run r) :=
  .bind (lookUpUser r) fun _ => .bind answers fun a => by
    cases a with
    | noPipe => exact .throws (by decide)
    | noFork => exact .bind (sets r _) fun _ => .returns _
    | noExec =>
      exact .bind passTime fun _ => .bind (.gets _) fun _ => .bind (.modify _) fun _ => .bind (sets r _) fun _ =>
        .bind currentTime fun _ => .bind (sets r _) fun _ => .returns _
    | started =>
      exact .bind passTime fun _ => .bind (.gets _) fun _ => .bind (.modify _) fun _ => .bind (sets r _) fun _ =>
        .bind currentTime fun _ => .bind (sets r _) fun _ => .returns _

theorem startJob (r : Ref) : FailsIn failures (Job.startJob r) :=
  .bind (.modify _) fun _ => .bind currentTime fun _ => .bind (sets r _) fun _ => .bind (run r) fun _ =>
    .branches _ (.bind (reads r) fun _ => addProcess _ _) (.returns _)

theorem elapsed (r : Ref) : FailsIn failures (Job.elapsed r) :=
  .bind currentTime fun _ => .bind (reads r) fun _ => by
    split
    · exact .returns _
    · exact .crashes (by decide)

theorem shouldThrottle (r : Ref) : FailsIn failures (Job.shouldThrottle r) :=
  .bind (elapsed r) fun _ => .bind (reads r) fun _ => .returns _

theorem startAfterThrottleInterval (r : Ref) : FailsIn failures (Job.startAfterThrottleInterval r) :=
  .bind (elapsed r) fun _ => .bind (reads r) fun _ => .bind (addTimer _ _ _) fun _ => sets r _

theorem schedulePeriodicJob (r : Ref) : FailsIn failures (Job.schedulePeriodicJob r) :=
  .bind (reads r) fun _ => .branches _ (.crashes (by decide)) <| by
    split
    · exact .throws (by decide)
    · exact .bind (addTimer _ _ _) fun _ => sets r _

theorem cancelTimerIfSet (r : Ref) : FailsIn failures (Job.cancelTimerIfSet r) :=
  .bind (reads r) fun _ => .branches _ (.bind (reads r) fun _ => by
    split
    · exact .throws (by decide)
    · exact .bind (deleteTimer _) fun _ => sets r _) (.returns _)

theorem killJob (r : Ref) (sig : Int) : FailsIn failures (Job.killJob r sig) :=
  .bind (reads r) fun _ => .branches _ (.returns _) <| .bind (.modify _) fun _ => answers

theorem terminate (r : Ref) : FailsIn failures (Job.terminate r) := .bind (killJob r _) fun _ => sets r _

theorem killProcessGroup (r : Ref) : FailsIn failures (Job.killProcessGroup r) :=
  .bind (reads r) fun _ => .branches _ (.returns _) <| .branches _ (.returns _) <| .bind (.modify _) fun _ =>
    .bind (.modify _) fun _ => .returns _

theorem submitDelete (r : Ref) : FailsIn failures (Job.submitDelete r) := .bind (reads r) fun _ => .modify _

theorem transitions {execute : Job.Triggers → M Unit} (he : ∀ trigger, FailsIn failures (execute trigger)) (r : Ref) :
    ∀ t ∈ Job.transitions execute r, FailsIn failures t.guard ∧ FailsIn failures t.action := by
  have hflag : FailsIn failures (do return !(← this r).unloadRequested) := .bind (reads r) fun _ => .returns _
  simp only [Job.transitions, List.forall_mem_cons]
  refine ⟨⟨?_, he _⟩, ⟨?_, schedulePeriodicJob r⟩, ⟨.returns _, startJob r⟩, ⟨.returns _, submitDelete r⟩,
    ⟨.returns _, .bind (cancelTimerIfSet r) fun _ => startJob r⟩,
    ⟨.returns _, .bind (cancelTimerIfSet r) fun _ => submitDelete r⟩, ⟨.bind (reads r) fun _ => .returns _, .returns _⟩,
    ⟨?_, startJob r⟩, ⟨.returns _, terminate r⟩, ⟨?_, startAfterThrottleInterval r⟩,
    ⟨.bind (reads r) fun _ => .returns _, submitDelete r⟩, ⟨.returns _, submitDelete r⟩, nofun⟩
  · exact .bind (isDisabled r) fun _ => .branches _ (.returns _) <| .bind (reads r) fun _ => .bind (reads r) fun _ => .returns _
  · exact .bind (isDisabled r) fun _ => .branches _ (.returns _) <| .bind (reads r) fun _ => .bind (reads r) fun _ => .returns _
  · exact .bind (reads r) fun _ => .branches _ (.returns _) <| .bind (shouldThrottle r) fun _ =>
      .branches _ (.returns _) hflag
  · exact .bind (reads r) fun _ => .branches _ (.returns _) <| .bind (shouldThrottle r) fun _ =>
      .branches _ (.returns _) hflag

theorem executeNested (depth : Nat) (r : Ref) (trigger : Job.Triggers) :
    FailsIn failures (Job.executeNested depth r trigger) := by
  induction depth generalizing trigger with
  | zero => exact .crashes (by decide)
  | succ depth ih =>
    exact .bind (fsm (fun _ => sets r _) (.bind (reads r) fun _ => .returns _) fun t ht _ => transitions ih r t ht) fun _ =>
      .returns _

theorem processCallback (r : Ref) (status : WaitStatus) (child : Nat) :
    FailsIn failures (Job.processCallback r status child) :=
  .bind (reads r) fun _ => .bind (.modify _) fun _ =>
    .bind (.bind (sets r _) fun _ => .bind (sets r _) fun _ => .bind (killProcessGroup r) fun _ => .returns _) fun _ =>
      executeNested 2 r _

theorem timerCallback (r : Ref) (kind : TimerKind) : FailsIn failures (Job.timerCallback r kind) := by
  cases kind with
  | throttle => exact .bind (reads r) fun _ => .bind (sets r _) fun _ => executeNested 2 r _
  | periodic => exact .bind (reads r) fun _ => .bind (sets r _) fun _ => startJob r

theorem unloadJob (r : Ref) (force : Bool) : FailsIn failures (Job.unloadJob r force) :=
  .bind (reads r) fun _ => .branches _ (.returns _) <| .branches _ (.returns _) <| .bind (sets r _) fun _ =>
    .bind (isDisabled r) fun _ => .branches _ (.returns _) <| .bind (executeNested 2 r _) fun _ =>
      .bind (executeNested 2 r _) fun _ => .returns _

theorem forceUnloadJob (r : Ref) : FailsIn failures (Job.forceUnloadJob r) := .noexcepts <| .bind (reads r) fun _ => by
  dsimp only
  have hrest : FailsIn failures (do
      Job.cancelTimerIfSet r
      setJob r fun j => { j with state := .unloaded }) := .bind (cancelTimerIfSet r) fun _ => sets r _
  exact .branches _ (.bind (.modify _) fun _ => .bind answers fun _ => .bind (.modify _) fun _ =>
    .bind (killProcessGroup r) fun _ => .bind (.modify _) fun _ => .bind (sets r _) fun _ => hrest) hrest

end Jobs

/-! ## The manager -/

section Manager

open Manager (failures)

/-- An operation of a job. -/
theorem job {x : M α} (h : FailsIn Job.failures x) : FailsIn failures x := h.mono (by decide)

theorem manages {d : Decode α} (h : d.FaultsIn Manifest.faults) : FailsIn failures (ofDecode d) := decodes h (by decide)

theorem constReads {d : Decode α} (h : d.FaultsIn Json.constFaults) : FailsIn failures (ofDecode d) := decodes h (by decide)

theorem checks {d : Decode α} (h : d.FaultsIn Json.exceptions) : FailsIn failures (ofDecode d) := decodes h (by decide)

theorem overrideJobEnabled (label : String) (enabled : Bool) : FailsIn failures (Manager.overrideJobEnabled label enabled) :=
  .bind .get fun _ => .bind (checks overridden_faults) fun _ =>
    .bind (.bind answers fun _ => .branches _ (.modify _) (.throws (by decide))) fun _ => .modify _

theorem labelString (label : String) : FailsIn failures (ofDecode (Label.string label)) := by
  refine manages fun e he => ?_
  unfold Label.string at he
  split at he
  · cases he
    decide
  · cases he

theorem jobExists (label : String) : FailsIn failures (Manager.jobExists label) :=
  .bind (labelString label) fun _ => .gets _

theorem getJob (label : String) : FailsIn failures (Manager.getJob label) :=
  .bind .get fun _ => by
    split
    · exact .returns _
    · exact .throws (by decide)

theorem parse (path : String) : FailsIn failures (Manifest.parse path) :=
  .branches _ (.bind .get fun _ => by
    split
    · exact .returns _
    · exact .throws (by decide)) (.throws (by decide))

theorem loadManifestDoc (doc : Json) (path : String) (overrideDisabled forceLoad : Bool) :
    FailsIn failures (Manager.loadManifestDoc doc path overrideDisabled forceLoad) := by
  refine .bind .get fun _ => .branches _ (.returns _) ?_
  split
  · exact .returns _
  · rename_i why hm
    rw [Manifest.fromJson_abort hm]
    exact .crashes (by decide)
  · refine .bind (.gets _) fun _ => .branches _ (.returns _) ?_
    dsimp only
    have hrest : ∀ manifest : Manifest, FailsIn failures
        (if manifest.disabled && !forceLoad then pure false
          else do
            let disabled ← ofDecode (Manager.overrideDisables manifest.label (← get).stateFile)
            if disabled && !forceLoad then pure false
            else do
              Manager.addPending manifest path
              pure true : M Bool) := fun manifest =>
      .branches _ (.returns _) <| .bind .get fun _ => .bind (checks overrideDisables_faults) fun _ =>
        .branches _ (.returns _) <| .bind (.modify _) fun _ => .returns _
    split
    · exact .bind (overrideJobEnabled _ _) fun _ => hrest _
    · exact hrest _

theorem loadOne (path : String) (overrideDisabled forceLoad : Bool) :
    FailsIn failures (Manager.loadOne path overrideDisabled forceLoad) :=
  .catches (.bind (.bind (parse _) fun _ => loadManifestDoc _ _ _ _) fun _ => .returns _) fun _ => .returns _

theorem loadAllManifests (path : String) (overrideDisabled forceLoad : Bool) :
    FailsIn failures (Manager.loadAllManifests path overrideDisabled forceLoad) := by
  have heach : ∀ error entries, FailsIn failures (Manager.loadEach overrideDisabled forceLoad error entries) := by
    intro error entries
    induction entries generalizing error with
    | nil => exact .returns _
    | cons file rest ih => exact .bind (loadOne _ _ _) fun _ => ih _
  refine .bind .get fun _ => .branches _ (.returns _) <| .bind .get fun _ => ?_
  split
  · exact .returns _
  · exact heach _ _
  · exact loadOne _ _ _

theorem unloadLabel (label : String) (overrideDisabled forceUnload : Bool) :
    FailsIn failures (Manager.unloadJob label overrideDisabled forceUnload) := by
  refine .bind (jobExists _) fun _ => .branches _ (.returns _) <| .bind (getJob _) fun r => ?_
  refine .bind (job (reads r)) fun _ => .bind .get fun _ => ?_
  split
  · dsimp only
    split
    · exact .bind (overrideJobEnabled _ _) fun _ => job (unloadJob _ _)
    · exact job (unloadJob _ _)
  · exact .returns _

theorem unloadJobAt (path : String) (overrideDisabled forceUnload : Bool) :
    FailsIn failures (Manager.unloadJobAt path overrideDisabled forceUnload) := by
  refine .bind (.catches (.bind (parse _) fun _ => .returns _) fun _ => .returns _) fun _ => ?_
  split
  · exact .returns _
  · refine .branches _ ?_ (.returns _)
    exact .bind (checks ((Json.atKey_faults _ _).bind fun _ => Json.getString_faults _)) fun _ =>
      .bind (manages (Manifest.make_faults _)) fun _ => unloadLabel _ _ _

theorem unloadAllJobs : FailsIn Job.failures Manager.unloadAllJobs := by
  refine .noexcepts <| .bind .get fun _ => .bind (visits _) fun order => .loops order fun label => .bind .get fun _ => ?_
  split
  · exact .returns _
  · exact .bind (reads _) fun _ =>
      .branches _ (.catches (.bind (unloadJob _ _) fun _ => .returns _) fun _ => .returns _) (.returns _)

theorem forceUnloadAllJobs : FailsIn Job.failures Manager.forceUnloadAllJobs := by
  refine .noexcepts <| .bind .get fun _ => .bind (visits _) fun order => .bind (.loops order fun label => ?_) fun _ =>
    .modify _
  refine .bind .get fun _ => ?_
  split
  · exact .returns _
  · exact forceUnloadJob _

/-- A trigger other than a start. -/
theorem execute {trigger : Manager.Triggers} (loadPaths : List String) (h : trigger ≠ .startRequested) :
    FailsIn failures (Manager.execute loadPaths trigger) := by
  refine .bind (fsm (fun _ => .modify _) (.gets _) ?_) fun _ => .returns _
  simp only [Manager.transitions, List.forall_mem_cons]
  exact ⟨fun _ => ⟨.returns _, .returns _⟩, fun e => absurd e.symm h, fun e => absurd e.symm h,
    fun _ => ⟨.returns _, .bind (.modify _) fun _ => job unloadAllJobs⟩, fun _ => ⟨.returns _, .returns _⟩,
    fun _ => ⟨.returns _, .returns _⟩, nofun⟩

theorem signalCallback (sig : Signal) : FailsIn failures (Manager.signalCallback sig) := by
  have hshut : FailsIn failures Manager.handleShutdownSignal := .bind .get fun _ => by
    split
    · exact execute _ nofun
    · exact .bind (job forceUnloadAllJobs) fun _ => execute _ nofun
    · exact execute _ nofun
    · exact .returns _
  cases sig with
  | sigchld => exact .throws (by decide)
  | sigpipe => exact .returns _
  | sigint | sigusr1 | sigusr2 | sigterm => exact .bind (.modify _) fun _ => hshut

/-! ## Requests -/

theorem argument_faults (args : Json) (key : String) : FaultsIn Json.constFaults (Rpc.argument args key) :=
  (Json.index_faults _ _).bind fun _ => Json.key_faults _ _

theorem argument (args : Json) (key : String) : FailsIn failures (ofDecode (Rpc.argument args key)) :=
  constReads (argument_faults _ _)

theorem stringArgument (args : Json) (key : String) :
    FailsIn failures (ofDecode (Rpc.argument args key >>= Json.getString)) :=
  constReads ((argument_faults _ _).bind fun j => (Json.getString_faults j).mono (by decide))

theorem boolArgument (args : Json) (key : String) : FailsIn failures (ofDecode (Rpc.argument args key >>= Json.getBool)) :=
  constReads ((argument_faults _ _).bind fun j => (Json.getBool_faults j).mono (by decide))

theorem labelArgument (args : Json) : FailsIn failures (ofDecode (Rpc.labelArgument args)) := by
  have hfaults : FaultsIn (Manifest.faults ++ Json.constFaults) (Rpc.labelArgument args) :=
    ((argument_faults _ _).mono (by decide)).bind fun j => ((Json.getString_faults j).mono (by decide)).bind fun s =>
      (Manifest.make_faults s).mono (by decide)
  exact decodes hfaults (by decide)

theorem loadPaths (overrideDisabled forceLoad error : Bool) (paths : List Json) :
    FailsIn failures (Rpc.loadPaths overrideDisabled forceLoad error paths) := by
  induction paths generalizing error with
  | nil => exact .returns _
  | cons path rest ih =>
    exact .bind (checks (Json.getString_faults _)) fun _ => .bind (loadAllManifests _ _ _) fun _ => ih _

theorem unloadPaths (overrideDisabled forceUnload isError : Bool) (paths : List Json) :
    FailsIn failures (Rpc.unloadPaths overrideDisabled forceUnload isError paths) := by
  have hentries : ∀ entries, FailsIn failures (Rpc.unloadEntries overrideDisabled forceUnload entries) := by
    intro entries
    induction entries with
    | nil => exact .returns _
    | cons file rest ih => exact .bind (unloadJobAt _ _ _) fun _ => .branches _ ih (.returns _)
  induction paths generalizing isError with
  | nil => exact .returns _
  | cons path rest ih =>
    refine .bind (checks (Json.getString_faults _)) fun _ => .bind .get fun _ => ?_
    split
    · exact .returns _
    · exact .bind (hentries _) fun _ => ih _
    · exact .bind (unloadJobAt _ _ _) fun _ => .branches _ (ih _) (.returns _)

theorem listRows (rows : List Json) (labels : List String) : FailsIn failures (Manager.listRows rows labels) := by
  induction labels generalizing rows with
  | nil => exact .returns _
  | cons label rest ih =>
    refine .bind (.bind .get fun _ => ?_) fun _ => ih _
    split
    · exact .returns _
    · exact .bind (job (reads _)) fun _ => .bind (labelString _) fun _ => .returns _

theorem killLabel (label signal : String) : FailsIn failures (Manager.killJob label signal) := by
  unfold Manager.killJob
  split
  · exact .returns _
  · exact .bind (jobExists _) fun _ => .branches _ (.returns _) <| .bind (getJob _) fun _ => job (killJob _ _)

/-- The handlers that boot no jobs. -/
theorem handlers : ∀ h ∈ Rpc.handlers, h.1 ≠ "load" → h.1 ≠ "submit" → ∀ args, FailsIn failures (h.2 args) := by
  simp only [Rpc.handlers, List.forall_mem_cons]
  refine ⟨fun _ _ args => ?_, fun _ _ args => ?_, fun _ _ args => ?_, fun _ _ args => ?_, fun h _ args => absurd rfl h,
    fun _ _ args => ?_, fun _ h args => absurd rfl h, fun _ _ args => ?_, fun _ _ args => .returns _, nofun⟩
  · exact .bind (labelArgument _) fun _ => .bind (overrideJobEnabled _ _) fun _ => .returns _
  · exact .bind (labelArgument _) fun _ => .bind (overrideJobEnabled _ _) fun _ => .returns _
  · exact .bind (labelArgument _) fun _ => .bind (stringArgument _ _) fun _ => .bind (killLabel _ _) fun _ => .returns _
  · exact .bind .get fun _ => .bind (visits _) fun _ => .bind (listRows _ _) fun _ => .returns _
  · exact .bind (labelArgument _) fun _ => .bind (unloadLabel _ _ _) fun _ => .returns _
  · exact .bind (boolArgument _ _) fun _ => .bind (boolArgument _ _) fun _ => .bind (argument _ _) fun _ =>
      .bind (unloadPaths _ _ _ _) fun _ => .returns _

/-! ## Events -/

theorem nextEvent (wakeup : Wakeup) : FailsIn failures (EventManager.nextEvent wakeup) := by
  have hpending : FailsIn failures getPendingEvent := .bind .get fun _ => by
    split
    · exact .returns _
    · exact .bind (.modify _) fun _ => .returns _
  refine .bind hpending fun _ => ?_
  split
  · exact .returns _
  · cases wakeup with
    | interrupted => exact .throws (by decide)
    | nothing => exact .returns _
    | signal signals children =>
      exact .bind (.bind .get fun _ => .bind (.modify _) fun _ => .bind (.modify _) fun _ =>
        .branches _ (.bind .get fun _ => .modify _) (.returns _)) fun _ => hpending
    | socket message => exact .bind .get fun _ => .branches _ (.returns _) (.returns _)
    | timer fd =>
      refine .bind .get fun _ => ?_
      split
      · refine .bind .get fun _ => .branches _ (.returns _) <| .bind (.modify _) fun _ => .bind .get fun _ => ?_
        split
        · exact .returns _
        · exact .throws (by decide)
      · exact .returns _

theorem writeMessage (reply : Json) : FailsIn failures (Rpc.writeMessage reply) :=
  .bind answers fun _ => .branches _ (.modify _) (.throws (by decide))

/-- An event that boots no jobs. -/
theorem dispatch {event : Event} (h : ∀ message, event = .socket (some message) → ¬ Rpc.Boots message) :
    FailsIn failures (EventManager.dispatch event) := by
  cases event with
  | ipc method arg => exact .branches _ (.modify _) (.throws (by decide))
  | signal sig => exact signalCallback sig
  | proc pid status child =>
    refine .bind .get fun _ => ?_
    split
    · exact .throws (by decide)
    · exact .bind (job (processCallback _ _ _)) fun _ => .modify _
  | timer id =>
    refine .bind .get fun _ => ?_
    split
    · exact .throws (by decide)
    · exact job (timerCallback _ _)
  | socket message =>
    refine .catches ?_ fun _ => .returns _
    cases message with
    | none => exact .throws (by decide)
    | some message =>
      dsimp only
      refine decodesThen (Rpc.handlerFor_faults message) (by decide) fun handler hh => ?_
      obtain ⟨method, hmem, hmethod⟩ := Rpc.of_handler hh
      have hhandler : FailsIn failures (handler message) := handlers (method, handler) hmem
        (fun e => h message rfl ⟨method, hmethod, .inl e⟩) (fun e => h message rfl ⟨method, hmethod, .inr e⟩) message
      exact .bind (.catches hhandler fun _ => .returns _) fun _ => writeMessage _

end Manager

end Fails

end Relaunchd
