/-
  Relaunchd.EventManager — the event manager on its epoll backend (`src/event.h`), and the
  system calls it and the jobs make.

  The kernel picks a new process's pid and a new descriptor's number. An answer may ask for
  one; the kernel grants it when it is free (no unreaped process has the pid, the descriptor
  is closed), and picks a free one itself otherwise.
-/

import Relaunchd.System

namespace Relaunchd

open Prog

/-! ## Answers -/

/-- The answer to one system call: the next of its list. An empty list means success. -/
def answer (field : Answers → List α) (rest : Answers → List α → Answers) (success : α) : M α := fun s =>
  .ok ((field s.kernel.answers).headD success)
    (s.updateKernel fun k => { k with answers := rest k.answers (field k.answers).tail })

@[simp] theorem wp_answer {field : Answers → List α} {rest : Answers → List α → Answers} {success : α} {s : Sys}
    {Q : α → Sys → Prop} {E : Sys → Prop} :
    wp (answer field rest success) Q E s = Q ((field s.kernel.answers).headD success)
      (s.updateKernel fun k => { k with answers := rest k.answers (field k.answers).tail }) := rfl

def nextTick : M Nat := answer (·.ticks) (fun a l => { a with ticks := l }) 0
def nextFork : M ForkAnswer := answer (·.forks) (fun a l => { a with forks := l }) (.started 0 true)
def nextProbe : M Bool := answer (·.probes) (fun a l => { a with probes := l }) true
def nextTimer : M TimerAnswer := answer (·.timers) (fun a l => { a with timers := l }) (.watched 0)
def nextKill : M Bool := answer (·.kills) (fun a l => { a with kills := l }) true
def nextRename : M Bool := answer (·.renames) (fun a l => { a with renames := l }) true
def nextWrite : M Bool := answer (·.writes) (fun a l => { a with writes := l }) true
def nextOrder : M (List String) := answer (·.orders) (fun a l => { a with orders := l }) []

def visiting (keys : List String) : M (List String) := do
  let order ← nextOrder
  return if order.isPerm keys then order else keys

/-! ## The clock (`src/clock.h`) -/

def passTime : M Unit := do
  let tick ← nextTick
  modify (·.updateKernel fun k => { k with now := k.now + tick })

def currentTime : M Nat := do
  passTime
  gets fun s => s.kernel.now / 1000

/-- What the clock shows at the `n`-th step from now on that takes time, in milliseconds. -/
def Sys.clock (s : Sys) (n : Nat) : Nat := s.kernel.now + (s.kernel.answers.ticks.take n).sum

def Sys.ticked (s : Sys) : Sys := s.updateKernel fun k =>
  { k with answers := { k.answers with ticks := k.answers.ticks.tail }, now := k.now + k.answers.ticks.headD 0 }

@[simp] theorem Sys.updateJob_clock (s : Sys) (r : Ref) (f : Job → Job) : (s.updateJob r f).clock = s.clock := rfl

@[simp] theorem Sys.ticked_clock (s : Sys) (n : Nat) : s.ticked.clock n = s.clock (n + 1) := by
  simp only [Sys.clock, Sys.ticked, Sys.updateKernel_kernel]
  cases s.kernel.answers.ticks <;> simp [Nat.add_assoc]

theorem Sys.clock_zero (s : Sys) : s.clock 0 = s.kernel.now := by simp [Sys.clock]

theorem Sys.clock_one (s : Sys) : s.clock 1 = s.ticked.kernel.now := by
  simp only [Sys.clock, Sys.ticked, Sys.updateKernel_kernel]
  cases s.kernel.answers.ticks <;> simp

theorem Sys.clock_mono (s : Sys) : Monotone s.clock := by
  refine monotone_nat_of_le_succ fun n => ?_
  unfold Sys.clock
  rw [List.take_add_one, List.sum_append]
  omega

@[simp] theorem wp_passTime {s : Sys} {Q : Unit → Sys → Prop} {E : Sys → Prop} : wp passTime Q E s = Q () s.ticked := by
  simp only [passTime, nextTick, wp_bind, wp_answer, wp_modify, Sys.ticked, Sys.updateKernel]

@[simp] theorem wp_currentTime {s : Sys} {Q : Nat → Sys → Prop} {E : Sys → Prop} :
    wp currentTime Q E s = Q (s.clock 1 / 1000) s.ticked := by
  rw [currentTime, wp_bind, wp_passTime, wp_gets, Sys.clock_one]

/-! ## Processes -/

def PidFree (procs : List Proc) (pid : Int) : Prop := 0 < pid ∧ ∀ p ∈ procs, p.held → p.pid ≠ pid

/-- A child that runs its program. -/
def Proc.forked (pid : Int) (job : Ref) (forkedAt : Nat) (stale : Bool) : Proc :=
  { pid, job, execed := true, state := .running, forkedAt, stale }

/-- A child that did not get to its program: the parent has killed and reaped it. -/
def Proc.failed (pid : Int) (job : Ref) (forkedAt : Nat) : Proc := { pid, job, execed := false, state := .reaped, forkedAt }

namespace Kernel

variable (k : Kernel)

def freePid (want : Int) : Int :=
  if 0 < want && k.procs.all (fun p => !p.held || p.pid != want) then want
  else k.procs.foldl (fun m p => max m p.pid) 1 + 1

theorem foldl_max_le (procs : List Proc) (m : Int) :
    m ≤ procs.foldl (fun m p => max m p.pid) m ∧ ∀ p ∈ procs, p.pid ≤ procs.foldl (fun m p => max m p.pid) m := by
  induction procs generalizing m with
  | nil => simp
  | cons q procs ih =>
    obtain ⟨h1, h2⟩ := ih (max m q.pid)
    refine ⟨le_trans (le_max_left _ _) h1, fun p hp => ?_⟩
    rcases List.mem_cons.mp hp with rfl | hp
    · exact le_trans (le_max_right _ _) h1
    · exact h2 p hp

theorem freePid_free (want : Int) : PidFree k.procs (k.freePid want) := by
  unfold freePid
  split
  · rename_i h
    simp only [Bool.and_eq_true, decide_eq_true_eq, List.all_eq_true, Bool.or_eq_true, Bool.not_eq_true',
      bne_iff_ne] at h
    exact ⟨h.1, fun p hp hh => (h.2 p hp).resolve_left (by simp [hh])⟩
  · obtain ⟨h1, h2⟩ := foldl_max_le k.procs 1
    exact ⟨by omega, fun p hp _ => by have := h2 p hp; omega⟩

/-- A standard signal does not queue: it is pending or it is not. -/
def raise (sig : Signal) : Kernel :=
  if sig ∈ k.signals then k else { k with signals := k.signals ++ [sig] }

def fork (pid : Int) (job : Ref) (stale : Bool) : Kernel :=
  { k with procs := k.procs ++ [.forked pid job k.now stale] }

/-- A SIGCHLD for a child that is reaped already changes nothing, and is left out. -/
def forkFailed (pid : Int) (job : Ref) : Kernel := { k with procs := k.procs ++ [.failed pid job k.now] }

/-- `waitpid(2)` takes the processes for which `which` holds. -/
def reap (which : Proc → Bool) : Kernel :=
  { k with procs := k.procs.map fun p => if which p then { p with state := .reaped } else p }

def holder (procs : List Proc) (pid : Int) : Option Nat := procs.findIdx? fun p => p.pid == pid && p.held

/-- Ghost: the callback of a job is handed the exit of a child. -/
def dispatch (child : Nat) (job : Ref) : Kernel :=
  { k with procs := k.procs.modify child fun p => { p with dispatched := p.dispatched ++ [job] } }

end Kernel

/-! ## Timers -/

/-- `sigfd`, `socket_read_fd` and `timer_epfd`, as the constructor opens them after `epfd`. -/
def sigfd : Fd := 4
def socketReadFd : Fd := 5
def timerEpfd : Fd := 6

/-- What the constructor put on the interest list of `epfd`. -/
def epfdInterest : List Fd := [sigfd, socketReadFd, timerEpfd]

def Kernel.freeFd (k : Kernel) (want : Fd) : Fd :=
  if timerEpfd < want && (k.timerfds.lookup want).isNone then want
  else k.timerfds.keys.foldl max timerEpfd + 1

/-- The `timespec` that `monitorTimer` makes of its `uint64_t` argument: both fields pass
    through an `int`. -/
def timespecOf (milliseconds : Int) : Int × Int :=
  let ms := milliseconds % 2 ^ 64
  ((ms / 1000).bmod (2 ^ 32), ms % 1000 * 1000000)

namespace EventManager

/-- `insert` into a table: an entry that is there stays as it is. -/
def insertNew {β : Type} [DecidableEq α] (key : α) (value : β) (table : AList fun _ : α => β) :
    AList fun _ : α => β :=
  if key ∈ table then table else table.insert key value

theorem lookup_insertNew {α β : Type} [DecidableEq α] (k : α) (v : β) (m : AList fun _ : α => β) (a : α) :
    (insertNew k v m).lookup a = if a = k then some ((m.lookup k).getD v) else m.lookup a := by
  unfold insertNew
  by_cases e : a = k
  · subst e
    rw [if_pos rfl]
    split
    · rename_i hm
      obtain ⟨b, hb⟩ := Option.isSome_iff_exists.mp (AList.lookup_isSome.mpr hm)
      rw [hb]; rfl
    · rename_i hm
      rw [AList.lookup_insert, AList.lookup_eq_none.mpr hm]; rfl
  · rw [if_neg e]
    split
    · rfl
    · exact AList.lookup_insert_ne e

theorem lookup_insertNew_some {α β : Type} [DecidableEq α] {k : α} {v : β} {m : AList fun _ : α => β} {a : α} {b : β}
    (h : m.lookup a = some b) : (insertNew k v m).lookup a = some b := by
  rw [lookup_insertNew]
  split
  · rename_i e; subst e; rw [h]; rfl
  · exact h

/-- `timerfd_create(2)`: a descriptor, and whether `epoll_ctl(2)` is going to take it. -/
def timerfdCreate : M (Fd × Bool) := do
  match ← nextTimer with
  | .noFd => throw "timerfd_create"
  | .noWatch want => gets fun s => (s.kernel.freeFd want, false)
  | .watched want => gets fun s => (s.kernel.freeFd want, true)

/-- The state `timerfd_settime(2)` leaves a timer in: a zero `timespec` does not arm it. -/
def timerfdSettime (now : Nat) (spec : Int × Int) : TimerState :=
  if spec = (0, 0) then .disarmed else .armed (now + spec.1.toNat * 1000 + spec.2.toNat / 1000000)

def setTimerfd (tfd : Fd) (watched : Bool) (state : Kernel → TimerState) : M Unit :=
  modify (·.updateKernel fun k => { k with timerfds := k.timerfds.insert tfd { state := state k, watched } })

/-- `EpollImplementation::monitorTimer` -/
def monitorTimer (timerId : Nat) (milliseconds : Int) : M Unit := do
  let (tfd, watched) ← timerfdCreate
  setTimerfd tfd false fun _ => .disarmed
  modify (·.updateEventmgr fun m => { m with cleanupFds := insert tfd m.cleanupFds })
  if (timespecOf milliseconds).1 < 0 then throw "timerfd_settime"
  else do
    setTimerfd tfd false fun k => timerfdSettime k.now (timespecOf milliseconds)
    if watched then do
      setTimerfd tfd true fun k => timerfdSettime k.now (timespecOf milliseconds)
      modify (·.updateEventmgr fun m => { m with timerfdMap := insertNew timerId tfd m.timerfdMap })
    else throw "epoll_ctl"

/-- `EpollImplementation::ignoreTimer`. The descriptor goes to `epoll_ctl` on `epfd`, whose
    interest list never has it. -/
def ignoreTimer (timerId : Nat) : M Unit := do
  match (← get).eventmgr.timerfdMap.lookup timerId with
  | none => throw "out_of_range"
  | some tfd => do
    modify (·.updateKernel fun k => { k with timerfds := k.timerfds.erase tfd })
    modify (·.updateEventmgr fun m =>
      { m with timerfdMap := m.timerfdMap.erase timerId, cleanupFds := m.cleanupFds.erase tfd })
    if tfd ∈ epfdInterest then pure () else throw "epoll_ctl"

/-- The loop of `getNextTimerId`, which can go round once for each entry of the table. -/
def nextTimerIdFrom (used : Nat → Bool) : Nat → Nat → Nat
  | 0, max => max + 1
  | fuel + 1, max => if used (max + 1) then nextTimerIdFrom used fuel (max + 2) else max + 1

def getNextTimerId : M Nat := do
  let m := (← get).eventmgr
  let id := nextTimerIdFrom (fun id => (m.timerCallbacks.lookup id).isSome) m.timerCallbacks.keys.length m.timerIdMax
  modify (·.updateEventmgr fun m => { m with timerIdMax := id })
  return id

def addTimer (milliseconds : Int) (job : Ref) (callback : TimerKind) : M Nat := do
  let timerId ← getNextTimerId
  monitorTimer timerId milliseconds
  modify (·.updateEventmgr fun m => { m with timerCallbacks := insertNew timerId (job, callback) m.timerCallbacks })
  return timerId

def deleteTimer (timerId : Nat) : M Unit := do
  ignoreTimer timerId
  modify (·.updateEventmgr fun m => { m with timerCallbacks := m.timerCallbacks.erase timerId })

/-! ## Child processes -/

/-- `kill(pid, 0)` of a child that is not reaped fails only where launchd may not signal it. -/
def addProcess (pid : Int) (job : Ref) : M Unit := do
  if ← nextProbe then
    modify fun s => s.updateEventmgr fun m => { m with
      watchPids := insert pid m.watchPids
      processCallbacks := insertNew pid job m.processCallbacks
      added := m.added ++ (Kernel.holder s.kernel.procs pid).toList }
  else throw "kill"

def deleteProcess (pid : Int) : M Unit :=
  modify (·.updateEventmgr fun m =>
    { m with watchPids := m.watchPids.erase pid, processCallbacks := m.processCallbacks.erase pid })

def submitIpcCallback (method arg : String) : M Unit :=
  modify (·.updateEventmgr fun m => { m with pendingEvents := m.pendingEvents ++ [.ipc method arg] })

/-! ## Waiting -/

/-- What `epoll_wait(2)` reports. The kernel chooses among what is ready. -/
inductive Wakeup where
  | interrupted
  | nothing
  /-- The signalfd: the order in which the signals are read, and in which `waitpid(-1)` finds
      the children (by their place in `procs`). -/
  | signal (signals : List Signal) (children : List Nat)
  | socket (message : Option Json)
  | timer (fd : Fd)

def zombies (k : Kernel) : List Nat :=
  (List.range k.procs.length).filter fun i => match k.procs[i]? with
    | some { state := .zombie _, .. } => true
    | _ => false

def reapOne (child : Nat) (s : Sys) : Sys :=
  match s.kernel.procs[child]? with
  | some { pid, state := .zombie status, .. } =>
    let s := s.updateKernel fun k => { k with procs := k.procs.modify child fun p => { p with state := .reaped } }
    if pid ∈ s.eventmgr.watchPids then
      s.updateEventmgr fun m =>
        { m with pendingEvents := m.pendingEvents ++ [.proc pid status child], watchPids := m.watchPids.erase pid }
    else s
  | _ => s

def getSignalEvents (signals : List Signal) (children : List Nat) : M Unit := do
  let pending := (← get).kernel.signals
  let signals := if signals.isPerm pending then signals else pending
  modify (·.updateKernel fun k => { k with signals := [] })
  modify (·.updateEventmgr fun m =>
    { m with pendingEvents := m.pendingEvents ++ (signals.filter (· ≠ .sigchld)).map .signal })
  if .sigchld ∈ signals then
    let dead := zombies (← get).kernel
    let children := if children.isPerm dead then children else dead
    modify fun s => children.foldl (fun s child => reapOne child s) s

def getPendingEvent : M (Option Event) := do
  match (← get).eventmgr.pendingEvents with
  | [] => pure none
  | e :: es => do
    modify (·.updateEventmgr fun m => { m with pendingEvents := es })
    pure (some e)

/-- `read(2)` of a timerfd, and the search of `timerfd_map` for the id it belongs to. -/
def readTimer (fd : Fd) : M (Option Event) := do
  match (← get).kernel.timerfds.lookup fd with
  | some { state := .armed deadline, watched := true } =>
    -- not readable before it expires
    if (← get).kernel.now < deadline then pure none
    else do
      modify (·.updateKernel fun k => { k with timerfds := k.timerfds.insert fd { state := .disarmed, watched := true } })
      match (← get).eventmgr.timerfdMap.entries.find? (·.2 == fd) with
      | some ⟨timerId, _⟩ => pure (some (.timer timerId))
      | none => throw "timer FD does not match any known timer IDs"
  | _ => pure none

/-- `EpollImplementation::waitForEvent`. Where the source waits again, this returns nothing:
    the next call takes the next wakeup. -/
def nextEvent (wakeup : Wakeup) : M (Option Event) := do
  match ← getPendingEvent with
  | some e => pure (some e)
  | none => match wakeup with
    | .interrupted => throw "epoll_wait"
    | .nothing => pure none
    | .signal signals children => do
      getSignalEvents signals children
      getPendingEvent
    | .socket message => do
      if (← get).listening then pure (some (.socket message)) else pure none
    | .timer fd => readTimer fd

end EventManager

end Relaunchd
