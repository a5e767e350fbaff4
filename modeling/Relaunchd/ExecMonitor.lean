/-
  Relaunchd.ExecMonitor — the pipe between `Job::run` and the child it forks
  (`src/exec_monitor.h`, `src/job.cc`): two processes, their descriptors, and the bytes in
  the pipe.

  `Relaunchd.Child` has what the child does up to `execve(2)`, and gives the status it ends
  with to the parent. Here both sides take one system call after the other, in any order, and
  the child may be killed at any moment. A status is far smaller than PIPE_BUF, so that
  writing it puts all of it in the pipe, or nothing.
-/

import Relaunchd.Lib.Records
import Relaunchd.Lib.Descriptors
import Relaunchd.Child

namespace Relaunchd

open Prog Descriptors

/-! ## Statuses in memory -/

namespace ExecErrorCode

def all : List ExecErrorCode :=
  [execSuccess, createSessionFailed, setWorkingDirectoryFailed, setRootDirectoryFailed, setPriorityFailed,
   initGroupsFailed, setGroupIdFailed, setLoginFailed, setUserIdFailed, openFailed, readFailed, closeFailed,
   dup2Failed, memoryAllocationFailed, execFailed, forkHandlerFailed]

def toNat (code : ExecErrorCode) : Nat := all.idxOf code

/-- The cases of `getErrorCode`. -/
def name : ExecErrorCode → String
  | execSuccess => "ExecSuccess"
  | createSessionFailed => "CreateSessionFailed"
  | setWorkingDirectoryFailed => "SetWorkingDirectoryFailed"
  | setRootDirectoryFailed => "SetRootDirectoryFailed"
  | setPriorityFailed => "SetPriorityFailed"
  | initGroupsFailed => "InitGroupsFailed"
  | setGroupIdFailed => "SetGroupIdFailed"
  | setLoginFailed => "SetLoginFailed"
  | setUserIdFailed => "SetUserIdFailed"
  | openFailed => "OpenFailed"
  | readFailed => "ReadFailed"
  | closeFailed => "CloseFailed"
  | dup2Failed => "Dup2Failed"
  | memoryAllocationFailed => "MemoryAllocationFailed"
  | execFailed => "ExecFailed"
  | forkHandlerFailed => "ForkHandlerFailed"

theorem all_toNat (code : ExecErrorCode) : all[code.toNat]? = some code := by cases code <;> rfl

theorem toNat_lt (code : ExecErrorCode) : code.toNat < 16 := by cases code <;> decide

theorem toNat_eq_zero {code : ExecErrorCode} : code.toNat = 0 ↔ code = execSuccess := by cases code <;> decide

end ExecErrorCode

def ExecErrorContext.toNat : ExecErrorContext → Nat
  | .childProcess => 0
  | .redirectStdin => 1
  | .redirectStdout => 2
  | .redirectStderr => 3
  | .parentProcess => 4

/-- An `ExecStatus` that was read from the pipe: its enumerations may hold any `int`. -/
structure RawStatus where
  errorCode : Nat
  savedErrno : Nat
  errorContext : Nat
  deriving DecidableEq, Repr

def ExecStatus.raw (status : ExecStatus) : RawStatus where
  errorCode := status.errorCode.toNat
  savedErrno := status.savedErrno % 2 ^ 32
  errorContext := status.errorContext.toNat

namespace RawStatus

def getErrorCode (status : RawStatus) : Except String String :=
  match ExecErrorCode.all[status.errorCode]? with
  | some code => .ok code.name
  | none => .error "Invalid error code"

/-- `toString`; `strerror` is the C library's. -/
def toString (strerror : Nat → String) (status : RawStatus) : Except String String := do
  let s := "[ExecStatus: code=" ++ (← status.getErrorCode) ++ " context=" ++ ToString.toString status.errorContext
  let s := if status.savedErrno ≠ 0 then
    s ++ " errno=" ++ strerror status.savedErrno ++ "(" ++ ToString.toString status.savedErrno ++ ")" else s
  return s ++ "]"

/-- It throws where `getErrorCode` does, so that alone decides what becomes of the parent. -/
theorem toString_isOk (strerror : Nat → String) (status : RawStatus) :
    (status.toString strerror).isOk = status.getErrorCode.isOk := by
  unfold toString
  cases status.getErrorCode with
  | ok code => rfl
  | error w => rfl

def image : Image RawStatus where
  size := 12
  bytes s := LittleEndian.bytes 4 s.errorCode ++ LittleEndian.bytes 4 s.savedErrno ++ LittleEndian.bytes 4 s.errorContext
  value b := ⟨LittleEndian.value (b.take 4), LittleEndian.value ((b.drop 4).take 4), LittleEndian.value (b.drop 8)⟩
  size_pos := by decide
  length_bytes s := by simp

end RawStatus

theorem ExecStatus.raw_faithful (status : ExecStatus) : RawStatus.image.Faithful status.raw := by
  have hcode : status.errorCode.toNat < 256 ^ 4 := lt_trans status.errorCode.toNat_lt (by decide)
  have hctx : status.errorContext.toNat < 256 ^ 4 := by cases status.errorContext <;> decide
  have herr : status.savedErrno % 2 ^ 32 < 256 ^ 4 := Nat.mod_lt _ (by decide)
  simp only [Image.Faithful, RawStatus.image, ExecStatus.raw, List.append_assoc]
  have h4 : ∀ (n : Nat) (rest : Bytes), (LittleEndian.bytes 4 n ++ rest).take 4 = LittleEndian.bytes 4 n := fun n rest =>
    List.take_left' (LittleEndian.length_bytes 4 n)
  have d4 : ∀ (n : Nat) (rest : Bytes), (LittleEndian.bytes 4 n ++ rest).drop 4 = rest := fun n rest =>
    List.drop_left' (LittleEndian.length_bytes 4 n)
  have d8 : ∀ (n m : Nat) (rest : Bytes), (LittleEndian.bytes 4 n ++ (LittleEndian.bytes 4 m ++ rest)).drop 8 = rest :=
    fun n m rest => by
      have h := congrArg (List.drop 4) (d4 n (LittleEndian.bytes 4 m ++ rest))
      rwa [List.drop_drop, d4] at h
  rw [h4, d4, h4, d8, LittleEndian.value_bytes_of_lt hcode, LittleEndian.value_bytes_of_lt herr,
    LittleEndian.value_bytes_of_lt hctx]

/-! ## Descriptors -/

/-- What the descriptors of the two processes refer to. -/
inductive File where
  | pipeReader
  | pipeWriter
  | opened (path : String) (flags : Child.OpenFlags) (mode : Nat)
  /-- What launchd had open before. -/
  | other (id : Nat)
  deriving DecidableEq, Repr

def File.isReader : File → Bool
  | .pipeReader => true
  | _ => false

def File.isWriter : File → Bool
  | .pipeWriter => true
  | _ => false

structure ExecMonitor where
  /-- `pfd[0]` -/
  reader : Int := -1
  /-- `pfd[1]` -/
  writer : Int := -1
  deriving DecidableEq, Repr

structure Party where
  fds : Table File
  monitor : ExecMonitor := {}

namespace ExecMonitor

def closeFd (fd : Int) : Prog Party Unit := modify fun p => { p with fds := p.fds.close fd.toNat }

/-- The loop over `pfd`; `succeeds` is what each `fcntl(2)` answers. -/
def setCloexecs : List Int → List Bool → Prog Party Unit
  | [], _ => return ()
  | fd :: rest, succeeds =>
    if succeeds.headD true then do
      modify fun p => { p with fds := p.fds.setCloexec fd.toNat }
      setCloexecs rest succeeds.tail
    else do
      closeFd (← get).monitor.reader
      closeFd (← get).monitor.writer
      modify fun p => { p with monitor := {} }
      throw "fcntl(2)"

/-- `createPipe`; `pipe` are the descriptors `pipe(2)` opens, none when it fails. -/
def createPipe (pipe : Option (Nat × Nat)) (succeeds : List Bool) : Prog Party Unit := do
  let monitor := (← get).monitor
  if 0 ≤ monitor.reader ∨ 0 ≤ monitor.writer then throw "pipe is already created"
  else match pipe with
    | none => throw "fork(2)"
    | some (reader, writer) => do
      modify fun p => { fds := (p.fds.openAt reader .pipeReader).openAt writer .pipeWriter, monitor := ⟨reader, writer⟩ }
      setCloexecs [reader, writer] succeeds

def becomeChild : Prog Party Unit := do
  let monitor := (← get).monitor
  if monitor.reader < 0 then crash "pfd[0] >= 0"
  else do
    closeFd monitor.reader
    modify fun p => { p with monitor := { p.monitor with reader := -1 } }

def becomeParent : Prog Party Unit := do
  let monitor := (← get).monitor
  if monitor.writer < 0 then crash "pfd[1] >= 0"
  else do
    closeFd monitor.writer
    modify fun p => { p with monitor := { p.monitor with writer := -1 } }

/-- The destructor. -/
def destroy (p : Party) : Party :=
  let fds := if 0 < p.monitor.reader then p.fds.close p.monitor.reader.toNat else p.fds
  { p with fds := if 0 < p.monitor.writer then fds.close p.monitor.writer.toNat else fds }

/-- `readStatus`, of the bytes `read(2)` returns or its `errno`. -/
def readStatus : Except Nat Bytes → RawStatus
  | .error errno => ExecStatus.raw { errorCode := .readFailed, savedErrno := errno, errorContext := .parentProcess }
  | .ok bytes =>
    if bytes.length = 0 then ExecStatus.raw { errorCode := .execSuccess, errorContext := .parentProcess }
    else if bytes.length < RawStatus.image.size then
      ExecStatus.raw { errorCode := .readFailed, errorContext := .parentProcess }
    else RawStatus.image.value bytes

end ExecMonitor

namespace Child

/-! ## What the set-up does to the descriptors -/

def afterCall (t : Table File) : Syscall × Answer → Table File
  | (.openFile path flags mode, .ok fd) => t.openAt fd (.opened path flags mode)
  | (.dup2 oldfd newfd, .ok _) => t.dup2 oldfd newfd
  | (.close fd, .ok _) => t.close fd
  | _ => t

def afterCalls (t : Table File) (calls : List (Syscall × Answer)) : Table File := calls.foldl afterCall t

/-- The kernel opens a file on a free descriptor. -/
def LegalCall (t : Table File) : Syscall × Answer → Prop
  | (.openFile _ _ _, .ok fd) => t.Free fd
  | _ => True

instance (t : Table File) (c : Syscall × Answer) : Decidable (LegalCall t c) := by
  unfold LegalCall
  split <;> infer_instance

def Legal (t : Table File) : List (Syscall × Answer) → Prop
  | [] => True
  | c :: rest => LegalCall t c ∧ Legal (afterCall t c) rest

instance instDecidableLegal (t : Table File) : (calls : List (Syscall × Answer)) → Decidable (Legal t calls)
  | [] => inferInstanceAs (Decidable True)
  | c :: rest =>
    have := instDecidableLegal (afterCall t c) rest
    inferInstanceAs (Decidable (_ ∧ _))

end Child

/-! ## The two processes -/

namespace ExecMonitor

inductive ParentAt where
  | forked
  | reading
  | killing (status : RawStatus)
  | waiting (status : RawStatus)
  | returned (started : Bool) (status : RawStatus)
  /-- The text of the status could not be made. -/
  | threw (status : RawStatus)
  deriving DecidableEq, Repr

def ParentAt.status? : ParentAt → Option RawStatus
  | .forked | .reading => none
  | .killing status | .waiting status | .returned _ status | .threw status => some status

inductive ChildAt where
  | forked
  | cleaning
  /-- `post_fork_cleanup` threw. -/
  | refusing
  | settingUp
  | reporting (status : ExecStatus)
  | exiting
  /-- It runs the program. -/
  | running
  | dead
  | reaped
  deriving DecidableEq, Repr

def ChildAt.early : ChildAt → Bool
  | .running | .dead | .reaped => false
  | _ => true

def ChildAt.alive : ChildAt → Bool
  | .dead | .reaped => false
  | _ => true

structure World where
  pipe : Bytes := []
  parent : Party
  parentAt : ParentAt := .forked
  child : Party
  childAt : ChildAt := .forked
  /-- Ghost: the statuses in the pipe, and those that were. -/
  written : List ExecStatus := []
  /-- Ghost: `execve(2)` did not return. -/
  execed : Bool := false

/-- An `errno` is the answer of a system call that fails. -/
inductive Move where
  | parent (errno : Option Nat)
  | child (errno : Option Nat)
  | cleanup (succeeds : Bool)
  | setUp (answers : List Child.Answer)
  /-- The child is killed by someone else, or its program ends. -/
  | dies
  deriving DecidableEq

namespace World

variable (w : World)

def writerOpen : Bool := w.parent.fds.refers File.isWriter || w.child.fds.refers File.isWriter

def readerOpen : Bool := w.parent.fds.refers File.isReader || w.child.fds.refers File.isReader

/-- The kernel closes the descriptors of a process that ends. -/
def childDies : World := { w with childAt := .dead, child := { w.child with fds := ∅ } }

def judge (status : RawStatus) : World :=
  if status.errorCode = ExecErrorCode.execSuccess.toNat then
    { w with parent := destroy w.parent, parentAt := .returned true status }
  else match status.getErrorCode with
    | .ok _ => { w with parentAt := .killing status }
    | .error _ => { w with parent := destroy w.parent, parentAt := .threw status }

def parentMoves (errno : Option Nat) : Option World :=
  match w.parentAt with
  | .forked => (final? becomeParent w.parent).map fun p => { w with parent := p, parentAt := .reading }
  | .reading =>
    match errno with
    | some errno => some (w.judge (readStatus (.error errno)))
    | none =>
      -- `read(2)` waits as long as the pipe is empty and someone can write to it
      if w.pipe = [] ∧ w.writerOpen then none
      else some (judge { w with pipe := w.pipe.drop RawStatus.image.size } (readStatus (.ok (RawStatus.image.oneRead w.pipe))))
  | .killing status =>
    let w := if errno = none ∧ w.childAt.alive then w.childDies else w
    some { w with parentAt := .waiting status }
  | .waiting status =>
    if w.childAt = .dead then
      some { w with parent := destroy w.parent, parentAt := .returned false status, childAt := .reaped }
    else none
  | .returned _ _ | .threw _ => none

/-- `writeStatus` of the child; SIGPIPE ends it when nobody can read what it writes. -/
def writeStatus (status : ExecStatus) (errno : Option Nat) (next : ChildAt) : World :=
  if errno = none ∧ w.child.fds.file? w.child.monitor.writer.toNat = some .pipeWriter then
    if w.readerOpen then
      { w with pipe := w.pipe ++ RawStatus.image.bytes status.raw, written := w.written ++ [status], childAt := next }
    else w.childDies
  else { w with childAt := next }

def childMoves (errno : Option Nat) : Option World :=
  match w.childAt with
  | .forked => (final? becomeChild w.child).map fun p => { w with child := p, childAt := .cleaning }
  | .refusing => some (w.writeStatus { errorCode := .forkHandlerFailed } errno .settingUp)
  | .reporting status => some (w.writeStatus status errno .exiting)
  | .exiting => some w.childDies
  | _ => none

/-- `start_child_process`. An exception that leaves it ends the child here, where the source has it
    go on as another launchd; `startChildProcess_returns` says that no decoded manifest lets one out. -/
def setUp (manifest : Manifest) (ctx : ExecutionContext) (answers : List Child.Answer) : Option World :=
  match Child.startChildProcess manifest ctx { answers } with
  | .ok result s =>
    if Child.Legal w.child.fds s.calls then
      let fds := Child.afterCalls w.child.fds s.calls
      match result with
      | none => some { w with child := { w.child with fds := fds.exec }, childAt := .running, execed := true }
      | some status => some { w with child := { w.child with fds }, childAt := .reporting status }
    else none
  | .throw _ s => if Child.Legal w.child.fds s.calls then some w.childDies else none
  | .crash _ => some w.childDies

def step (manifest : Manifest) (ctx : ExecutionContext) : Move → Option World
  | .parent errno => w.parentMoves errno
  | .child errno => w.childMoves errno
  | .cleanup succeeds =>
    if w.childAt = .cleaning then some { w with childAt := if succeeds then .settingUp else .refusing } else none
  | .setUp answers => if w.childAt = .settingUp then w.setUp manifest ctx answers else none
  | .dies => if w.childAt.alive then some w.childDies else none

end World

def forked (p : Party) : World := { parent := p, child := p }

/-- What launchd has open before: nothing is free of the first three descriptors. -/
structure Started (fds : Table File) : Prop where
  stdio : ∀ fd < 3, fds.lookup fd ≠ none
  noReader : fds.refers File.isReader = false
  noWriter : fds.refers File.isWriter = false

/-- `createPipe` has returned, and so has `fork(2)`. -/
def Init (fds : Table File) (w : World) : Prop :=
  ∃ reader writer succeeds p, fds.Free reader ∧ fds.Free writer ∧ reader ≠ writer ∧
    createPipe (some (reader, writer)) succeeds { fds } = .ok () p ∧ w = forked p

def Next (manifest : Manifest) (ctx : ExecutionContext) (w : World) (m : Move) (w' : World) : Prop :=
  w.step manifest ctx m = some w'

end ExecMonitor

end Relaunchd
