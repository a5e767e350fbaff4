/-
  Relaunchd.Durable — the state file (`src/state_file.cc`), system call by system call, in a
  launchd that may be killed between any two of them and started again.

  `StateFile::setValue` writes the new document to a file beside the data file, whose name has
  the process id, and renames that file over the data file. `StateFile::clear` writes the data
  file itself; the manager only calls it by way of the constructor, when there is no file.
  What a file holds outlives the process. The stream passes its bytes to `write(2)` in parts;
  when it could not open its file, or a write has failed, the rest of the text is dropped
  without a word.
-/

import Relaunchd.Lib.Simulation
import Relaunchd.Lib.Register
import Relaunchd.StateFile

namespace Relaunchd

open Transition

namespace StateFile

/-! ## The process and its files -/

/-- A text on its way to a file. -/
inductive Save (V : Type) where
  /-- The default, to the data file. -/
  | clear
  /-- A new value, by an object that has another. -/
  | set (newValue currentValue : V)
  deriving DecidableEq

inductive Stage (V : Type) where
  | dead
  | constructing
  /-- `getValue` of the object -/
  | ready (currentValue : V)
  | opening (save : Save V)
  /-- Between the opening of the file and its end, with the bytes not yet written. -/
  | writing (save : Save V) (rest : Bytes)
  deriving DecidableEq

structure Machine (V : Type) where
  files : String → Option Bytes
  pid : Nat
  stage : Stage V

inductive Move (V : Type) where
  /-- A launchd starts, as process `pid`. -/
  | starts (pid : Nat)
  /-- The constructor looks for the file, and reads it if it is there. -/
  | construct (opens : Bool)
  | setValue (value : V)
  | opens (succeeds : Bool)
  /-- `write(2)` takes some bytes, or fails. -/
  | writes (bytes : Option Nat)
  /-- The stream is closed; after a new value comes `rename(2)`. -/
  | closes (renames : Bool)
  | killed

variable {V : Type} (codec : Codec V) (defaultValue : V) (dataPath : String)

def tmpPath (pid : Nat) : String := dataPath ++ ".tmp" ++ toString pid

def Save.text : Save V → Bytes
  | .clear => codec.dump defaultValue
  | .set newValue _ => codec.dump newValue

def Save.path (pid : Nat) : Save V → String
  | .clear => dataPath
  | .set .. => tmpPath dataPath pid

namespace Machine

def put (m : Machine V) (path : String) (bytes : Option Bytes) : Machine V :=
  { m with files := Function.update m.files path bytes }

/-- A file that does not parse makes the constructor throw, which ends the program. -/
def constructs (m : Machine V) (opens : Bool) : Machine V :=
  match m.files dataPath with
  | none => { m with stage := .opening .clear }
  | some text =>
    match if opens then codec.parse text else none with
    | some value => { m with stage := .ready value }
    | none => { m with stage := .dead }

/-- The end of `clear` and of `setValue`. An exception of `setValue` leaves the object. -/
def finishes (m : Machine V) (renames : Bool) : Save V → Machine V
  | .clear => { m with stage := .ready defaultValue }
  | .set newValue currentValue =>
    let tmp := m.files (tmpPath dataPath m.pid)
    if tmp.isSome && renames then
      { (m.put dataPath tmp).put (tmpPath dataPath m.pid) none with stage := .ready newValue }
    else { m.put (tmpPath dataPath m.pid) none with stage := .ready currentValue }

def step (m : Machine V) : Move V → Option (Machine V)
  | .starts pid => match m.stage with
    | .dead => some { m with pid, stage := .constructing }
    | _ => none
  | .construct opens => match m.stage with
    | .constructing => some (m.constructs codec dataPath opens)
    | _ => none
  | .setValue value => match m.stage with
    | .ready currentValue => some { m with stage := .opening (.set value currentValue) }
    | _ => none
  | .opens succeeds => match m.stage with
    | .opening save =>
      -- an output stream truncates the file
      if succeeds then some { m.put (save.path dataPath m.pid) (some []) with stage := .writing save (save.text codec defaultValue) }
      else some { m with stage := .writing save [] }
    | _ => none
  | .writes bytes => match m.stage with
    | .writing save rest => match bytes with
      | some n => some { m.put (save.path dataPath m.pid) ((m.files (save.path dataPath m.pid)).map (· ++ rest.take n)) with
          stage := .writing save (rest.drop n) }
      | none => some { m with stage := .writing save [] }
    | _ => none
  | .closes renames => match m.stage with
    | .writing save [] => some (m.finishes defaultValue dataPath renames save)
    | _ => none
  | .killed => some { m with stage := .dead }

/-- No launchd runs; there may be a data file, which then has a document in it, and any others. -/
def Starts (first : Option V) (m : Machine V) : Prop :=
  m.stage = .dead ∧ match first with
    | none => m.files dataPath = none
    | some value => ∃ text, m.files dataPath = some text ∧ codec.parse text = some value

def Moves (m : Machine V) (move : Move V) (m' : Machine V) : Prop := m.step codec defaultValue dataPath move = some m'

/-- What is seen of a move: a launchd has the document, has changed it, or has gone. -/
def sees (m : Machine V) : Move V → Option (Register.Event V)
  | .construct opens => match m.files dataPath with
    | none => none
    | some text => match if opens then codec.parse text else none with
      | some value => some (.opens value)
      | none => some .dies
  | .closes renames => match m.stage with
    | .writing .clear _ => some (.opens defaultValue)
    | .writing (.set newValue _) _ =>
      if (m.files (tmpPath dataPath m.pid)).isSome && renames then some (.sets newValue) else none
    | _ => none
  | .killed => some .dies
  | .starts _ | .setValue _ | .opens _ | .writes _ => none

/-- No write fails, nobody kills the process while the data file is written for the first time,
    and a temporary file that cannot be opened is not there. -/
def Careful (m : Machine V) : Move V → Prop
  | .opens succeeds => succeeds = false → ∀ newValue currentValue, m.stage = .opening (.set newValue currentValue) →
    m.files (tmpPath dataPath m.pid) = none
  | .writes bytes => bytes.isSome
  | .killed => ∀ rest, m.stage = .writing .clear rest → rest = []
  | .starts _ | .construct _ | .setValue _ | .closes _ => True

/-- Nothing fails; the process may be killed at any point. -/
def Unfailing (_ : Machine V) : Move V → Prop
  | .opens succeeds => succeeds
  | .writes bytes => bytes.isSome
  | .starts _ | .construct _ | .setValue _ | .closes _ | .killed => True

def Torn (m : Machine V) : Prop :=
  ∃ n < (codec.dump defaultValue).length, m.files dataPath = some ((codec.dump defaultValue).take n)

def disk (m : Machine V) (currentValue : Option V) : Disk V :=
  ⟨m.files dataPath, m.files (tmpPath dataPath m.pid), currentValue⟩

end Machine

/-! ## The calls of one process -/

/-- Ghost: what a process found when it started, and the calls it has made, as they went. -/
structure Life (V : Type) where
  found : Disk V := ⟨none, none, none⟩
  calls : List (Call V) := []
  /-- Of the call it is in. -/
  writing : Writing := ⟨false, 0⟩

namespace Life

def began (m : Machine V) (pid : Nat) : Life V := { found := { m with pid }.disk dataPath none }

/-- A constructor that makes no file has ended with its read. -/
def note (m : Machine V) (move : Move V) (life : Life V) : Life V :=
  match move with
  | .starts pid => began dataPath m pid
  | .construct opens => match m.files dataPath with
    | none => life
    | some _ => { life with calls := life.calls ++ [.construct opens ⟨false, 0⟩] }
  | .opens succeeds => { life with writing := ⟨succeeds, 0⟩ }
  | .writes (some n) => match m.stage with
    | .writing _ rest => { life with writing.bytes := life.writing.bytes + (rest.take n).length }
    | _ => life
  | .closes renames => match m.stage with
    | .writing .clear _ => { life with calls := life.calls ++ [.construct true life.writing] }
    | .writing (.set newValue _) _ => { life with calls := life.calls ++ [.setValue newValue life.writing renames] }
    | _ => life
  | .writes none | .setValue _ | .killed => life

def after (d : Disk V) (c : Call V) : Disk V :=
  match call codec defaultValue c d with
  | .ok _ d' | .throw _ d' => d'
  | .crash _ => d

/-- What the calls leave of what was found, each of them made as a whole. -/
def left (life : Life V) : Disk V := life.calls.foldl (after codec defaultValue) life.found

end Life

end StateFile

end Relaunchd
