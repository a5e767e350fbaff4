/-
  Relaunchd.StateFile — the state file as it is on disk (`src/state_file.cc`), while writes
  are cut short and files cannot be opened.

  The manager's model of it (`StateFile.setValue` in `Relaunchd.Manager`) has only the
  `rename(2)` fail. What a value is and how it is written as text is the JSON library's
  matter: the values are of any type with a `Codec`.
-/

import Relaunchd.Lib.Codec
import Relaunchd.Lib.Prog
import Relaunchd.Lib.Transition

namespace Relaunchd

open Prog Transition

namespace StateFile

/-! ## The file -/

/-- How the writing of a file goes. The stream reports no failure, as nothing asks it. -/
structure Writing where
  opens : Bool
  /-- How many bytes are in the file when it has been closed. -/
  bytes : Nat

/-- The two files, and the object: none before one is constructed. -/
structure Disk (V : Type) where
  /-- `dataPath` -/
  data : Option Bytes
  /-- The temporary file of `setValue`. -/
  tmp : Option Bytes
  currentValue : Option V

inductive Call (V : Type) where
  /-- `StateFile::StateFile`; `opens` is about the file that is read. -/
  | construct (opens : Bool) (writing : Writing)
  | setValue (value : V) (writing : Writing) (renames : Bool)
  | clear (writing : Writing)

variable {V : Type} (codec : Codec V) (defaultValue : V)

def Writing.result (w : Writing) (text : Bytes) (old : Option Bytes) : Option Bytes :=
  if w.opens then some (text.take w.bytes) else old

/-- The default is written to the file itself. -/
def clearFile (w : Writing) : Prog (Disk V) Unit := modify fun d =>
  { d with data := w.result (codec.dump defaultValue) d.data, currentValue := some defaultValue }

def construct (opens : Bool) (w : Writing) : Prog (Disk V) Unit := do
  match (← get).data with
  | none => clearFile codec defaultValue w
  | some text =>
    match if opens then codec.parse text else none with
    | some value => modify fun d => { d with currentValue := some value }
    | none => throw "parse_error"

/-- A temporary file that is not there cannot be renamed. -/
def writeValue (value : V) (w : Writing) (renames : Bool) : Prog (Disk V) Unit := do
  modify fun d => { d with tmp := w.result (codec.dump value) d.tmp }
  let tmp := (← get).tmp
  if tmp.isSome && renames then modify fun d => { d with data := tmp, tmp := none, currentValue := some value }
  else do
    modify fun d => { d with tmp := none }
    throw "rename"

def call : Call V → Prog (Disk V) Unit
  | .construct opens w => construct codec defaultValue opens w
  | .setValue value w renames => writeValue codec value w renames
  | .clear w => clearFile codec defaultValue w

/-- What a new object reads when nothing fails. -/
def fresh (d : Disk V) : Option V :=
  (final? (construct codec defaultValue true ⟨true, (codec.dump defaultValue).length⟩) d).bind (·.currentValue)

/-! ## Runs -/

/-- A call that returns leaves a file from which the value is read again; one that throws
    leaves the file and the value as they were. -/
def Kept (d : Disk V) : Res (Disk V) Unit → Prop
  | .ok _ d' => fresh codec defaultValue d' = d'.currentValue
  | .throw _ d' => d'.data = d.data ∧ d'.currentValue = d.currentValue
  | .crash _ => False

def Keeps (d : Disk V) (c : Call V) : Prop := Kept codec defaultValue d (call codec defaultValue c d)

def Next (d : Disk V) (c : Call V) (d' : Disk V) : Prop :=
  call codec defaultValue c d = .ok () d' ∨ ∃ what, call codec defaultValue c d = .throw what d'

/-- No object has been constructed yet; any file may be there. -/
def Init (d : Disk V) : Prop := d.currentValue = none

/-- After the writing of a dump, the file holds all of it; if it could not be opened and is
    there, it reads as the value anyway. -/
def Writing.Gives (w : Writing) (value : V) (old : Option Bytes) : Prop :=
  (w.opens → (codec.dump value).length ≤ w.bytes) ∧ (w.opens = false → ∀ text, old = some text → codec.parse text = some value)

/-- Whatever a call puts in the place of the file reads as the value. -/
def Writes (d : Disk V) : Call V → Prop
  | .construct _ w => d.data = none → w.Gives codec defaultValue none
  | .setValue value w renames => renames → w.Gives codec value d.tmp
  | .clear w => w.Gives codec defaultValue d.data

/-- The value of the object, if there is one, is what a new object reads. -/
def InStep (d : Disk V) : Prop := ∀ v, d.currentValue = some v → fresh codec defaultValue d = some v

variable {codec defaultValue} {d : Disk V} {w : Writing} {value : V} {old : Option Bytes}

theorem fresh_none (h : d.data = none) : fresh codec defaultValue d = some defaultValue := by
  simp only [fresh, final?, construct, bind, andThen, Prog.get, h]
  rfl

theorem fresh_some {text : Bytes} (h : d.data = some text) : fresh codec defaultValue d = codec.parse text := by
  simp only [fresh, final?, construct, bind, andThen, Prog.get, h, if_pos]
  cases codec.parse text <;> rfl

theorem fresh_congr {d' : Disk V} (h : d'.data = d.data) : fresh codec defaultValue d' = fresh codec defaultValue d := by
  cases hd : d.data with
  | none => rw [fresh_none hd, fresh_none (h.trans hd)]
  | some text => rw [fresh_some hd, fresh_some (h.trans hd)]

/-- A dump is read back from a file that was written if and only if all of it is there. -/
theorem Writing.parse_iff (hcut : codec.CutsFail) {text : Bytes} (h : w.result (codec.dump value) old = some text) :
    codec.parse text = some value ↔ w.Gives codec value old := by
  unfold Writing.result at h
  cases ho : w.opens with
  | true =>
    rw [ho, if_pos rfl] at h
    cases h
    refine ⟨fun hp => ⟨fun _ => ?_, fun hf => absurd (ho.symm.trans hf) nofun⟩, fun hg => ?_⟩
    · by_contra hlt
      exact hcut value w.bytes (Nat.not_le.mp hlt) hp
    · rw [List.take_of_length_le (hg.1 ho), codec.parse_dump]
  | false =>
    rw [ho, if_neg Bool.false_ne_true] at h
    subst h
    refine ⟨fun hp => ⟨fun ht => absurd (ho.symm.trans ht) nofun, fun _ _ e => ?_⟩, fun hg => hg.2 ho text rfl⟩
    cases e
    exact hp

/-- A file that is not there after it was written could not be opened. -/
theorem Writing.gives_of_none {text : Bytes} (h : w.result text old = none) : w.Gives codec value old := by
  unfold Writing.result at h
  split at h
  · cases h
  · rename_i ho
    exact ⟨fun ht => absurd ht ho, fun _ _ e => absurd (h.symm.trans e) nofun⟩

/-- A file that was written is read back if and only if it holds what it should. -/
theorem Writing.fresh_iff (hcut : codec.CutsFail) (hn : d.data = none → value = defaultValue)
    (h : w.result (codec.dump value) old = d.data) :
    fresh codec defaultValue d = some value ↔ w.Gives codec value old := by
  cases hd : d.data with
  | none => exact iff_of_true (by rw [fresh_none hd, hn hd]) (Writing.gives_of_none (h.trans hd))
  | some text => rw [fresh_some hd, Writing.parse_iff hcut (h.trans hd)]

theorem clearFile_keeps_iff (hcut : codec.CutsFail) :
    Kept codec defaultValue d (clearFile codec defaultValue w d) ↔ w.Gives codec defaultValue d.data :=
  Writing.fresh_iff (d := { d with data := w.result (codec.dump defaultValue) d.data, currentValue := some defaultValue })
    hcut (fun _ => rfl) rfl

theorem construct_keeps_iff (hcut : codec.CutsFail) (opens : Bool) :
    Kept codec defaultValue d (construct codec defaultValue opens w d) ↔ (d.data = none → w.Gives codec defaultValue none) := by
  cases hd : d.data with
  | none =>
    have hcall : construct codec defaultValue opens w d = clearFile codec defaultValue w d := by
      simp only [construct, bind, andThen, Prog.get, hd]
    rw [hcall, clearFile_keeps_iff hcut, hd]
    exact ⟨fun h _ => h, fun h => h rfl⟩
  | some text =>
    refine iff_of_true ?_ (by simp)
    simp only [construct, bind, andThen, Prog.get, hd]
    cases hp : (if opens then codec.parse text else none) with
    | none => exact ⟨rfl, rfl⟩
    | some v =>
      have ho : opens = true := by
        by_contra ho
        rw [if_neg ho] at hp
        cases hp
      rw [if_pos ho] at hp
      exact (fresh_some (d := { d with currentValue := some v }) hd).trans hp

theorem writeValue_eq (renames : Bool) : writeValue codec value w renames d =
    if (w.result (codec.dump value) d.tmp).isSome && renames then
      .ok () { d with data := w.result (codec.dump value) d.tmp, tmp := none, currentValue := some value }
    else .throw "rename" { d with tmp := none } := by
  unfold writeValue
  simp only [bind, andThen, Prog.modify, Prog.get]
  split <;> rfl

theorem writeValue_keeps_iff (hcut : codec.CutsFail) (renames : Bool) :
    Kept codec defaultValue d (writeValue codec value w renames d) ↔ (renames → w.Gives codec value d.tmp) := by
  rw [writeValue_eq]
  cases hr : w.result (codec.dump value) d.tmp with
  | none => exact iff_of_true ⟨rfl, rfl⟩ fun _ => Writing.gives_of_none hr
  | some text =>
    cases renames with
    | false => exact iff_of_true ⟨rfl, rfl⟩ nofun
    | true =>
      rw [← Writing.parse_iff hcut hr]
      refine Iff.trans ?_ ⟨fun h _ => h, fun h => h rfl⟩
      exact iff_of_eq (congrArg (· = some value) (fresh_some (d := { d with data := some text, tmp := none, currentValue := some value }) rfl))

/-- Exactly the calls that write whole texts keep the file and the value together. -/
theorem keeps_iff (hcut : codec.CutsFail) (c : Call V) : Keeps codec defaultValue d c ↔ Writes codec defaultValue d c := by
  cases c with
  | construct opens w => exact construct_keeps_iff hcut opens
  | setValue value w renames => exact writeValue_keeps_iff hcut renames
  | clear w => exact clearFile_keeps_iff hcut

/-! ## Every run -/

theorem next_inStep (hcut : codec.CutsFail) {c : Call V} {d' : Disk V} (hn : Next codec defaultValue d c d')
    (hw : Writes codec defaultValue d c) (h : InStep codec defaultValue d) : InStep codec defaultValue d' := by
  have hk := (keeps_iff hcut c).mpr hw
  unfold Keeps at hk
  intro v hv
  rcases hn with hn | ⟨what, hn⟩
  · rw [hn] at hk
    exact hk.trans hv
  · rw [hn] at hk
    obtain ⟨hdata, hvalue⟩ := hk
    rw [hvalue] at hv
    exact (fresh_congr hdata).trans (h v hv)

/-- In every run whose calls write whole texts, the object and the file agree, and a call
    keeps them so if and only if it writes a whole text too. -/
theorem in_step (hcut : codec.CutsFail)
    (h : Reach Init (Under (Next codec defaultValue) (Writes codec defaultValue)) d) :
    InStep codec defaultValue d ∧ ∀ c, Keeps codec defaultValue d c ↔ Writes codec defaultValue d c := by
  refine ⟨h.invariant (P := InStep codec defaultValue) (fun d hi v hv => ?_) (fun _ _ _ hd hn => next_inStep hcut hn.1 hn.2 hd),
    keeps_iff hcut⟩
  rw [show d.currentValue = none from hi] at hv
  cases hv

/-- A value is set, and the disk is full: nothing of it reaches the temporary file. -/
theorem value_lost : ¬ ∀ (V : Type) (codec : Codec V) (defaultValue : V), codec.CutsFail →
    ∀ d c, Reach Init (Next codec defaultValue) d → Keeps codec defaultValue d c := by
  intro h
  have hinit : Init (⟨none, none, none⟩ : Disk Nat) := rfl
  have hrun : Reach Init (Next Codec.letters 0) ⟨some (Codec.letters.dump 0), none, some 0⟩ :=
    .step (.construct true ⟨true, 2⟩) (.init hinit) (.inl rfl)
  have hk := h Nat Codec.letters 0 Codec.letters_cutsFail _ (.setValue 1 ⟨true, 0⟩ true) hrun
  have hw := ((keeps_iff Codec.letters_cutsFail _).mp hk rfl).1 rfl
  cases hw

theorem in_step_set : ∃ d, Reach Init (Under (Next Codec.letters 0) (Writes Codec.letters 0)) d ∧ d.currentValue = some 1 ∧
    InStep Codec.letters 0 d ∧ ∀ c, Keeps Codec.letters 0 d c ↔ Writes Codec.letters 0 d c := by
  have hrun : Reach Init (Under (Next Codec.letters 0) (Writes Codec.letters 0)) ⟨some (Codec.letters.dump 1), none, some 1⟩ := by
    have hinit : Init (⟨none, none, none⟩ : Disk Nat) := rfl
    have hwhole : ∀ n old, Writing.Gives Codec.letters ⟨true, n + 2⟩ n old := fun n old =>
      ⟨fun _ => le_of_eq (Codec.letters_length n), nofun⟩
    have hnew : Reach Init (Under (Next Codec.letters 0) (Writes Codec.letters 0)) ⟨some (Codec.letters.dump 0), none, some 0⟩ :=
      .step (.construct true ⟨true, 2⟩) (.init hinit) ⟨.inl rfl, fun _ => hwhole 0 none⟩
    exact .step (.setValue 1 ⟨true, 3⟩ true) hnew ⟨.inl rfl, fun _ => hwhole 1 none⟩
  exact ⟨_, hrun, rfl, in_step Codec.letters_cutsFail hrun⟩

end StateFile

end Relaunchd
