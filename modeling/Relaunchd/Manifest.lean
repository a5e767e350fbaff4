/-
  Relaunchd.Manifest — a job's manifest and its decoder (`src/manifest.h`, `src/manifest.cc`).
-/

import Relaunchd.Json
import Relaunchd.Text

namespace Relaunchd

/-! ## Labels -/

/-- `Label::Label(std::string)`: the checks a label passes when it is built from a string. -/
def Label.make (s : String) : Decode String :=
  if s.isEmpty then .error (.exn "Label cannot be an empty string")
  else if s.toList.contains '/' then .error (.exn "Labels may not include the '/' character")
  else .ok s

/-- `Label::operator const std::string`, `Label::c_str`: both assert that the label is set. -/
def Label.string (label : String) : Decode String :=
  if label.isEmpty then .error (.abort "!value.empty()") else .ok label

/-! ## The manifest -/

def defaultExitTimeout : Nat := 20

structure Manifest where
  label : String := ""
  userName : Option String := none
  groupName : Option String := none
  program : Option String := none
  programArguments : List String := []
  disabled : Bool := false
  runAtLoad : Bool := false
  workingDirectory : Option String := none
  rootDirectory : Option String := none
  environmentVariables : List (String × String) := []
  umask : Option Nat := none
  exitTimeout : Nat := defaultExitTimeout
  startInterval : Option Nat := none
  throttleInterval : Nat := 10
  nice : Option Nat := none
  initGroups : Bool := true
  stdinPath : String := "/dev/null"
  stdoutPath : String := "/dev/null"
  stderrPath : String := "/dev/null"
  abandonProcessGroup : Bool := false
  /-- `keep_alive.always` -/
  keepAlive : Bool := false
  deriving DecidableEq, Repr

namespace Manifest

def rectify (m : Manifest) : Decode Manifest :=
  match m.program, m.programArguments with
  | none, [] => .error (.exn "one of these must be set: Program and/or ProgramArguments")
  | none, a :: _ => .ok { m with program := some a }
  | some p, [] => .ok { m with programArguments := [p] }
  | some _, _ :: _ => .ok m

/-- `validate`; reading the label asserts that it is set. -/
def validate (m : Manifest) : Decode Bool := do
  let _ ← Label.string m.label
  return !(m.program.isNone && !m.programArguments.isEmpty) && !(m.groupName.isSome && m.userName.isNone)

/-- The value of `Umask`, narrowed to `mode_t`. -/
def umaskOf : Json → Decode Nat
  | .int n => (Json.int n).getUint32
  | .str s => match stoulOctal s with
    | some n => .ok (n % 2 ^ 32)
    | none => .error (.exn "stoul")
  | _ => .error (.exn "unsupported Umask type")

/-- `if (j.contains(key)) { ... }`: decode a key when it is there. -/
def field (j : Json) (key : String) (m : Manifest) (f : Json → Decode Manifest) : Decode Manifest :=
  if j.contains key then j.atKey key >>= f else .ok m

def notSupported (j : Json) (key : String) (m : Manifest) : Decode Manifest :=
  field j key m fun _ => .error (.exn "Not currently supported")

def fromJson (j : Json) : Decode Manifest := do
  let m : Manifest := {}
  let m ← field j "Label" m fun v => do return { m with label := ← Label.make (← v.getString) }
  let m ← field j "UserName" m fun v => do return { m with userName := some (← v.getString) }
  let m ← field j "GroupName" m fun v => do return { m with groupName := some (← v.getString) }
  let m ← field j "Program" m fun v => do return { m with program := some (← v.getString) }
  let m ← field j "ProgramArguments" m fun v => do return { m with programArguments := ← v.getStrings }
  let m ← notSupported j "EnableGlobbing" m
  let m ← field j "RunAtLoad" m fun v => do return { m with runAtLoad := ← v.getBool }
  let m ← field j "WorkingDirectory" m fun v => do return { m with workingDirectory := some (← v.getString) }
  let m ← field j "RootDirectory" m fun v => do return { m with rootDirectory := some (← v.getString) }
  let m ← field j "EnvironmentVariables" m fun v => do
    return { m with environmentVariables := ← v.getStringMap }
  let m ← field j "Umask" m fun v => do return { m with umask := some (← umaskOf v) }
  let m ← field j "Disabled" m fun v => do return { m with disabled := ← v.getBool }
  let m ← field j "ExitTimeout" m fun v => do return { m with exitTimeout := ← v.getUint32 }
  let m ← field j "StartInterval" m fun v => do return { m with startInterval := some (← v.getUint32) }
  let m ← field j "ThrottleInterval" m fun v => do return { m with throttleInterval := ← v.getUint32 }
  let m ← field j "Nice" m fun v => do return { m with nice := some (← v.getUint32) }
  let m ← field j "InitGroups" m fun v => do return { m with initGroups := ← v.getBool }
  let m ← notSupported j "WatchPaths" m
  let m ← notSupported j "QueueDirectories" m
  let m ← notSupported j "StartOnMount" m
  let m ← field j "StandardInPath" m fun v => do return { m with stdinPath := ← v.getString }
  let m ← field j "StandardOutPath" m fun v => do return { m with stdoutPath := ← v.getString }
  let m ← field j "StandardErrorPath" m fun v => do return { m with stderrPath := ← v.getString }
  let m ← field j "AbandonProcessGroup" m fun v => do return { m with abandonProcessGroup := ← v.getBool }
  let m ← notSupported j "StartCalendarInterval" m
  let m ← field j "KeepAlive" m fun v =>
    match v with
    | .bool b => .ok { m with keepAlive := b }
    | .obj _ => field v "Always" m fun a => do return { m with keepAlive := ← a.getBool }
    | _ => .ok m
  let m ← notSupported j "Sockets" m
  let m ← m.rectify
  if ← m.validate then .ok m else .error (.exn "Invalid manifest")

def Decoded (m : Manifest) : Prop := ∃ j, fromJson j = .ok m

/-! ## What is accepted -/

structure Bounded (m : Manifest) : Prop where
  throttleInterval : m.throttleInterval < 2 ^ 32
  startInterval : ∀ interval, m.startInterval = some interval → interval < 2 ^ 32

section Decoding

variable {m m' : Manifest} {j : Json} {key : String}

theorem getUint32_lt {n : Nat} (h : j.getUint32 = .ok n) : n < 2 ^ 32 := by
  unfold Json.getUint32 at h
  split at h <;> cases h
  · omega
  · omega
  · omega
  · split <;> decide

theorem field_bounded {f : Json → Decode Manifest} (h : field j key m f = .ok m') (hm : m.Bounded)
    (hf : ∀ v, f v = .ok m' → m'.Bounded) : m'.Bounded := by
  unfold field at h
  split at h
  · obtain ⟨v, -, h⟩ := bind_eq_ok.mp h
    exact hf v h
  · cases h
    exact hm

/-- A field other than the intervals. -/
theorem other_bounded {d : Json → Decode α} {g : α → Manifest} (h : field j key m (fun v => do return g (← d v)) = .ok m')
    (hm : m.Bounded) (hg : ∀ a, (g a).throttleInterval = m.throttleInterval ∧ (g a).startInterval = m.startInterval) :
    m'.Bounded :=
  field_bounded h hm fun v hv => by
    obtain ⟨a, -, ha⟩ := bind_eq_ok.mp hv
    cases ha
    exact ⟨(hg a).1 ▸ hm.throttleInterval, (hg a).2 ▸ hm.startInterval⟩

theorem notSupported_bounded (h : notSupported j key m = .ok m') (hm : m.Bounded) : m'.Bounded :=
  field_bounded h hm fun _ hv => nomatch hv

theorem rectify_bounded (h : m.rectify = .ok m') (hm : m.Bounded) : m'.Bounded := by
  unfold rectify at h
  split at h <;> cases h <;> exact ⟨hm.throttleInterval, hm.startInterval⟩

end Decoding

/-- A decoder that goes on from a bounded manifest. -/
theorem bind_bounded {m' : Manifest} {d : Decode Manifest} {f : Manifest → Decode Manifest} (h : d >>= f = .ok m')
    (hd : ∀ m, d = .ok m → m.Bounded) (hf : ∀ m, m.Bounded → f m = .ok m' → m'.Bounded) : m'.Bounded := by
  obtain ⟨m, hm, h⟩ := bind_eq_ok.mp h
  exact hf m (hd m hm) h

theorem Decoded.bounded {m : Manifest} (h : m.Decoded) : m.Bounded := by
  obtain ⟨j, h⟩ := h
  have hm : Bounded {} := ⟨by decide, nofun⟩
  unfold fromJson at h
  refine bind_bounded h (fun m' h => field_bounded h hm fun v hv => ?_) fun m hm h => ?_
  · obtain ⟨_, -, hv⟩ := bind_eq_ok.mp hv
    obtain ⟨label, -, hv⟩ := bind_eq_ok.mp hv
    cases hv
    exact ⟨hm.throttleInterval, hm.startInterval⟩
  iterate 4 refine bind_bounded h (fun _ h => other_bounded h hm fun _ => ⟨rfl, rfl⟩) fun m hm h => ?_
  refine bind_bounded h (fun _ h => notSupported_bounded h hm) fun m hm h => ?_
  iterate 7 refine bind_bounded h (fun _ h => other_bounded h hm fun _ => ⟨rfl, rfl⟩) fun m hm h => ?_
  refine bind_bounded h (fun m' h => field_bounded h hm fun v hv => ?_) fun m hm h => ?_
  · obtain ⟨n, hn, hv⟩ := bind_eq_ok.mp hv
    cases hv
    exact ⟨hm.throttleInterval, fun i hi => by cases hi; exact getUint32_lt hn⟩
  refine bind_bounded h (fun m' h => field_bounded h hm fun v hv => ?_) fun m hm h => ?_
  · obtain ⟨n, hn, hv⟩ := bind_eq_ok.mp hv
    cases hv
    exact ⟨getUint32_lt hn, hm.startInterval⟩
  iterate 2 refine bind_bounded h (fun _ h => other_bounded h hm fun _ => ⟨rfl, rfl⟩) fun m hm h => ?_
  iterate 3 refine bind_bounded h (fun _ h => notSupported_bounded h hm) fun m hm h => ?_
  iterate 4 refine bind_bounded h (fun _ h => other_bounded h hm fun _ => ⟨rfl, rfl⟩) fun m hm h => ?_
  refine bind_bounded h (fun _ h => notSupported_bounded h hm) fun m hm h => ?_
  refine bind_bounded h (fun m' h => field_bounded h hm fun v hv => ?_) fun m hm h => ?_
  · split at hv
    · cases hv
      exact ⟨hm.throttleInterval, hm.startInterval⟩
    · exact other_bounded hv hm fun _ => ⟨rfl, rfl⟩
    · cases hv
      exact hm
  refine bind_bounded h (fun _ h => notSupported_bounded h hm) fun m hm h => ?_
  refine bind_bounded h (fun _ h => rectify_bounded h hm) fun m hm h => ?_
  obtain ⟨valid, -, h⟩ := bind_eq_ok.mp h
  cases valid <;> cases h
  exact hm

/-- A decoder that goes on, however it does. -/
theorem of_bind {m : Manifest} {P : Prop} {d : Decode α} {f : α → Decode Manifest} (h : d >>= f = .ok m)
    (hf : ∀ a, f a = .ok m → P) : P := by
  obtain ⟨a, -, h⟩ := bind_eq_ok.mp h
  exact hf a h

theorem rectify_program {m m' : Manifest} (h : m.rectify = .ok m') : m'.program.isSome := by
  unfold rectify at h
  split at h <;> cases h
  · rfl
  · rename_i hp _
    rw [hp]
    rfl
  · rename_i hp _
    rw [hp]
    rfl

theorem Decoded.program {m : Manifest} (h : m.Decoded) : m.program.isSome := by
  obtain ⟨j, h⟩ := h
  unfold fromJson at h
  iterate 27 refine of_bind h fun m h => ?_
  obtain ⟨m', hm', h⟩ := bind_eq_ok.mp h
  obtain ⟨valid, -, h⟩ := bind_eq_ok.mp h
  cases valid <;> cases h
  exact rectify_program hm'

/-- `validate` reads the label, and so asserts that it is set. -/
theorem Decoded.label {m : Manifest} (h : m.Decoded) : m.label.isEmpty = false := by
  obtain ⟨j, h⟩ := h
  unfold fromJson at h
  iterate 28 refine of_bind h fun m h => ?_
  obtain ⟨valid, hv, h⟩ := bind_eq_ok.mp h
  cases valid <;> cases h
  obtain ⟨label, hlabel, -⟩ := bind_eq_ok.mp hv
  unfold Label.string at hlabel
  split at hlabel
  · cases hlabel
  · rename_i hne
    exact Bool.eq_false_iff.mpr hne

/-! ## Faults -/

def faults : List Fault := Json.exceptions ++
  [.exn "Label cannot be an empty string", .exn "Labels may not include the '/' character", .exn "stoul",
   .exn "unsupported Umask type", .exn "Not currently supported",
   .exn "one of these must be set: Program and/or ProgramArguments", .exn "Invalid manifest", .abort "!value.empty()"]

section Faults

open Decode

variable {j : Json} {key : String} {m : Manifest}

theorem make_faults (s : String) : FaultsIn faults (Label.make s) := by
  unfold Label.make
  split
  · exact fun e he => by cases he; decide
  · split
    · exact fun e he => by cases he; decide
    · exact .done _

theorem umaskOf_faults : FaultsIn faults (umaskOf j) := by
  cases j with
  | int n => exact .done _
  | str s =>
    unfold umaskOf
    dsimp only
    split
    · exact .done _
    · exact fun e he => by cases he; decide
  | null | bool | uint | float | arr | obj => exact fun e he => by cases he; decide

theorem field_faults {f : Json → Decode Manifest} (hf : ∀ v, FaultsIn faults (f v)) : FaultsIn faults (field j key m f) := by
  unfold field
  split
  · exact ((Json.atKey_faults _ _).mono (by decide)).bind hf
  · exact .done _

/-- A field that an accessor reads. -/
theorem read_faults {d : Json → Decode α} {g : α → Manifest} (hd : ∀ v, FaultsIn Json.exceptions (d v)) :
    FaultsIn faults (field j key m fun v => do return g (← d v)) :=
  field_faults fun v => ((hd v).mono (by decide)).bind fun _ => .done _

theorem notSupported_faults : FaultsIn faults (notSupported j key m) :=
  field_faults fun _ e he => by cases he; decide

theorem rectify_faults : FaultsIn faults m.rectify := by
  unfold rectify
  split
  · exact fun e he => by cases he; decide
  · exact .done _
  · exact .done _
  · exact .done _

theorem validate_faults : FaultsIn faults m.validate := by
  refine .bind ?_ fun _ => .done _
  unfold Label.string
  split
  · exact fun e he => by cases he; decide
  · exact .done _

theorem fromJson_faults : FaultsIn faults (fromJson j) := by
  unfold fromJson
  refine (field_faults fun v => ((Json.getString_faults v).mono (by decide)).bind fun _ => (make_faults _).bind fun _ =>
    .done _).bind fun m => ?_
  iterate 3 refine (read_faults Json.getString_faults).bind fun m => ?_
  refine (read_faults Json.getStrings_faults).bind fun m => notSupported_faults.bind fun m => ?_
  refine (read_faults Json.getBool_faults).bind fun m => ?_
  iterate 2 refine (read_faults Json.getString_faults).bind fun m => ?_
  refine (read_faults Json.getStringMap_faults).bind fun m => ?_
  refine (field_faults fun v => umaskOf_faults.bind fun _ => .done _).bind fun m => ?_
  refine (read_faults Json.getBool_faults).bind fun m => ?_
  iterate 4 refine (read_faults Json.getUint32_faults).bind fun m => ?_
  refine (read_faults Json.getBool_faults).bind fun m => ?_
  iterate 3 refine notSupported_faults.bind fun m => ?_
  iterate 3 refine (read_faults Json.getString_faults).bind fun m => ?_
  refine (read_faults Json.getBool_faults).bind fun m => notSupported_faults.bind fun m => ?_
  refine (field_faults fun v => ?_).bind fun m => notSupported_faults.bind fun m => rectify_faults.bind fun m => ?_
  · split
    · exact .done _
    · exact read_faults Json.getBool_faults
    · exact .done _
  · refine validate_faults.bind fun valid => ?_
    cases valid with
    | true => exact .done _
    | false => exact fun e he => by cases he; decide

/-- What reading a label aborts on is that there is none. -/
theorem fromJson_abort {why : String} (h : fromJson j = .error (.abort why)) : why = "!value.empty()" := by
  have hmem := fromJson_faults _ h
  simpa [faults, Json.exceptions] using hmem

end Faults

end Manifest

end Relaunchd
