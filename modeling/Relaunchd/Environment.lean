/-
  Relaunchd.Environment — the environment a job's program is given (`src/job.cc`), and what a
  list of `name=value` strings assigns.
-/

import Relaunchd.Manifest

namespace Relaunchd

structure PasswdEntry where
  uid : Nat
  name : String
  dir : String
  shell : String

def keyval (key val : String) : String := key ++ "=" ++ val

/-! ## The list -/

def standardKeys : List String :=
  ["DISPLAY", "LC_ALL", "LC_COLLATE", "LC_CTYPE", "LC_MESSAGES", "LC_MONETARY", "LC_NUMERIC", "LC_TIME", "NLSPATH", "LANG", "TZ"]

/-- What `add_standard_environment_variables` makes of its argument. -/
def addStandardEnvironmentVariables (getenv : String → Option String) (envvar : List String) : List String :=
  envvar ++ standardKeys.filterMap fun key => (getenv key).map (keyval key)

/-- `manifest.environment_variables.count(name)` -/
def sets (vars : List (String × String)) (name : String) : Bool := vars.any (·.1 == name)

/-- The name that is looked for in the manifest, and the variable that is added without it.
    Without `SHELL` that is another `HOME`. -/
def sessionDefaults (name dir shell : String) : List (String × String × String) :=
  [("LOGNAME", "LOGNAME", name), ("USER", "USER", name), ("HOME", "HOME", dir), ("PATH", "PATH", "/usr/bin:/bin:/usr/local/bin"),
   ("SHELL", "HOME", shell), ("TMPDIR", "TMPDIR", "/tmp"), ("PWD", "PWD", "/")]

def sessionVariables (vars : List (String × String)) (defaults : List (String × String × String)) : List (String × String) :=
  (defaults.filter (!sets vars ·.1)).map (·.2)

/-- The job is not taken for a system daemon. -/
def isSession (pwent : Option PasswdEntry) : Bool := pwent.all (0 < ·.uid)

/-- The defaults, from the entry or without one; `uid` is the daemon's. -/
def defaultsOf (uid : Nat) : Option PasswdEntry → List (String × String × String)
  | some pwent => sessionDefaults pwent.name pwent.dir pwent.shell
  | none => sessionDefaults (toString uid) "/" "/bin/sh"

def Job.setupEnvironmentVariables (manifest : Manifest) (pwent : Option PasswdEntry) (uid : Nat)
    (getenv : String → Option String) : List String :=
  let vars := manifest.environmentVariables
  let result := vars.map fun e => keyval e.1 e.2
  let result := if isSession pwent then result ++ (sessionVariables vars (defaultsOf uid pwent)).map fun e => keyval e.1 e.2 else result
  -- the call takes its vector by value: what it adds is lost
  let _ := addStandardEnvironmentVariables getenv result
  result

/-! ## What a list assigns -/

/-- The name is what stands before the first `=`. -/
def assignment (entry : String) : String × String :=
  (String.ofList (entry.toList.takeWhile (· != '=')), String.ofList (entry.toList.dropWhile (· != '=')).tail)

variable {key val : String}

theorem keyval_toList (key val : String) : (keyval key val).toList = key.toList ++ '=' :: val.toList := by
  rw [keyval, String.toList_append, String.toList_append, List.append_assoc]
  rfl

/-- An entry assigns the value it is built from when its name has no `=`. -/
theorem assignment_keyval (h : '=' ∉ key.toList) : assignment (keyval key val) = (key, val) := by
  have hall : ∀ c ∈ key.toList, (c != '=') = true := fun c hc => bne_iff_ne.mpr fun e => h (e ▸ hc)
  rw [assignment, keyval_toList, List.takeWhile_append_of_pos hall, List.dropWhile_append_of_pos hall]
  simp

/-- No name that is assigned has a `=`. -/
theorem assignment_name (entry : String) : '=' ∉ (assignment entry).1.toList := by
  intro h
  have hmem : '=' ∈ entry.toList.takeWhile (· != '=') := by simpa [assignment] using h
  exact absurd (List.all_eq_true.mp List.all_takeWhile _ hmem) (by decide)

end Relaunchd
