/-
  Relaunchd.RpcClient — the requests that `launchctl` sends (`src/rpc_client.cc`).

  A subcommand makes a message of its arguments, sends it and waits for the reply; the
  message is what the manager gets to see. An exception means that none is sent, and so does
  a read past the end of the arguments, after which the program may do anything.
-/

import Relaunchd.Json

namespace Relaunchd

namespace RpcClient

def argAt (args : List String) (i : Nat) : Decode String :=
  match args[i]? with
  | some arg => .ok arg
  | none => .error (.exn "out_of_range")

/-- `json::array({method, kwargs})` -/
def request (method : String) (kwargs : List (String × Json)) : Json := .arr [.str method, .obj kwargs]

/-! ## The subcommands -/

def labelled (method : String) (args : List String) : Decode Json := do
  return request method [("Label", .str (← argAt args 0))]

def disable : List String → Decode Json := labelled "disable"

def enable : List String → Decode Json := labelled "enable"

def kill (args : List String) : Decode Json := do
  return request "kill" [("Signal", .str (← argAt args 0)), ("Label", .str (← argAt args 1))]

def list (_args : List String) : Decode Json := return .arr [.str "list"]

/-- The `kwargs` of `load` and of `unload`. -/
structure PathArgs where
  overrideDisabled : Bool := false
  force : Bool := false
  paths : List String := []

def PathArgs.members (kwargs : PathArgs) : List (String × Json) :=
  [("OverrideDisabled", .bool kwargs.overrideDisabled), ("Force", .bool kwargs.force), ("Paths", .arr (kwargs.paths.map .str))]

/-- The loop of `load` and of `unload`. What a path is resolved to is up to the client's
    file system; `none` stands for a path that does not exist. -/
def readArgs (canonical : String → Option String) : PathArgs → List String → Decode PathArgs
  | kwargs, [] => return kwargs
  | kwargs, elem :: rest =>
    if elem = "-w" then readArgs canonical { kwargs with overrideDisabled := true } rest
    else if elem = "-F" then readArgs canonical { kwargs with force := true } rest
    else match canonical elem with
      | none => .error (.exn "path does not exist")
      | some path => readArgs canonical { kwargs with paths := kwargs.paths ++ [path] } rest

def load (canonical : String → Option String) (args : List String) : Decode Json := do
  return request "load" (← readArgs canonical {} args).members

def remove : List String → Decode Json := labelled "remove"

def start : List String → Decode Json := labelled "start"

def stop : List String → Decode Json := labelled "stop"

/-- The `kwargs` of `submit`. -/
structure SubmitArgs where
  programArguments : List String := []
  program : Option String := none
  label : Option String := none
  standardOutPath : Option String := none
  standardErrorPath : Option String := none

def SubmitArgs.members (kwargs : SubmitArgs) : List (String × Json) :=
  ("ProgramArguments", .arr (kwargs.programArguments.map .str)) ::
    [("Program", kwargs.program), ("Label", kwargs.label), ("StandardOutPath", kwargs.standardOutPath),
      ("StandardErrorPath", kwargs.standardErrorPath)].filterMap fun m => m.2.map fun value => (m.1, .str value)

/-- What the argument after an option is stored as. -/
def SubmitArgs.option : String → Option (SubmitArgs → String → SubmitArgs)
  | "-p" => some fun kwargs value => { kwargs with program := some value }
  | "-l" => some fun kwargs value => { kwargs with label := some value }
  | "-o" => some fun kwargs value => { kwargs with standardOutPath := some value }
  | "-e" => some fun kwargs value => { kwargs with standardErrorPath := some value }
  | _ => none

/-- The loop of `submit`, in the preamble and after it. An option takes the argument that
    follows, without a look at whether there is one; what is no option is skipped. -/
def submitLoop : SubmitArgs → Bool → List String → Decode SubmitArgs
  | kwargs, _, [] => return kwargs
  | kwargs, true, arg :: rest =>
    match SubmitArgs.option arg with
    | some store =>
      match rest with
      | [] => .error (.abort "past the end of the arguments")
      | value :: rest => submitLoop (store kwargs value) true rest
    | none => submitLoop kwargs (arg != "--") rest
  | kwargs, false, arg :: rest =>
    submitLoop { kwargs with programArguments := kwargs.programArguments ++ [arg] } false rest

/-- The variables of that loop. -/
structure SubmitState where
  it : Nat := 0
  preamble : Bool := true
  kwargs : SubmitArgs := {}

def deref (args : List String) (it : Nat) : Decode String :=
  match args[it]? with
  | some arg => .ok arg
  | none => .error (.abort "past the end of the arguments")

/-- One turn: what the loop does with `*it`, and `it++`. -/
def submitTurn (args : List String) (s : SubmitState) : Decode SubmitState := do
  let arg ← deref args s.it
  if s.preamble then
    match SubmitArgs.option arg with
    | some store => return { s with it := s.it + 2, kwargs := store s.kwargs (← deref args (s.it + 1)) }
    | none => return { s with it := s.it + 1, preamble := arg != "--" }
  else return { s with it := s.it + 1, kwargs := { s.kwargs with programArguments := s.kwargs.programArguments ++ [arg] } }

/-- A run of the loop ends when the iterator is equal to `args.end()`. -/
inductive Loops (args : List String) : SubmitState → Decode SubmitArgs → Prop
  | done {s : SubmitState} : s.it = args.length → Loops args s (.ok s.kwargs)
  | fails {s : SubmitState} {e : Fault} : s.it ≠ args.length → submitTurn args s = .error e → Loops args s (.error e)
  | turns {s s' : SubmitState} {r : Decode SubmitArgs} : s.it ≠ args.length → submitTurn args s = .ok s' →
      Loops args s' r → Loops args s r

def submit (args : List String) : Decode Json := do
  let kwargs ← submitLoop {} true args
  if kwargs.label.isNone then .error (.exn "Label is required")
  else return request "submit" kwargs.members

def unload (canonical : String → Option String) (args : List String) : Decode Json := do
  return request "unload" (← readArgs canonical {} args).members

def version (_args : List String) : Decode Json := return .arr [.str "version"]

/-! ## The table -/

def subcommands (canonical : String → Option String) : List (String × (List String → Decode Json)) :=
  [("disable", disable), ("enable", enable), ("kill", kill), ("list", list), ("load", load canonical), ("remove", remove),
   ("start", start), ("stop", stop), ("submit", submit), ("unload", unload canonical), ("version", version)]

/-- `invokeMethod`, as far as the message. -/
def invokeMethod (canonical : String → Option String) (method : String) (args : List String) : Decode Json :=
  match (subcommands canonical).find? (·.1 == method) with
  | some subcommand => subcommand.2 args
  | none => .error (.exn "out_of_range")

/-! ## The loop of `submit` -/

section Loops

variable {args : List String} {s s' : SubmitState} {r r' : Decode SubmitArgs}

theorem deref_of_lt {i : Nat} (h : i < args.length) : deref args i = .ok args[i] := by
  rw [deref, List.getElem?_eq_getElem h]

theorem deref_end : deref args args.length = .error (.abort "past the end of the arguments") := by
  rw [deref, List.getElem?_eq_none (Nat.le_refl _)]

/-- All a turn can do; an option that comes last makes it read past the end. -/
theorem submitTurn_cases (hlt : s.it < args.length) :
    (s.preamble = false ∧ submitTurn args s =
      .ok { s with it := s.it + 1, kwargs := { s.kwargs with programArguments := s.kwargs.programArguments ++ [args[s.it]] } }) ∨
    (s.preamble = true ∧ SubmitArgs.option args[s.it] = none ∧
      submitTurn args s = .ok { s with it := s.it + 1, preamble := args[s.it] != "--" }) ∨
    (s.preamble = true ∧ ∃ store, SubmitArgs.option args[s.it] = some store ∧ ∃ hlt' : s.it + 1 < args.length,
      submitTurn args s = .ok { s with it := s.it + 2, kwargs := store s.kwargs args[s.it + 1] }) ∨
    (s.preamble = true ∧ SubmitArgs.option args[s.it] ≠ none ∧ s.it + 1 = args.length ∧
      submitTurn args s = .error (.abort "past the end of the arguments")) := by
  obtain ⟨it, preamble, kwargs⟩ := s
  dsimp only at hlt ⊢
  cases preamble with
  | false =>
    refine .inl ⟨rfl, ?_⟩
    rw [submitTurn, deref_of_lt hlt]
    rfl
  | true =>
    refine .inr ?_
    cases hoption : SubmitArgs.option args[it] with
    | none =>
      refine .inl ⟨rfl, rfl, ?_⟩
      rw [submitTurn, deref_of_lt hlt]
      simp only [bind, Except.bind, if_true, hoption]
      rfl
    | some store =>
      by_cases hlt' : it + 1 < args.length
      · refine .inr (.inl ⟨rfl, store, rfl, hlt', ?_⟩)
        rw [submitTurn, deref_of_lt hlt]
        simp only [bind, Except.bind, if_true, hoption, deref_of_lt hlt']
        rfl
      · have hlast : it + 1 = args.length := by omega
        refine .inr (.inr ⟨rfl, nofun, hlast, ?_⟩)
        rw [submitTurn, deref_of_lt hlt]
        simp only [bind, Except.bind, if_true, hoption, hlast, deref_end]

theorem Loops.unique (h : Loops args s r) (h' : Loops args s r') : r = r' := by
  induction h with
  | done hend =>
    cases h' with
    | done _ => rfl
    | fails hne _ => exact absurd hend hne
    | turns hne _ _ => exact absurd hend hne
  | fails hne hturn =>
    cases h' with
    | done hend => exact absurd hend hne
    | fails _ hturn' =>
      cases hturn.symm.trans hturn'
      rfl
    | turns _ hturn' _ => cases hturn.symm.trans hturn'
  | turns hne hturn _ ih =>
    cases h' with
    | done hend => exact absurd hend hne
    | fails _ hturn' => cases hturn.symm.trans hturn'
    | turns _ hturn' hrest =>
      cases hturn.symm.trans hturn'
      exact ih hrest

/-- The loop ends: from an iterator inside the arguments, it does what `submitLoop` does
    with the arguments that are left. -/
theorem submitLoop_loops (s : SubmitState) (hit : s.it ≤ args.length) :
    Loops args s (submitLoop s.kwargs s.preamble (args.drop s.it)) := by
  induction hn : args.length - s.it using Nat.strongRecOn generalizing s with
  | ind n ih =>
    subst hn
    by_cases hend : s.it = args.length
    · rw [List.drop_of_length_le (by omega), submitLoop]
      exact .done hend
    have hlt : s.it < args.length := by omega
    have hloop : ∀ s' : SubmitState, submitTurn args s = .ok s' → s.it < s'.it → s'.it ≤ args.length →
        Loops args s (submitLoop s'.kwargs s'.preamble (args.drop s'.it)) := fun s' hturn hle hit' =>
      .turns hend hturn (ih (args.length - s'.it) (by omega) s' hit' rfl)
    rw [List.drop_eq_getElem_cons hlt]
    rcases submitTurn_cases hlt with ⟨hp, hturn⟩ | ⟨hp, hoption, hturn⟩ | ⟨hp, store, hoption, hlt', hturn⟩ |
      ⟨hp, hoption, hlast, hturn⟩
    · simpa only [hp, submitLoop] using hloop _ hturn (Nat.lt_succ_self _) hlt
    · simpa only [hp, submitLoop, hoption] using hloop _ hturn (Nat.lt_succ_self _) hlt
    · rw [List.drop_eq_getElem_cons hlt']
      simpa only [hp, submitLoop, hoption] using hloop _ hturn (by simp) hlt'
    · obtain ⟨store, hstore⟩ := Option.ne_none_iff_exists'.mp hoption
      rw [List.drop_of_length_le (by omega), hp]
      simp only [submitLoop, hstore]
      exact .fails hend hturn

theorem loops_iff : Loops args {} r ↔ r = submitLoop {} true args := by
  have hloop : Loops args {} (submitLoop {} true args) := submitLoop_loops {} (Nat.zero_le _)
  exact ⟨fun h => h.unique hloop, fun h => h ▸ hloop⟩

end Loops

/-! ## Messages -/

inductive Message : String → Json → Prop
  | label {method : String} (label : String) : method ∈ ["disable", "enable", "remove", "start", "stop"] →
      Message method (request method [("Label", .str label)])
  | kill (signal label : String) : Message "kill" (request "kill" [("Signal", .str signal), ("Label", .str label)])
  | list : Message "list" (.arr [.str "list"])
  | paths {method : String} (kwargs : PathArgs) : method ∈ ["load", "unload"] → Message method (request method kwargs.members)
  | submit (kwargs : SubmitArgs) (label : String) : kwargs.label = some label → Message "submit" (request "submit" kwargs.members)
  | version : Message "version" (.arr [.str "version"])

section Message

variable {canonical : String → Option String} {method : String} {args : List String} {message : Json}

theorem labelled_sends (hm : method ∈ ["disable", "enable", "remove", "start", "stop"]) (h : labelled method args = .ok message) :
    Message method message := by
  obtain ⟨label, -, h⟩ := bind_eq_ok.mp h
  cases h
  exact .label label hm

theorem kill_sends (h : kill args = .ok message) : Message "kill" message := by
  obtain ⟨signal, -, h⟩ := bind_eq_ok.mp h
  obtain ⟨label, -, h⟩ := bind_eq_ok.mp h
  cases h
  exact .kill signal label

theorem readArgs_sends (hm : method ∈ ["load", "unload"])
    (h : (do return request method (← readArgs canonical {} args).members : Decode Json) = .ok message) : Message method message := by
  obtain ⟨kwargs, -, h⟩ := bind_eq_ok.mp h
  cases h
  exact .paths kwargs hm

theorem submit_sends (h : submit args = .ok message) : Message "submit" message := by
  obtain ⟨kwargs, -, h⟩ := bind_eq_ok.mp h
  cases hl : kwargs.label with
  | none =>
    rw [hl] at h
    cases h
  | some label =>
    rw [hl] at h
    cases h
    exact .submit kwargs label hl

/-- What a subcommand sends is a message of its method. -/
theorem invokeMethod_sends (h : invokeMethod canonical method args = .ok message) : Message method message := by
  unfold invokeMethod at h
  cases hf : (subcommands canonical).find? (·.1 == method) with
  | none => rw [hf] at h; cases h
  | some subcommand =>
    rw [hf] at h
    have hkey := List.find?_some hf
    have hmem := List.mem_of_find?_eq_some hf
    simp only [beq_iff_eq] at hkey
    subst hkey
    simp only [subcommands, List.mem_cons, List.not_mem_nil, or_false] at hmem
    rcases hmem with rfl | rfl | rfl | rfl | rfl | rfl | rfl | rfl | rfl | rfl | rfl
    · exact labelled_sends (by decide) h
    · exact labelled_sends (by decide) h
    · exact kill_sends h
    · cases h
      exact .list
    · exact readArgs_sends (by simp) h
    · exact labelled_sends (by decide) h
    · exact labelled_sends (by decide) h
    · exact labelled_sends (by decide) h
    · exact submit_sends h
    · exact readArgs_sends (by simp) h
    · cases h
      exact .version

end Message

end RpcClient

end Relaunchd
