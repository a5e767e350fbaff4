/-
  Relaunchd.Properties.Submitting — what `launchctl submit` makes of its arguments.

  What an argument is follows from where it stands, without the loop: it is the value of an
  option when the argument before it is an option and is no value itself. The manifest is to
  have the value of the last option of each kind before the first `--` that is no value, and
  the arguments after that `--`.

  The loop does this, and ends, unless the last argument is an option and no such `--` comes
  before it: the loop reads past the end of the arguments then.
-/

import Relaunchd.RpcClient

namespace Relaunchd

namespace RpcClient

/-! ## The arguments by position -/

def optionKeys : List (String × String) :=
  [("-p", "Program"), ("-l", "Label"), ("-o", "StandardOutPath"), ("-e", "StandardErrorPath")]

/-- Before `i` comes an option that is no value itself. -/
def IsValue (args : List String) : Nat → Prop
  | 0 => False
  | i + 1 => (∃ option ∈ optionKeys.map (·.1), args[i]? = some option) ∧ ¬ IsValue args i

def StandsAt (args : List String) (arg : String) (i : Nat) : Prop := args[i]? = some arg ∧ ¬ IsValue args i

/-- The first `--` is at `d`; without one the options go on to the end. -/
def Separator (args : List String) (d : Nat) : Prop :=
  (∀ i < d, ¬ StandsAt args "--" i) ∧ (StandsAt args "--" d ∨ d = args.length)

/-- The value of the last such option before `d`, if there is one. -/
def LastValue (args : List String) (d : Nat) (option : String) : Option String → Prop
  | none => ∀ i < d, ¬ StandsAt args option i
  | some value => ∃ i < d, StandsAt args option i ∧ args[i + 1]? = some value ∧ ∀ j < d, i < j → ¬ StandsAt args option j

/-- The manifest that the arguments ask for. -/
structure Submitted (args : List String) (manifest : List (String × Json)) (d : Nat) : Prop where
  separator : Separator args d
  options : ∀ o ∈ optionKeys, ∃ value, LastValue args d o.1 value ∧ Json.find manifest o.2 = value.map .str
  arguments : Json.find manifest "ProgramArguments" = some (.arr ((args.drop (d + 1)).map .str))

/-- The loop ends without a read past the end, and `submit` throws or sends the manifest. -/
def SubmitMeets (args : List String) : Prop :=
  (∃ kwargs, Loops args {} (.ok kwargs)) ∧
    ((∃ what, submit args = .error (.exn what)) ∨
      ∃ manifest d, submit args = .ok (request "submit" manifest) ∧ Submitted args manifest d)

/-- The last argument is an option, and no `--` comes before it. -/
def EndsInOption (args : List String) : Prop := IsValue args args.length ∧ ∀ i, ¬ StandsAt args "--" i

/-! ## Options -/

section Options

variable {args : List String} {arg option v : String} {store : SubmitArgs → String → SubmitArgs} {kwargs : SubmitArgs}
  {o : String × String} {i d : Nat} {found : Option String}

def SubmitArgs.value (kwargs : SubmitArgs) : String → Option String
  | "-p" => kwargs.program
  | "-l" => kwargs.label
  | "-o" => kwargs.standardOutPath
  | "-e" => kwargs.standardErrorPath
  | _ => none

theorem option_ne_none : SubmitArgs.option arg ≠ none ↔ arg ∈ optionKeys.map (·.1) := by
  unfold SubmitArgs.option
  split
  case h_5 hp hl ho he =>
    simp only [optionKeys, List.map_cons, List.map_nil, List.mem_cons, List.not_mem_nil, or_false, not_or, ne_eq, not_true, false_iff]
    exact ⟨hp, hl, ho, he⟩
  all_goals simp [optionKeys]

theorem option_separator : SubmitArgs.option "--" = none := rfl

theorem option_store (h : SubmitArgs.option arg = some store) (ho : o ∈ optionKeys) :
    (store kwargs v).value o.1 = if arg = o.1 then some v else kwargs.value o.1 := by
  simp only [optionKeys, List.mem_cons, List.not_mem_nil, or_false] at ho
  unfold SubmitArgs.option at h
  split at h <;> cases h <;> rcases ho with rfl | rfl | rfl | rfl <;> rfl

theorem option_arguments (h : SubmitArgs.option arg = some store) :
    (store kwargs v).programArguments = kwargs.programArguments := by
  unfold SubmitArgs.option at h
  split at h <;> cases h <;> rfl

theorem find_members (ho : o ∈ optionKeys) : Json.find kwargs.members o.2 = (kwargs.value o.1).map .str := by
  obtain ⟨programArguments, program, label, out, err⟩ := kwargs
  simp only [optionKeys, List.mem_cons, List.not_mem_nil, or_false] at ho
  rcases ho with rfl | rfl | rfl | rfl <;> cases program <;> cases label <;> cases out <;> cases err <;> rfl

theorem find_arguments : Json.find kwargs.members "ProgramArguments" = some (.arr (kwargs.programArguments.map .str)) := rfl

/-! ## One argument further -/

theorem isValue_succ (hoption : SubmitArgs.option arg ≠ none) (harg : args[i]? = some arg) :
    IsValue args (i + 1) ↔ ¬ IsValue args i := by
  have hexists : ∃ option ∈ optionKeys.map (·.1), args[i]? = some option := ⟨arg, option_ne_none.mp hoption, harg⟩
  exact and_iff_right hexists

theorem not_isValue_succ (hoption : SubmitArgs.option arg = none) (harg : args[i]? = some arg) : ¬ IsValue args (i + 1) := by
  intro h
  obtain ⟨⟨option, hmem, hsome⟩, -⟩ := h
  cases harg.symm.trans hsome
  exact option_ne_none.mpr hmem hoption

theorem not_standsAt (hlt : i < args.length) (hne : args[i] ≠ arg) : ¬ StandsAt args arg i := fun h =>
  hne (List.getElem?_eq_some_iff.mp h.1).2

theorem LastValue.skip (h : LastValue args d option found) (hd : ¬ StandsAt args option d) : LastValue args (d + 1) option found := by
  cases found with
  | none =>
    intro i hi
    rcases Nat.lt_succ_iff_lt_or_eq.mp hi with hi | rfl
    · exact h i hi
    · exact hd
  | some value =>
    obtain ⟨i, hi, hstands, hvalue, hlast⟩ := h
    refine ⟨i, by omega, hstands, hvalue, fun j hj hij => ?_⟩
    rcases Nat.lt_succ_iff_lt_or_eq.mp hj with hj | rfl
    · exact hlast j hj hij
    · exact hd

theorem lastValue_here (hstands : StandsAt args option d) (hvalue : args[d + 1]? = some v) :
    LastValue args (d + 1) option (some v) :=
  ⟨d, Nat.lt_succ_self d, hstands, hvalue, fun j hj hdj => absurd hj (by omega)⟩

end Options

/-! ## The loop -/

section Loop

variable {args : List String} {s s' : SubmitState} {r : Decode SubmitArgs} {d : Nat}

/-- What the loop knows before it meets the separator. -/
structure InPreamble (args : List String) (s : SubmitState) : Prop where
  preamble : s.preamble = true
  noValue : ¬ IsValue args s.it
  noSeparator : ∀ i < s.it, ¬ StandsAt args "--" i
  options : ∀ o ∈ optionKeys, LastValue args s.it o.1 (s.kwargs.value o.1)
  arguments : s.kwargs.programArguments = []

/-- What it knows when the separator, at `d`, is behind it. -/
structure PastSeparator (args : List String) (s : SubmitState) (d : Nat) : Prop where
  preamble : s.preamble = false
  behind : d < s.it
  separator : StandsAt args "--" d
  noSeparator : ∀ i < d, ¬ StandsAt args "--" i
  options : ∀ o ∈ optionKeys, LastValue args d o.1 (s.kwargs.value o.1)
  arguments : s.kwargs.programArguments = (args.take s.it).drop (d + 1)

def LoopInv (args : List String) (s : SubmitState) : Prop :=
  s.it ≤ args.length ∧ (InPreamble args s ∨ ∃ d, PastSeparator args s d)

theorem loopInv_begin (args : List String) : LoopInv args {} := by
  refine ⟨Nat.zero_le _, .inl ?_⟩
  refine ⟨rfl, id, fun i hi => absurd hi (Nat.not_lt_zero i), fun o ho => ?_, rfl⟩
  have hnone : (SubmitArgs.value {} o.1) = none := by
    simp only [optionKeys, List.mem_cons, List.not_mem_nil, or_false] at ho
    rcases ho with rfl | rfl | rfl | rfl <;> rfl
  rw [hnone]
  exact fun i hi => absurd hi (Nat.not_lt_zero i)

/-- An option and its value. -/
theorem InPreamble.option {store : SubmitArgs → String → SubmitArgs} (h : InPreamble args s) (hlt : s.it + 1 < args.length)
    (hoption : SubmitArgs.option args[s.it] = some store) :
    InPreamble args { s with it := s.it + 2, kwargs := store s.kwargs args[s.it + 1] } := by
  have harg : args[s.it]? = some args[s.it] := List.getElem?_eq_getElem _
  have hsome : SubmitArgs.option args[s.it] ≠ none := by simp [hoption]
  have hvalue : IsValue args (s.it + 1) := (isValue_succ hsome harg).mpr h.noValue
  have hnot : ∀ arg, ¬ StandsAt args arg (s.it + 1) := fun arg hstands => hstands.2 hvalue
  refine ⟨h.preamble, ?_, fun i hi => ?_, fun o ho => ?_, ?_⟩
  · by_cases hnext : SubmitArgs.option args[s.it + 1] = none
    · exact not_isValue_succ hnext (List.getElem?_eq_getElem _)
    · exact fun hv => (isValue_succ hnext (List.getElem?_eq_getElem _)).mp hv hvalue
  · dsimp only at hi
    by_cases hlast : i = s.it + 1
    · subst hlast
      exact hnot "--"
    · by_cases hhere : i = s.it
      · subst hhere
        exact not_standsAt _ fun heq => hsome (heq ▸ option_separator)
      · exact h.noSeparator i (by omega)
  · dsimp only
    rw [option_store hoption ho]
    by_cases heq : args[s.it] = o.1
    · rw [if_pos heq]
      have hstands : StandsAt args o.1 s.it := ⟨heq ▸ harg, h.noValue⟩
      exact (lastValue_here hstands (List.getElem?_eq_getElem hlt)).skip (hnot o.1)
    · rw [if_neg heq]
      exact ((h.options o ho).skip (not_standsAt _ heq)).skip (hnot o.1)
  · exact (option_arguments hoption).trans h.arguments

/-- Any other argument but the separator. -/
theorem InPreamble.skip (h : InPreamble args s) (hlt : s.it < args.length) (hoption : SubmitArgs.option args[s.it] = none)
    (hsep : args[s.it] ≠ "--") : InPreamble args { s with it := s.it + 1 } := by
  have harg : args[s.it]? = some args[s.it] := List.getElem?_eq_getElem _
  refine ⟨h.preamble, not_isValue_succ hoption harg, fun i hi => ?_, fun o ho => ?_, h.arguments⟩
  · rcases Nat.lt_succ_iff_lt_or_eq.mp hi with hi | rfl
    · exact h.noSeparator i hi
    · exact not_standsAt hlt hsep
  · refine (h.options o ho).skip (not_standsAt hlt fun heq => ?_)
    exact option_ne_none.mpr (List.mem_map_of_mem ho) (heq ▸ hoption)

/-- The separator. -/
theorem InPreamble.separates (h : InPreamble args s) (hsep : args[s.it]? = some "--") :
    PastSeparator args { s with it := s.it + 1, preamble := false } s.it where
  preamble := rfl
  behind := Nat.lt_succ_self _
  separator := ⟨hsep, h.noValue⟩
  noSeparator := h.noSeparator
  options := h.options
  arguments := by
    rw [List.drop_of_length_le (List.length_take_le _ _)]
    exact h.arguments

/-- An argument of the program. -/
theorem PastSeparator.argument (h : PastSeparator args s d) (hlt : s.it < args.length) :
    PastSeparator args
      { s with it := s.it + 1, kwargs := { s.kwargs with programArguments := s.kwargs.programArguments ++ [args[s.it]] } } d where
  preamble := h.preamble
  behind := Nat.lt_succ_of_lt h.behind
  separator := h.separator
  noSeparator := h.noSeparator
  options := h.options
  arguments := by
    have hbehind := h.behind
    dsimp only
    rw [List.take_succ_eq_append_getElem hlt, List.drop_append_of_le_length (by rw [List.length_take]; omega), h.arguments]

theorem submitTurn_keeps (hs : LoopInv args s) (hend : s.it ≠ args.length) (h : submitTurn args s = .ok s') : LoopInv args s' := by
  have hlt : s.it < args.length := by have := hs.1; omega
  rcases submitTurn_cases hlt with ⟨hp, hturn⟩ | ⟨hp, hoption, hturn⟩ | ⟨hp, store, hoption, hlt', hturn⟩ |
    ⟨hp, hoption, hlast, hturn⟩
  all_goals cases h.symm.trans hturn
  · refine ⟨hlt, ?_⟩
    rcases hs.2 with hin | ⟨d, hpast⟩
    · cases hp.symm.trans hin.preamble
    · exact .inr ⟨d, hpast.argument hlt⟩
  · refine ⟨hlt, ?_⟩
    rcases hs.2 with hin | ⟨d, hpast⟩
    · by_cases hsep : args[s.it] = "--"
      · have hpast := hin.separates (List.getElem?_eq_some_iff.mpr ⟨hlt, hsep⟩)
        have hleave : (args[s.it] != "--") = false := by simpa using hsep
        exact .inr ⟨s.it, by rw [hleave]; exact hpast⟩
      · have hskip := hin.skip hlt hoption hsep
        have hkeep : (args[s.it] != "--") = s.preamble := by rw [hp]; simpa using hsep
        exact .inl (by rw [hkeep]; exact hskip)
    · cases hp.symm.trans hpast.preamble
  · refine ⟨hlt', ?_⟩
    rcases hs.2 with hin | ⟨d, hpast⟩
    · exact .inl (hin.option hlt' hoption)
    · cases hp.symm.trans hpast.preamble

theorem submitTurn_fails {e : Fault} (hs : LoopInv args s) (hend : s.it ≠ args.length) (h : submitTurn args s = .error e) :
    EndsInOption args := by
  have hlt : s.it < args.length := by have := hs.1; omega
  rcases submitTurn_cases hlt with ⟨hp, hturn⟩ | ⟨hp, hoption, hturn⟩ | ⟨hp, store, hoption, hlt', hturn⟩ |
    ⟨hp, hoption, hlast, hturn⟩
  all_goals cases h.symm.trans hturn
  rcases hs.2 with hin | ⟨d, hpast⟩
  · have harg : args[s.it]? = some args[s.it] := List.getElem?_eq_getElem _
    refine ⟨hlast ▸ (isValue_succ hoption harg).mpr hin.noValue, fun i hi => ?_⟩
    have hi' : i < args.length := (List.getElem?_eq_some_iff.mp hi.1).1
    by_cases hhere : i = s.it
    · subst hhere
      exact not_standsAt hlt (fun heq => hoption (heq ▸ option_separator)) hi
    · exact hin.noSeparator i (by omega) hi
  · cases hp.symm.trans hpast.preamble

/-- What the loop stored, with the separator at `d`. -/
structure Parsed (args : List String) (kwargs : SubmitArgs) (d : Nat) : Prop where
  separator : Separator args d
  options : ∀ o ∈ optionKeys, LastValue args d o.1 (kwargs.value o.1)
  arguments : kwargs.programArguments = args.drop (d + 1)

theorem LoopInv.parsed (hs : LoopInv args s) (hend : s.it = args.length) :
    ¬ EndsInOption args ∧ ∃ d, Parsed args s.kwargs d := by
  rcases hs.2 with hin | ⟨d, hpast⟩
  · refine ⟨fun h => hin.noValue (hend ▸ h.1), args.length, ⟨hend ▸ hin.noSeparator, .inr rfl⟩, hend ▸ hin.options, ?_⟩
    rw [List.drop_of_length_le (Nat.le_succ _)]
    exact hin.arguments
  · refine ⟨fun h => h.2 d hpast.separator, d, ⟨hpast.noSeparator, .inl hpast.separator⟩, hpast.options, ?_⟩
    rw [hpast.arguments, hend, List.take_length]

theorem Loops.parsed (h : Loops args s r) (hs : LoopInv args s) :
    (∃ e, r = .error e) ∧ EndsInOption args ∨ ¬ EndsInOption args ∧ ∃ kwargs d, r = .ok kwargs ∧ Parsed args kwargs d := by
  induction h with
  | done hend =>
    obtain ⟨hnot, d, hparsed⟩ := hs.parsed hend
    exact .inr ⟨hnot, _, d, rfl, hparsed⟩
  | fails hne hturn => exact .inl ⟨⟨_, rfl⟩, submitTurn_fails hs hne hturn⟩
  | turns hne hturn _ ih => exact ih (submitTurn_keeps hs hne hturn)

end Loop

/-! ## The manifest -/

theorem submitMeets_iff (args : List String) : SubmitMeets args ↔ ¬ EndsInOption args := by
  constructor
  · intro h
    obtain ⟨⟨kwargs, hloop⟩, -⟩ := h
    rcases hloop.parsed (loopInv_begin args) with ⟨⟨e, he⟩, -⟩ | ⟨hnot, -⟩
    · cases he
    · exact hnot
  · intro hnot
    have hloop : Loops args {} (submitLoop {} true args) := loops_iff.mpr rfl
    rcases hloop.parsed (loopInv_begin args) with ⟨-, hends⟩ | ⟨-, kwargs, d, hok, hparsed⟩
    · exact absurd hends hnot
    refine ⟨⟨kwargs, hok ▸ hloop⟩, ?_⟩
    have hsubmit : submit args =
        if kwargs.label.isNone then .error (.exn "Label is required") else .ok (request "submit" kwargs.members) := by
      rw [submit, hok]
      rfl
    rw [hsubmit]
    by_cases hlabel : kwargs.label.isNone
    · rw [if_pos hlabel]
      exact .inl ⟨_, rfl⟩
    · rw [if_neg hlabel]
      refine .inr ⟨kwargs.members, d, rfl, hparsed.separator, fun o ho => ?_, ?_⟩
      · exact ⟨_, hparsed.options o ho, find_members ho⟩
      · rw [find_arguments, hparsed.arguments]

example : submit ["submit", "-l", "a", "-o", "-e", "-l", "--", "-l", "job", "--", "/bin/sh", "-l"] =
    .ok (request "submit" [("ProgramArguments", .arr [.str "/bin/sh", .str "-l"]), ("Label", .str "job"),
      ("StandardOutPath", .str "-e")]) := rfl

/-- `launchctl submit -l` -/
theorem submit_last_option : ¬ ∀ args, SubmitMeets args := by
  intro h
  obtain ⟨⟨kwargs, hloop⟩, -⟩ := h ["-l"]
  cases loops_iff.mp hloop

end RpcClient

end Relaunchd
