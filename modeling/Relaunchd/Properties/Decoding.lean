/-
  Relaunchd.Properties.Decoding — which documents `from_json` accepts, what it makes of them,
  and what it does with the rest.

  A document is accepted when every key can be read and the two passes agree; the numbers it
  holds are taken less strictly than that.
-/

import Relaunchd.ManifestKeys
import Relaunchd.Numerals
import Relaunchd.Properties.Loading

namespace Relaunchd

namespace Manifest

variable {j v : Json} {m : Manifest}

/-! ## What is accepted -/

def Legible (j : Json) : Prop := ∀ k ∈ keys, ∀ v, j.member? k.name = some v → k.type.Typed v ∧ k.type.Legal v

def GivesProgram (j : Json) : Prop :=
  j.contains "Program" ∨ ∃ a as, j.member? "ProgramArguments" = some (.arr (a :: as))

structure Accepted (j : Json) : Prop where
  legible : Legible j
  program : GivesProgram j
  label : j.contains "Label"
  group : j.contains "GroupName" → j.contains "UserName"

theorem legible_iff : Legible j ↔ ∀ k ∈ keys, k.Readable j :=
  forall₂_congr fun _ _ => forall₂_congr fun _ _ => KeyType.decode_ok.symm

theorem Legible.decodes {k : Key} (h : Legible j) (hk : k ∈ keys) (hv : j.member? k.name = some v) :
    ∃ x, k.type.decode v = .ok x := legible_iff.mp h k hk v hv

/-- A key says something when it is there. -/
theorem Legible.value_isSome {k : Key} (h : Legible j) (hk : k ∈ keys) : (k.value j).isSome = j.contains k.name := by
  rw [Json.contains_eq, Key.value]
  cases hv : j.member? k.name with
  | none => rfl
  | some v =>
    obtain ⟨x, hx⟩ := h.decodes hk hv
    simp only [Option.bind_eq_bind, Option.bind_some, hx]
    rfl

theorem Legible.fromJson (h : Legible j) : fromJson j = finish (assigned j) := by
  rw [fromJson_eq, readAll_ok (legible_iff.mp h)]
  rfl

theorem value_eq {k : Key} {x : k.type.Value} : k.value j = some x ↔ ∃ v, j.member? k.name = some v ∧ k.type.decode v = .ok x := by
  unfold Key.value
  cases hv : j.member? k.name with
  | none => exact iff_of_false nofun fun ⟨_, h, _⟩ => nomatch h
  | some v =>
    simp only [Option.bind_eq_bind, Option.bind_some, Option.some.injEq, exists_eq_left']
    cases k.type.decode v with
    | ok y => exact ⟨fun h => by cases h; rfl, fun h => by cases h; rfl⟩
    | error e => exact iff_of_false nofun nofun

theorem illegible_refused (h : ¬ Legible j) : ∃ what, fromJson j = .error (.exn what) := by
  obtain ⟨what, hw⟩ := readAll_refuses (fun hr => h (legible_iff.mpr hr)) {}
  exact ⟨what, by rw [fromJson_eq, hw]; rfl⟩

section Assigned

variable (j)

theorem assigned_label : (assigned j).label = (labelKey.value j).getD "" := by
  rw [governs.1.field j]
  cases labelKey.value j <;> rfl

theorem assigned_userName : (assigned j).userName = userNameKey.value j := by
  rw [governs.2.1.field j]
  cases userNameKey.value j <;> rfl

theorem assigned_groupName : (assigned j).groupName = groupNameKey.value j := by
  rw [governs.2.2.1.field j]
  cases groupNameKey.value j <;> rfl

theorem assigned_program : (assigned j).program = programKey.value j := by
  rw [governs.2.2.2.1.field j]
  cases programKey.value j <;> rfl

theorem assigned_programArguments : (assigned j).programArguments = (programArgumentsKey.value j).getD [] := by
  rw [governs.2.2.2.2.1.field j]
  cases programArgumentsKey.value j <;> rfl

theorem assigned_umask : (assigned j).umask = umaskKey.value j := by
  rw [governs.2.2.2.2.2.1.field j]
  cases umaskKey.value j <;> rfl

end Assigned

section Passes

variable (h : Legible j)
include h

theorem Legible.label : (assigned j).label.isEmpty = !j.contains "Label" := by
  rw [assigned_label, ← h.value_isSome (k := labelKey) governs.1.mem]
  cases hv : labelKey.value j with
  | none => rfl
  | some s =>
    obtain ⟨v, -, hd⟩ := value_eq.mp hv
    obtain ⟨s', -, hs⟩ := bind_eq_ok.mp hd
    obtain ⟨rfl, hne, -⟩ := make_ok.mp hs
    exact hne

theorem Legible.userName : (assigned j).userName.isSome = j.contains "UserName" := by
  rw [assigned_userName, h.value_isSome governs.2.1.mem]

theorem Legible.groupName : (assigned j).groupName.isSome = j.contains "GroupName" := by
  rw [assigned_groupName, h.value_isSome governs.2.2.1.mem]

theorem Legible.arguments : (assigned j).programArguments ≠ [] ↔
    ∃ a as, j.member? "ProgramArguments" = some (.arr (a :: as)) := by
  rw [assigned_programArguments]
  constructor
  · intro hne
    cases hv : programArgumentsKey.value j with
    | none => exact absurd (by rw [hv]; rfl) hne
    | some ss =>
      obtain ⟨v, hm, hd⟩ := value_eq.mp hv
      rw [hv] at hne
      obtain ⟨s, ss', rfl⟩ := List.exists_cons_of_ne_nil hne
      exact ⟨.str s, ss'.map .str, hm.trans (congrArg some (getStrings_ok.mp hd))⟩
  · intro h'
    obtain ⟨a, as, hm⟩ := h'
    obtain ⟨ss, hd⟩ := h.decodes (k := programArgumentsKey) governs.2.2.2.2.1.mem hm
    have hv : programArgumentsKey.value j = some ss := value_eq.mpr ⟨_, hm, hd⟩
    have hstrings : (Json.arr (a :: as)).getStrings = .ok ss := hd
    have harr := getStrings_ok.mp hstrings
    rw [hv]
    intro hnil
    change ss = [] at hnil
    rw [hnil] at harr
    cases harr

theorem Legible.namesProgram : (assigned j).NamesProgram ↔ GivesProgram j := by
  unfold NamesProgram GivesProgram
  rw [h.arguments, assigned_program, h.value_isSome governs.2.2.2.1.mem]

end Passes

/-- What a document is decoded to. -/
theorem fromJson_ok : fromJson j = .ok m ↔ Accepted j ∧ m = (assigned j).normal := by
  by_cases h : Legible j
  · rw [h.fromJson, finish_ok, h.namesProgram, h.label, h.userName, h.groupName]
    constructor
    · intro h'
      obtain ⟨hp, hl, hg, rfl⟩ := h'
      exact ⟨⟨h, hp, by simpa using hl, hg⟩, rfl⟩
    · intro h'
      obtain ⟨ha, rfl⟩ := h'
      exact ⟨ha.program, by rw [ha.label]; rfl, ha.group, rfl⟩
  · obtain ⟨what, hw⟩ := illegible_refused h
    rw [hw]
    exact iff_of_false nofun fun ha => h ha.1.legible

theorem accepts_iff : (∃ m, fromJson j = .ok m) ↔ Accepted j :=
  ⟨fun ⟨_, h⟩ => (fromJson_ok.mp h).1, fun h => ⟨_, fromJson_ok.mpr ⟨h, rfl⟩⟩⟩

/-- What aborts has no label, and nothing else that is wrong is found before. -/
theorem fromJson_aborts : (∃ why, fromJson j = .error (.abort why)) ↔ Legible j ∧ GivesProgram j ∧ j.contains "Label" = false := by
  by_cases h : Legible j
  · rw [h.fromJson, finish_abort, h.namesProgram, h.label, Bool.not_eq_true']
    exact (and_iff_right h).symm
  · obtain ⟨what, hw⟩ := illegible_refused h
    rw [hw]
    exact iff_of_false nofun fun ha => h ha.1

/-! ## Acceptance -/

def unsupported : List String :=
  ["EnableGlobbing", "WatchPaths", "QueueDirectories", "StartOnMount", "StartCalendarInterval", "Sockets"]

structure Acceptable (j : Json) : Prop where
  typed : ∀ k ∈ keys, ∀ v, j.member? k.name = some v → k.type.Typed v
  supported : ∀ key ∈ unsupported, j.contains key = false
  label : ∀ s, j.member? "Label" = some (.str s) → s.isEmpty = false ∧ '/' ∉ s.toList
  program : GivesProgram j
  group : j.contains "GroupName" → j.contains "UserName"

/-- A string under `Umask` is one that `std::stoul` takes in base 8. -/
def OctalUmask (j : Json) : Prop := ∀ s, j.member? "Umask" = some (.str s) → (stoulOctal s).isSome

theorem legal_iff : (∀ k ∈ keys, ∀ v, j.member? k.name = some v → k.type.Legal v) ↔
    (∀ key ∈ unsupported, j.contains key = false) ∧
    (∀ s, j.member? "Label" = some (.str s) → s.isEmpty = false ∧ '/' ∉ s.toList) ∧ OctalUmask j := by
  constructor
  · intro h
    refine ⟨fun key hkey => ?_, fun s hs => h labelKey governs.1.mem _ hs s rfl,
      fun s hs => h umaskKey governs.2.2.2.2.2.1.mem _ hs s rfl⟩
    rw [Json.contains_eq]
    cases hv : j.member? key with
    | none => rfl
    | some v =>
      have hmem : notSupportedKey key ∈ keys := by
        simp only [unsupported, List.mem_cons, List.not_mem_nil, or_false] at hkey
        rcases hkey with rfl | rfl | rfl | rfl | rfl | rfl <;> simp [keys]
      exact (h _ hmem v hv).elim
  · intro h'
    obtain ⟨hsupported, hlabel, humask⟩ := h'
    have hno : ∀ key ∈ unsupported, ∀ v, j.member? key = some v → False := by
      intro key hkey v hv
      have hkey := hsupported key hkey
      rw [Json.contains_eq, hv] at hkey
      cases hkey
    simp only [keys, List.forall_mem_cons]
    and_intros
    all_goals first
      | exact fun _ _ => trivial
      | exact fun v hv s hs => hlabel s (hs ▸ hv)
      | exact fun v hv s hs => humask s (hs ▸ hv)
      | exact fun v hv => hno _ (by decide) v hv
      | exact List.forall_mem_nil _

theorem accepted_iff (hl : j.contains "Label") : Accepted j ↔ Acceptable j ∧ OctalUmask j := by
  constructor
  · intro h
    obtain ⟨hs, hlabel, hu⟩ := legal_iff.mp fun k hk v hv => (h.legible k hk v hv).2
    exact ⟨⟨fun k hk v hv => (h.legible k hk v hv).1, hs, hlabel, h.program, h.group⟩, hu⟩
  · intro h'
    obtain ⟨h, hu⟩ := h'
    have hlegal := legal_iff.mpr ⟨h.supported, h.label, hu⟩
    exact ⟨fun k hk v hv => ⟨h.typed k hk v hv, hlegal k hk v hv⟩, h.program, hl, h.group⟩

def stringAt (j : Json) (key : String) : Option String := (j.member? key).bind (·.getString.toOption)

def stringsAt (j : Json) (key : String) : List String := ((j.member? key).bind (·.getStrings.toOption)).getD []

/-- Program and arguments are what the document gives, each or from the other. -/
structure Normal (j : Json) (m : Manifest) : Prop where
  program : m.program = (stringAt j "Program").or (stringsAt j "ProgramArguments").head?
  programArguments : m.programArguments =
    if stringsAt j "ProgramArguments" = [] then (stringAt j "Program").toList else stringsAt j "ProgramArguments"
  programSet : m.program.isSome
  argumentsSet : m.programArguments ≠ []
  rectified : m.rectify = .ok m

theorem fromJson_normal (h : fromJson j = .ok m) : Normal j m := by
  obtain ⟨ha, rfl⟩ := fromJson_ok.mp h
  have hnames := ha.legible.namesProgram.mpr ha.program
  have hp := normal_program hnames
  have hargs := normal_arguments hnames
  refine ⟨?_, ?_, hp, hargs, rectify_done hp hargs⟩
  · change (assigned j).program.or (assigned j).programArguments.head? = _
    rw [assigned_program, assigned_programArguments]
    rfl
  · change (if (assigned j).programArguments.isEmpty then _ else _) = _
    rw [assigned_program, assigned_programArguments]
    simp only [List.isEmpty_iff]
    rfl

/-- A document with a label is decoded when it is acceptable and its umask is octal, and then
    what it runs is normal. -/
theorem fromJson_accepts {label : String} (hl : j.member? "Label" = some (.str label)) :
    ((∃ m, fromJson j = .ok m) ↔ Acceptable j ∧ OctalUmask j) ∧ ∀ m, fromJson j = .ok m → Normal j m := by
  have hcontains : j.contains "Label" := by rw [Json.contains_eq, hl]; rfl
  exact ⟨accepts_iff.trans (accepted_iff hcontains), fun m h => fromJson_normal h⟩

def jobWith (members : List (String × Json)) : Json := .obj ([("Label", .str "job"), ("Program", .str "/bin/job")] ++ members)

theorem fromJson_accepts_job : ((∃ m, fromJson (jobWith []) = .ok m) ↔ Acceptable (jobWith []) ∧ OctalUmask (jobWith [])) ∧
    ∀ m, fromJson (jobWith []) = .ok m → Normal (jobWith []) m :=
  fromJson_accepts (show (jobWith []).member? "Label" = some (.str "job") from rfl)

/-- A string under `Umask` that is no number, and a program without a name. -/
theorem umask_not_octal :
    (¬ ∀ j label, j.member? "Label" = some (.str label) → ((∃ m, fromJson j = .ok m) ↔ Acceptable j)) ∧
    ¬ ∀ j m, fromJson j = .ok m → ∀ p, m.program = some p → p ≠ "" := by
  constructor
  · intro h
    have hrefused : fromJson (jobWith [("Umask", .str "x")]) = .error (.exn "stoul") := by decide +kernel
    have hacceptable : Acceptable (jobWith [("Umask", .str "x")]) := by
      refine ⟨?_, by decide, fun s hs => by cases hs; decide, .inl rfl, fun h => by cases h⟩
      simp only [keys, List.forall_mem_cons]
      and_intros
      all_goals first
        | exact fun _ hv => by cases hv; exact ⟨_, rfl⟩
        | exact fun _ hv => by cases hv; exact .inr ⟨_, rfl⟩
        | exact fun _ hv => by cases hv
    obtain ⟨m, hm⟩ := (h _ "job" rfl).mpr hacceptable
    rw [hrefused] at hm
    cases hm
  · intro h
    have haccepted : fromJson (.obj [("Label", .str "job"), ("Program", .str "")]) =
        .ok { label := "job", program := some "", programArguments := [""] } := by decide +kernel
    exact h _ _ haccepted "" rfl rfl

/-! ## Refusal -/

/-- A document is decoded to a valid manifest, or its load is refused. -/
def Handled (j : Json) : Prop :=
  (∃ m, fromJson j = .ok m ∧ m.validate = .ok true) ∨
  ∃ what, fromJson j = .error (.exn what) ∧
    ∀ s path overrideDisabled forceLoad, Manager.loadManifestDoc j path overrideDisabled forceLoad s = .ok false s

theorem normal_valid (h : Accepted j) : (assigned j).normal.validate = .ok true := by
  have hl : (assigned j).normal.label.isEmpty = false := by
    change (assigned j).label.isEmpty = false
    rw [h.legible.label, h.label]
    rfl
  rw [validate_labelled hl (normal_program (h.legible.namesProgram.mpr h.program))]
  change Except.ok (!((assigned j).groupName.isSome && (assigned j).userName.isNone)) = _
  cases hg : (assigned j).groupName.isSome with
  | false => rfl
  | true =>
    have hu : (assigned j).userName.isSome := by
      rw [h.legible.userName]
      exact h.group (h.legible.groupName ▸ hg)
    obtain ⟨u, hu⟩ := Option.isSome_iff_exists.mp hu
    rw [hu]
    rfl

/-- What is not handled can be read, names a program, and has no label. -/
theorem handled_iff (j : Json) : Handled j ↔ (Legible j → GivesProgram j → j.contains "Label") := by
  constructor
  · intro h hj hp
    cases hl : j.contains "Label" with
    | true => rfl
    | false =>
      obtain ⟨why, hw⟩ := fromJson_aborts.mpr ⟨hj, hp, hl⟩
      rcases h with ⟨m, hm, _⟩ | ⟨what, hm, _⟩ <;> rw [hw] at hm <;> cases hm
  · intro h
    cases hd : fromJson j with
    | ok m =>
      obtain ⟨ha, rfl⟩ := fromJson_ok.mp hd
      exact .inl ⟨_, hd, normal_valid ha⟩
    | error e =>
      cases e with
      | exn what => exact .inr ⟨what, hd, fun s path o f => loadManifestDoc_unfit (.malformed what hd)⟩
      | abort why =>
        obtain ⟨hj, hp, hl⟩ := fromJson_aborts.mp ⟨why, hd⟩
        rw [h hj hp] at hl
        cases hl

/-- A program, and no label. -/
theorem unlabelled_aborts : ¬ ∀ j, Handled j := by
  intro h
  have habort : fromJson (.obj [("Program", .str "/bin/job")]) = .error (.abort "!value.empty()") := by decide +kernel
  rcases h (.obj [("Program", .str "/bin/job")]) with ⟨m, hm, _⟩ | ⟨what, hm, _⟩ <;> rw [habort] at hm <;> cases hm

/-! ## The umask -/

/-- A non-negative number, or one in octal digits, that fits. -/
def documentedUmask : Json → Option Nat
  | .uint n => if n < 2 ^ 32 then some n else none
  | .int n => if 0 ≤ n ∧ n < 2 ^ 32 then some n.toNat else none
  | .str s => if isNumber 8 s && digits 8 s.toList < 2 ^ 32 then some (digits 8 s.toList) else none
  | _ => none

/-- A document that is accepted but for its umask gets the one it gives, or is refused for it. -/
def UmaskRead (j v : Json) : Prop :=
  match documentedUmask v with
  | some n => Accepted (j.without "Umask") → ∃ m, fromJson j = .ok m ∧ m.umask = some n
  | none => ∀ m, fromJson j ≠ .ok m

/-- A number the parser stores as unsigned, a negative one, and a string that only starts with
    an octal number or holds one that does not fit. -/
inductive Misread : Json → Prop
  | unsigned (n : Nat) : n < 2 ^ 32 → Misread (.uint n)
  | negative (n : Int) : n < 0 → Misread (.int n)
  | text (s : String) : (stoulOctal s).isSome → ¬ (isNumber 8 s ∧ digits 8 s.toList < 2 ^ 32) → Misread (.str s)

theorem not_misread_iff (hparsed : ∀ n, v = .int n → n < 0) : ¬ Misread v ↔ (umaskOf v).toOption = documentedUmask v := by
  cases v with
  | uint n =>
    change _ ↔ none = if n < 2 ^ 32 then some n else none
    by_cases hn : n < 2 ^ 32
    · rw [if_pos hn]
      exact iff_of_false (fun h => h (.unsigned n hn)) nofun
    · rw [if_neg hn]
      exact iff_of_true (fun h => by cases h; contradiction) rfl
  | int n =>
    have hn := hparsed n rfl
    change _ ↔ some _ = if 0 ≤ n ∧ n < 2 ^ 32 then some n.toNat else none
    rw [if_neg fun h => by omega]
    exact iff_of_false (fun h => h (.negative n hn)) nofun
  | str s =>
    dsimp only [umaskOf, documentedUmask]
    by_cases hnum : isNumber 8 s = true ∧ digits 8 s.toList < 2 ^ 32
    · have hstoul := stoulOctal_number hnum.1
      rw [if_pos (by omega)] at hstoul
      rw [if_pos (by simpa using hnum), hstoul]
      refine iff_of_true (fun h => ?_) (congrArg some (Nat.mod_eq_of_lt hnum.2))
      cases h
      contradiction
    · rw [if_neg (by simpa using hnum)]
      cases hs : stoulOctal s with
      | none => exact iff_of_true (fun h => by cases h with | text _ h' => rw [hs] at h'; cases h') rfl
      | some n => exact iff_of_false (fun h => h (.text s (by rw [hs]; rfl) hnum)) nofun
  | null | bool | float | arr | obj => exact iff_of_true nofun rfl

theorem legible_without (hv : j.member? "Umask" = some v) :
    Legible j ↔ Legible (j.without "Umask") ∧ ∃ n, umaskOf v = .ok n := by
  constructor
  · intro h
    refine ⟨fun k hk v' hv' => ?_, h.decodes governs.2.2.2.2.2.1.mem hv⟩
    have hne : k.name ≠ "Umask" := fun e => by rw [e, Json.member?_without_self] at hv'; cases hv'
    exact h k hk v' (Json.member?_without hne ▸ hv')
  · rintro ⟨h, hn⟩ k hk v' hv'
    by_cases hname : k.name = "Umask"
    · cases List.inj_on_of_nodup_map keys_nodup hk governs.2.2.2.2.2.1.mem hname
      cases hv.symm.trans hv'
      exact KeyType.decode_ok.mp hn
    · exact h k hk v' ((Json.member?_without hname).trans hv')

theorem contains_without {key : String} (h : key ≠ "Umask") : (j.without "Umask").contains key = j.contains key := by
  rw [Json.contains_eq, Json.contains_eq, Json.member?_without h]

theorem accepted_without (hv : j.member? "Umask" = some v) :
    Accepted j ↔ Accepted (j.without "Umask") ∧ ∃ n, umaskOf v = .ok n := by
  have hprogram : GivesProgram (j.without "Umask") ↔ GivesProgram j := by
    unfold GivesProgram
    rw [contains_without (by decide), Json.member?_without (by decide)]
  have hlabel : (j.without "Umask").contains "Label" = j.contains "Label" := contains_without (by decide)
  have hgroup : (j.without "Umask").contains "GroupName" = j.contains "GroupName" := contains_without (by decide)
  have huser : (j.without "Umask").contains "UserName" = j.contains "UserName" := contains_without (by decide)
  constructor
  · intro h
    obtain ⟨hl, hn⟩ := (legible_without hv).mp h.legible
    exact ⟨⟨hl, hprogram.mpr h.program, hlabel ▸ h.label, by rw [hgroup, huser]; exact h.group⟩, hn⟩
  · intro h'
    obtain ⟨h, hn⟩ := h'
    exact ⟨(legible_without hv).mpr ⟨h.legible, hn⟩, hprogram.mp h.program, hlabel ▸ h.label,
      by rw [← hgroup, ← huser]; exact h.group⟩

/-- An umask is read as documented when it is none of the misread ones. -/
theorem umaskRead_iff (hv : j.member? "Umask" = some v) (hparsed : ∀ n, v = .int n → n < 0) :
    UmaskRead j v ↔ (Accepted (j.without "Umask") → ¬ Misread v) := by
  rw [not_misread_iff hparsed]
  unfold UmaskRead
  by_cases ha : Accepted (j.without "Umask")
  swap
  · refine iff_of_true ?_ fun h => absurd h ha
    split
    · exact fun h => absurd h ha
    · exact fun m hm => ha ((accepted_without hv).mp (fromJson_ok.mp hm).1).1
  cases hn : umaskOf v with
  | ok n =>
    have hj : fromJson j = .ok (assigned j).normal := fromJson_ok.mpr ⟨(accepted_without hv).mpr ⟨ha, n, hn⟩, rfl⟩
    have humask : (assigned j).normal.umask = some n := by
      change (assigned j).umask = _
      rw [assigned_umask]
      exact value_eq.mpr ⟨v, hv, hn⟩
    cases hd : documentedUmask v with
    | some n' =>
      refine ⟨fun h _ => ?_, fun h _ => ⟨_, hj, humask.trans (h ha)⟩⟩
      obtain ⟨m, hm, hm'⟩ := h ha
      rw [hj] at hm
      cases hm
      exact humask.symm.trans hm'
    | none => exact iff_of_false (fun h => h _ hj) fun h => nomatch h ha
  | error e =>
    have hj : ∀ m, fromJson j ≠ .ok m := fun m hm => by
      obtain ⟨_, n, hn'⟩ := (accepted_without hv).mp (fromJson_ok.mp hm).1
      rw [hn] at hn'
      cases hn'
    cases hd : documentedUmask v with
    | some n' => exact iff_of_false (fun h => (h ha).elim fun m hm => hj m hm.1) fun h => nomatch h ha
    | none => exact iff_of_true hj fun _ => rfl

theorem umaskRead_octal : UmaskRead (jobWith [("Umask", .str "022")]) (.str "022") ↔
    (Accepted ((jobWith [("Umask", .str "022")]).without "Umask") → ¬ Misread (.str "022")) :=
  umaskRead_iff rfl nofun

/-- A umask written as a number. -/
theorem number_refused : ¬ ∀ j v, j.member? "Umask" = some v → (∀ n, v = .int n → n < 0) → UmaskRead j v := by
  intro h
  have hplain : fromJson ((jobWith [("Umask", .uint 18)]).without "Umask") =
      .ok { label := "job", program := some "/bin/job", programArguments := ["/bin/job"] } := by decide +kernel
  have hrefused : fromJson (jobWith [("Umask", .uint 18)]) = .error (.exn "unsupported Umask type") := by decide +kernel
  obtain ⟨m, hm, _⟩ := h (jobWith [("Umask", .uint 18)]) (.uint 18) rfl nofun (fromJson_ok.mp hplain).1
  rw [hrefused] at hm
  cases hm

/-! ## Intervals -/

inductive Interval where
  | exitTimeout
  | startInterval
  | throttleInterval

namespace Interval

abbrev key : Interval → Key
  | .exitTimeout => exitTimeoutKey
  | .startInterval => startIntervalKey
  | .throttleInterval => throttleIntervalKey

def stored : Interval → Manifest → Option Nat
  | .exitTimeout, m => some m.exitTimeout
  | .startInterval, m => m.startInterval
  | .throttleInterval, m => some m.throttleInterval

end Interval

def Denotes : Json → Nat → Prop
  | .int n, k => n = k
  | .uint n, k => n = k
  | .float n d, k => n = k * 10 ^ d
  | _, _ => False

def Exact (v : Json) : Prop := ∃ k, k < 2 ^ 32 ∧ Denotes v k

theorem denotes_iff {n : Nat} (h : v.getUint32 = .ok n) : Denotes v n ↔ Exact v := by
  refine ⟨fun hn => ⟨n, getUint32_lt h, hn⟩, ?_⟩
  intro h'
  obtain ⟨k, hk, hd⟩ := h'
  cases v with
  | int i =>
    cases h
    cases hd
    change (k : Int) = ((k : Int) % 2 ^ 32).toNat
    omega
  | uint i =>
    cases h
    cases hd
    exact (Nat.mod_eq_of_lt hk).symm
  | float i d =>
    cases h
    cases hd
    change (k : Int) * 10 ^ d = (((k * 10 ^ d : Int).tdiv (10 ^ d)) % 2 ^ 32).toNat * 10 ^ d
    rw [Int.mul_tdiv_cancel _ (Int.ne_of_gt (Int.pow_pos (by decide)))]
    have hmod : (((k : Int) % 2 ^ 32).toNat : Int) = k := by omega
    rw [hmod]
  | null | bool | str | arr | obj => exact hd.elim

theorem stored_eq (i : Interval) {n : Nat} (hv : j.member? i.key.name = some v) (hn : v.getUint32 = .ok n) :
    i.stored (assigned j).normal = some n := by
  obtain ⟨-, -, -, -, -, -, he, hs, ht⟩ := governs
  cases i with
  | exitTimeout =>
    have hvalue : exitTimeoutKey.value j = some n := value_eq.mpr ⟨v, hv, hn⟩
    exact congrArg some ((he.field j).trans (by rw [hvalue]; rfl))
  | startInterval =>
    have hvalue : startIntervalKey.value j = some n := value_eq.mpr ⟨v, hv, hn⟩
    exact (hs.field j).trans (by rw [hvalue]; rfl)
  | throttleInterval =>
    have hvalue : throttleIntervalKey.value j = some n := value_eq.mpr ⟨v, hv, hn⟩
    exact congrArg some ((ht.field j).trans (by rw [hvalue]; rfl))

/-- A manifest that is accepted has the number of the document. -/
def Faithful (i : Interval) (j : Json) : Prop :=
  ∀ m, fromJson j = .ok m → ∀ v, j.member? i.key.name = some v → ∃ n, i.stored m = some n ∧ Denotes v n

/-- No other number is faithfully stored, and none is refused. -/
theorem faithful_iff (i : Interval) (j : Json) :
    Faithful i j ↔ (Accepted j → ∀ v, j.member? i.key.name = some v → Exact v) := by
  have hmem : i.key ∈ keys := by
    obtain ⟨-, -, -, -, -, -, he, hs, ht⟩ := governs
    cases i
    · exact he.mem
    · exact hs.mem
    · exact ht.mem
  have hread (ha : Accepted j) {v : Json} (hv : j.member? i.key.name = some v) : ∃ n, v.getUint32 = .ok n := by
    have hd := ha.legible.decodes hmem hv
    cases i <;> exact hd
  constructor
  · intro h ha v hv
    obtain ⟨n, hn⟩ := hread ha hv
    obtain ⟨n', hstored, hd⟩ := h _ (fromJson_ok.mpr ⟨ha, rfl⟩) v hv
    rw [stored_eq i hv hn] at hstored
    cases hstored
    exact (denotes_iff hn).mp hd
  · intro h m hm v hv
    obtain ⟨ha, rfl⟩ := fromJson_ok.mp hm
    obtain ⟨n, hn⟩ := hread ha hv
    exact ⟨n, stored_eq i hv hn, (denotes_iff hn).mpr (h ha v hv)⟩

/-- A throttle of less than nothing. -/
theorem negative_wraps : ¬ ∀ i j, Faithful i j := by
  intro h
  have haccepted : fromJson (jobWith [("ThrottleInterval", .int (-1))]) =
      .ok { label := "job", program := some "/bin/job", programArguments := ["/bin/job"], throttleInterval := 4294967295 } := by
    decide +kernel
  obtain ⟨n, hn, hd⟩ := h .throttleInterval _ _ haccepted (.int (-1)) rfl
  cases hn
  cases hd

end Manifest

end Relaunchd
