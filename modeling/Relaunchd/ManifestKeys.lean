/-
  Relaunchd.ManifestKeys — `from_json` as a table of keys.

  Every key is read alone, by the type of its value, and sets one field of the manifest. So a
  document is read when each of its keys is, and a field is what its key says, or its default.
-/

import Relaunchd.Manifest

namespace Relaunchd

namespace Json

def member? : Json → String → Option Json
  | .obj members, key => find members key
  | _, _ => none

def without : Json → String → Json
  | .obj members, key => .obj (members.filter (·.1 != key))
  | j, _ => j

variable {j v : Json} {key key' : String}

theorem contains_eq (j : Json) (key : String) : j.contains key = (j.member? key).isSome := by
  cases j <;> rfl

theorem atKey_member (h : j.member? key = some v) : j.atKey key = .ok v := by
  cases j with
  | obj members => exact atKey_obj h
  | null | bool | int | uint | float | str | arr => cases h

theorem find_filter (members : List (String × Json)) (h : key' ≠ key) :
    find (members.filter (·.1 != key)) key' = find members key' := by
  induction members with
  | nil => rfl
  | cons m members ih =>
    by_cases hm : m.1 = key
    · rw [List.filter_cons_of_neg (by simpa using hm), ih, find_cons, if_neg fun e => h (e.symm.trans hm)]
    · rw [List.filter_cons_of_pos (by simpa using hm), find_cons, find_cons, ih]

theorem member?_without (h : key' ≠ key) : (j.without key).member? key' = j.member? key' := by
  cases j with
  | obj members => exact find_filter members h
  | null | bool | int | uint | float | str | arr => rfl

theorem member?_without_self : (j.without key).member? key = none := by
  cases j with
  | obj members =>
    change (List.find? _ _).map _ = none
    rw [Option.map_eq_none_iff, List.find?_eq_none]
    intro m hm hk
    have hne := (List.mem_filter.mp hm).2
    simp [beq_iff_eq.mp hk] at hne
  | null | bool | int | uint | float | str | arr => rfl

end Json

namespace Manifest

/-! ## The types of the values -/

/-- The value of `KeepAlive`: what it says about `Always`, if anything. -/
def keepAliveOf : Json → Decode (Option Bool)
  | .bool b => .ok (some b)
  | .obj members => match Json.find members "Always" with
    | some a => do return some (← a.getBool)
    | none => .ok none
  | _ => .ok none

inductive KeyType where
  | label
  | string
  | strings
  | stringMap
  | boolean
  | number
  | umask
  | keepAlive
  | notSupported
  deriving DecidableEq

namespace KeyType

abbrev Value : KeyType → Type
  | .label | .string => String
  | .strings => List String
  | .stringMap => List (String × String)
  | .boolean => Bool
  | .number | .umask => Nat
  | .keepAlive => Option Bool
  | .notSupported => Unit

def decode : (t : KeyType) → Json → Decode t.Value
  | .label, v => do Label.make (← v.getString)
  | .string, v => v.getString
  | .strings, v => v.getStrings
  | .stringMap, v => v.getStringMap
  | .boolean, v => v.getBool
  | .number, v => v.getUint32
  | .umask, v => umaskOf v
  | .keepAlive, v => keepAliveOf v
  | .notSupported, _ => .error (.exn "Not currently supported")

/-- The values of the type. A value of `KeepAlive` that is no boolean and no object is passed over. -/
def Typed : KeyType → Json → Prop
  | .label, v | .string, v => ∃ s, v = .str s
  | .strings, v => ∃ ss : List String, v = .arr (ss.map .str)
  | .stringMap, v => ∃ members : List (String × String), v = .obj (members.map fun e => (e.1, .str e.2))
  | .boolean, v => ∃ b, v = .bool b
  | .number, v => (∃ n, v = .int n) ∨ (∃ n, v = .uint n) ∨ (∃ n d, v = .float n d) ∨ ∃ b, v = .bool b
  | .umask, v => (∃ n, v = .int n) ∨ ∃ s, v = .str s
  | .keepAlive, v => ∀ members, v = .obj members → ∀ a, Json.find members "Always" = some a → ∃ b, a = .bool b
  | .notSupported, _ => True

def Legal : KeyType → Json → Prop
  | .label, v => ∀ s, v = .str s → s.isEmpty = false ∧ '/' ∉ s.toList
  | .umask, v => ∀ s, v = .str s → (stoulOctal s).isSome
  | .notSupported, _ => False
  | _, _ => True

end KeyType

/-! ## The keys -/

structure Key where
  name : String
  type : KeyType
  set : type.Value → Manifest → Manifest

abbrev labelKey : Key := ⟨"Label", .label, fun s m => { m with label := s }⟩

abbrev userNameKey : Key := ⟨"UserName", .string, fun s m => { m with userName := some s }⟩

abbrev groupNameKey : Key := ⟨"GroupName", .string, fun s m => { m with groupName := some s }⟩

abbrev programKey : Key := ⟨"Program", .string, fun s m => { m with program := some s }⟩

abbrev programArgumentsKey : Key := ⟨"ProgramArguments", .strings, fun ss m => { m with programArguments := ss }⟩

abbrev umaskKey : Key := ⟨"Umask", .umask, fun n m => { m with umask := some n }⟩

abbrev exitTimeoutKey : Key := ⟨"ExitTimeout", .number, fun n m => { m with exitTimeout := n }⟩

abbrev startIntervalKey : Key := ⟨"StartInterval", .number, fun n m => { m with startInterval := some n }⟩

abbrev throttleIntervalKey : Key := ⟨"ThrottleInterval", .number, fun n m => { m with throttleInterval := n }⟩

abbrev notSupportedKey (name : String) : Key := ⟨name, .notSupported, fun _ m => m⟩

/-- The keys in the order they are read. -/
def keys : List Key :=
  [labelKey, userNameKey, groupNameKey, programKey, programArgumentsKey,
   notSupportedKey "EnableGlobbing",
   ⟨"RunAtLoad", .boolean, fun b m => { m with runAtLoad := b }⟩,
   ⟨"WorkingDirectory", .string, fun s m => { m with workingDirectory := some s }⟩,
   ⟨"RootDirectory", .string, fun s m => { m with rootDirectory := some s }⟩,
   ⟨"EnvironmentVariables", .stringMap, fun e m => { m with environmentVariables := e }⟩,
   umaskKey,
   ⟨"Disabled", .boolean, fun b m => { m with disabled := b }⟩,
   exitTimeoutKey, startIntervalKey, throttleIntervalKey,
   ⟨"Nice", .number, fun n m => { m with nice := some n }⟩,
   ⟨"InitGroups", .boolean, fun b m => { m with initGroups := b }⟩,
   notSupportedKey "WatchPaths", notSupportedKey "QueueDirectories", notSupportedKey "StartOnMount",
   ⟨"StandardInPath", .string, fun s m => { m with stdinPath := s }⟩,
   ⟨"StandardOutPath", .string, fun s m => { m with stdoutPath := s }⟩,
   ⟨"StandardErrorPath", .string, fun s m => { m with stderrPath := s }⟩,
   ⟨"AbandonProcessGroup", .boolean, fun b m => { m with abandonProcessGroup := b }⟩,
   notSupportedKey "StartCalendarInterval",
   ⟨"KeepAlive", .keepAlive, fun b m => { m with keepAlive := b.getD m.keepAlive }⟩,
   notSupportedKey "Sockets"]

namespace Key

def read (j : Json) (m : Manifest) (k : Key) : Decode Manifest :=
  field j k.name m fun v => do return k.set (← k.type.decode v) m

def value (k : Key) (j : Json) : Option k.type.Value := do (k.type.decode (← j.member? k.name)).toOption

def Readable (j : Json) (k : Key) : Prop := ∀ v, j.member? k.name = some v → ∃ x, k.type.decode v = .ok x

def assign (j : Json) (m : Manifest) (k : Key) : Manifest := ((k.value j).map fun x => k.set x m).getD m

end Key

/-- Both passes over what was read. -/
def finish (m : Manifest) : Decode Manifest := do
  let m ← m.rectify
  if ← m.validate then .ok m else .error (.exn "Invalid manifest")

def assigned (j : Json) : Manifest := keys.foldl (Key.assign j) {}

theorem keepAlive_read (j : Json) (m : Manifest) :
    (field j "KeepAlive" m fun v =>
      match v with
      | .bool b => .ok { m with keepAlive := b }
      | .obj _ => field v "Always" m fun a => do return { m with keepAlive := ← a.getBool }
      | _ => .ok m) =
    Key.read j m ⟨"KeepAlive", .keepAlive, fun b m => { m with keepAlive := b.getD m.keepAlive }⟩ := by
  unfold Key.read KeyType.decode
  dsimp only
  congr 1
  funext v
  cases v with
  | obj members =>
    dsimp only [keepAliveOf, field]
    rw [Json.contains_eq]
    change (if (Json.find members "Always").isSome then _ else _) = _
    cases ha : Json.find members "Always" with
    | none => rfl
    | some a =>
      rw [Json.atKey_obj ha]
      cases a <;> rfl
  | null | bool | int | uint | float | str | arr => rfl

theorem label_read (j : Json) (m : Manifest) :
    (field j "Label" m fun v => do return { m with label := ← Label.make (← v.getString) }) = Key.read j m labelKey := by
  unfold Key.read
  congr 1
  funext v
  exact (bind_assoc _ _ _).symm

theorem bind_eq {d d' : Decode α} {f f' : α → Decode β} (hd : d = d') (hf : ∀ a, f a = f' a) : d >>= f = d' >>= f' := by
  rw [hd, funext hf]

/-- The decoder reads the keys of the table one after the other. -/
theorem fromJson_eq (j : Json) : fromJson j = keys.foldlM (Key.read j) {} >>= finish := by
  unfold fromJson keys
  simp only [List.foldlM_cons, List.foldlM_nil, bind_assoc, pure_bind]
  refine bind_eq (label_read j {}) fun m => ?_
  iterate 24 refine bind_eq rfl fun m => ?_
  refine bind_eq (keepAlive_read j m) fun m => ?_
  exact bind_eq rfl fun m => rfl

/-! ## Reading -/

def Throws (d : Decode α) : Prop := ∀ e, d = .error e → ∃ what, e = .exn what

section Throws

variable {d : Decode α}

theorem Throws.done (a : α) : Throws (.ok a) := nofun

theorem Throws.of_faults (h : d.FaultsIn Json.exceptions) : Throws d := by
  intro e he
  have hmem := h e he
  simp only [Json.exceptions, List.mem_cons, List.not_mem_nil, or_false] at hmem
  rcases hmem with rfl | rfl
  · exact ⟨_, rfl⟩
  · exact ⟨_, rfl⟩

theorem Throws.bind {f : α → Decode β} (hd : Throws d) (hf : ∀ a, Throws (f a)) : Throws (d >>= f) := by
  intro e he
  cases d with
  | ok a => exact hf a e he
  | error e' => exact hd e (by cases he; rfl)

theorem Label.make_throws (s : String) : Throws (Label.make s) := by
  intro e he
  unfold Label.make at he
  split at he
  · cases he
    exact ⟨_, rfl⟩
  · split at he <;> cases he
    exact ⟨_, rfl⟩

theorem umaskOf_throws (v : Json) : Throws (umaskOf v) := by
  intro e he
  cases v with
  | int n => cases he
  | str s =>
    dsimp only [umaskOf] at he
    split at he <;> cases he
    exact ⟨_, rfl⟩
  | null | bool | uint | float | arr | obj =>
    cases he
    exact ⟨_, rfl⟩

theorem keepAliveOf_throws (v : Json) : Throws (keepAliveOf v) := by
  cases v with
  | obj members =>
    dsimp only [keepAliveOf]
    split
    · exact (Throws.of_faults (Json.getBool_faults _)).bind fun _ => .done _
    · exact .done _
  | null | bool | int | uint | float | str | arr => exact .done _

/-- A value that is not read is refused, and that is all. -/
theorem KeyType.decode_throws (t : KeyType) (v : Json) : Throws (t.decode v) := by
  cases t with
  | label => exact (Throws.of_faults (Json.getString_faults v)).bind Label.make_throws
  | string => exact .of_faults (Json.getString_faults v)
  | strings => exact .of_faults (Json.getStrings_faults v)
  | stringMap => exact .of_faults (Json.getStringMap_faults v)
  | boolean => exact .of_faults (Json.getBool_faults v)
  | number => exact .of_faults (Json.getUint32_faults v)
  | umask => exact umaskOf_throws v
  | keepAlive => exact keepAliveOf_throws v
  | notSupported =>
    intro e he
    cases he
    exact ⟨_, rfl⟩

end Throws

section Types

variable {v : Json} {s : String} {ss : List String}

theorem getString_ok : v.getString = .ok s ↔ v = .str s := by
  cases v with
  | str s' => exact ⟨fun h => by cases h; rfl, fun h => by cases h; rfl⟩
  | null | bool | int | uint | float | arr | obj => exact iff_of_false nofun nofun

theorem mapM_getString {xs : List Json} : xs.mapM Json.getString = .ok ss ↔ xs = ss.map .str := by
  induction xs generalizing ss with
  | nil => cases ss with
    | nil => exact iff_of_true rfl rfl
    | cons s ss => exact iff_of_false nofun nofun
  | cons x xs ih =>
    rw [List.mapM_cons, bind_eq_ok]
    constructor
    · intro h'
      obtain ⟨s, hs, h⟩ := h'
      obtain ⟨ss', hss, h⟩ := bind_eq_ok.mp h
      cases h
      rw [getString_ok.mp hs, ih.mp hss]
      rfl
    · intro h
      cases ss with
      | nil => cases h
      | cons s ss =>
        obtain ⟨rfl, rfl⟩ := List.cons.inj h
        exact ⟨s, rfl, bind_eq_ok.mpr ⟨ss, ih.mpr rfl, rfl⟩⟩

theorem getStrings_ok : v.getStrings = .ok ss ↔ v = .arr (ss.map .str) := by
  cases v with
  | arr xs => exact mapM_getString.trans ⟨fun h => h ▸ rfl, fun h => by cases h; rfl⟩
  | null | bool | int | uint | float | str | obj => exact iff_of_false nofun nofun

theorem mapM_member {members : List (String × Json)} {es : List (String × String)} :
    (members.mapM fun m => do return (m.1, ← m.2.getString) : Decode _) = .ok es ↔ members = es.map fun e => (e.1, .str e.2) := by
  induction members generalizing es with
  | nil => cases es with
    | nil => exact iff_of_true rfl rfl
    | cons s ss => exact iff_of_false nofun nofun
  | cons m members ih =>
    rw [List.mapM_cons, bind_eq_ok]
    constructor
    · intro h'
      obtain ⟨e, he, h⟩ := h'
      obtain ⟨s, hs, he⟩ := bind_eq_ok.mp he
      obtain ⟨es', hes, h⟩ := bind_eq_ok.mp h
      cases he
      cases h
      rw [ih.mp hes, List.map_cons, ← getString_ok.mp hs]
    · intro h
      cases es with
      | nil => cases h
      | cons e es =>
        obtain ⟨rfl, rfl⟩ := List.cons.inj h
        exact ⟨e, rfl, bind_eq_ok.mpr ⟨es, ih.mpr rfl, rfl⟩⟩

theorem getStringMap_ok {es : List (String × String)} : v.getStringMap = .ok es ↔ v = .obj (es.map fun e => (e.1, .str e.2)) := by
  cases v with
  | obj members => exact mapM_member.trans ⟨fun h => h ▸ rfl, fun h => by cases h; rfl⟩
  | null | bool | int | uint | float | str | arr => exact iff_of_false nofun nofun

theorem getBool_ok {b : Bool} : v.getBool = .ok b ↔ v = .bool b := by
  cases v with
  | bool b' => exact ⟨fun h => by cases h; rfl, fun h => by cases h; rfl⟩
  | null | int | uint | float | str | arr | obj => exact iff_of_false nofun nofun

theorem make_ok {label : String} : Label.make s = .ok label ↔ label = s ∧ s.isEmpty = false ∧ '/' ∉ s.toList := by
  unfold Label.make
  split
  · rename_i he
    exact iff_of_false nofun fun h => by rw [h.2.1] at he; cases he
  · rename_i he
    split
    · rename_i hc
      exact iff_of_false nofun fun h => h.2.2 (List.contains_iff_mem.mp hc)
    · rename_i hc
      refine ⟨fun h => ⟨by cases h; rfl, Bool.not_eq_true _ ▸ he, fun hm => hc (List.contains_iff_mem.mpr hm)⟩, ?_⟩
      intro h'
      obtain ⟨rfl, -⟩ := h'
      rfl

/-- A value is read when it has the type of its key and is legal there. -/
theorem KeyType.decode_ok {t : KeyType} : (∃ x, t.decode v = .ok x) ↔ t.Typed v ∧ t.Legal v := by
  cases t with
  | label =>
    constructor
    · intro h'
      obtain ⟨label, h⟩ := h'
      obtain ⟨s, hs, h⟩ := bind_eq_ok.mp h
      refine ⟨⟨s, getString_ok.mp hs⟩, fun s' hs' => ?_⟩
      cases getString_ok.mp hs
      cases hs'
      exact (make_ok.mp h).2
    · intro h'
      obtain ⟨⟨s, rfl⟩, h⟩ := h'
      exact ⟨s, make_ok.mpr ⟨rfl, h s rfl⟩⟩
  | string => exact (exists_congr fun _ => getString_ok).trans (and_iff_left trivial).symm
  | strings => exact (exists_congr fun _ => getStrings_ok).trans (and_iff_left trivial).symm
  | stringMap => exact (exists_congr fun _ => getStringMap_ok).trans (and_iff_left trivial).symm
  | boolean => exact (exists_congr fun _ => getBool_ok).trans (and_iff_left trivial).symm
  | number =>
    cases v with
    | int n => exact iff_of_true ⟨_, rfl⟩ ⟨.inl ⟨n, rfl⟩, trivial⟩
    | uint n => exact iff_of_true ⟨_, rfl⟩ ⟨.inr (.inl ⟨n, rfl⟩), trivial⟩
    | float n d => exact iff_of_true ⟨_, rfl⟩ ⟨.inr (.inr (.inl ⟨n, d, rfl⟩)), trivial⟩
    | bool b => exact iff_of_true ⟨_, rfl⟩ ⟨.inr (.inr (.inr ⟨b, rfl⟩)), trivial⟩
    | null | str | arr | obj =>
      refine iff_of_false nofun ?_
      rintro ⟨⟨_, h⟩ | ⟨_, h⟩ | ⟨_, _, h⟩ | ⟨_, h⟩, _⟩ <;> cases h
  | umask =>
    cases v with
    | int n => exact iff_of_true ⟨_, rfl⟩ ⟨.inl ⟨n, rfl⟩, nofun⟩
    | str s =>
      dsimp only [decode, umaskOf]
      constructor
      · intro h'
        obtain ⟨n, h⟩ := h'
        refine ⟨.inr ⟨s, rfl⟩, fun s' hs' => ?_⟩
        cases hs'
        split at h
        · rename_i hn
          rw [hn]
          rfl
        · cases h
      · intro h'
        obtain ⟨-, h⟩ := h'
        obtain ⟨n, hn⟩ := Option.isSome_iff_exists.mp (h s rfl)
        exact ⟨n % 2 ^ 32, by rw [hn]⟩
    | null | bool | uint | float | arr | obj =>
      refine iff_of_false nofun ?_
      rintro ⟨⟨_, h⟩ | ⟨_, h⟩, _⟩ <;> cases h
  | keepAlive =>
    cases v with
    | obj members =>
      dsimp only [decode, keepAliveOf]
      cases ha : Json.find members "Always" with
      | none =>
        refine iff_of_true ⟨_, rfl⟩ ⟨?_, trivial⟩
        intro members' h a ha'
        cases h
        rw [ha] at ha'
        cases ha'
      | some a =>
        constructor
        · intro h'
          obtain ⟨x, h⟩ := h'
          obtain ⟨b, hb, -⟩ := bind_eq_ok.mp h
          refine ⟨fun members' h a' ha' => ?_, trivial⟩
          cases h
          rw [ha] at ha'
          cases ha'
          exact ⟨b, getBool_ok.mp hb⟩
        · intro h'
          obtain ⟨h, -⟩ := h'
          obtain ⟨b, rfl⟩ := h members rfl a ha
          exact ⟨some b, rfl⟩
    | null | bool | int | uint | float | str | arr => exact iff_of_true ⟨_, rfl⟩ ⟨nofun, trivial⟩
  | notSupported => exact iff_of_false nofun fun h => h.2

end Types

section Reading

variable {j : Json} {k : Key} {ks : List Key} {m m' : Manifest} {t : KeyType} {v : Json}

theorem Key.read_none (h : j.member? k.name = none) : k.read j m = .ok m := by
  rw [Key.read, field, Json.contains_eq, h]
  rfl

theorem Key.read_some (h : j.member? k.name = some v) :
    k.read j m = do return k.set (← k.type.decode v) m := by
  rw [Key.read, field, Json.contains_eq, h, Json.atKey_member h]
  rfl

/-- A readable key is read into its field. -/
theorem Key.Readable.read (h : k.Readable j) (m : Manifest) : k.read j m = .ok (k.assign j m) := by
  cases hv : j.member? k.name with
  | none => rw [Key.read_none hv, Key.assign, Key.value, hv]; rfl
  | some v =>
    obtain ⟨x, hx⟩ := h v hv
    rw [Key.read_some hv, Key.assign, Key.value, hv]
    simp only [hx, Option.bind_eq_bind, Option.bind_some, Except.toOption]
    rfl

/-- Any other key is refused. -/
theorem Key.read_refuses (h : ¬ k.Readable j) (m : Manifest) : ∃ what, k.read j m = .error (.exn what) := by
  cases hv : j.member? k.name with
  | none => exact absurd (fun v hv' => by rw [hv] at hv'; cases hv') h
  | some v =>
    cases hd : k.type.decode v with
    | ok x => exact absurd (fun v' hv' => by rw [hv] at hv'; cases hv'; exact ⟨x, hd⟩) h
    | error e =>
      obtain ⟨what, rfl⟩ := k.type.decode_throws v e hd
      exact ⟨what, by rw [Key.read_some hv, hd]; rfl⟩

theorem readAll_ok (h : ∀ k ∈ ks, k.Readable j) (m : Manifest) :
    ks.foldlM (Key.read j) m = .ok (ks.foldl (Key.assign j) m) := by
  induction ks generalizing m with
  | nil => rfl
  | cons k ks ih =>
    rw [List.foldlM_cons, (h k List.mem_cons_self).read]
    exact ih (fun k' hk => h k' (List.mem_cons_of_mem _ hk)) _

theorem readAll_refuses (h : ¬ ∀ k ∈ ks, k.Readable j) (m : Manifest) :
    ∃ what, ks.foldlM (Key.read j) m = .error (.exn what) := by
  induction ks generalizing m with
  | nil => exact absurd (fun k hk => nomatch hk) h
  | cons k ks ih =>
    rw [List.foldlM_cons]
    by_cases hk : k.Readable j
    · rw [hk.read]
      exact ih (fun hks => h (List.forall_mem_cons.mpr ⟨hk, hks⟩)) _
    · obtain ⟨what, hw⟩ := Key.read_refuses hk m
      exact ⟨what, by rw [hw]; rfl⟩

/-! ## Fields -/

def Key.Leaves (k : Key) (π : Manifest → α) : Prop := ∀ x m, π (k.set x m) = π m

theorem Key.Leaves.assign {π : Manifest → α} (h : k.Leaves π) (m : Manifest) : π (k.assign j m) = π m := by
  unfold Key.assign
  cases k.value j with
  | none => rfl
  | some x => exact h x m

theorem foldl_leaves {π : Manifest → α} (h : ∀ k ∈ ks, k.Leaves π) (m : Manifest) :
    π (ks.foldl (Key.assign j) m) = π m := by
  induction ks generalizing m with
  | nil => rfl
  | cons k ks ih =>
    rw [List.foldl_cons, ih fun k' hk => h k' (List.mem_cons_of_mem _ hk)]
    exact (h k List.mem_cons_self).assign m

/-- A part of the manifest that one key sets, and no other. -/
structure Key.Governs (k : Key) (π : Manifest → α) (g : k.type.Value → α) : Prop where
  mem : k ∈ keys
  sets : ∀ x m, π (k.set x m) = g x
  others : ∀ k' ∈ keys, k'.name = k.name ∨ k'.Leaves π

theorem foldl_field {π : Manifest → α} {g : k.type.Value → α} (hk : k ∈ ks) (hset : ∀ x m, π (k.set x m) = g x)
    (hnd : (ks.map Key.name).Nodup) (hothers : ∀ k' ∈ ks, k'.name = k.name ∨ k'.Leaves π) (m : Manifest) :
    π (ks.foldl (Key.assign j) m) = ((k.value j).map g).getD (π m) := by
  induction ks generalizing m with
  | nil => cases hk
  | cons k' ks ih =>
    obtain ⟨hnot, hnd⟩ := List.nodup_cons.mp hnd
    rw [List.foldl_cons]
    rcases List.mem_cons.mp hk with rfl | hk
    · have hleaves : ∀ k' ∈ ks, k'.Leaves π := fun k' hk' =>
        (hothers k' (List.mem_cons_of_mem _ hk')).resolve_left fun e => hnot (e ▸ List.mem_map_of_mem hk')
      rw [foldl_leaves hleaves]
      unfold Key.assign
      cases k.value j with
      | none => rfl
      | some x => exact hset x m
    · have hleaves := (hothers k' List.mem_cons_self).resolve_left fun e => hnot (e ▸ List.mem_map_of_mem hk)
      rw [ih hk hnd fun k'' hk'' => hothers k'' (List.mem_cons_of_mem _ hk''), hleaves.assign]

theorem keys_nodup : (keys.map Key.name).Nodup := by decide

/-- A governed field is what its key says, or its default. -/
theorem Key.Governs.field {π : Manifest → α} {g : k.type.Value → α} (h : k.Governs π g) (j : Json) :
    π (assigned j) = ((k.value j).map g).getD (π {}) :=
  foldl_field h.mem h.sets keys_nodup h.others {}

theorem governs : labelKey.Governs label id ∧ userNameKey.Governs userName some ∧ groupNameKey.Governs groupName some ∧
    programKey.Governs program some ∧ programArgumentsKey.Governs programArguments id ∧ umaskKey.Governs umask some ∧
    exitTimeoutKey.Governs exitTimeout id ∧ startIntervalKey.Governs startInterval some ∧
    throttleIntervalKey.Governs throttleInterval id := by
  refine ⟨?_, ?_, ?_, ?_, ?_, ?_, ?_, ?_, ?_⟩
  all_goals
    refine ⟨by simp [keys], fun _ _ => rfl, ?_⟩
    simp only [keys, List.forall_mem_cons]
    and_intros
    all_goals first | exact .inl trivial | exact .inr fun _ _ => rfl | exact List.forall_mem_nil _

end Reading

/-! ## The two passes -/

section Finish

variable {m m' : Manifest}

def normal (m : Manifest) : Manifest :=
  { m with
    program := m.program.or m.programArguments.head?
    programArguments := if m.programArguments.isEmpty then m.program.toList else m.programArguments }

def NamesProgram (m : Manifest) : Prop := m.program.isSome ∨ m.programArguments ≠ []

theorem rectify_normal (h : m.NamesProgram) : m.rectify = .ok m.normal := by
  obtain ⟨label, userName, groupName, program, programArguments⟩ := m
  cases program <;> cases programArguments
  · rcases h with h | h
    · cases h
    · exact absurd rfl h
  · rfl
  · rfl
  · rfl

theorem rectify_refuses (h : ¬ m.NamesProgram) :
    m.rectify = .error (.exn "one of these must be set: Program and/or ProgramArguments") := by
  have hp : m.program = none := Option.not_isSome_iff_eq_none.mp fun e => h (.inl e)
  have ha : m.programArguments = [] := Classical.byContradiction fun e => h (.inr e)
  rw [rectify, hp, ha]

theorem normal_program (h : m.NamesProgram) : m.normal.program.isSome := by
  rcases h with h | h
  · obtain ⟨p, hp⟩ := Option.isSome_iff_exists.mp h
    simp [normal, hp]
  · obtain ⟨a, as, ha⟩ := List.exists_cons_of_ne_nil h
    cases hp : m.program <;> simp [normal, hp, ha]

theorem normal_arguments (h : m.NamesProgram) : m.normal.programArguments ≠ [] := by
  cases ha : m.programArguments with
  | cons a as => simp [normal, ha]
  | nil =>
    obtain ⟨p, hp⟩ := Option.isSome_iff_exists.mp (h.resolve_right fun e => e ha)
    simp [normal, ha, hp]

/-- A manifest with both is left as it is. -/
theorem rectify_done (hp : m.program.isSome) (ha : m.programArguments ≠ []) : m.rectify = .ok m := by
  obtain ⟨p, hp⟩ := Option.isSome_iff_exists.mp hp
  obtain ⟨a, as, ha⟩ := List.exists_cons_of_ne_nil ha
  rw [rectify, hp, ha]

theorem validate_unlabelled (h : m.label.isEmpty = true) : m.validate = .error (.abort "!value.empty()") := by
  rw [validate, Label.string, if_pos h]
  rfl

theorem validate_labelled (h : m.label.isEmpty = false) (hp : m.program.isSome) :
    m.validate = .ok !(m.groupName.isSome && m.userName.isNone) := by
  obtain ⟨p, hp⟩ := Option.isSome_iff_exists.mp hp
  rw [validate, Label.string, h, hp]
  rfl

theorem finish_refuses (h : ¬ m.NamesProgram) : ∃ what, m.finish = .error (.exn what) :=
  ⟨_, by rw [finish, rectify_refuses h]; rfl⟩

theorem finish_eq (h : m.NamesProgram) : m.finish =
    if m.label.isEmpty then .error (.abort "!value.empty()")
    else if m.groupName.isSome && m.userName.isNone then .error (.exn "Invalid manifest")
    else .ok m.normal := by
  rw [finish, rectify_normal h]
  change (m.normal.validate >>= _) = _
  cases hl : m.label.isEmpty with
  | true => rw [validate_unlabelled (m := m.normal) hl]; rfl
  | false =>
    rw [validate_labelled (m := m.normal) hl (normal_program h)]
    change (if !(m.groupName.isSome && m.userName.isNone) then _ else _) = _
    cases m.groupName.isSome && m.userName.isNone <;> rfl

theorem finish_ok : m.finish = .ok m' ↔
    m.NamesProgram ∧ m.label.isEmpty = false ∧ (m.groupName.isSome → m.userName.isSome) ∧ m' = m.normal := by
  by_cases hp : m.NamesProgram
  · rw [finish_eq hp]
    cases hl : m.label.isEmpty with
    | true => exact iff_of_false nofun fun h => nomatch h.2.1
    | false =>
      rw [if_neg Bool.false_ne_true]
      cases hg : m.groupName.isSome <;> cases hu : m.userName
      · exact ⟨fun h => by cases h; exact ⟨hp, rfl, nofun, rfl⟩, fun h => h.2.2.2 ▸ rfl⟩
      · exact ⟨fun h => by cases h; exact ⟨hp, rfl, nofun, rfl⟩, fun h => h.2.2.2 ▸ rfl⟩
      · exact iff_of_false nofun fun h => nomatch h.2.2.1 rfl
      · exact ⟨fun h => by cases h; exact ⟨hp, rfl, fun _ => rfl, rfl⟩, fun h => h.2.2.2 ▸ rfl⟩
  · obtain ⟨what, hw⟩ := finish_refuses hp
    rw [hw]
    exact iff_of_false nofun fun h => hp h.1

/-- What aborts is a manifest without a label that names a program. -/
theorem finish_abort : (∃ why, m.finish = .error (.abort why)) ↔ m.NamesProgram ∧ m.label.isEmpty = true := by
  by_cases hp : m.NamesProgram
  · rw [finish_eq hp]
    cases hl : m.label.isEmpty with
    | true => exact iff_of_true ⟨_, rfl⟩ ⟨hp, rfl⟩
    | false =>
      rw [if_neg Bool.false_ne_true]
      refine iff_of_false ?_ fun h => nomatch h.2
      split <;> nofun
  · obtain ⟨what, hw⟩ := finish_refuses hp
    rw [hw]
    exact iff_of_false nofun fun h => hp h.1

end Finish

end Manifest

end Relaunchd
