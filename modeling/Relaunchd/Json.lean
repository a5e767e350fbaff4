/-
  Relaunchd.Json — the JSON values the program passes around (`nlohmann::json`) and the
  accessors it uses on them.

  An accessor can go wrong in two ways the callers must tell apart: it throws a
  `json::exception` (a type mismatch, `at` with a missing key), which a `catch` stops, or it
  is the `const` form of `operator[]` with a missing key or an index past the end, which is
  a failed assertion. `Fault.exn` is the first, `Fault.abort` the second.

  Objects are lists of members sorted by no particular rule; the accessors only look keys
  up. Numbers keep the kind the parser stored them with.
-/

import Mathlib

namespace Relaunchd

inductive Fault where
  | exn (what : String)
  | abort (why : String)
  deriving DecidableEq, Repr

abbrev Decode := Except Fault

/-- A decoder that succeeds ran its parts with success. -/
theorem bind_eq_ok {d : Decode α} {f : α → Decode β} {b : β} : d >>= f = .ok b ↔ ∃ a, d = .ok a ∧ f a = .ok b := by
  cases d with
  | error e => exact iff_of_false nofun nofun
  | ok a => exact ⟨fun h => ⟨a, rfl, h⟩, fun ⟨_, ha, h⟩ => by cases ha; exact h⟩

inductive Json where
  | null
  | bool (b : Bool)
  /-- `number_integer`: a signed 64-bit value. -/
  | int (n : Int)
  /-- `number_unsigned` -/
  | uint (n : Nat)
  /-- `number_float`, as the exact value `n / 10 ^ d`. -/
  | float (n : Int) (d : Nat)
  | str (s : String)
  | arr (xs : List Json)
  | obj (members : List (String × Json))
  deriving Repr

namespace Json

def typeError : Decode α := .error (.exn "type_error")

def outOfRange : Decode α := .error (.exn "out_of_range")

def find (members : List (String × Json)) (key : String) : Option Json :=
  (members.find? (·.1 == key)).map (·.2)

def contains : Json → String → Bool
  | .obj members, key => (find members key).isSome
  | _, _ => false

def atKey : Json → String → Decode Json
  | .obj members, key => match find members key with
    | some j => .ok j
    | none => outOfRange
  | _, _ => typeError

def atIndex : Json → Nat → Decode Json
  | .arr xs, i => match xs[i]? with
    | some j => .ok j
    | none => outOfRange
  | _, _ => typeError

/-- `operator[](key) const` -/
def key : Json → String → Decode Json
  | .obj members, k => match find members k with
    | some j => .ok j
    | none => .error (.abort "json: missing key")
  | _, _ => typeError

/-- `operator[](index) const` -/
def index : Json → Nat → Decode Json
  | .arr xs, i => match xs[i]? with
    | some j => .ok j
    | none => .error (.abort "json: index out of range")
  | _, _ => typeError

/-- `operator[](key) = value`: a missing key is added, and null becomes an object. -/
def set : Json → String → Json → Decode Json
  | .obj members, k, v =>
    if members.any (·.1 == k) then .ok (.obj (members.map fun m => if m.1 == k then (k, v) else m))
    else .ok (.obj (members ++ [(k, v)]))
  | .null, k, v => .ok (.obj [(k, v)])
  | _, _, _ => typeError

/-- `emplace(key, value)`: a key that is there keeps its value. -/
def emplace : Json → String → Json → Decode Json
  | .obj members, k, v => .ok (.obj (if members.any (·.1 == k) then members else members ++ [(k, v)]))
  | .null, k, v => .ok (.obj [(k, v)])
  | _, _, _ => typeError

def getString : Json → Decode String
  | .str s => .ok s
  | _ => typeError

def getBool : Json → Decode Bool
  | .bool b => .ok b
  | _ => typeError

/-- `get_to<uint32_t>`: a `static_cast` from whichever number, or boolean, is stored. -/
def getUint32 : Json → Decode Nat
  | .int n => .ok (n % 2 ^ 32).toNat
  | .uint n => .ok (n % 2 ^ 32)
  | .float n d => .ok ((n.tdiv (10 ^ d)) % 2 ^ 32).toNat
  | .bool b => .ok (if b then 1 else 0)
  | _ => typeError

def getStrings : Json → Decode (List String)
  | .arr xs => xs.mapM getString
  | _ => typeError

def getStringMap : Json → Decode (List (String × String))
  | .obj members => members.mapM fun m => do return (m.1, ← m.2.getString)
  | _ => typeError

/-- What a range-based `for` visits. -/
def elements : Json → List Json
  | .null => []
  | .arr xs => xs
  | .obj members => members.map (·.2)
  | j => [j]

/-! ## Members -/

section Members

variable {members : List (String × Json)} {k k' : String} {v : Json}

theorem find_cons (m : String × Json) :
    find (m :: members) k = if m.1 = k then some m.2 else find members k := by
  unfold find
  by_cases h : m.1 = k <;> simp [h]

theorem find_isSome : (find members k).isSome = members.any (·.1 == k) := by
  induction members with
  | nil => rfl
  | cons m members ih =>
    rw [find_cons, List.any_cons, ← ih]
    by_cases h : m.1 = k <;> simp [h]

theorem find_map (h : members.any (·.1 == k) = true) (k' : String) :
    find (members.map fun m => if m.1 == k then (k, v) else m) k' = if k' = k then some v else find members k' := by
  induction members with
  | nil => cases h
  | cons m members ih =>
    rw [List.map_cons, find_cons, find_cons]
    by_cases hk : k' = k
    · subst hk
      rw [if_pos rfl]
      by_cases hm : m.1 = k'
      · rw [if_pos (beq_iff_eq.mpr hm), if_pos rfl]
      · have hany : members.any (·.1 == k') = true := by simpa [hm] using h
        rw [if_neg (mt beq_iff_eq.mp hm), if_neg hm, ih hany, if_pos rfl]
    · rw [if_neg hk]
      have hrest : find (members.map fun m => if m.1 == k then (k, v) else m) k' = find members k' := by
        by_cases hany : members.any (·.1 == k) = true
        · rw [ih hany, if_neg hk]
        · have hid : (members.map fun m => if m.1 == k then (k, v) else m) = members := by
            refine (List.map_congr_left fun m' hm' => ?_).trans (List.map_id members)
            exact if_neg fun e => hany (List.any_eq_true.mpr ⟨m', hm', e⟩)
          rw [hid]
      by_cases hm : m.1 = k
      · rw [if_pos (beq_iff_eq.mpr hm), if_neg (Ne.symm hk), if_neg fun e => hk (e.symm.trans hm), hrest]
      · rw [if_neg (mt beq_iff_eq.mp hm), hrest]

theorem find_append (h : members.any (·.1 == k) = false) (k' : String) :
    find (members ++ [(k, v)]) k' = if k' = k then some v else find members k' := by
  induction members with
  | nil => exact (find_cons (k, v)).trans (by simp only [eq_comm])
  | cons m members ih =>
    simp only [List.any_cons, Bool.or_eq_false_iff, beq_eq_false_iff_ne] at h
    rw [List.cons_append, find_cons, find_cons, ih h.2]
    by_cases hk : k' = k
    · simp [hk, h.1]
    · simp [hk]

/-- A member that is set is read back, and no other changes. -/
theorem set_obj {j : Json} (h : (obj members).set k v = .ok j) :
    ∃ members', j = .obj members' ∧ ∀ k', find members' k' = if k' = k then some v else find members k' := by
  by_cases hany : members.any (·.1 == k) = true
  · rw [set, if_pos hany] at h
    cases h
    exact ⟨_, rfl, find_map hany⟩
  · rw [set, if_neg hany] at h
    cases h
    exact ⟨_, rfl, find_append (Bool.not_eq_true _ ▸ hany)⟩

/-- What can be set a member becomes an object with it. -/
theorem set_self {j j' : Json} (h : j.set k v = .ok j') : ∃ members', j' = .obj members' ∧ find members' k = some v := by
  cases j with
  | obj members =>
    obtain ⟨members', rfl, hfind⟩ := set_obj h
    exact ⟨members', rfl, by rw [hfind, if_pos rfl]⟩
  | null =>
    cases h
    exact ⟨_, rfl, by simp [find]⟩
  | bool | int | uint | float | str | arr => cases h

/-- A member that is not there is added. -/
theorem emplace_obj {j : Json} (hn : find members k = none) (h : (obj members).emplace k v = .ok j) :
    ∃ members', j = .obj members' ∧ ∀ k', find members' k' = if k' = k then some v else find members k' := by
  have hany : members.any (·.1 == k) = false := by rw [← find_isSome, hn]; rfl
  cases h
  exact ⟨_, rfl, fun k' => by rw [hany, if_neg Bool.false_ne_true, find_append hany]⟩

theorem atKey_obj (h : find members k = some v) : (obj members).atKey k = .ok v := by
  simp only [atKey, h]

theorem key_obj (h : find members k = some v) : (obj members).key k = .ok v := by
  simp only [key, h]

end Members

end Json

/-! ## Faults -/

def Decode.FaultsIn (faults : List Fault) (d : Decode α) : Prop := ∀ e, d = .error e → e ∈ faults

namespace Decode.FaultsIn

variable {faults : List Fault} {d : Decode α}

theorem done (a : α) : FaultsIn faults (.ok a) := nofun

theorem bind {f : α → Decode β} (hd : d.FaultsIn faults) (hf : ∀ a, (f a).FaultsIn faults) : FaultsIn faults (d >>= f) := by
  cases d with
  | error e => exact fun _ h => by cases h; exact hd e rfl
  | ok a => exact hf a

theorem mapM {f : β → Decode α} (hf : ∀ b, (f b).FaultsIn faults) (bs : List β) : FaultsIn faults (bs.mapM f) := by
  induction bs with
  | nil => exact done _
  | cons b bs ih =>
    rw [List.mapM_cons]
    exact (hf b).bind fun _ => ih.bind fun _ => done _

theorem mono {faults' : List Fault} (h : d.FaultsIn faults) (hs : faults ⊆ faults') : d.FaultsIn faults' :=
  fun e he => hs (h e he)

end Decode.FaultsIn

namespace Json

/-- What the checked accessors throw. -/
def exceptions : List Fault := [.exn "type_error", .exn "out_of_range"]

section Faults

variable (j : Json) (k : String)

theorem atKey_faults : (j.atKey k).FaultsIn exceptions := by
  unfold atKey
  split
  · split
    · exact .done _
    · exact fun e he => by cases he; decide
  · exact fun e he => by cases he; decide

theorem atIndex_faults (i : Nat) : (j.atIndex i).FaultsIn exceptions := by
  unfold atIndex
  split
  · split
    · exact .done _
    · exact fun e he => by cases he; decide
  · exact fun e he => by cases he; decide

theorem set_faults (v : Json) : (j.set k v).FaultsIn exceptions := by
  cases j with
  | obj members =>
    dsimp only [set]
    split
    · exact .done _
    · exact .done _
  | null => exact .done _
  | bool | int | uint | float | str | arr => exact fun e he => by cases he; decide

theorem emplace_faults (v : Json) : (j.emplace k v).FaultsIn exceptions := by
  cases j with
  | obj | null => exact .done _
  | bool | int | uint | float | str | arr => exact fun e he => by cases he; decide

theorem getString_faults : j.getString.FaultsIn exceptions := by
  cases j with
  | str => exact .done _
  | null | bool | int | uint | float | arr | obj => exact fun e he => by cases he; decide

theorem getBool_faults : j.getBool.FaultsIn exceptions := by
  cases j with
  | bool => exact .done _
  | null | str | int | uint | float | arr | obj => exact fun e he => by cases he; decide

theorem getUint32_faults : j.getUint32.FaultsIn exceptions := by
  cases j with
  | bool | int | uint | float => exact .done _
  | null | str | arr | obj => exact fun e he => by cases he; decide

theorem getStrings_faults : j.getStrings.FaultsIn exceptions := by
  cases j with
  | arr xs => exact .mapM getString_faults xs
  | null | bool | int | uint | float | str | obj => exact fun e he => by cases he; decide

theorem getStringMap_faults : j.getStringMap.FaultsIn exceptions := by
  cases j with
  | obj members => exact .mapM (fun m => (getString_faults m.2).bind fun _ => .done _) members
  | null | bool | int | uint | float | str | arr => exact fun e he => by cases he; decide

end Faults

end Json

end Relaunchd
