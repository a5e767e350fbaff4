/-
  Relaunchd.Properties.Plists — which XML manifests are read, and what they can say.

  A `dict` is read when it is a list of keys, each followed by a string that has a text or
  by a boolean (`plist_read`). So a description of a job in XML means what it means in
  JSON, or nothing (`plist_means_json`), and no job that comes from one has arguments, an
  environment, or an interval of more than a second (`plist_manifest`).
-/

import Relaunchd.Plist
import Relaunchd.Properties.Decoding

namespace Relaunchd

open Xml

namespace Json

variable {j j' v : Json} {key key' : String} {members : List (String × Json)}

def setAll (j : Json) (members : List (String × Json)) : Decode Json := members.foldlM (fun j m => j.set m.1 m.2) j

theorem setAll_cons {m : String × Json} : j.setAll (m :: members) = j.set m.1 m.2 >>= fun j => j.setAll members := by
  rw [setAll, List.foldlM_cons]
  rfl

theorem set_member (h : j.set key v = .ok j') : j'.member? key' = if key' = key then some v else j.member? key' := by
  cases j with
  | obj members =>
    obtain ⟨members', rfl, hfind⟩ := set_obj h
    exact hfind key'
  | null =>
    cases h
    refine (find_cons (key, v)).trans ?_
    by_cases hk : key' = key
    · rw [if_pos hk, if_pos hk.symm]
    · rw [if_neg hk, if_neg fun e => hk e.symm]
      rfl
  | bool | int | uint | float | str | arr => cases h

theorem find_append_members (members members' : List (String × Json)) (key : String) :
    find (members ++ members') key = (find members key).or (find members' key) := by
  rw [find, List.find?_append, Option.map_or]
  rfl

/-- The last member of a name is the one that stays. -/
theorem setAll_member (h : j.setAll members = .ok j') : j'.member? key = (find members.reverse key).or (j.member? key) := by
  induction members generalizing j with
  | nil =>
    cases h
    rfl
  | cons m members ih =>
    rw [setAll_cons] at h
    obtain ⟨j₁, hset, h⟩ := bind_eq_ok.mp h
    rw [ih h, set_member hset, List.reverse_cons, find_append_members, Option.or_assoc, find_cons]
    congr 1
    by_cases hk : key = m.1
    · rw [if_pos hk, if_pos hk.symm]
      rfl
    · rw [if_neg hk, if_neg fun e => hk e.symm]
      rfl

/-- A member can be set of an object, and of what is nothing yet. -/
theorem set_ok (h : j = .null ∨ ∃ ms, j = .obj ms) : ∃ ms, j.set key v = .ok (.obj ms) := by
  rcases h with rfl | ⟨ms, rfl⟩
  · exact ⟨_, rfl⟩
  · by_cases hany : ms.any (·.1 == key) = true
    · exact ⟨_, if_pos hany⟩
    · exact ⟨_, if_neg hany⟩

theorem setAll_ok (members : List (String × Json)) (h : j = .null ∨ ∃ ms, j = .obj ms) :
    ∃ j', j.setAll members = .ok j' := by
  induction members generalizing j with
  | nil => exact ⟨j, rfl⟩
  | cons m members ih =>
    obtain ⟨ms, hset⟩ := @set_ok j m.2 m.1 h
    obtain ⟨j', hj'⟩ := ih (.inr ⟨ms, rfl⟩)
    exact ⟨j', setAll_cons.trans (bind_eq_ok.mpr ⟨_, hset, hj'⟩)⟩

/-- A member of a new name is added. -/
theorem set_new {ms : List (String × Json)} (h : ((ms ++ (key, v) :: members).map Prod.fst).Nodup) :
    (obj ms).set key v = .ok (.obj (ms ++ [(key, v)])) := by
  have hnew : ¬ ms.any (·.1 == key) = true := by
    intro hany
    obtain ⟨m', hm', he⟩ := List.any_eq_true.mp hany
    rw [List.map_append, List.nodup_append] at h
    exact h.2.2 m'.1 (List.mem_map_of_mem hm') key (by simp) (beq_iff_eq.mp he)
  exact if_neg hnew

end Json

namespace Manifest

open Json

variable {doc : List Xml} {els rest : List Element} {elem value : Element} {result j : Json} {key : String}
  {members : List (String × Json)}

/-! ## What is read -/

def valueOf (e : Element) : Option Json :=
  if sameName e.name "string" then e.getText.map .str
  else if sameName e.name "true" then some (.bool true)
  else if sameName e.name "false" then some (.bool false)
  else none

/-- The elements are keys and values in turn. -/
inductive Spells : List Element → List (String × Json) → Prop
  | nil : Spells [] []
  | entry {elem value : Element} {key : String} {v : Json} {rest : List Element} {members : List (String × Json)} :
      sameName elem.name "key" → elem.getText = some key → valueOf value = some v → Spells rest members →
      Spells (elem :: value :: rest) ((key, v) :: members)

theorem parseEntries_pair (hk : sameName elem.name "key") (hkey : elem.getText = some key) :
    parseEntries result (elem :: value :: rest) = match valueOf value with
      | none => .ok none
      | some v => result.set key v >>= fun result => parseEntries result rest := by
  rw [parseEntries, hk, if_neg (by simp), hkey, valueOf]
  dsimp only
  split
  · cases value.getText with
    | none => rfl
    | some val => rfl
  · split
    · rfl
    · split
      · rfl
      · rfl

/-- A first element that is no key with a text ends the reading. -/
theorem parseEntries_stop (h : sameName elem.name "key" → elem.getText = none) :
    parseEntries result (elem :: rest) = .ok none := by
  cases rest with
  | nil => rfl
  | cons value rest =>
    rw [parseEntries]
    by_cases hk : sameName elem.name "key" = true
    · rw [hk, if_neg (by simp), h hk]
    · rw [if_pos (by simpa using hk)]

/-- The loop reads just the lists of keys and values. -/
theorem parseEntries_some : parseEntries result els = .ok (some j) ↔
    ∃ members, Spells els members ∧ result.setAll members = .ok j := by
  induction els using List.twoStepInduction generalizing result with
  | nil =>
    constructor
    · intro h
      cases h
      exact ⟨[], .nil, rfl⟩
    · intro h
      obtain ⟨members, hs, hj⟩ := h
      cases hs
      cases hj
      rfl
  | singleton elem =>
    constructor
    · intro h
      cases h
    · intro h
      obtain ⟨members, hs, -⟩ := h
      cases hs
  | cons_cons elem value rest ih _ =>
    constructor
    · intro h
      by_cases hk : sameName elem.name "key" = true
      · cases hkey : elem.getText with
        | none =>
          rw [parseEntries_stop fun _ => hkey] at h
          cases h
        | some key =>
          rw [parseEntries_pair hk hkey] at h
          cases hv : valueOf value with
          | none =>
            rw [hv] at h
            cases h
          | some v =>
            rw [hv] at h
            obtain ⟨j₁, hset, h⟩ := bind_eq_ok.mp h
            obtain ⟨members, hs, hall⟩ := ih.mp h
            refine ⟨(key, v) :: members, .entry hk hkey hv hs, ?_⟩
            rw [setAll_cons, hset]
            exact hall
      · rw [parseEntries_stop fun hk' => absurd hk' hk] at h
        cases h
    · intro h
      obtain ⟨members, hs, hj⟩ := h
      cases hs with
      | entry hk hkey hv hs =>
        rw [setAll_cons] at hj
        obtain ⟨j₁, hset, hj⟩ := bind_eq_ok.mp hj
        rw [parseEntries_pair hk hkey, hv]
        exact bind_eq_ok.mpr ⟨j₁, hset, ih.mpr ⟨_, hs, hj⟩⟩

/-- The first `dict` of the first `plist`. -/
def dictOf (doc : List Xml) : Option Element :=
  (firstChildElement doc "plist").bind fun plist => firstChildElement plist.children "dict"

theorem parseXml_eq (doc : List Xml) : parseXml (some doc) = match dictOf doc with
    | none => .error (.abort "null pointer")
    | some dict => if dict.children.isEmpty then .ok none else parseEntries .null (elements dict.children) := by
  unfold parseXml dictOf
  dsimp only
  cases hp : firstChildElement doc "plist" with
  | none => rfl
  | some plist => rfl

/-- The `dict` is there and not empty, and spells these members. -/
def Content (doc : List Xml) (members : List (String × Json)) : Prop :=
  ∃ dict, dictOf doc = some dict ∧ dict.children ≠ [] ∧ Spells (elements dict.children) members

theorem parseXml_some : parseXml (some doc) = .ok (some j) ↔
    ∃ members, Content doc members ∧ Json.null.setAll members = .ok j := by
  rw [parseXml_eq]
  unfold Content
  cases hdict : dictOf doc with
  | none => simp
  | some dict =>
    by_cases hempty : dict.children = []
    · simp [hempty]
    · have hne : dict.children.isEmpty = false := by simpa using hempty
      simp [hne, hempty, parseEntries_some]

/-- The loop does not fail. -/
theorem parseEntries_lives (els : List Element) (h : result = .null ∨ ∃ ms, result = .obj ms) :
    ∃ read, parseEntries result els = .ok read := by
  induction els using List.twoStepInduction generalizing result with
  | nil => exact ⟨_, rfl⟩
  | singleton elem => exact ⟨_, rfl⟩
  | cons_cons elem value rest ih _ =>
    by_cases hk : sameName elem.name "key" = true
    · cases hkey : elem.getText with
      | none => exact ⟨_, parseEntries_stop fun _ => hkey⟩
      | some key =>
        rw [parseEntries_pair hk hkey]
        cases valueOf value with
        | none => exact ⟨_, rfl⟩
        | some v =>
          obtain ⟨ms, hset⟩ := @set_ok result v key h
          obtain ⟨read, hread⟩ := @ih (.obj ms) (.inr ⟨ms, rfl⟩)
          exact ⟨read, bind_eq_ok.mpr ⟨_, hset, hread⟩⟩
    · exact ⟨_, parseEntries_stop fun hk' => absurd hk' hk⟩

/-- A `plist` or a `dict` that is missing ends launchd, and nothing else does. -/
theorem parseXml_dies (doc : List Xml) : (∃ e, parseXml (some doc) = .error e) ↔ dictOf doc = none := by
  rw [parseXml_eq]
  cases hdict : dictOf doc with
  | none => simp
  | some dict =>
    obtain ⟨read, hread⟩ := parseEntries_lives (Xml.elements dict.children) (.inl rfl)
    by_cases hempty : dict.children = []
    · simp [hempty]
    · simp [hempty, hread]

/-- A member that is found in what is read is the last of its name. -/
theorem parseXml_content (h : Content doc members) :
    ∃ j, parseXml (some doc) = .ok (some j) ∧ ∀ key, j.member? key = Json.find members.reverse key := by
  obtain ⟨j, hset⟩ := setAll_ok members (.inl rfl)
  refine ⟨j, parseXml_some.mpr ⟨members, h, hset⟩, fun key => ?_⟩
  rw [setAll_member hset]
  exact Option.or_none

/-- A file ends launchd when there is no `dict` in it, and is read when the `dict` spells members. -/
theorem plist_read (doc : List Xml) :
    ((∃ e, parseXml (some doc) = .error e) ↔ dictOf doc = none) ∧
    ((∃ j, parseXml (some doc) = .ok (some j)) ↔ ∃ members, Content doc members) ∧
    ∀ members, Content doc members →
      ∃ j, parseXml (some doc) = .ok (some j) ∧ ∀ key, j.member? key = Json.find members.reverse key := by
  refine ⟨parseXml_dies doc, ?_, fun members h => parseXml_content h⟩
  constructor
  · intro h
    obtain ⟨j, hj⟩ := h
    obtain ⟨members, hc, -⟩ := parseXml_some.mp hj
    exact ⟨members, hc⟩
  · intro h
    obtain ⟨members, hc⟩ := h
    obtain ⟨j, hj, -⟩ := parseXml_content hc
    exact ⟨j, hj⟩

/-! ## The same description in JSON -/

def isWhiteSpace (c : Char) : Bool := c.toNat = 32 || 9 ≤ c.toNat && c.toNat ≤ 13

def isBlank (s : String) : Bool := s.toList.all isWhiteSpace

/-- The text in an element. `XMLDocument::Identify` goes over blanks to the next tag, so that
    a blank text leaves nothing there. -/
def textOf (s : String) : List Xml := if isBlank s then [] else [.text s]

/-- What a value is written as; `nested` is how arrays and objects are. Null has no element. -/
def elementOf (nested : Json → List Xml) : Json → Xml
  | .str s => .element "string" (textOf s)
  | .bool true => .element "true" []
  | .bool false => .element "false" []
  | .int n => .element "integer" (textOf (toString n))
  | .uint n => .element "integer" (textOf (toString n))
  | .float n d => .element "real" (nested (.float n d))
  | .arr xs => .element "array" (nested (.arr xs))
  | .obj members => .element "dict" (nested (.obj members))
  | .null => .other

def entryOf (nested : Json → List Xml) (m : String × Json) : List Xml := [.element "key" (textOf m.1), elementOf nested m.2]

/-- `tinyxml2` takes a CR for the end of a line, and a NUL for the end of the file. -/
def isVerbatim (s : String) : Bool := s.toList.all fun c => c.toNat ≠ 13 && c.toNat ≠ 0

/-- A description of a job, by its members, whose texts can be written in XML as they are. -/
structure Description where
  members : List (String × Json)
  nodup : (members.map Prod.fst).Nodup
  verbatim : ∀ m ∈ members, isVerbatim m.1 ∧ ∀ s, m.2 = .str s → isVerbatim s

/-- What is loaded of a description that is written in XML. -/
def Description.document (nested : Json → List Xml) (d : Description) : List Xml :=
  [.other, .element "plist" [.element "dict" (d.members.flatMap (entryOf nested))]]

/-- A string that is not blank, or a boolean. -/
def isPlain : Json → Bool
  | .str s => !isBlank s
  | .bool _ => true
  | .null | .int _ | .uint _ | .float _ _ | .arr _ | .obj _ => false

def canBeRead (m : String × Json) : Bool := !isBlank m.1 && isPlain m.2

variable {nested : Json → List Xml} {m : String × Json}

theorem getText_textOf (name s : String) : Element.getText ⟨name, textOf s⟩ = if isBlank s then none else some s := by
  unfold textOf
  split
  · rfl
  · rfl

/-- A number, an array, an object, or another key. -/
theorem valueOf_unsupported {name : String} (h : name ∈ ["key", "integer", "real", "array", "dict"]) (children : List Xml) :
    valueOf ⟨name, children⟩ = none := by
  have hnames : ∀ name ∈ ["key", "integer", "real", "array", "dict"], sameName name "string" = false ∧
      sameName name "true" = false ∧ sameName name "false" = false := by decide +kernel
  obtain ⟨h₁, h₂, h₃⟩ := hnames name h
  rw [valueOf, h₁, h₂, h₃]
  rfl

/-- A plain value is read from its element, and no other is. -/
theorem valueOf_element {e : Element} {v : Json} (he : (elementOf nested v).element? = some e) :
    valueOf e = if isPlain v then some v else none := by
  have hstring : sameName "string" "string" = true := by decide +kernel
  have htrue : sameName "true" "string" = false ∧ sameName "true" "true" = true := by decide +kernel
  have hfalse : sameName "false" "string" = false ∧ sameName "false" "true" = false ∧ sameName "false" "false" = true := by
    decide +kernel
  cases v with
  | null => cases he
  | str s =>
    cases he
    rw [valueOf, if_pos hstring, getText_textOf]
    by_cases hs : isBlank s
    · simp [isPlain, hs]
    · simp [isPlain, hs]
  | bool b =>
    cases b with
    | true =>
      cases he
      rw [valueOf, htrue.1, htrue.2]
      rfl
    | false =>
      cases he
      rw [valueOf, hfalse.1, hfalse.2.1, hfalse.2.2]
      rfl
  | int | uint | float | arr | obj =>
    cases he
    exact valueOf_unsupported (by simp) _

/-- The first member makes an object of nothing. -/
theorem parseEntries_null : parseEntries .null (elem :: rest) = parseEntries (.obj []) (elem :: rest) := by
  cases rest with
  | nil => rfl
  | cons value rest =>
    by_cases hk : sameName elem.name "key" = true
    · cases hkey : elem.getText with
      | none => rw [parseEntries_stop fun _ => hkey, parseEntries_stop fun _ => hkey]
      | some key =>
        rw [parseEntries_pair hk hkey, parseEntries_pair hk hkey]
        rfl
    · rw [parseEntries_stop fun hk' => absurd hk' hk, parseEntries_stop fun hk' => absurd hk' hk]

theorem elements_entry (m : String × Json) (nodes : List Xml) : Xml.elements (entryOf nested m ++ nodes) =
    ⟨"key", textOf m.1⟩ :: ((elementOf nested m.2).element?.toList ++ Xml.elements nodes) := by
  have hkey : (Xml.element "key" (textOf m.1)).element? = some ⟨"key", textOf m.1⟩ := rfl
  rw [Xml.elements, entryOf, List.cons_append, List.singleton_append, List.filterMap_cons_some hkey]
  cases he : (elementOf nested m.2).element? with
  | none => rw [List.filterMap_cons_none he]; rfl
  | some value => rw [List.filterMap_cons_some he]; rfl

/-- The members of a description are read one after the other. -/
theorem parseEntries_document {ms : List (String × Json)} (h : ((ms ++ members).map Prod.fst).Nodup) :
    parseEntries (.obj ms) (Xml.elements (members.flatMap (entryOf nested))) =
      .ok (if members.all canBeRead then some (.obj (ms ++ members)) else none) := by
  have hname : sameName "key" "key" = true := by decide +kernel
  induction members generalizing ms with
  | nil => simp [Xml.elements, parseEntries]
  | cons m members ih =>
    obtain ⟨key, v⟩ := m
    rw [List.flatMap_cons, elements_entry]
    by_cases hk : isBlank key
    · rw [parseEntries_stop fun _ => by rw [getText_textOf, if_pos hk]]
      simp [canBeRead, hk]
    have hkey : Element.getText ⟨"key", textOf key⟩ = some key := by rw [getText_textOf, if_neg hk]
    cases he : (elementOf nested v).element? with
    | none =>
      -- null: the next key stands where the value should
      have hv : isPlain v = false := by
        cases v with
        | null => rfl
        | bool b => cases b <;> cases he
        | str | int | uint | float | arr | obj => cases he
      have hnone : parseEntries (.obj ms) (⟨"key", textOf key⟩ :: Xml.elements (members.flatMap (entryOf nested))) =
          .ok none := by
        cases members with
        | nil => rfl
        | cons m' members =>
          rw [List.flatMap_cons, elements_entry, parseEntries_pair hname hkey, valueOf_unsupported (by simp)]
      refine hnone.trans ?_
      simp [canBeRead, hv]
    | some value =>
      have hset : (Json.obj ms).set key v = .ok (.obj (ms ++ [(key, v)])) := Json.set_new h
      have hrest := @ih (ms ++ [(key, v)]) (by rwa [List.append_assoc])
      rw [Option.toList_some, List.singleton_append, parseEntries_pair hname hkey, valueOf_element he]
      cases hv : isPlain v with
      | false => simp [canBeRead, hv]
      | true =>
        simp only [if_true, hset]
        have hread : canBeRead (key, v) = true := by rw [canBeRead, hv, Bool.and_true]; simpa using hk
        rw [List.all_cons, hread, Bool.true_and]
        refine hrest.trans ?_
        rw [List.append_assoc, List.singleton_append]

/-- A description is read from its XML if all its members can be, and if there is one. -/
theorem parsePlist_document (nested : Json → List Xml) (d : Description) : parsePlist (some (d.document nested)) =
    .ok (if d.members ≠ [] ∧ d.members.all canBeRead then .obj d.members else .int (-1)) := by
  obtain ⟨members, h, -⟩ := d
  have hdict : ∀ d : Description, dictOf (d.document nested) = some ⟨"dict", d.members.flatMap (entryOf nested)⟩ := by
    intro d
    unfold dictOf Description.document firstChildElement
    simp [Xml.elements, element?]
  unfold parsePlist
  rw [parseXml_eq, hdict]
  dsimp only
  cases members with
  | nil => rfl
  | cons m members =>
    have hnull : parseEntries .null (Xml.elements ((m :: members).flatMap (entryOf nested))) =
        parseEntries (.obj []) (Xml.elements ((m :: members).flatMap (entryOf nested))) := by
      rw [List.flatMap_cons, elements_entry]
      exact parseEntries_null
    have hne : ((m :: members).flatMap (entryOf nested)).isEmpty = false := rfl
    rw [hne, if_neg Bool.false_ne_true, hnull, @parseEntries_document _ _ [] h]
    by_cases hall : (m :: members).all canBeRead = true
    · rw [if_pos hall, if_pos ⟨by simp, hall⟩]
      rfl
    · rw [if_neg hall, if_neg fun hboth => hall hboth.2]
      rfl

/-- What XML cannot say is refused: a manifest that comes from XML is the one that JSON gives. -/
theorem plist_means_json (nested : Json → List Xml) (d : Description) :
    (parsePlist (some (d.document nested)) >>= fromJson) =
      if d.members ≠ [] ∧ d.members.all canBeRead then fromJson (.obj d.members)
      else .error (.exn "one of these must be set: Program and/or ProgramArguments") := by
  rw [parsePlist_document]
  by_cases hall : d.members ≠ [] ∧ d.members.all canBeRead = true
  · rw [if_pos hall, if_pos hall]
    rfl
  · rw [if_neg hall, if_neg hall]
    rfl

def aliveJob : Description where
  members := [("Label", .str "job"), ("Program", .str "/bin/job"), ("KeepAlive", .bool true)]
  nodup := by decide
  verbatim := by simp [isVerbatim]

def blankUser : Description where
  members := [("Label", .str "job"), ("Program", .str "/bin/job"), ("UserName", .str " ")]
  nodup := by decide
  verbatim := by simp [isVerbatim]

theorem plist_means_json_alive :
    (parsePlist (some (aliveJob.document fun _ => [])) >>= fromJson) = fromJson (.obj aliveJob.members) ∧
    (parsePlist (some (blankUser.document fun _ => [])) >>= fromJson) =
      .error (.exn "one of these must be set: Program and/or ProgramArguments") :=
  ⟨(plist_means_json (fun _ => []) aliveJob).trans (if_pos (by decide +kernel)),
    (plist_means_json (fun _ => []) blankUser).trans (if_neg (by decide +kernel))⟩

/-! ## What such a manifest can say -/

/-- A boolean where a number is expected is 0 or 1. -/
theorem getUint32_le {v : Json} {n : Nat} (hv : (∃ s, v = .str s) ∨ ∃ b, v = .bool b) (h : v.getUint32 = .ok n) : n ≤ 1 := by
  rcases hv with ⟨s, rfl⟩ | ⟨b, rfl⟩
  · cases h
  · cases h
    cases b
    · exact Nat.zero_le 1
    · exact le_rfl

theorem valueOf_plain {e : Element} {v : Json} (h : valueOf e = some v) : (∃ s, v = .str s) ∨ ∃ b, v = .bool b := by
  unfold valueOf at h
  split at h
  · obtain ⟨s, -, rfl⟩ := Option.map_eq_some_iff.mp h
    exact .inl ⟨s, rfl⟩
  · split at h
    · cases h
      exact .inr ⟨true, rfl⟩
    · split at h
      · cases h
        exact .inr ⟨false, rfl⟩
      · cases h

theorem Spells.plain (h : Spells els members) : ∀ m ∈ members, (∃ s, m.2 = .str s) ∨ ∃ b, m.2 = .bool b := by
  induction h with
  | nil => simp
  | entry _ _ hv _ ih => exact List.forall_mem_cons.mpr ⟨valueOf_plain hv, ih⟩

def Plain (j : Json) : Prop := ∀ key v, j.member? key = some v → (∃ s, v = .str s) ∨ ∃ b, v = .bool b

theorem parsePlist_plain {loaded : Option (List Xml)} {v : Json} (h : parsePlist loaded = .ok j)
    (hv : j.member? key = some v) : (∃ s, v = .str s) ∨ ∃ b, v = .bool b := by
  obtain ⟨read, hread, h⟩ := bind_eq_ok.mp h
  cases read with
  | none =>
    cases h
    cases hv
  | some obj =>
    cases h
    cases loaded with
    | none => cases hread
    | some doc =>
      obtain ⟨members, hc, hset⟩ := parseXml_some.mp hread
      obtain ⟨dict, -, -, hs⟩ := hc
      rw [setAll_member hset] at hv
      have hfind : Json.find members.reverse key = some v := by
        rwa [show Json.null.member? key = none from rfl, Option.or_none] at hv
      obtain ⟨m, hm, rfl⟩ := Option.map_eq_some_iff.mp hfind
      exact hs.plain m (List.mem_reverse.mp (List.mem_of_find?_eq_some hm))

/-- No arguments but the program, no environment, and nothing that is counted beyond 1. -/
structure Modest (m : Manifest) : Prop where
  programArguments : m.programArguments = m.program.toList
  environmentVariables : m.environmentVariables = []
  exitTimeout : m.exitTimeout ≤ 1 ∨ m.exitTimeout = defaultExitTimeout
  startInterval : ∀ interval, m.startInterval = some interval → interval ≤ 1
  throttleInterval : m.throttleInterval ≤ 1 ∨ m.throttleInterval = 10
  nice : ∀ n, m.nice = some n → n ≤ 1

abbrev environmentKey : Key := ⟨"EnvironmentVariables", .stringMap, fun e m => { m with environmentVariables := e }⟩

abbrev niceKey : Key := ⟨"Nice", .number, fun n m => { m with nice := some n }⟩

theorem environment_nice_governs : environmentKey.Governs environmentVariables id ∧ niceKey.Governs Manifest.nice some := by
  refine ⟨?_, ?_⟩
  all_goals
    refine ⟨by simp [keys], fun _ _ => rfl, ?_⟩
    simp only [keys, List.forall_mem_cons]
    and_intros
    all_goals first | exact .inl trivial | exact .inr fun _ _ => rfl | exact List.forall_mem_nil _

theorem number_le {v : Json} {n : Nat} (hplain : Plain j) (hv : j.member? key = some v) (hn : v.getUint32 = .ok n) : n ≤ 1 :=
  getUint32_le (hplain key v hv) hn

theorem environment_nil (hplain : Plain j) : environmentKey.value j = none := by
  refine Option.eq_none_iff_forall_ne_some.mpr fun es hes => ?_
  obtain ⟨v, hv, hd⟩ := value_eq.mp hes
  have hobj := getStringMap_ok.mp hd
  rcases hplain _ v hv with ⟨s, rfl⟩ | ⟨b, rfl⟩
  · cases hobj
  · cases hobj

theorem arguments_nil (hplain : Plain j) : programArgumentsKey.value j = none := by
  refine Option.eq_none_iff_forall_ne_some.mpr fun ss hss => ?_
  obtain ⟨v, hv, hd⟩ := value_eq.mp hss
  have harr := getStrings_ok.mp hd
  rcases hplain _ v hv with ⟨s, rfl⟩ | ⟨b, rfl⟩
  · cases harr
  · cases harr

/-- A number that a key of the manifest has is 0 or 1, or the default. -/
theorem modest_number {π : Manifest → Nat} {name : String} {set : Nat → Manifest → Manifest} (hplain : Plain j)
    (hg : Key.Governs ⟨name, .number, set⟩ π id) : π (assigned j) ≤ 1 ∨ π (assigned j) = π {} := by
  rw [hg.field j]
  cases hv : Key.value ⟨name, .number, set⟩ j with
  | none => exact .inr rfl
  | some n =>
    obtain ⟨v, hm, hd⟩ := value_eq.mp hv
    exact .inl (number_le hplain hm hd)

theorem modest_option {π : Manifest → Option Nat} {name : String} {set : Nat → Manifest → Manifest} (hplain : Plain j)
    (hg : Key.Governs ⟨name, .number, set⟩ π some) (hnone : π {} = none) : ∀ n, π (assigned j) = some n → n ≤ 1 := by
  intro n hn
  rw [hg.field j] at hn
  cases hv : Key.value ⟨name, .number, set⟩ j with
  | none =>
    rw [hv, Option.map_none, Option.getD_none, hnone] at hn
    cases hn
  | some n' =>
    rw [hv] at hn
    cases hn
    obtain ⟨v, hm, hd⟩ := value_eq.mp hv
    exact number_le hplain hm hd

theorem modest_normal (hplain : Plain j) : Modest (assigned j).normal := by
  have harguments : (assigned j).programArguments = [] := by rw [assigned_programArguments, arguments_nil hplain]; rfl
  have henvironment : (assigned j).environmentVariables = [] := by
    rw [environment_nice_governs.1.field j, environment_nil hplain]
    rfl
  refine ⟨?_, henvironment, modest_number hplain governs.2.2.2.2.2.2.1, modest_option hplain governs.2.2.2.2.2.2.2.1 rfl,
    modest_number hplain governs.2.2.2.2.2.2.2.2, modest_option hplain environment_nice_governs.2 rfl⟩
  change (if (assigned j).programArguments.isEmpty then _ else _) =
    ((assigned j).program.or (assigned j).programArguments.head?).toList
  rw [harguments]
  cases (assigned j).program with
  | none => rfl
  | some p => rfl

/-- Whatever the file, a manifest that comes from it says no more than this. -/
theorem plist_manifest {loaded : Option (List Xml)} {m : Manifest} (h : parsePlist loaded = .ok j) (hm : fromJson j = .ok m) :
    Modest m := by
  obtain ⟨-, rfl⟩ := fromJson_ok.mp hm
  exact modest_normal fun key v hv => parsePlist_plain h hv

def throttledJob : Description where
  members := [("Label", .str "job"), ("Program", .str "/bin/job"), ("ThrottleInterval", .bool true)]
  nodup := by decide
  verbatim := by simp [isVerbatim]

theorem plist_manifest_true :
    Modest { label := "job", program := some "/bin/job", programArguments := ["/bin/job"], throttleInterval := 1 } :=
  @plist_manifest (.obj throttledJob.members) (some (throttledJob.document fun _ => [])) _
    ((parsePlist_document _ throttledJob).trans (congrArg Except.ok (if_pos (by decide +kernel)))) (by decide +kernel)

end Manifest

end Relaunchd
