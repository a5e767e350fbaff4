/-
  Relaunchd.StateDoc — the document in the state file: how the override of a job is looked
  up in it, and what overriding a job does to it.
-/

import Relaunchd.Manager

namespace Relaunchd

open Decode

variable {label : String} {enabled : Bool} {doc doc' overrides : Json}

def member : Json → String → Option Json
  | .obj members, key => Json.find members key
  | _, _ => none

def overrideIn (doc : Json) (label : String) : Option Json := (member doc "Overrides").bind (member · label)

theorem contains_eq (doc : Json) (key : String) : doc.contains key = (member doc key).isSome := by
  cases doc <;> rfl

theorem atKey_eq_ok {key : String} {v : Json} (h : doc.atKey key = .ok v) :
    ∃ members, doc = .obj members ∧ Json.find members key = some v := by
  cases doc with
  | obj members =>
    refine ⟨members, rfl, ?_⟩
    dsimp only [Json.atKey] at h
    cases hf : Json.find members key with
    | none => rw [hf] at h; cases h
    | some v' => rw [hf] at h; cases h; rfl
  | null | bool | int | uint | float | str | arr => cases h

theorem key_of_member {key : String} {v : Json} (h : member doc key = some v) : doc.key key = .ok v := by
  cases doc with
  | obj members => exact Json.key_obj h
  | null | bool | int | uint | float | str | arr => cases h

/-! ## Looking an override up -/

def disabledBy (entry : Option Json) (default : Bool) : Decode Bool :=
  match entry with
  | some jobState => do return !(← (← jobState.atKey "Enabled").getBool)
  | none => .ok default

theorem lookup_eq (label : String) (default : Bool) (doc : Json) :
    (do
      let overrides ← doc.atKey "Overrides"
      if overrides.contains label then do
        let jobState ← (← doc.key "Overrides").key label
        return !(← (← jobState.atKey "Enabled").getBool)
      else return default : Decode Bool) =
    (doc.atKey "Overrides" >>= fun overrides => disabledBy (member overrides label) default) := by
  cases ho : doc.atKey "Overrides" with
  | error e => rfl
  | ok overrides =>
    obtain ⟨members, rfl, hfind⟩ := atKey_eq_ok ho
    show (if overrides.contains label then _ else _) = disabledBy (member overrides label) default
    rw [contains_eq]
    cases hm : member overrides label with
    | none => rfl
    | some jobState =>
      rw [Json.key_obj hfind]
      show (overrides.key label >>= _) = _
      rw [key_of_member hm]
      rfl

theorem disabledIn_eq (manifest : Manifest) (doc : Json) : Job.disabledIn manifest doc =
    doc.atKey "Overrides" >>= fun overrides => disabledBy (member overrides manifest.label) manifest.disabled :=
  lookup_eq ..

theorem overrideDisables_eq (label : String) (doc : Json) : Manager.overrideDisables label doc =
    doc.atKey "Overrides" >>= fun overrides => disabledBy (member overrides label) false :=
  lookup_eq ..

theorem disabledBy_faults (entry : Option Json) (default : Bool) : FaultsIn Json.exceptions (disabledBy entry default) := by
  cases entry with
  | none => exact .done _
  | some jobState => exact (Json.atKey_faults _ _).bind fun _ => (Json.getBool_faults _).bind fun _ => .done _

theorem disabledIn_faults (manifest : Manifest) : FaultsIn Json.exceptions (Job.disabledIn manifest doc) := by
  rw [disabledIn_eq]
  exact (Json.atKey_faults _ _).bind fun _ => disabledBy_faults _ _

theorem overrideDisables_faults : FaultsIn Json.exceptions (Manager.overrideDisables label doc) := by
  rw [overrideDisables_eq]
  exact (Json.atKey_faults _ _).bind fun _ => disabledBy_faults _ _

def LooksUp (label : String) (doc : Json) : Prop :=
  ∃ overrides, doc.atKey "Overrides" = .ok overrides ∧
    ∀ jobState, member overrides label = some jobState → ∃ b, jobState.atKey "Enabled" >>= Json.getBool = .ok b

theorem disabledBy_ok {entry : Option Json} {default : Bool} : (∃ b, disabledBy entry default = .ok b) ↔
    ∀ jobState, entry = some jobState → ∃ b, jobState.atKey "Enabled" >>= Json.getBool = .ok b := by
  cases entry with
  | none => exact iff_of_true ⟨_, rfl⟩ nofun
  | some jobState =>
    refine ⟨fun ⟨b, h⟩ _ e => ?_, fun h => ?_⟩
    · cases e
      obtain ⟨v, hv, h⟩ := bind_eq_ok.mp h
      obtain ⟨b', hb, -⟩ := bind_eq_ok.mp h
      exact ⟨b', bind_eq_ok.mpr ⟨v, hv, hb⟩⟩
    · obtain ⟨b, hb⟩ := h jobState rfl
      obtain ⟨v, hv, hb⟩ := bind_eq_ok.mp hb
      exact ⟨!b, bind_eq_ok.mpr ⟨v, hv, bind_eq_ok.mpr ⟨b, hb, rfl⟩⟩⟩

theorem lookup_ok {default : Bool} :
    (∃ b, (doc.atKey "Overrides" >>= fun overrides => disabledBy (member overrides label) default) = .ok b) ↔
      LooksUp label doc := by
  refine ⟨fun ⟨b, h⟩ => ?_, fun ⟨overrides, ho, h⟩ => ?_⟩
  · obtain ⟨overrides, ho, h⟩ := bind_eq_ok.mp h
    exact ⟨overrides, ho, disabledBy_ok.mp ⟨b, h⟩⟩
  · obtain ⟨b, hb⟩ := disabledBy_ok.mpr h
    exact ⟨b, bind_eq_ok.mpr ⟨overrides, ho, hb⟩⟩

theorem overrideDisables_ok : (∃ b, Manager.overrideDisables label doc = .ok b) ↔ LooksUp label doc := by
  rw [overrideDisables_eq]
  exact lookup_ok

theorem disabledIn_ok {manifest : Manifest} : (∃ b, Job.disabledIn manifest doc = .ok b) ↔ LooksUp manifest.label doc := by
  rw [disabledIn_eq]
  exact lookup_ok

/-! ## Overriding -/

/-- Overriding a label puts an entry for it into the overrides. -/
theorem overridden_spec (hd : Manager.overridden label enabled doc = .ok doc') :
    ∃ members members' overrides entries' fields, doc = .obj members ∧ doc' = .obj members' ∧
      Json.find members "Overrides" = some overrides ∧ Json.find fields "Enabled" = some (.bool enabled) ∧
      (∀ key, Json.find members' key = if key = "Overrides" then some (.obj entries') else Json.find members key) ∧
      ∀ l, Json.find entries' l = if l = label then some (.obj fields) else member overrides l := by
  rw [Manager.overridden] at hd
  obtain ⟨overrides, ho, hd⟩ := bind_eq_ok.mp hd
  obtain ⟨members, rfl, hfind⟩ := atKey_eq_ok ho
  have hnew : ∃ entries' fields, (Json.obj members).set "Overrides" (.obj entries') = .ok doc' ∧
      Json.find fields "Enabled" = some (.bool enabled) ∧
      ∀ l, Json.find entries' l = if l = label then some (.obj fields) else member overrides l := by
    dsimp only at hd
    split at hd
    · obtain ⟨job, hjob, hd⟩ := bind_eq_ok.mp hd
      obtain ⟨entries, rfl, -⟩ := atKey_eq_ok hjob
      obtain ⟨job', hset, hd⟩ := bind_eq_ok.mp hd
      obtain ⟨fields, rfl, hfield⟩ := Json.set_self hset
      obtain ⟨new, hnew, hd⟩ := bind_eq_ok.mp hd
      obtain ⟨entries', rfl, hentries'⟩ := Json.set_obj hnew
      exact ⟨entries', fields, hd, hfield, hentries'⟩
    · rename_i hnone
      rw [contains_eq, Option.not_isSome_iff_eq_none] at hnone
      obtain ⟨new, hnew, hd⟩ := bind_eq_ok.mp hd
      cases overrides with
      | obj entries =>
        obtain ⟨entries', rfl, hentries'⟩ := Json.emplace_obj hnone hnew
        exact ⟨entries', _, hd, rfl, hentries'⟩
      | null =>
        cases hnew
        refine ⟨_, [("Enabled", .bool enabled)], hd, rfl, fun l => ?_⟩
        rw [Json.find_cons]
        exact if_congr eq_comm rfl rfl
      | bool | int | uint | float | str | arr => cases hnew
  obtain ⟨entries', fields, hd, hfield, hentries'⟩ := hnew
  obtain ⟨members', rfl, hmembers⟩ := Json.set_obj hd
  exact ⟨members, members', overrides, entries', fields, rfl, rfl, hfind, hfield, hmembers, hentries'⟩

/-- What an override says is what was written last. -/
theorem overrideDisables_overridden (hd : Manager.overridden label enabled doc = .ok doc') :
    Manager.overrideDisables label doc' = .ok (!enabled) := by
  obtain ⟨members, members', overrides, entries', fields, rfl, rfl, -, hfield, hmembers, hentries'⟩ := overridden_spec hd
  have hlabel : member (.obj entries') label = some (.obj fields) := (hentries' label).trans (if_pos rfl)
  rw [overrideDisables_eq, Json.atKey_obj ((hmembers _).trans (if_pos rfl))]
  show disabledBy (member (.obj entries') label) false = _
  rw [hlabel, disabledBy, Json.atKey_obj hfield]
  rfl

theorem disabledIn_overridden {manifest : Manifest} (hd : Manager.overridden manifest.label enabled doc = .ok doc') :
    Job.disabledIn manifest doc' = .ok (!enabled) := by
  obtain ⟨members, members', overrides, entries', fields, rfl, rfl, -, hfield, hmembers, hentries'⟩ := overridden_spec hd
  have hlabel : member (.obj entries') manifest.label = some (.obj fields) := (hentries' _).trans (if_pos rfl)
  rw [disabledIn_eq, Json.atKey_obj ((hmembers _).trans (if_pos rfl))]
  show disabledBy (member (.obj entries') manifest.label) manifest.disabled = _
  rw [hlabel, disabledBy, Json.atKey_obj hfield]
  rfl

/-- An override says nothing about other labels. -/
theorem disabledIn_other {manifest : Manifest} (hd : Manager.overridden label enabled doc = .ok doc') (hne : manifest.label ≠ label) :
    Job.disabledIn manifest doc' = Job.disabledIn manifest doc := by
  obtain ⟨members, members', overrides, entries', fields, rfl, rfl, ho, -, hmembers, hentries'⟩ := overridden_spec hd
  have hother : member (.obj entries') manifest.label = member overrides manifest.label := (hentries' _).trans (if_neg hne)
  rw [disabledIn_eq, disabledIn_eq, Json.atKey_obj ((hmembers _).trans (if_pos rfl)), Json.atKey_obj ho]
  show disabledBy (member (.obj entries') manifest.label) manifest.disabled = disabledBy (member overrides manifest.label) manifest.disabled
  rw [hother]

/-- A job that the document enables is not disabled by its override. -/
theorem overrideDisables_of_disabledIn {manifest : Manifest} (h : Job.disabledIn manifest doc = .ok false) :
    Manager.overrideDisables manifest.label doc = .ok false := by
  rw [disabledIn_eq] at h
  rw [overrideDisables_eq]
  obtain ⟨overrides, ho, h⟩ := bind_eq_ok.mp h
  refine bind_eq_ok.mpr ⟨overrides, ho, ?_⟩
  cases hm : member overrides manifest.label with
  | none => rfl
  | some jobState =>
    rw [hm] at h
    exact h

/-- Two documents with the same keys but for the overrides, and the same overrides but for
    some labels. -/
structure SameBut (labels : String → Prop) (doc doc' : Json) : Prop where
  keys : ∀ key, key ≠ "Overrides" → member doc' key = member doc key
  overrides : ∀ label, ¬ labels label → overrideIn doc' label = overrideIn doc label

theorem SameBut.refl (labels : String → Prop) (doc : Json) : SameBut labels doc doc := ⟨fun _ _ => rfl, fun _ _ => rfl⟩

theorem SameBut.trans {labels labels' : String → Prop} {doc'' : Json} (h : SameBut labels doc doc')
    (h' : SameBut labels' doc' doc'') : SameBut (fun label => labels label ∨ labels' label) doc doc'' :=
  ⟨fun key hk => (h'.keys key hk).trans (h.keys key hk), fun label hl =>
    (h'.overrides label fun e => hl (.inr e)).trans (h.overrides label fun e => hl (.inl e))⟩

theorem overridden_sameBut (hd : Manager.overridden label enabled doc = .ok doc') : SameBut (· = label) doc doc' := by
  obtain ⟨members, members', overrides, entries', fields, rfl, rfl, ho, -, hmembers, hentries'⟩ := overridden_spec hd
  refine ⟨fun key hk => (hmembers key).trans (if_neg hk), fun l hl => ?_⟩
  rw [overrideIn, overrideIn, member, member, hmembers, if_pos rfl, ho]
  exact (hentries' l).trans (if_neg hl)

theorem overridden_faults : FaultsIn Json.exceptions (Manager.overridden label enabled doc) := by
  refine (Json.atKey_faults _ _).bind fun overrides => ?_
  dsimp only
  split
  · exact (Json.atKey_faults _ _).bind fun _ => (Json.set_faults _ _ _).bind fun _ => (Json.set_faults _ _ _).bind fun _ =>
      Json.set_faults _ _ _
  · exact (Json.emplace_faults _ _ _).bind fun _ => Json.set_faults _ _ _

/-- What can be looked up in a document can be looked up after an override. -/
theorem LooksUp.overridden {label' : String} (h : LooksUp label' doc) (hd : Manager.overridden label enabled doc = .ok doc') :
    LooksUp label' doc' := by
  obtain ⟨members, members', overrides, entries', fields, rfl, rfl, ho, hfield, hmembers, hentries'⟩ := overridden_spec hd
  obtain ⟨overrides', ho', h⟩ := h
  cases (Json.atKey_obj ho).symm.trans ho'
  refine ⟨.obj entries', Json.atKey_obj ((hmembers _).trans (if_pos rfl)), fun jobState hj => ?_⟩
  rw [member, hentries'] at hj
  split at hj
  · cases hj
    exact ⟨enabled, bind_eq_ok.mpr ⟨_, Json.atKey_obj hfield, rfl⟩⟩
  · exact h jobState hj

/-! ## Where an override can be written -/

inductive Shape where
  | missing
  /-- A map, or null, which becomes one. -/
  | map
  | other
  deriving DecidableEq, Repr

def shapeOf (doc : Json) : Shape :=
  match member doc "Overrides" with
  | none => .missing
  | some .null => .map
  | some (.obj _) => .map
  | some _ => .other

def HasEntry (doc : Json) : Prop := ∃ label, (overrideIn doc label).isSome

def newEntry (enabled : Bool) (entry : Option Json) : Decode Json :=
  match entry with
  | some jobState => jobState.set "Enabled" (.bool enabled)
  | none => .ok (.obj [("Enabled", .bool enabled)])

theorem shapeOf_missing : shapeOf doc = .missing ↔ member doc "Overrides" = none := by
  unfold shapeOf
  split <;> simp_all

theorem atKey_member {key : String} {v : Json} : doc.atKey key = .ok v ↔ member doc key = some v := by
  constructor
  · intro h
    obtain ⟨members, rfl, hfind⟩ := atKey_eq_ok h
    exact hfind
  · intro h
    cases doc with
    | obj members => exact Json.atKey_obj h
    | null | bool | int | uint | float | str | arr => cases h

theorem overrideIn_eq {overrides : Json} (h : member doc "Overrides" = some overrides) :
    overrideIn doc label = member overrides label := by
  rw [overrideIn, h, Option.bind_some]

theorem set_obj_ok (members : List (String × Json)) (key : String) (v : Json) :
    ∃ members', (Json.obj members).set key v = .ok (.obj members') ∧ Json.find members' key = some v := by
  have hset : ∃ j, (Json.obj members).set key v = .ok j := by
    dsimp only [Json.set]
    split
    · exact ⟨_, rfl⟩
    · exact ⟨_, rfl⟩
  obtain ⟨j, hj⟩ := hset
  obtain ⟨members', rfl, hfind⟩ := Json.set_obj hj
  exact ⟨members', hj, by rw [hfind, if_pos rfl]⟩

theorem shapeOf_map (h : shapeOf doc = .map) :
    ∃ members overrides, doc = .obj members ∧ Json.find members "Overrides" = some overrides ∧
      (overrides = .null ∨ ∃ entries, overrides = .obj entries) := by
  unfold shapeOf at h
  cases hm : member doc "Overrides" with
  | none => rw [hm] at h; cases h
  | some overrides =>
    rw [hm] at h
    obtain ⟨members, rfl, hfind⟩ := atKey_eq_ok (atKey_member.mpr hm)
    refine ⟨members, overrides, rfl, hfind, ?_⟩
    cases overrides with
    | null => exact .inl rfl
    | obj entries => exact .inr ⟨entries, rfl⟩
    | bool | int | uint | float | str | arr => cases h

theorem bind_eq_ok_eq {d : Decode α} {f : α → Decode β} {a : α} {b : Decode β} (hd : d = .ok a) (hf : f a = b) :
    d >>= f = b := by
  rw [hd]
  exact hf

/-- An override is written where there is a map and the entry for the label can be changed. -/
theorem overridden_ok {entry : Json} (hs : shapeOf doc = .map) (he : newEntry enabled (overrideIn doc label) = .ok entry) :
    ∃ doc', Manager.overridden label enabled doc = .ok doc' ∧ overrideIn doc' label = some entry ∧ shapeOf doc' = .map := by
  obtain ⟨members, overrides, rfl, hfind, hmap⟩ := shapeOf_map hs
  have hover : member (.obj members) "Overrides" = some overrides := hfind
  rw [overrideIn_eq hover] at he
  have hnew : ∃ entries', Json.find entries' label = some entry ∧
      Manager.overridden label enabled (.obj members) = (Json.obj members).set "Overrides" (.obj entries') := by
    rw [Manager.overridden, Json.atKey_obj hfind]
    cases hmem : member overrides label with
    | none =>
      rw [hmem] at he
      cases he
      have hno : overrides.contains label = false := by rw [contains_eq, hmem]; rfl
      have hadd : ∃ entries', overrides.emplace label (.obj [("Enabled", .bool enabled)]) = .ok (.obj entries') ∧
          Json.find entries' label = some (.obj [("Enabled", .bool enabled)]) := by
        rcases hmap with rfl | ⟨entries, rfl⟩
        · exact ⟨_, rfl, by rw [Json.find_cons, if_pos rfl]⟩
        · have hadd : ∃ j, (Json.obj entries).emplace label (.obj [("Enabled", .bool enabled)]) = .ok j := ⟨_, rfl⟩
          obtain ⟨j, hj⟩ := hadd
          obtain ⟨entries', rfl, hfind'⟩ := Json.emplace_obj hmem hj
          exact ⟨entries', hj, by rw [hfind', if_pos rfl]⟩
      obtain ⟨entries', hadd, hfind'⟩ := hadd
      refine ⟨entries', hfind', ?_⟩
      show (if overrides.contains label then _ else (overrides.emplace label (.obj [("Enabled", .bool enabled)]) >>=
        fun overrides => (Json.obj members).set "Overrides" overrides)) = _
      rw [hno, if_neg Bool.false_ne_true, hadd]
      rfl
    | some jobState =>
      rw [hmem] at he
      obtain ⟨entries, rfl, -⟩ := atKey_eq_ok (atKey_member.mpr hmem)
      have hyes : (Json.obj entries).contains label = true := by rw [contains_eq, hmem]; rfl
      obtain ⟨entries', hset, hfind'⟩ := set_obj_ok entries label entry
      refine ⟨entries', hfind', ?_⟩
      show (if (Json.obj entries).contains label then ((Json.obj entries).atKey label >>= fun jobState =>
        jobState.set "Enabled" (.bool enabled) >>= fun jobState => (Json.obj entries).set label jobState >>=
        fun overrides => (Json.obj members).set "Overrides" overrides) else _) = _
      rw [hyes, if_pos rfl]
      apply bind_eq_ok_eq (atKey_member.mpr hmem)
      apply bind_eq_ok_eq he
      exact bind_eq_ok_eq hset rfl
  obtain ⟨entries', hentry, hover'⟩ := hnew
  obtain ⟨members', hset, hfind'⟩ := set_obj_ok members "Overrides" (.obj entries')
  have hmem' : member (.obj members') "Overrides" = some (.obj entries') := hfind'
  refine ⟨.obj members', hover'.trans hset, (overrideIn_eq hmem').trans hentry, ?_⟩
  rw [shapeOf, hmem']

/-- Where there is no map, or the entry cannot be changed, the override fails. -/
theorem overridden_entry (h : Manager.overridden label enabled doc = .ok doc') :
    shapeOf doc = .map ∧ ∃ entry, newEntry enabled (overrideIn doc label) = .ok entry ∧
      overrideIn doc' label = some entry ∧ shapeOf doc' = .map := by
  have hwritable : shapeOf doc = .map ∧ ∃ entry, newEntry enabled (overrideIn doc label) = .ok entry := by
    have hd := h
    rw [Manager.overridden] at hd
    obtain ⟨overrides, ho, hd⟩ := bind_eq_ok.mp hd
    have hmem := atKey_member.mp ho
    rw [overrideIn_eq hmem, shapeOf, hmem]
    dsimp only at hd
    cases hm : member overrides label with
    | none =>
      rw [contains_eq, hm, if_neg (by exact nofun)] at hd
      obtain ⟨overrides', hnew, -⟩ := bind_eq_ok.mp hd
      refine ⟨?_, _, rfl⟩
      cases overrides with
      | null | obj => rfl
      | bool | int | uint | float | str | arr => cases hnew
    | some jobState =>
      obtain ⟨entries, rfl, -⟩ := atKey_eq_ok (atKey_member.mpr hm)
      rw [contains_eq, hm, if_pos Option.isSome_some] at hd
      obtain ⟨jobState₁, hat, hd⟩ := bind_eq_ok.mp hd
      cases (atKey_member.mpr hm).symm.trans hat
      obtain ⟨jobState', hset, -⟩ := bind_eq_ok.mp hd
      exact ⟨rfl, jobState', hset⟩
  obtain ⟨hmap, entry, hnew⟩ := hwritable
  obtain ⟨doc₁, hok, hentry, hmap'⟩ := overridden_ok hmap hnew
  cases hok.symm.trans h
  exact ⟨hmap, entry, hnew, hentry, hmap'⟩

/-- What can be overridden after another override could be before it. -/
theorem overridden_before {label' : String} {doc'' : Json} (h : Manager.overridden label enabled doc = .ok doc')
    (h' : Manager.overridden label' enabled doc' = .ok doc'') : ∃ state, Manager.overridden label' enabled doc = .ok state := by
  obtain ⟨hmap, entry, hnew, -, -⟩ := overridden_entry h
  obtain ⟨-, entry', hnew', -, -⟩ := overridden_entry h'
  by_cases e : label' = label
  · exact ⟨doc', e ▸ h⟩
  · rw [(overridden_sameBut h).overrides label' e] at hnew'
    obtain ⟨state, hstate, -⟩ := overridden_ok hmap hnew'
    exact ⟨state, hstate⟩

/-! ## Documents that are the same -/

/-- Equal values: the members of an object come in no order. -/
inductive Json.Same : Json → Json → Prop
  | refl (j : Json) : Same j j
  | obj {members members' : List (String × Json)} :
      (∀ key, (Json.find members key).isSome = (Json.find members' key).isSome) →
      (∀ key v v', Json.find members key = some v → Json.find members' key = some v' → Same v v') →
      Same (.obj members) (.obj members')

theorem hasEntry_obj (h : HasEntry doc) :
    ∃ members entries, doc = .obj members ∧ Json.find members "Overrides" = some (.obj entries) := by
  obtain ⟨label, h⟩ := h
  obtain ⟨jobState, h⟩ := Option.isSome_iff_exists.mp h
  obtain ⟨overrides, ho, hj⟩ := Option.bind_eq_some_iff.mp h
  obtain ⟨members, rfl, hfind⟩ := atKey_eq_ok (atKey_member.mpr ho)
  obtain ⟨entries, rfl, -⟩ := atKey_eq_ok (atKey_member.mpr hj)
  exact ⟨members, entries, rfl, hfind⟩

/-- Overrides, and nothing else, have been written. -/
structure Rewritten (doc doc' : Json) : Prop where
  keys : ∀ key, key ≠ "Overrides" → member doc' key = member doc key
  written : doc' = doc ∨ HasEntry doc'

theorem Rewritten.refl (doc : Json) : Rewritten doc doc := ⟨fun _ _ => rfl, .inl rfl⟩

theorem Rewritten.trans {doc'' : Json} (h : Rewritten doc doc') (h' : Rewritten doc' doc'') : Rewritten doc doc'' := by
  refine ⟨fun key hk => (h'.keys key hk).trans (h.keys key hk), ?_⟩
  rcases h'.written with hd | hd
  · rw [hd]
    exact h.written
  · exact .inr hd

theorem overridden_rewritten (h : Manager.overridden label enabled doc = .ok doc') : Rewritten doc doc' := by
  obtain ⟨-, entry, -, hentry, -⟩ := overridden_entry h
  exact ⟨(overridden_sameBut h).keys, .inr ⟨label, hentry ▸ rfl⟩⟩

/-- What writes have made of one document is the same once every override is. -/
theorem Rewritten.same {d t t' : Json} (h : Rewritten d t) (h' : Rewritten d t')
    (hover : ∀ label, overrideIn t label = overrideIn t' label) : Json.Same t t' := by
  by_cases hentry : HasEntry t
  · have hentry' : HasEntry t' := by
      obtain ⟨label, hl⟩ := hentry
      exact ⟨label, hover label ▸ hl⟩
    obtain ⟨members, entries, hdoc, hfind⟩ := hasEntry_obj hentry
    obtain ⟨members', entries', hdoc', hfind'⟩ := hasEntry_obj hentry'
    have hkeys : ∀ key, key ≠ "Overrides" → Json.find members key = Json.find members' key := fun key hk => by
      have hboth := (h.keys key hk).trans (h'.keys key hk).symm
      rwa [hdoc, hdoc'] at hboth
    have hentries : ∀ label, Json.find entries label = Json.find entries' label := fun label => by
      have hboth := hover label
      rwa [hdoc, hdoc', overrideIn, overrideIn, member, member, hfind, hfind'] at hboth
    rw [hdoc, hdoc']
    refine .obj (fun key => ?_) fun key v v' hv hv' => ?_
    · by_cases hk : key = "Overrides"
      · rw [hk, hfind, hfind']
        rfl
      · rw [hkeys key hk]
    · by_cases hk : key = "Overrides"
      · rw [hk, hfind] at hv
        rw [hk, hfind'] at hv'
        cases hv
        cases hv'
        refine .obj (fun label => by rw [hentries label]) fun label w w' hw hw' => ?_
        cases (hw.symm.trans (hentries label)).trans hw'
        exact .refl w
      · cases (hv.symm.trans (hkeys key hk)).trans hv'
        exact .refl v
  · have hentry' : ¬ HasEntry t' := fun ⟨label, hl⟩ => hentry ⟨label, (hover label).symm ▸ hl⟩
    rw [h.written.resolve_right hentry, h'.written.resolve_right hentry']
    exact .refl _

end Relaunchd
