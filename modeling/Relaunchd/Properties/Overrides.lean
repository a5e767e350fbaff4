/-
  Relaunchd.Properties.Overrides — which jobs are disabled, over the life of a state
  directory.

  A session is what launchd does between two starts on the same directory; the state file
  is all that is left of it. How a document is written as text is the JSON library's
  matter: `parse` undoes `dump`.
-/

import Relaunchd.Runs
import Relaunchd.StateDoc
import Relaunchd.StateFile
import Relaunchd.Writes

namespace Relaunchd

open Prog EventManager Transition

variable {T : Type} {dump : Json → T} {parse : T → Option Json} {s s' : Sys} {label : String} {doc doc' : Json}

/-! ## The map of overrides -/

def lastWritten (overrides : List (String × Bool)) : String → Option Bool :=
  overrides.foldl (fun last w => Function.update last w.1 (some w.2)) fun _ => none

theorem lastWritten_append (overrides : List (String × Bool)) (label : String) (enabled : Bool) :
    lastWritten (overrides ++ [(label, enabled)]) = Function.update (lastWritten overrides) label (some enabled) :=
  List.foldl_append ..

structure Recorded (doc : Json) (last : String → Option Bool) : Prop where
  overrides : ∃ members entries, doc = .obj members ∧ Json.find members "Overrides" = some (.obj entries)
  none : ∀ label, last label = none → overrideIn doc label = none
  some : ∀ label enabled, last label = some enabled →
    ∃ fields, overrideIn doc label = some (.obj fields) ∧ Json.find fields "Enabled" = some (.bool enabled)

def defaultStateDoc : Json := .obj [("SchemaVersion", .int 1), ("Overrides", .obj [])]

theorem recorded_default : Recorded defaultStateDoc (lastWritten []) :=
  ⟨⟨_, _, rfl, rfl⟩, fun _ _ => rfl, nofun⟩

/-! ## One override -/

section Overridden

variable {last : String → Option Bool} {enabled : Bool}

/-- Where there is a map of overrides, the label gets an entry in it. -/
theorem overridden_eq (h : Recorded doc last) (hd : Manager.overridden label enabled doc = .ok doc') :
    ∃ members members' entries entries' fields, doc = .obj members ∧ doc' = .obj members' ∧
      Json.find members "Overrides" = some (.obj entries) ∧ Json.find fields "Enabled" = some (.bool enabled) ∧
      (∀ key, Json.find members' key = if key = "Overrides" then some (.obj entries') else Json.find members key) ∧
      ∀ l, Json.find entries' l = if l = label then some (.obj fields) else Json.find entries l := by
  obtain ⟨members, members', overrides, entries', fields, rfl, rfl, ho, hfield, hmembers, hentries'⟩ := overridden_spec hd
  obtain ⟨members₁, entries, e, hentries⟩ := h.overrides
  cases e
  cases ho.symm.trans hentries
  exact ⟨members, members', entries, entries', fields, rfl, rfl, hentries, hfield, hmembers, hentries'⟩

/-- The document follows the map. -/
theorem overridden_recorded (h : Recorded doc last) (hd : Manager.overridden label enabled doc = .ok doc') :
    Recorded doc' (Function.update last label (some enabled)) := by
  have hsame := overridden_sameBut hd
  obtain ⟨members, members', entries, entries', fields, rfl, rfl, hentries, hfield, hmembers, hentries'⟩ := overridden_eq h hd
  have hover : overrideIn (.obj members') label = some (.obj fields) := by
    rw [overrideIn, member, hmembers, if_pos rfl]
    exact (hentries' label).trans (if_pos rfl)
  refine ⟨⟨members', entries', rfl, (hmembers _).trans (if_pos rfl)⟩, fun l hl => ?_, fun l b hl => ?_⟩
  · by_cases e : l = label
    · rw [e, Function.update_self] at hl
      cases hl
    · rw [Function.update_of_ne e] at hl
      rw [hsame.overrides l e]
      exact h.none l hl
  · by_cases e : l = label
    · subst e
      rw [Function.update_self] at hl
      cases hl
      exact ⟨fields, hover, hfield⟩
    · rw [Function.update_of_ne e] at hl
      rw [hsame.overrides l e]
      exact h.some l b hl

/-- What `isDisabled` makes of the document. -/
theorem Recorded.disabledIn (h : Recorded doc last) (manifest : Manifest) :
    Job.disabledIn manifest doc = .ok ((last manifest.label).elim manifest.disabled (!·)) := by
  obtain ⟨members, entries, rfl, hentries⟩ := h.overrides
  have hover : ∀ l, overrideIn (.obj members) l = Json.find entries l := fun l => by
    rw [overrideIn, member, hentries]
    rfl
  rw [disabledIn_eq, Json.atKey_obj hentries]
  show disabledBy (Json.find entries manifest.label) manifest.disabled = _
  cases hl : last manifest.label with
  | none =>
    rw [(hover _).symm.trans (h.none _ hl)]
    rfl
  | some enabled =>
    obtain ⟨fields, hfields, hfield⟩ := h.some _ _ hl
    rw [(hover _).symm.trans hfields]
    show ((Json.obj fields).atKey "Enabled" >>= _) = _
    rw [Json.atKey_obj hfield]
    rfl

end Overridden

/-! ## Every write -/

def Documented (s : Sys) : Prop := Recorded s.stateFile (lastWritten s.overrides)

structure Overrode (may : Effect → Prop) (s s' : Sys) : Prop where
  documented : Documented s'
  written : ∃ written, s'.overrides = s.overrides ++ written ∧ (∀ w ∈ written, may (.override w.1 w.2)) ∧
    SameBut (· ∈ written.map Prod.fst) s.stateFile s'.stateFile

variable {may : Effect → Prop}

theorem Overrode.kept (h : Documented s) (hf : s'.stateFile = s.stateFile) (ho : s'.overrides = s.overrides) :
    Overrode may s s' :=
  ⟨by rwa [Documented, hf, ho], [], by rw [ho, List.append_nil], nofun, by rw [hf]; exact .refl _ _⟩

theorem Write.overrode (h : Write may s s') (hd : Documented s) : Overrode may s s' := by
  cases h with
  | overrides label enabled doc hmay hdoc =>
    refine ⟨?_, [(label, enabled)], rfl, fun w hw => List.mem_singleton.mp hw ▸ hmay, ?_⟩
    · unfold Documented
      rw [lastWritten_append]
      exact overridden_recorded hd hdoc
    · simpa using overridden_sameBut hdoc
  | answers | time | kernel | kills | forks | fades | dispatches | eventmgr | job | records | creates | destroys | boots | booted
  | deletes | clears | manager | replies => exact .kept hd rfl rfl

theorem Writes.overrode (h : Writes may s s') (hd : Documented s) : Overrode may s s' := by
  induction h with
  | refl => exact .kept hd rfl rfl
  | tail _ hw ih =>
    obtain ⟨written, hover, hmay, hsame⟩ := ih.written
    have hlast := hw.overrode ih.documented
    obtain ⟨written', hover', hmay', hsame'⟩ := hlast.written
    refine ⟨hlast.documented, written ++ written', by rw [hover', hover, List.append_assoc], fun w hm => ?_, ?_⟩
    · exact (List.mem_append.mp hm).elim (hmay w) (hmay' w)
    · simpa only [List.map_append, List.mem_append] using hsame.trans hsame'

/-! ## Sessions -/

inductive Move where
  | step (e : Ev)
  /-- launchd ends, wherever it is, and is started again. -/
  | restart (now : Nat) (users : Users)

/-- A manager that is constructed reads what the last one wrote. -/
def Session (dump : Json → T) (parse : T → Option Json) (s : Sys) : Move → Sys → Prop
  | .step e, s' => Next s e s'
  | .restart now users, s' => ∃ s₁ stateFile, Writes anyEffect s s₁ ∧ parse (dump s₁.stateFile) = some stateFile ∧
      s' = { stateFile, overrides := s₁.overrides, kernel := { now, users } }

/-- The first manager has the default document, or another one without overrides. -/
def Opened (s : Sys) : Prop :=
  ∃ stateFile now users, Recorded stateFile (lastWritten []) ∧ s = { stateFile, kernel := { now, users } }

section Sessions

variable (hround : ∀ doc, parse (dump doc) = some doc)

include hround

theorem Session.overrode {m : Move} (h : Session dump parse s m s') (hd : Documented s) : Overrode anyEffect s s' := by
  cases m with
  | step e => exact h.writes.overrode hd
  | restart now users =>
    obtain ⟨s₁, stateFile, hw, hread, rfl⟩ := h
    rw [hround, Option.some.injEq] at hread
    subst hread
    obtain ⟨hdoc, hwritten⟩ := hw.overrode hd
    exact ⟨hdoc, hwritten⟩

theorem documented (h : Reach Opened (Session dump parse) s) : Documented s := by
  refine h.invariant (P := Documented) (fun s hi => ?_) fun _ _ _ hd hm => (Session.overrode hround hm hd).documented
  obtain ⟨stateFile, now, users, hdoc, rfl⟩ := hi
  exact hdoc

end Sessions

/-! ## The file -/

/-- An override, as it comes to the disk when texts are written whole. -/
def overrideOn (codec : Codec Json) (d : StateFile.Disk Json) (w : String × Bool) : StateFile.Disk Json :=
  match d.currentValue.map (Manager.overridden w.1 w.2) with
  | some (.ok doc) => (final? (StateFile.writeValue codec doc ⟨true, (codec.dump doc).length⟩ true) d).getD d
  | _ => d

/-- The manager has this document, and the data file has it too. -/
def onDisk (codec : Codec Json) (stateFile : Json) : StateFile.Disk Json :=
  ⟨some (codec.dump stateFile), none, some stateFile⟩

section Disk

variable {codec : Codec Json}

theorem overrideOn_onDisk {enabled : Bool} (h : Manager.overridden label enabled doc = .ok doc') :
    overrideOn codec (onDisk codec doc) (label, enabled) = onDisk codec doc' := by
  have hwhole : (codec.dump doc').take (codec.dump doc').length = codec.dump doc' := List.take_of_length_le le_rfl
  rw [overrideOn, onDisk]
  simp only [Option.map_some, h, final?, StateFile.writeValue_eq]
  simp only [StateFile.Writing.result, if_pos, hwhole]
  rfl

theorem Write.onDisk (codec : Codec Json) (h : Write may s s') : ∃ written, s'.overrides = s.overrides ++ written ∧
    written.foldl (overrideOn codec) (onDisk codec s.stateFile) = onDisk codec s'.stateFile := by
  cases h with
  | overrides label enabled doc _ hdoc => exact ⟨[(label, enabled)], rfl, overrideOn_onDisk hdoc⟩
  | answers | time | kernel | kills | forks | fades | dispatches | eventmgr | job | records | creates | destroys | boots | booted
  | deletes | clears | manager | replies => exact ⟨[], (List.append_nil _).symm, rfl⟩

theorem Writes.onDisk (codec : Codec Json) (h : Writes may s s') : ∃ written, s'.overrides = s.overrides ++ written ∧
    written.foldl (overrideOn codec) (onDisk codec s.stateFile) = onDisk codec s'.stateFile := by
  induction h with
  | refl => exact ⟨[], (List.append_nil _).symm, rfl⟩
  | tail _ hw ih =>
    obtain ⟨written, hover, hdisk⟩ := ih
    obtain ⟨written', hover', hdisk'⟩ := hw.onDisk codec
    exact ⟨written ++ written', by rw [hover', hover, List.append_assoc], by rw [List.foldl_append, hdisk, hdisk']⟩

/-- Over any number of sessions, while texts are written whole: the data file is as the writing
    of each override, one after the other and each to the file as it then is, has left it. -/
theorem overrides_on_disk {t : Sys} (ho : Opened s) (h : Later (Session codec.dump codec.parse) s t) :
    t.overrides.foldl (overrideOn codec) (onDisk codec s.stateFile) = onDisk codec t.stateFile := by
  have hwritten : ∃ written, t.overrides = s.overrides ++ written ∧
      written.foldl (overrideOn codec) (onDisk codec s.stateFile) = onDisk codec t.stateFile := by
    induction h with
    | refl => exact ⟨[], (List.append_nil _).symm, rfl⟩
    | tail _ hm ih =>
      obtain ⟨move, hm⟩ := hm
      obtain ⟨written, hover, hdisk⟩ := ih
      cases move with
      | step e =>
        obtain ⟨written', hover', hdisk'⟩ := Writes.onDisk codec (Next.writes hm)
        exact ⟨written ++ written', by rw [hover', hover, List.append_assoc], by rw [List.foldl_append, hdisk, hdisk']⟩
      | restart now users =>
        obtain ⟨s₁, stateFile, hw, hread, rfl⟩ := hm
        cases (codec.parse_dump s₁.stateFile).symm.trans hread
        obtain ⟨written', hover', hdisk'⟩ := hw.onDisk codec
        exact ⟨written ++ written', by rw [← List.append_assoc, ← hover, ← hover'],
          by rw [List.foldl_append, hdisk, hdisk']⟩
  obtain ⟨written, hover, hdisk⟩ := hwritten
  obtain ⟨stateFile, now, users, -, rfl⟩ := ho
  rw [List.nil_append] at hover
  rw [hover]
  exact hdisk

end Disk

/-! ## The jobs' labels -/

def Named (s : Sys) (label : String) (r : Ref) : Prop :=
  s.jobs.lookup label = some r ∨ s.pendingJobs.lookup label = some (some r)

def Keyed (s : Sys) : Prop := ∀ label r, Named s label r → r < s.nextRef ∧ ∀ j, s.heap r = some j → j.label = label

/-- A job that comes to be stored under a label is new. -/
theorem Write.named (h : Write may s s') {r : Ref} (hn : Named s' label r) :
    Named s label r ∨ r = s.nextRef ∧ r < s'.nextRef ∧ ∀ j, s'.heap r = some j → j.label = label := by
  cases h with
  | creates manifest path _ hp _ =>
    rcases hn with hn | hn
    · exact .inl (.inl hn)
    · by_cases e : manifest.label = label
      · subst e
        simp only [lookup_insertNew, hp, Option.getD_none, if_true] at hn
        cases hn
        refine .inr ⟨rfl, Nat.lt_succ_self _, fun j hj => ?_⟩
        cases (Function.update_self s.nextRef (some ({ manifest, manifestPath := path } : Job)) s.heap).symm.trans hj
        rfl
      · simp only [lookup_insertNew, if_neg (Ne.symm e)] at hn
        exact .inl (.inr hn)
  | boots l r' _ _ hp =>
    by_cases e : label = l
    · subst e
      rcases hn with hn | hn
      · rw [AList.lookup_insert] at hn
        cases hn
        exact .inl (.inr hp)
      · rw [AList.lookup_insert] at hn
        cases hn
    · rw [Named, AList.lookup_insert_ne e, AList.lookup_insert_ne e] at hn
      exact .inl hn
  | booted =>
    rcases hn with hn | hn
    · exact .inl (.inl hn)
    · cases hn
  | deletes l =>
    rcases hn with hn | hn
    · by_cases e : label = l
      · rw [e, AList.lookup_erase] at hn
        cases hn
      · exact .inl (.inl ((AList.lookup_erase_ne e).symm.trans hn))
    · exact .inl (.inr hn)
  | clears =>
    rcases hn with hn | hn
    · cases hn
    · exact .inl (.inr hn)
  | answers | time | kernel | kills | forks | fades | dispatches | eventmgr | job | records | destroys | overrides | manager | replies =>
    exact .inl hn

theorem Write.keyed (h : Write may s s') (hk : Keyed s) : Keyed s' := by
  intro label r hn
  rcases h.named hn with hn | ⟨-, hnew⟩
  · obtain ⟨hr, hl⟩ := hk label r hn
    refine ⟨lt_of_lt_of_le hr h.nextRef, fun j' hj' => ?_⟩
    rcases h.heap hj' with ⟨e, -⟩ | ⟨j, hj, hm, -⟩
    · exact absurd (e ▸ hr) (lt_irrefl _)
    · exact (congrArg Manifest.label hm).trans (hl j hj)
  · exact hnew

theorem Session.keyed {m : Move} (h : Session dump parse s m s') (hk : Keyed s) : Keyed s' := by
  cases m with
  | step e => exact h.writes.keeps (fun _ _ hw => hw.keyed) hk
  | restart now users =>
    obtain ⟨s₁, stateFile, -, -, rfl⟩ := h
    rintro label r (hn | hn) <;> cases hn

theorem keyed (h : Reach Opened (Session dump parse) s) : Keyed s := by
  refine h.invariant (P := Keyed) (fun s hi => ?_) fun _ _ _ hk hm => Session.keyed hm hk
  obtain ⟨stateFile, now, users, -, rfl⟩ := hi
  rintro label r (hn | hn) <;> cases hn

theorem reachable_keyed (h : Reachable s) : Keyed s :=
  reachable_of_writes (fun s hi => by
    obtain ⟨stateFile, now, users, rfl⟩ := hi
    rintro label r (hn | hn) <;> cases hn) (fun _ _ hw hk => hw.keyed hk) h

/-! ## Every operation -/

inductive Overriding where
  /-- An enable or a disable request. -/
  | override (label : String) (enabled : Bool)
  /-- A load with `-w` of a manifest. -/
  | load (doc : Json) (path : String) (forceLoad : Bool)
  /-- An unload with `-w`. -/
  | unload (label : String) (forceUnload : Bool)

namespace Overriding

def run : Overriding → M Unit
  | override label enabled => Manager.overrideJobEnabled label enabled
  | load doc path forceLoad => do let _ ← Manager.loadManifestDoc doc path true forceLoad
  | unload label forceUnload => do let _ ← Manager.unloadJob label true forceUnload

/-- What the operation writes: a label, and whether it is enabled. -/
inductive Writes : Overriding → String → Bool → Prop
  | override (label : String) (enabled : Bool) : Writes (override label enabled) label enabled
  | load {doc : Json} {m : Manifest} (path : String) (forceLoad : Bool) : Manifest.fromJson doc = .ok m →
      Writes (load doc path forceLoad) m.label true
  | unload (label : String) (forceUnload : Bool) : Writes (unload label forceUnload) label false

def Allows (op : Overriding) : Effect → Prop
  | .override label enabled => op.Writes label enabled
  | .boot | .record | .reply | .reap => False

theorem unloadJobRef_writes {r : Ref} {op : Overriding} {forceUnload : Bool} (hl : ∀ j, s.heap r = some j → op.Writes j.label false) :
    wp (Manager.unloadJobRef r true forceUnload) (fun _ => Relaunchd.Writes op.Allows s) (Relaunchd.Writes op.Allows s) s := by
  rw [Manager.unloadJobRef, wp_bind]
  refine wp_this_of fun j hj => ?_
  rw [wp_bind, wp_get, wp_ite]
  split
  · rw [if_pos rfl]
    have hover : Traced op.Allows (Manager.overrideJobEnabled j.label false) := Traced.overrideJobEnabled (hl j hj)
    exact hover.bind (fun _ => Traced.unloadJob _ _) s trivial
  · exact .refl

theorem run_writes (op : Overriding) (hk : Keyed s) :
    wp op.run (fun _ => Relaunchd.Writes op.Allows s) (Relaunchd.Writes op.Allows s) s := by
  cases op with
  | override label enabled =>
    have hmay : (Overriding.override label enabled).Allows (.override label enabled) := .override label enabled
    exact Traced.overrideJobEnabled hmay s trivial
  | load doc path forceLoad =>
    have hload : Traced (Overriding.load doc path forceLoad).Allows (Manager.loadManifestDoc doc path true forceLoad) :=
      Traced.loadManifestDoc fun _ m hm => .load path forceLoad hm
    exact hload.bind (fun _ => .done _) s trivial
  | unload label forceUnload =>
    rw [run, wp_bind, Manager.unloadJob]
    have hexists : wp (Manager.jobExists label) (fun _ s' => s' = s) (fun s' => s' = s) s := by
      rw [Manager.jobExists, wp_bind]
      exact wp_ofDecode (fun _ _ => rfl) fun _ _ => rfl
    rw [wp_bind]
    refine wp_mono hexists (fun b s' e => ?_) fun s' e => e ▸ .refl
    subst e
    rw [wp_ite]
    split
    · exact .refl
    rw [wp_bind, Manager.getJob, wp_bind, wp_get]
    split
    · rename_i r hr
      exact unloadJobRef_writes fun j hj => (hk label r (.inl hr)).2 j hj ▸ .unload label forceUnload
    · exact .refl

end Overriding

def Overriding.Changed (op : Overriding) (s s' : Sys) : Prop :=
  SameBut (fun label => ∃ enabled, op.Writes label enabled) s.stateFile s'.stateFile

theorem Overrode.changed {op : Overriding} (h : Overrode op.Allows s s') : op.Changed s s' := by
  obtain ⟨written, -, hmay, hkeys, hover⟩ := h.written
  refine ⟨hkeys, fun label hl => hover label fun hm => ?_⟩
  obtain ⟨w, hw, rfl⟩ := List.mem_map.mp hm
  exact hl ⟨w.2, hmay w hw⟩

/-- Over any number of sessions on one directory: a job is disabled as was last written for
    its label, or else as its manifest says; and an operation on a label changes nothing but
    the override of that label, whether it returns or throws. -/
theorem disabled_last (hround : ∀ doc, parse (dump doc) = some doc) (h : Reach Opened (Session dump parse) s) :
    (∀ r j, s.heap r = some j →
      Job.isDisabled r s = .ok ((lastWritten s.overrides j.label).elim j.manifest.disabled (!·)) s) ∧
    (∀ m s', Session dump parse s m s' → ∃ written, s'.overrides = s.overrides ++ written ∧
      SameBut (· ∈ written.map Prod.fst) s.stateFile s'.stateFile) ∧
    ∀ op : Overriding, wp op.run (fun _ => op.Changed s) (op.Changed s) s := by
  have hd := documented hround h
  refine ⟨fun r j hj => ?_, fun m s' hm => ?_, fun op => ?_⟩
  · have hlook := Recorded.disabledIn hd j.manifest
    show (this r >>= _) s = _
    simp only [bind, andThen, this, hj, Prog.get, hlook]
    rfl
  · obtain ⟨written, hover, -, hsame⟩ := (Session.overrode hround hm hd).written
    exact ⟨written, hover, hsame⟩
  · exact wp_mono (op.run_writes (keyed h)) (fun _ _ hw => (hw.overrode hd).changed) fun _ hw => (hw.overrode hd).changed

/-- Steps of one session. -/
theorem session_later {t : Sys} (h : Reach Opened (Session dump parse) s) (hl : Later Next s t) :
    Reach Opened (Session dump parse) t :=
  h.later (Relation.ReflTransGen.mono (fun _ _ ⟨e, hn⟩ => ⟨Move.step e, hn⟩) _ _ hl)

/-- A job is disabled, launchd is started again, and the job is loaded by force. -/
theorem disabled_last_restarted : ∃ s j, Reach Opened (Session id some) s ∧ s.heap 0 = some j ∧ j.manifest.disabled = false ∧
    Job.isDisabled 0 s = .ok true s := by
  have hopened : Opened { newManager with stateFile := defaultStateDoc } := ⟨_, _, _, recorded_default, rfl⟩
  let disabling : List Ev := [.startRunning [] {}, requestOf "disable" [("Label", .str "job")]]
  let loading : List Ev := [.startRunning [] {}, .handleEvent
    (.socket (some (.arr [.str "load", .obj [("Force", .bool true), ("OverrideDisabled", .bool false), ("Paths", .arr [.str "job.json"])]])))
    { files := fun _ => .file (some (manifestWith [])) }]
  have hrun : ((run (fun _ _ => true) { newManager with stateFile := defaultStateDoc } disabling).bind fun s =>
      run (fun _ _ => true)
        { stateFile := s.stateFile, overrides := s.overrides, kernel := { now := 5, users := s.kernel.users } } loading).any
      (fun s => s.overrides == [("job", false)] && (s.heap 0).any fun j => j.label == "job" && !j.manifest.disabled) := by
    decide +kernel
  obtain ⟨t, ht, hp⟩ := (Option.any_eq_true ..).mp hrun
  obtain ⟨s, hs, ht⟩ := Option.bind_eq_some_iff.mp ht
  have hfirst : Reach Opened (Session id some) s := session_later (.init hopened)
    ((later_of_run (C := fun _ _ => True) (fun _ _ _ _ => trivial) hs).mono fun _ _ _ hn => hn.1)
  have hsecond := session_later (.step (.restart 5 s.kernel.users) hfirst ⟨s, s.stateFile, .refl, rfl, rfl⟩)
    ((later_of_run (C := fun _ _ => True) (fun _ _ _ _ => trivial) ht).mono fun _ _ _ hn => hn.1)
  simp only [Bool.and_eq_true, beq_iff_eq] at hp
  obtain ⟨j, hj, hjp⟩ := (Option.any_eq_true ..).mp hp.2
  simp only [Bool.and_eq_true, beq_iff_eq, Bool.not_eq_true'] at hjp
  refine ⟨t, j, hsecond, hj, hjp.2, ?_⟩
  rw [(disabled_last (fun _ => rfl) hsecond).1 0 j hj, hp.1, hjp.1]
  rfl

/-! ## A text for every document -/

namespace Json

def numberText (s : String) : Nat := Encodable.encode (s.toList.map Char.toNat)

theorem numberText_inj {s t : String} : numberText s = numberText t ↔ s = t := by
  have hchar : Function.Injective Char.toNat := fun c d h => Char.ext (UInt32.toNat_inj.mp h)
  rw [numberText, numberText, Encodable.encode_inj, hchar.list_map.eq_iff, String.toList_inj]

mutual

def number : Json → Nat
  | .null => Nat.pair 0 0
  | .bool b => Nat.pair 1 (Encodable.encode b)
  | .int n => Nat.pair 2 (Encodable.encode n)
  | .uint n => Nat.pair 3 n
  | .float n d => Nat.pair 4 (Nat.pair (Encodable.encode n) d)
  | .str s => Nat.pair 5 (numberText s)
  | .arr xs => Nat.pair 6 (numberAll xs)
  | .obj members => Nat.pair 7 (numberFields members)

def numberAll : List Json → Nat
  | [] => 0
  | x :: xs => Nat.pair (number x) (numberAll xs) + 1

def numberFields : List (String × Json) → Nat
  | [] => 0
  | (key, x) :: members => Nat.pair (numberText key) (Nat.pair (number x) (numberFields members)) + 1

end

mutual

theorem number_inj {a b : Json} (h : number a = number b) : a = b := by
  cases a <;> cases b <;> simp only [number, Nat.pair_eq_pair, Encodable.encode_inj, numberText_inj] at h
  all_goals try (exact absurd h.1 (by decide))
  case null => rfl
  case bool => rw [h.2]
  case int => rw [h.2]
  case uint => rw [h.2]
  case float => rw [h.2.1, h.2.2]
  case str => rw [h.2]
  case arr => rw [numberAll_inj h.2]
  case obj => rw [numberFields_inj h.2]

theorem numberAll_inj {xs ys : List Json} (h : numberAll xs = numberAll ys) : xs = ys := by
  cases xs with
  | nil => cases ys with
    | nil => rfl
    | cons y ys => simp [numberAll] at h
  | cons x xs => cases ys with
    | nil => simp [numberAll] at h
    | cons y ys =>
      simp only [numberAll, Nat.add_right_cancel_iff, Nat.pair_eq_pair] at h
      rw [number_inj h.1, numberAll_inj h.2]

theorem numberFields_inj {xs ys : List (String × Json)} (h : numberFields xs = numberFields ys) : xs = ys := by
  cases xs with
  | nil => cases ys with
    | nil => rfl
    | cons y ys => simp [numberFields] at h
  | cons x xs => cases ys with
    | nil => simp [numberFields] at h
    | cons y ys =>
      obtain ⟨key, x⟩ := x
      obtain ⟨key', y⟩ := y
      simp only [numberFields, Nat.add_right_cancel_iff, Nat.pair_eq_pair, numberText_inj] at h
      rw [h.1, number_inj h.2.1, numberFields_inj h.2.2]

end

noncomputable def numbered : Codec Json where
  dump doc := Codec.letters.dump doc.number
  parse text := (Codec.letters.parse text).bind fun n => open Classical in if h : ∃ doc : Json, doc.number = n then some h.choose else none
  parse_dump doc := by
    have hdoc : ∃ doc' : Json, doc'.number = doc.number := ⟨doc, rfl⟩
    rw [Codec.letters.parse_dump, Option.bind_some, dif_pos hdoc, number_inj hdoc.choose_spec]
  noNul doc := Codec.letters.noNul _

end Json

/-- A job is disabled; launchd is started again, and the job is enabled. -/
theorem overrides_on_disk_restarted : ∃ s t : Sys, Opened s ∧ t.overrides = [("job", false), ("job", true)] ∧
    t.overrides.foldl (overrideOn Json.numbered) (onDisk Json.numbered s.stateFile) = onDisk Json.numbered t.stateFile := by
  have hopened : Opened { newManager with stateFile := defaultStateDoc } := ⟨_, _, _, recorded_default, rfl⟩
  have hrun : ((run (fun _ _ => true) { newManager with stateFile := defaultStateDoc }
      [.startRunning [] {}, requestOf "disable" [("Label", .str "job")]]).bind fun s =>
        run (fun _ _ => true) { stateFile := s.stateFile, overrides := s.overrides, kernel := { now := 5, users := s.kernel.users } }
          [.startRunning [] {}, requestOf "enable" [("Label", .str "job")]]).any
      (fun s => s.overrides == [("job", false), ("job", true)]) := by
    decide +kernel
  obtain ⟨t, ht, hover⟩ := (Option.any_eq_true ..).mp hrun
  obtain ⟨s, hs, ht⟩ := Option.bind_eq_some_iff.mp ht
  have hsteps : ∀ {s t : Sys}, Later (Under Next fun _ _ => True) s t → Later (Session Json.numbered.dump Json.numbered.parse) s t :=
    Relation.ReflTransGen.mono (fun _ _ ⟨e, hn⟩ => ⟨Move.step e, hn.1⟩) _ _
  have hfirst := hsteps (later_of_run (C := fun _ _ => True) (fun _ _ _ _ => trivial) hs)
  have hsecond := hsteps (later_of_run (C := fun _ _ => True) (fun _ _ _ _ => trivial) ht)
  have hrestart : Session Json.numbered.dump Json.numbered.parse s (.restart 5 s.kernel.users) _ :=
    ⟨s, s.stateFile, .refl, Json.numbered.parse_dump _, rfl⟩
  have hlater := (hfirst.tail ⟨_, hrestart⟩).trans hsecond
  exact ⟨_, t, hopened, eq_of_beq hover, overrides_on_disk hopened hlater⟩

end Relaunchd
