/-
  Relaunchd.Properties.Environment — what the environment of a job's program assigns, from
  the manifest, the passwd entry and the daemon's own environment.
-/

import Relaunchd.Environment

namespace Relaunchd

open Job

variable {manifest : Manifest} {pwent : Option PasswdEntry} {uid : Nat} {getenv : String → Option String} {vars : List (String × String)}

def sessionKeys : List String := ["LOGNAME", "USER", "HOME", "PATH", "SHELL", "TMPDIR", "PWD"]

def assignments (manifest : Manifest) (pwent : Option PasswdEntry) (uid : Nat) (getenv : String → Option String) :
    List (String × String) :=
  (setupEnvironmentVariables manifest pwent uid getenv).map assignment

/-- Every name is assigned once: to what the manifest says, or the session, or the daemon's environment. -/
structure Merged (manifest : Manifest) (pwent : Option PasswdEntry) (uid : Nat) (getenv : String → Option String) : Prop where
  once : ((assignments manifest pwent uid getenv).map Prod.fst).Nodup
  kept : ∀ e ∈ manifest.environmentVariables, e ∈ assignments manifest pwent uid getenv
  session : isSession pwent → ∀ key ∈ sessionKeys, key ∈ (assignments manifest pwent uid getenv).map Prod.fst
  passed : ∀ key ∈ standardKeys, ∀ val, getenv key = some val → sets manifest.environmentVariables key = false →
    (key, val) ∈ assignments manifest pwent uid getenv

/-- Names without a `=`, a shell where one is looked for, and nothing to pass on. -/
structure Mergeable (manifest : Manifest) (pwent : Option PasswdEntry) (getenv : String → Option String) : Prop where
  names : ∀ e ∈ manifest.environmentVariables, '=' ∉ e.1.toList
  shell : isSession pwent → sets manifest.environmentVariables "SHELL"
  passed : ∀ key ∈ standardKeys, (getenv key).isSome → sets manifest.environmentVariables key

theorem sets_iff {name : String} : sets vars name ↔ name ∈ vars.map Prod.fst := by
  rw [sets, List.any_eq_true, List.mem_map]
  exact exists_congr fun e => and_congr_right fun _ => beq_iff_eq

def added (vars : List (String × String)) (pwent : Option PasswdEntry) (uid : Nat) : List (String × String) :=
  if isSession pwent then sessionVariables vars (defaultsOf uid pwent) else []

theorem defaultsOf_eq (uid : Nat) (pwent : Option PasswdEntry) :
    ∃ name dir shell, defaultsOf uid pwent = sessionDefaults name dir shell := by
  cases pwent with
  | none => exact ⟨_, _, _, rfl⟩
  | some pwent => exact ⟨_, _, _, rfl⟩

/-- A variable that is added has one of the session's names. -/
theorem added_key {e : String × String} (h : e ∈ added vars pwent uid) : e.1 ∈ sessionKeys ∧ e.1 ≠ "SHELL" ∧ isSession pwent := by
  unfold added at h
  split at h
  · rename_i hs
    obtain ⟨name, dir, shell, hd⟩ := defaultsOf_eq uid pwent
    obtain ⟨d, hmem, rfl⟩ := List.mem_map.mp h
    have hd' := (List.mem_filter.mp hmem).1
    rw [hd] at hd'
    simp only [sessionDefaults, List.mem_cons, List.not_mem_nil, or_false] at hd'
    rcases hd' with rfl | rfl | rfl | rfl | rfl | rfl | rfl
    all_goals exact ⟨by simp [sessionKeys], by simp, hs⟩
  · cases h

theorem sessionKeys_free : ∀ key ∈ sessionKeys, '=' ∉ key.toList := by decide

theorem setup_eq : setupEnvironmentVariables manifest pwent uid getenv =
    (manifest.environmentVariables ++ added manifest.environmentVariables pwent uid).map fun e => keyval e.1 e.2 := by
  unfold setupEnvironmentVariables added
  rw [List.map_append]
  dsimp only
  split
  · rfl
  · exact (List.append_nil _).symm

/-- Names without a `=` are assigned what they are given. -/
theorem assignments_eq (h : ∀ e ∈ manifest.environmentVariables, '=' ∉ e.1.toList) :
    assignments manifest pwent uid getenv = manifest.environmentVariables ++ added manifest.environmentVariables pwent uid := by
  rw [assignments, setup_eq, List.map_map]
  refine (List.map_congr_left fun e he => ?_).trans (List.map_id _)
  apply assignment_keyval
  rcases List.mem_append.mp he with he | he
  · exact h e he
  · exact sessionKeys_free _ (added_key he).1

/-- Where `SHELL` is set, what is added has the name that was looked for. -/
theorem sessionVariables_keys (hshell : sets vars "SHELL") (name dir shell : String) :
    (sessionVariables vars (sessionDefaults name dir shell)).map Prod.fst = sessionKeys.filter (!sets vars ·) := by
  have hsame : ∀ d ∈ (sessionDefaults name dir shell).filter (!sets vars ·.1), d.2.1 = d.1 := by
    intro d hd
    obtain ⟨hd, hset⟩ := List.mem_filter.mp hd
    simp only [sessionDefaults, List.mem_cons, List.not_mem_nil, or_false] at hd
    rcases hd with rfl | rfl | rfl | rfl | rfl | rfl | rfl
    all_goals first | rfl | exact absurd hshell (by simpa using hset)
  rw [sessionVariables, List.map_map]
  refine (List.map_congr_left hsame).trans ?_
  exact (List.filter_map (f := Prod.fst) (p := (!sets vars ·)) (l := sessionDefaults name dir shell)).symm

theorem added_keys (h : isSession pwent → sets vars "SHELL") :
    (added vars pwent uid).map Prod.fst = if isSession pwent then sessionKeys.filter (!sets vars ·) else [] := by
  unfold added
  split
  · rename_i hs
    obtain ⟨name, dir, shell, hd⟩ := defaultsOf_eq uid pwent
    rw [hd]
    exact sessionVariables_keys (h hs) name dir shell
  · rfl

theorem merged_of_mergeable (hmap : (manifest.environmentVariables.map Prod.fst).Nodup) (h : Mergeable manifest pwent getenv) :
    Merged manifest pwent uid getenv := by
  have hall : assignments manifest pwent uid getenv =
      manifest.environmentVariables ++ added manifest.environmentVariables pwent uid :=
    assignments_eq h.names
  have hkeys : (added manifest.environmentVariables pwent uid).map Prod.fst =
      if isSession pwent then sessionKeys.filter (!sets manifest.environmentVariables ·) else [] :=
    added_keys h.shell
  refine ⟨?_, fun e he => ?_, fun hs key hkey => ?_, fun key hkey val hval hset => ?_⟩
  · rw [hall, List.map_append, List.nodup_append']
    refine ⟨hmap, ?_, fun key hkey hadded => ?_⟩
    · rw [hkeys]
      split
      · exact List.Nodup.filter _ (by decide)
      · exact List.nodup_nil
    · rw [hkeys] at hadded
      split at hadded
      · have hset := (List.mem_filter.mp hadded).2
        rw [sets_iff.mpr hkey] at hset
        cases hset
      · cases hadded
  · rw [hall]
    exact List.mem_append_left _ he
  · rw [hall, List.map_append, List.mem_append]
    cases hset : sets manifest.environmentVariables key with
    | true => exact .inl (sets_iff.mp hset)
    | false =>
      refine .inr ?_
      rw [hkeys, if_pos hs]
      exact List.mem_filter.mpr ⟨hkey, by rw [hset]; rfl⟩
  · rw [h.passed key hkey (by rw [hval]; rfl)] at hset
    cases hset

theorem standardKeys_apart : ∀ key ∈ standardKeys, key ∉ sessionKeys := by decide

theorem mergeable_of_merged (h : Merged manifest pwent uid getenv) : Mergeable manifest pwent getenv := by
  have hnames : ∀ e ∈ manifest.environmentVariables, '=' ∉ e.1.toList := by
    intro e he
    obtain ⟨entry, -, hentry⟩ := List.mem_map.mp (h.kept e he)
    exact hentry ▸ assignment_name entry
  have hall : assignments manifest pwent uid getenv =
      manifest.environmentVariables ++ added manifest.environmentVariables pwent uid :=
    assignments_eq hnames
  refine ⟨hnames, fun hs => ?_, fun key hkey hsome => ?_⟩
  · have hmem := h.session hs "SHELL" (by decide)
    rw [hall, List.map_append, List.mem_append] at hmem
    refine sets_iff.mpr (hmem.resolve_right fun hadded => ?_)
    obtain ⟨e, he, heq⟩ := List.mem_map.mp hadded
    exact (added_key he).2.1 heq
  · obtain ⟨val, hval⟩ := Option.isSome_iff_exists.mp hsome
    by_contra hset
    have hmem := h.passed key hkey val hval (by simpa using hset)
    rw [hall, List.mem_append] at hmem
    rcases hmem with hmem | hmem
    · exact hset (sets_iff.mpr (List.mem_map_of_mem (f := Prod.fst) hmem))
    · exact standardKeys_apart key hkey (added_key hmem).1

/-- The environment is merged as it should be when no name has a `=`, a session's shell is
    set by the manifest, and so is every standard variable that the daemon has. -/
theorem merged_iff (hmap : (manifest.environmentVariables.map Prod.fst).Nodup) :
    Merged manifest pwent uid getenv ↔ Mergeable manifest pwent getenv :=
  ⟨mergeable_of_merged, merged_of_mergeable hmap⟩

theorem merged_iff_plain : Merged { environmentVariables := [("FOO", "BAR")] } none 1000 (fun _ => none) ↔
    Mergeable { environmentVariables := [("FOO", "BAR")] } none (fun _ => none) :=
  merged_iff (by decide)

/-- A job with no variables of its own gets `HOME` twice, and no `SHELL`. -/
theorem home_twice : ¬ ∀ (manifest : Manifest) (pwent : Option PasswdEntry) (uid : Nat) (getenv : String → Option String),
    (manifest.environmentVariables.map Prod.fst).Nodup → Merged manifest pwent uid getenv := by
  intro h
  have hmerged := h {} none 1000 (fun _ => none) List.nodup_nil
  have hlist : setupEnvironmentVariables {} none 1000 (fun _ => none) =
      ["LOGNAME=1000", "USER=1000", "HOME=/", "PATH=/usr/bin:/bin:/usr/local/bin", "HOME=/bin/sh", "TMPDIR=/tmp", "PWD=/"] := by
    decide +kernel
  have hshell := hmerged.session rfl "SHELL" (by decide)
  rw [assignments, hlist] at hshell
  exact absurd hshell (by decide +kernel)

end Relaunchd
