/-
  Relaunchd.Properties.Clearing — what the loop of `killProcessGroup` leaves of a job.

  Where launchd is a subreaper and the job kept to its group, the loop returns with every
  process of the session reaped (`group_gone`), after as many turns as there were processes,
  and it never waits for anybody but one that is dying (`kill_returns`). For the children
  that launchd forked, it does what the manager's model says in one step (`kill_refines`).
-/

import Relaunchd.Properties.Groups

namespace Relaunchd

open Transition

namespace ProcessTree

variable {launchd top : Int} {host host' : Host} {m : Move} {t u p q z : Task} {pid g : Int}

/-! ## The session when SIGKILL is sent -/

/-- Nobody of the session has left the group, and nobody of the group has a parent outside it
    but launchd; launchd may send them signals. -/
structure Whole (launchd : Int) (g : Int) (host : Host) : Prop where
  alone : ∀ t ∈ host.tasks, t.pid = g ∨ t.sid = g ∨ t.pgid = g → t.sid = g ∧ t.pgid = g
  below : ∀ t ∈ host.tasks, t.pgid = g → t.parent = launchd ∨ ∃ q ∈ host.tasks, q.pid = t.parent ∧ q.pgid = g
  native : ∀ t ∈ host.tasks, t.pgid = g → t.foreign = false

instance : Decidable (Whole launchd g host) :=
  decidable_of_iff (_ ∧ _ ∧ _) ⟨fun h => ⟨h.1, h.2.1, h.2.2⟩, fun h => ⟨h.alone, h.below, h.native⟩⟩

/-- The processes that were forked at these times can only die. -/
structure Doomed (launchd : Int) (births : List Nat) (g : Int) (host : Host) : Prop where
  old : ∀ b ∈ births, b < host.born
  dying : ∀ t ∈ host.tasks, t.born ∈ births → t.pgid = g ∧ t.sid = g ∧ (t.killed = true ∨ t.zombie = true)
  below : ∀ t ∈ host.tasks, t.born ∈ births → t.parent = launchd ∨ ∃ q ∈ host.tasks, q.pid = t.parent ∧ q.born ∈ births

/-- Nobody else has the number. -/
def Alone (births : List Nat) (g : Int) (host : Host) : Prop :=
  ∀ t ∈ host.tasks, t.pid = g ∨ t.sid = g ∨ t.pgid = g → t.born ∈ births

variable {births : List Nat}

theorem Doomed.not_acting (h : Doomed launchd births g host) (hp : p ∈ host.tasks) (hz : p.zombie = false)
    (hk : p.killed = false) : p.born ∉ births := by
  intro hb
  rcases (h.dying p hp hb).2.2 with hd | hd
  · rw [hk] at hd
    cases hd
  · rw [hz] at hd
    cases hd

/-- Who acts is not in the session, and so cannot move anybody who is. -/
theorem Doomed.not_moved (h : Doomed launchd births g host) (ha : (∃ t ∈ host.tasks, t.born ∈ births) → Alone births g host)
    (hc : q ∈ host.tasks) (hz : q.zombie = false) (hk : q.killed = false) (hp : p ∈ host.tasks) (hsid : p.sid = q.sid) :
    p.born ∉ births := by
  intro hb
  have hpg := (h.dying p hp hb).2.1
  exact h.not_acting hc hz hk (ha ⟨p, hp, hb⟩ q hc (.inr (.inl (hsid.symm.trans hpg))))

theorem Doomed.same (h : Doomed launchd births g host) (htasks : host'.tasks = host.tasks) (hborn : host'.born = host.born) :
    Doomed launchd births g host' := by
  cases host'
  cases htasks
  cases hborn
  exact ⟨h.old, h.dying, h.below⟩

theorem Doomed.map {f : Task → Task} (h : Doomed launchd births g host) (hf : ∀ t ∈ host.tasks, Same t (f t))
    (hkeep : ∀ t ∈ host.tasks, t.born ∈ births →
      (f t).pgid = t.pgid ∧ (f t).sid = t.sid ∧ (t.killed = true → (f t).killed = true)) :
    Doomed launchd births g { host with tasks := host.tasks.map f } where
  old := h.old
  dying t' ht' hb := by
    obtain ⟨t, ht, rfl⟩ := List.mem_map.mp ht'
    rw [(hf t ht).born] at hb
    obtain ⟨hg, hs, hd⟩ := h.dying t ht hb
    obtain ⟨hg', hs', hk'⟩ := hkeep t ht hb
    exact ⟨hg'.trans hg, hs'.trans hs, hd.imp hk' (hf t ht).zombie.trans⟩
  below t' ht' hb := by
    obtain ⟨t, ht, rfl⟩ := List.mem_map.mp ht'
    rw [(hf t ht).born] at hb
    rw [(hf t ht).parent]
    refine (h.below t ht hb).imp_right fun hex => ?_
    obtain ⟨q, hq, hpid, hqb⟩ := hex
    exact ⟨f q, List.mem_map_of_mem hq, (hf q hq).pid.trans hpid, (hf q hq).born ▸ hqb⟩

/-- Only a process outside the session changes. -/
theorem Doomed.edit {f : Task → Task} (h : Doomed launchd births g host) (hs : Sound launchd top host) (hp : p ∈ host.tasks)
    (hb : p.born ∉ births) (hf : ∀ t, Same t (f t)) : Doomed launchd births g (host.edit p.pid f) := by
  refine h.map (fun t ht => ?_) fun t ht hbt => ?_
  · split
    · exact hf t
    · exact ⟨rfl, rfl, rfl, rfl, rfl, rfl⟩
  · have hne : t.pid ≠ p.pid := fun he => hb (hs.unique t ht p hp he ▸ hbt)
    rw [if_neg hne]
    exact ⟨rfl, rfl, id⟩

/-- An orphan of the session goes to another of it, or to launchd. -/
theorem Doomed.heir (h : Doomed launchd births g host) (hs : Sound launchd launchd host) : ∀ (fuel : Nat) (pid : Int),
    (pid = launchd ∨ ∃ q ∈ host.tasks, q.pid = pid ∧ q.born ∈ births) →
    host.heir launchd fuel pid = launchd ∨ ∃ q ∈ host.tasks, q.pid = host.heir launchd fuel pid ∧ q.born ∈ births := by
  intro fuel
  induction fuel with
  | zero => exact fun _ _ => .inl rfl
  | succ fuel ih =>
    intro pid hpid
    rw [Host.heir]
    rcases hpid with rfl | ⟨q, hq, rfl, hb⟩
    · rw [find_none fun t ht => (hs.outside t ht).1]
      exact .inl rfl
    · rw [hs.find hq]
      dsimp only
      split
      · exact .inr ⟨q, hq, rfl, hb⟩
      · exact ih q.parent ((h.below q hq hb).imp_right id)

theorem Doomed.orphan (h : Doomed launchd births g host) (hs : Sound launchd launchd host) (hp : p ∈ host.tasks) :
    Doomed launchd births g (host.orphan p.pid (host.heir launchd host.tasks.length p.parent)) := by
  obtain ⟨heir, hheir⟩ : ∃ heir, heir = host.heir launchd host.tasks.length p.parent := ⟨_, rfl⟩
  have hnext : p.born ∈ births → heir = launchd ∨ ∃ q ∈ host.tasks, q.pid = heir ∧ q.born ∈ births := by
    intro hb
    rw [hheir]
    exact h.heir hs _ _ (h.below p hp hb)
  rw [← hheir]
  have hkept : ∀ q ∈ host.tasks, ∃ q' ∈ (host.orphan p.pid heir).tasks, q'.pid = q.pid ∧ q'.born = q.born := by
    intro q hq
    refine ⟨_, List.mem_map_of_mem hq, ?_⟩
    split
    · exact ⟨rfl, rfl⟩
    · split
      · exact ⟨rfl, rfl⟩
      · exact ⟨rfl, rfl⟩
  have hstays : ∀ parent : Int, (parent = launchd ∨ ∃ q ∈ host.tasks, q.pid = parent ∧ q.born ∈ births) →
      parent = launchd ∨ ∃ q ∈ (host.orphan p.pid heir).tasks, q.pid = parent ∧ q.born ∈ births := by
    intro parent hor
    refine hor.imp_right fun hex => ?_
    obtain ⟨q, hq, hpid, hb⟩ := hex
    obtain ⟨q', hq', hpid', hb'⟩ := hkept q hq
    exact ⟨q', hq', hpid'.trans hpid, hb' ▸ hb⟩
  refine ⟨h.old, fun t' ht' hb => ?_, fun t' ht' hb => ?_⟩
  · obtain ⟨t, ht, rfl⟩ := List.mem_map.mp ht'
    by_cases he : t.pid = p.pid
    · rw [if_pos he] at hb ⊢
      obtain ⟨hg, hsid, -⟩ := h.dying t ht hb
      exact ⟨hg, hsid, .inr rfl⟩
    · rw [if_neg he] at hb ⊢
      split at hb
      · rename_i hc
        rw [if_pos hc]
        exact h.dying t ht hb
      · rename_i hc
        rw [if_neg hc]
        exact h.dying t ht hb
  · obtain ⟨t, ht, rfl⟩ := List.mem_map.mp ht'
    by_cases he : t.pid = p.pid
    · rw [if_pos he] at hb ⊢
      exact hstays t.parent (h.below t ht hb)
    · rw [if_neg he] at hb ⊢
      by_cases hc : t.parent = p.pid
      · rw [if_pos hc] at hb ⊢
        have hpb : p.born ∈ births := by
          rcases h.below t ht hb with hl | ⟨q, hq, hqp, hqb⟩
          · exact absurd (hc.symm.trans hl) (hs.outside p hp).1
          · exact hs.unique q hq p hp (hqp.trans hc) ▸ hqb
        exact hstays heir (hnext hpb)
      · rw [if_neg hc] at hb ⊢
        exact hstays t.parent (h.below t ht hb)

theorem Doomed.add (h : Doomed launchd births g host) (hb : t.born = host.born) : Doomed launchd births g (host.add t) := by
  have hnew : t.born ∉ births := fun hm => lt_irrefl _ (hb ▸ h.old _ hm)
  have hmem : ∀ u ∈ (host.add t).tasks, u.born ∈ births → u ∈ host.tasks := by
    intro u hu hub
    rcases List.mem_append.mp hu with hu | hu
    · exact hu
    · rw [List.mem_singleton.mp hu] at hub
      exact absurd hub hnew
  refine ⟨fun b hm => Nat.lt_succ_of_lt (h.old b hm), fun u hu hub => h.dying u (hmem u hu hub) hub, fun u hu hub => ?_⟩
  refine (h.below u (hmem u hu hub) hub).imp_right fun hex => ?_
  obtain ⟨q, hq, hrest⟩ := hex
  exact ⟨q, List.mem_append_left _ hq, hrest⟩

theorem Doomed.remove (h : Doomed launchd births g host) (hs : Sound launchd launchd host) (hz : z ∈ host.tasks)
    (hd : z.zombie = true) : Doomed launchd births g (host.remove z.pid) := by
  have hin : ∀ u ∈ (host.remove z.pid).tasks, u ∈ host.tasks := fun u hu => (List.mem_filter.mp hu).1
  refine ⟨h.old, fun u hu hub => h.dying u (hin u hu) hub, fun u hu hub => ?_⟩
  rcases h.below u (hin u hu) hub with hl | ⟨q, hq, hqp, hqb⟩
  · exact .inl hl
  · rcases hs.parent u (hin u hu) with hl | hl | ⟨r, hr, hrp, hrz, -⟩
    · exact .inl hl
    · exact .inl hl
    · have hrq : r = q := hs.unique r hr q hq (hrp.trans hqp.symm)
      refine .inr ⟨q, List.mem_filter.mpr ⟨hq, ?_⟩, hqp, hqb⟩
      simp only [ne_eq, decide_not, Bool.not_eq_true', decide_eq_false_iff_not]
      intro he
      rw [hrq, hs.unique q hq z hz he, hd] at hrz
      cases hrz

theorem Doomed.next (h : Doomed launchd births g host) (hs : Sound launchd launchd host)
    (ha : (∃ t ∈ host.tasks, t.born ∈ births) → Alone births g host) (hc : Changes launchd launchd host m host') :
    Doomed launchd births g host' := by
  cases hc with
  | add t hout hb hfree hzombie hcomes hsp => exact h.add hb
  | setsid p hp hzombie hkilled hlead =>
    exact h.edit hs hp (h.not_acting hp hzombie hkilled) fun _ => ⟨rfl, rfl, rfl, rfl, rfl, rfl⟩
  | setpgid c p pgid hcm hzombie hkilled hp hsid hled hto =>
    exact h.edit hs hp (h.not_moved ha hcm hzombie hkilled hp hsid) fun _ => ⟨rfl, rfl, rfl, rfl, rfl, rfl⟩
  | alter p subreaper foreign hp hzombie hkilled =>
    exact h.edit hs hp (h.not_acting hp hzombie hkilled) fun _ => ⟨rfl, rfl, rfl, rfl, rfl, rfl⟩
  | die p hp hzombie => exact h.orphan hs hp
  | collect z hz hd hfree => exact h.remove hs hz hd
  | vanish z hz hd hparent => exact h.remove hs hz hd
  | call pgid hfree => exact h.same rfl rfl
  | killpg pgid hstage =>
    have hmark : Doomed launchd births g (host.signal pgid) := by
      refine h.map (fun t ht => ?_) fun t ht hb => ?_
      · split
        · exact ⟨rfl, rfl, rfl, rfl, rfl, rfl⟩
        · exact ⟨rfl, rfl, rfl, rfl, rfl, rfl⟩
      · split
        · exact ⟨rfl, rfl, fun _ => rfl⟩
        · exact ⟨rfl, rfl, id⟩
    exact hmark.same rfl rfl
  | reap z hz hd hparent hstage =>
    have hless := h.remove hs hz hd
    exact hless.same rfl rfl
  | echild pgid hstage hnone => exact h.same rfl rfl
  | fail pgid hstage => exact h.same rfl rfl

theorem mem_orphan {heir : Int} (hu : u ∈ (host.orphan pid heir).tasks) :
    ∃ t ∈ host.tasks, u.pid = t.pid ∧ u.pgid = t.pgid ∧ u.sid = t.sid ∧ u.spawned = t.spawned ∧ u.born = t.born := by
  obtain ⟨t, ht, rfl⟩ := List.mem_map.mp hu
  refine ⟨t, ht, ?_⟩
  split
  · exact ⟨rfl, rfl, rfl, rfl, rfl⟩
  · split
    · exact ⟨rfl, rfl, rfl, rfl, rfl⟩
    · exact ⟨rfl, rfl, rfl, rfl, rfl⟩

theorem mem_signal (hu : u ∈ (host.signal g).tasks) :
    ∃ t ∈ host.tasks, u.pid = t.pid ∧ u.pgid = t.pgid ∧ u.sid = t.sid ∧ u.spawned = t.spawned ∧ u.born = t.born := by
  obtain ⟨t, ht, rfl⟩ := List.mem_map.mp hu
  refine ⟨t, ht, ?_⟩
  split
  · exact ⟨rfl, rfl, rfl, rfl, rfl⟩
  · exact ⟨rfl, rfl, rfl, rfl, rfl⟩

/-- As long as the number is not handed out again, nobody else gets it. -/
theorem Alone.next (ha : Alone births g host) (h : Doomed launchd births g host) (hs : Sound launchd top host)
    (hc : Changes launchd top host m host') (hout : m.handsOut ≠ some g) : Alone births g host' := by
  cases hc with
  | add t hhands hb hfree hzombie hcomes hsp =>
    intro u hu hor
    rcases List.mem_append.mp hu with hu | hu
    · exact ha u hu hor
    · rw [List.mem_singleton.mp hu] at hor
      have hne : t.pid ≠ g := fun he => hout (he ▸ hhands)
      rcases hcomes with ⟨-, hg, hsid⟩ | ⟨-, p, hp, ⟨hz, hk⟩, -, hg, hsid, -⟩
      · rw [hg, hsid] at hor
        exact absurd hor fun hor => hor.elim hne fun hor => hor.elim hne hne
      · rw [hg, hsid] at hor
        exact absurd (ha p hp (hor.resolve_left hne |> .inr)) (h.not_acting hp hz hk)
  | setsid p hp hzombie hkilled hlead =>
    intro u hu hor
    rcases (mem_edit hs hp).mp hu with rfl | ⟨hu, -⟩
    · exact ha p hp (.inl (hor.elim id fun hor => hor.elim id id))
    · exact ha u hu hor
  | setpgid c p pgid hcm hzombie hkilled hp hsid hled hto =>
    intro u hu hor
    rcases (mem_edit hs hp).mp hu with rfl | ⟨hu, -⟩
    · rcases hor with he | he | he
      · exact ha p hp (.inl he)
      · exact ha p hp (.inr (.inl he))
      · have hpg : pgid = g := he
        rcases hto with hown | ⟨q, hq, hqg, hqs⟩
        · exact ha p hp (.inl (hown.symm.trans hpg))
        · have hqb := ha q hq (.inr (.inr (hqg.trans hpg)))
          exact ha p hp (.inr (.inl (hqs.symm.trans (h.dying q hq hqb).2.1)))
    · exact ha u hu hor
  | alter p subreaper foreign hp hzombie hkilled =>
    intro u hu hor
    rcases (mem_edit hs hp).mp hu with rfl | ⟨hu, -⟩
    · exact ha p hp hor
    · exact ha u hu hor
  | die p hp hzombie =>
    intro u hu hor
    obtain ⟨t, ht, hpid, hg, hsid, -, hb⟩ := mem_orphan hu
    rw [hpid, hg, hsid] at hor
    exact hb ▸ ha t ht hor
  | collect z hz hd hfree => exact fun u hu => ha u (List.mem_filter.mp hu).1
  | vanish z hz hd hparent => exact fun u hu => ha u (List.mem_filter.mp hu).1
  | reap z hz hd hparent hstage => exact fun u hu => ha u (List.mem_filter.mp hu).1
  | killpg pgid hstage =>
    intro u hu hor
    obtain ⟨t, ht, hpid, hg, hsid, -, hb⟩ := mem_signal hu
    rw [hpid, hg, hsid] at hor
    exact hb ▸ ha t ht hor
  | call pgid hfree => exact ha
  | echild pgid hstage hnone => exact ha
  | fail pgid hstage => exact ha

/-- Whoever is there was there before, or has just been forked. -/
theorem born_from (hs : Sound launchd top host) (hc : Changes launchd top host m host') (hu : u ∈ host'.tasks) :
    (∃ t ∈ host.tasks, u.born = t.born) ∨ u.born = host.born := by
  cases hc with
  | add t hout hb hfree hzombie hcomes hsp =>
    rcases List.mem_append.mp hu with hu | hu
    · exact .inl ⟨u, hu, rfl⟩
    · rw [List.mem_singleton.mp hu]
      exact .inr hb
  | setsid p hp hzombie hkilled hlead =>
    rcases (mem_edit hs hp).mp hu with rfl | ⟨hu, -⟩
    · exact .inl ⟨p, hp, rfl⟩
    · exact .inl ⟨u, hu, rfl⟩
  | setpgid c p pgid hcm hzombie hkilled hp hsid hled hto =>
    rcases (mem_edit hs hp).mp hu with rfl | ⟨hu, -⟩
    · exact .inl ⟨p, hp, rfl⟩
    · exact .inl ⟨u, hu, rfl⟩
  | alter p subreaper foreign hp hzombie hkilled =>
    rcases (mem_edit hs hp).mp hu with rfl | ⟨hu, -⟩
    · exact .inl ⟨p, hp, rfl⟩
    · exact .inl ⟨u, hu, rfl⟩
  | die p hp hzombie =>
    obtain ⟨t, ht, -, -, -, -, hb⟩ := mem_orphan hu
    exact .inl ⟨t, ht, hb⟩
  | killpg pgid hstage =>
    obtain ⟨t, ht, -, -, -, -, hb⟩ := mem_signal hu
    exact .inl ⟨t, ht, hb⟩
  | collect z hz hd hfree => exact .inl ⟨u, (List.mem_filter.mp hu).1, rfl⟩
  | vanish z hz hd hparent => exact .inl ⟨u, (List.mem_filter.mp hu).1, rfl⟩
  | reap z hz hd hparent hstage => exact .inl ⟨u, (List.mem_filter.mp hu).1, rfl⟩
  | call pgid hfree => exact .inl ⟨u, hu, rfl⟩
  | echild pgid hstage hnone => exact .inl ⟨u, hu, rfl⟩
  | fail pgid hstage => exact .inl ⟨u, hu, rfl⟩

/-- Without a child of launchd in the group none of them is left: the oldest that were would
    have a parent that is older still. -/
theorem Doomed.none_left (h : Doomed launchd births g host) (hs : Sound launchd launchd host)
    (hnone : ∀ t ∈ host.tasks, t.parent = launchd → t.pgid ≠ g) : ∀ t ∈ host.tasks, t.born ∉ births := by
  have hall : ∀ (n : Nat) (t : Task), t ∈ host.tasks → t.born = n → t.born ∉ births := by
    intro n
    induction n using Nat.strong_induction_on with
    | _ n ih =>
      intro t ht hn hb
      have hg := (h.dying t ht hb).1
      rcases h.below t ht hb with hl | ⟨q, hq, hqp, hqb⟩
      · exact hnone t ht hl hg
      · rcases hs.parent t ht with hl | hl | ⟨r, hr, hrp, -, hrb⟩
        · exact hnone t ht hl hg
        · exact hnone t ht hl hg
        · rw [hs.unique r hr q hq (hrp.trans hqp.symm)] at hrb
          exact ih q.born (by omega) q hq rfl hqb
  exact fun t ht => hall t.born t ht rfl

structure Clearing (launchd : Int) (births : List Nat) (g : Int) (host : Host) : Prop where
  sound : Sound launchd launchd host
  doomed : Doomed launchd births g host
  alone : (∃ t ∈ host.tasks, t.born ∈ births) → Alone births g host
  done : host.stage = .returned g true → ∀ t ∈ host.tasks, t.born ∉ births

theorem Clearing.next (h : Clearing launchd births g host) (hc : Changes launchd launchd host m host') :
    Clearing launchd births g host' := by
  have hfrom : ∀ t' ∈ host'.tasks, t'.born ∈ births → ∃ t ∈ host.tasks, t.born ∈ births := by
    intro t' ht' hb
    rcases born_from h.sound hc ht' with ⟨t, ht, he⟩ | he
    · exact ⟨t, ht, he ▸ hb⟩
    · exact absurd (h.doomed.old _ hb) (by omega)
  refine ⟨h.sound.next hc, h.doomed.next h.sound h.alone hc, fun hex => ?_, fun hr => ?_⟩
  · obtain ⟨t', ht', hb⟩ := hex
    obtain ⟨t, ht, hbt⟩ := hfrom t' ht' hb
    refine (h.alone ⟨t, ht, hbt⟩).next h.doomed h.sound hc fun hout => ?_
    -- the group has the number, so it is not free
    cases hc with
    | add u hhands hbu hfree hzombie hcomes hsp =>
      have hu : u.pid = g := by
        rw [hhands] at hout
        simpa using hout
      exact (hfree.2.2.2 t ht).2.1 ((h.doomed.dying t ht hbt).1.trans hu.symm)
    | setsid | setpgid | alter | die | collect | vanish | call | killpg | reap | echild | fail => cases hout
  · have hempty : (∀ t ∈ host.tasks, t.born ∉ births) → ∀ t' ∈ host'.tasks, t'.born ∉ births := by
      intro hno t' ht' hb
      obtain ⟨t, ht, hbt⟩ := hfrom t' ht' hb
      exact hno t ht hbt
    refine hempty ?_
    cases hc with
    | echild pgid hstage hnone =>
      obtain rfl : pgid = g := by simpa using hr
      exact h.doomed.none_left h.sound hnone
    | fail | killpg | call | reap => cases hr
    | add | setsid | setpgid | alter | die | collect | vanish => exact h.done hr

def Host.bornIn (host : Host) (sid : Int) : List Nat := (host.tasks.filter (·.sid = sid)).map (·.born)

theorem mem_bornIn {b : Nat} : b ∈ host.bornIn g ↔ ∃ t ∈ host.tasks, t.sid = g ∧ t.born = b := by
  simp [Host.bornIn, and_assoc]

/-- The first SIGKILL reaches the whole session. -/
theorem clearing_start (h : Sound launchd launchd host) (hw : Whole launchd g host) (hstage : host.stage = .killing g) :
    Clearing launchd (host.bornIn g) g { host.signal g with stage := .waiting g } ∧
      Alone (host.bornIn g) g (host.signal g) := by
  have hsession : ∀ t ∈ host.tasks, t.born ∈ host.bornIn g → t.sid = g := by
    intro t ht hb
    obtain ⟨u, hu, hsid, he⟩ := mem_bornIn.mp hb
    rwa [h.once t ht u hu he.symm]
  have halone : Alone (host.bornIn g) g (host.signal g) := by
    intro u hu hor
    obtain ⟨t, ht, hpid, hg, hsid, -, hb⟩ := mem_signal hu
    rw [hpid, hg, hsid] at hor
    exact mem_bornIn.mpr ⟨t, ht, (hw.alone t ht hor).1, hb.symm⟩
  refine ⟨⟨h.next (.killpg g hstage), ⟨fun b hb => ?_, fun u hu hb => ?_, fun u hu hb => ?_⟩, fun _ => halone,
    fun hr => by cases hr⟩, halone⟩
  · obtain ⟨t, ht, -, rfl⟩ := mem_bornIn.mp hb
    exact h.born t ht
  · obtain ⟨t, ht, rfl⟩ := List.mem_map.mp hu
    have hsame : (if t.pgid = g ∧ t.foreign = false then { t with killed := true } else t).born = t.born := by
      split <;> rfl
    rw [hsame] at hb
    have hsid := hsession t ht hb
    have hg := (hw.alone t ht (.inr (.inl hsid))).2
    rw [if_pos ⟨hg, hw.native t ht hg⟩]
    exact ⟨hg, hsid, .inl rfl⟩
  · obtain ⟨t, ht, rfl⟩ := List.mem_map.mp hu
    have hsame : ∀ t : Task, (if t.pgid = g ∧ t.foreign = false then { t with killed := true } else t).born = t.born ∧
        (if t.pgid = g ∧ t.foreign = false then { t with killed := true } else t).parent = t.parent ∧
        (if t.pgid = g ∧ t.foreign = false then { t with killed := true } else t).pid = t.pid := by
      intro t
      split
      · exact ⟨rfl, rfl, rfl⟩
      · exact ⟨rfl, rfl, rfl⟩
    rw [(hsame t).1] at hb
    rw [(hsame t).2.1]
    have hg := (hw.alone t ht (.inr (.inl (hsession t ht hb)))).2
    refine (hw.below t ht hg).imp_right fun hex => ?_
    obtain ⟨q, hq, hqp, hqg⟩ := hex
    refine ⟨_, List.mem_map_of_mem hq, (hsame q).2.2.trans hqp, ?_⟩
    rw [(hsame q).1]
    exact mem_bornIn.mpr ⟨q, hq, (hw.alone q hq (.inr (.inr hqg))).1, rfl⟩

theorem killpg_eq {host₁ : Host} (hstage : host.stage = .killing g) (hk : host.Next launchd top .killpg host₁) :
    host₁ = { host.signal g with stage := .waiting g } := by
  change host.loop launchd .killpg = some host₁ at hk
  rw [Host.loop, hstage] at hk
  cases hk
  rfl

/-- Where launchd is a subreaper and the job kept to its group: when the loop has come to its
    end, every process of the session has been reaped, whatever all others did meanwhile. -/
theorem group_gone {host₁ : Host} (h : host.Reachable launchd launchd) (hw : Whole launchd g host)
    (hstage : host.stage = .killing g) (hk : host.Next launchd launchd .killpg host₁) (hl : Later (Host.Next launchd launchd) host₁ host')
    (hr : host'.stage = .returned g true) (ht : t ∈ host.tasks) (hsid : t.sid = g) : ∀ u ∈ host'.tasks, u.born ≠ t.born := by
  have hstart : Clearing launchd (host.bornIn g) g host₁ := by
    rw [killpg_eq hstage hk]
    exact (clearing_start (sound h) hw hstage).1
  have hend : Clearing launchd (host.bornIn g) g host' := by
    clear hr
    induction hl with
    | refl => exact hstart
    | tail _ hs ih =>
      obtain ⟨m, hs⟩ := hs
      exact ih.next (step_cases hs)
  intro u hu he
  exact hend.done hr u hu (mem_bornIn.mpr ⟨t, ht, hsid, he.symm⟩)

/-- The leader of a job has died and been reaped; it left a child, which has forked too. -/
def stranded : Host := playedBy [.spawn 10 0, .fork 10 11, .fork 11 12, .die 10, .collect 10, .call 10]

theorem stranded_whole :
    stranded.Reachable 1 1 ∧ Whole 1 10 stranded ∧ stranded.stage = .killing 10 ∧ stranded.tasks.length = 2 :=
  ⟨playedBy_reachable (by decide +kernel), by decide +kernel, by decide +kernel, by decide +kernel⟩

/-- Both are killed and reaped, the second when the death of the first has made it launchd's. -/
theorem group_gone_stranded : ∃ host', Later (Host.Next 1 1) stranded host' ∧ host'.stage = .returned 10 true ∧
    ∀ t ∈ stranded.tasks, t.sid = 10 → ∀ u ∈ host'.tasks, u.born ≠ t.born := by
  obtain ⟨hreach, hwhole, hstage, -⟩ := stranded_whole
  have hkill : (stranded.step 1 1 .killpg).any fun host₁ =>
      (play (Host.step 1 1) host₁ [.die 11, .reap 11, .killpg, .die 12, .reap 12, .killpg, .echild]).any
        (·.stage = .returned 10 true) := by decide +kernel
  obtain ⟨host₁, hk, hrest⟩ := (Option.any_eq_true ..).mp hkill
  obtain ⟨host', hsteps, hr⟩ := steps_of_any hrest
  have hr : host'.stage = .returned 10 true := by simpa using hr
  exact ⟨host', .trans (.single ⟨_, hk⟩) hsteps.later, hr,
    fun t ht hsid => group_gone hreach hwhole hstage hk hsteps.later hr ht hsid⟩

/-! ## The loop returns -/

/-- Launchd does nothing else during the call. -/
def Move.inCall : Move → Bool
  | .spawn _ _ | .collect _ | .call _ => false
  | _ => true

/-- Nor is the number of the group handed out again. -/
def Within (g : Int) (_ : Host) (m : Move) : Prop := m.inCall = true ∧ m.handsOut ≠ some g

instance (g : Int) (host : Host) : DecidablePred (Within g host) := fun _ => inferInstanceAs (Decidable (_ ∧ _))

def Host.left (births : List Nat) (host : Host) : Nat := host.tasks.countP (·.born ∈ births)

theorem left_map {f : Task → Task} (hf : ∀ t, (f t).born = t.born) :
    Host.left births { host with tasks := host.tasks.map f } = host.left births := by
  unfold Host.left
  rw [List.countP_map]
  refine List.countP_congr fun t _ => ?_
  rw [Function.comp_apply, hf]

theorem left_remove : (host.remove pid).left births ≤ host.left births := List.Sublist.countP_le List.filter_sublist

/-- One less is left when one of them is reaped. -/
theorem left_reap (hz : z ∈ host.tasks) (hb : z.born ∈ births) : (host.remove z.pid).left births < host.left births := by
  have hsplit := List.countP_eq_countP_filter_add host.tasks (fun t => decide (t.born ∈ births)) (·.pid ≠ z.pid)
  have hpos : 0 < (host.tasks.filter fun t => !decide (t.pid ≠ z.pid)).countP (·.born ∈ births) :=
    List.countP_pos_iff.mpr ⟨z, List.mem_filter.mpr ⟨hz, by simp⟩, by simpa using hb⟩
  change (host.tasks.filter (·.pid ≠ z.pid)).countP (·.born ∈ births) < host.tasks.countP (·.born ∈ births)
  omega

/-- A call that goes on has reaped as many as are missing. -/
structure Going (launchd : Int) (births : List Nat) (g : Int) (n : Nat) (host : Host) : Prop where
  clearing : Clearing launchd births g host
  alone : Alone births g host
  stage : host.stage = .killing g ∨ host.stage = .waiting g ∨ host.stage.free
  count : host.reaped + host.left births ≤ n

theorem Going.next {n : Nat} (h : Going launchd births g n host) (hc : Changes launchd launchd host m host')
    (hw : Within g host m) : Going launchd births g n host' := by
  obtain ⟨hin, hout⟩ := hw
  have hcount := h.count
  refine ⟨h.clearing.next hc, h.alone.next h.clearing.doomed h.clearing.sound hc hout, ?_, ?_⟩
  · cases hc with
    | killpg pgid hstage =>
      rcases h.stage with hs | hs | hs
      · rw [hstage] at hs
        cases hs
        exact .inr (.inl rfl)
      · rw [hstage] at hs
        cases hs
      · rw [hstage] at hs
        cases hs
    | reap z hz hd hparent hstage =>
      rcases h.stage with hs | hs | hs
      · rw [hstage] at hs
        cases hs
      · rw [hstage] at hs
        exact .inl (congrArg Stage.killing (by simpa using hs))
      · rw [hstage] at hs
        cases hs
    | echild | fail => exact .inr (.inr rfl)
    | call | collect => cases hin
    | add | setsid | setpgid | alter | die | vanish => exact h.stage
  · cases hc with
    | add t hhands hb hfree hzombie hcomes hsp =>
      have hnew : t.born ∉ births := fun hm => lt_irrefl _ (hb ▸ h.clearing.doomed.old _ hm)
      have hleft : (host.add t).left births = host.left births := by
        unfold Host.left Host.add
        rw [List.countP_append, List.countP_singleton, if_neg (by simpa using hnew), Nat.add_zero]
      exact hleft.symm ▸ hcount
    | setsid | setpgid | alter =>
      refine (congrArg (host.reaped + ·) (left_map fun t => ?_)).trans_le hcount
      split
      · rfl
      · rfl
    | die p hp hzombie =>
      refine (congrArg (host.reaped + ·) (left_map fun t => ?_)).trans_le hcount
      split
      · rfl
      · split
        · rfl
        · rfl
    | killpg pgid hstage =>
      refine (congrArg (host.reaped + ·) (left_map fun t => ?_)).trans_le hcount
      split
      · rfl
      · rfl
    | vanish z hz hd hparent =>
      have hle := @left_remove host z.pid births
      change host.reaped + (host.remove z.pid).left births ≤ n
      omega
    | reap z hz hd hparent hstage =>
      have hzg : z.pgid = g := by
        rcases h.stage with hs | hs | hs
        · rw [hstage] at hs
          cases hs
        · rw [hstage] at hs
          simpa using hs
        · rw [hstage] at hs
          cases hs
      have hlt := left_reap hz (h.alone z hz (.inr (.inr hzg)))
      change host.reaped + 1 + (host.remove z.pid).left births ≤ n
      omega
    | call | collect => cases hin
    | echild | fail => exact hcount

/-- Launchd is through, or its next call returns, or it waits for somebody who can die. -/
theorem Going.ready {n : Nat} (h : Going launchd births g n host) : host.stage.free ∨
    (∃ m, m ≠ .fail ∧ (host.loop launchd m).isSome) ∨
    ∃ t ∈ host.tasks, t.sid = g ∧ t.killed = true ∧ (host.step launchd launchd (.die t.pid)).isSome := by
  rcases h.stage with hs | hs | hs
  · refine .inr (.inl ⟨.killpg, by simp, ?_⟩)
    rw [Host.loop, hs]
    rfl
  · by_cases hnone : ∀ t ∈ host.tasks, t.parent = launchd → t.pgid ≠ g
    · refine .inr (.inl ⟨.echild, by simp, ?_⟩)
      rw [Host.loop, hs]
      dsimp only
      rw [if_pos hnone]
      rfl
    · simp only [not_forall, not_not] at hnone
      obtain ⟨t, ht, hparent, hg⟩ := hnone
      have hfind := h.clearing.sound.find ht
      obtain ⟨-, hsid, hdying⟩ := h.clearing.doomed.dying t ht (h.alone t ht (.inr (.inr hg)))
      cases hz : t.zombie with
      | true =>
        refine .inr (.inl ⟨.reap t.pid, by simp, ?_⟩)
        have hdead : host.Dead launchd t.pid := Host.dead_iff.mpr ⟨t, hfind, hz, hparent⟩
        rw [Host.loop, hs]
        dsimp only
        rw [if_pos ⟨hdead, by simp [hfind, hg]⟩]
        rfl
      | false =>
        have hk : t.killed = true := hdying.resolve_right (by simp [hz])
        refine .inr (.inr ⟨t, ht, hsid, hk, ?_⟩)
        rw [Host.step, hfind]
        dsimp only
        rw [hz]
        rfl
  · exact .inl hs

/-- The loop goes round once for each process of the session and once more at the most, and it
    never waits but for one of them that only has to die. -/
theorem kill_returns {host₁ : Host} (h : host.Reachable launchd launchd) (hw : Whole launchd g host)
    (hstage : host.stage = .killing g) (hk : host.Next launchd launchd .killpg host₁)
    (hl : Later (Under (Host.Next launchd launchd) (Within g)) host₁ host') :
    host'.reaped ≤ host.reaped + host.tasks.countP (·.sid = g) ∧
    (host'.stage.free ∨ (∃ m, m ≠ .fail ∧ (host'.loop launchd m).isSome) ∨
      ∃ t ∈ host'.tasks, t.sid = g ∧ t.killed = true ∧ (host'.step launchd launchd (.die t.pid)).isSome) := by
  have hsound := sound h
  have hsession : (host.signal g).left (host.bornIn g) = host.tasks.countP (·.sid = g) := by
    have hsame := @left_map host (host.bornIn g)
      (fun t => if t.pgid = g ∧ t.foreign = false then { t with killed := true } else t) fun t => by split <;> rfl
    refine hsame.trans (List.countP_congr fun t ht => ?_)
    simp only [decide_eq_true_eq]
    rw [mem_bornIn]
    constructor
    · intro hex
      obtain ⟨u, hu, hsid, he⟩ := hex
      rwa [hsound.once t ht u hu he.symm]
    · exact fun hsid => ⟨t, ht, hsid, rfl⟩
  have hstart : Going launchd (host.bornIn g) g (host.reaped + host.tasks.countP (·.sid = g)) host₁ := by
    obtain ⟨hclearing, halone⟩ := clearing_start hsound hw hstage
    rw [killpg_eq hstage hk]
    exact ⟨hclearing, halone, .inr (.inl rfl), by rw [← hsession]; exact le_rfl⟩
  have hend : Going launchd (host.bornIn g) g (host.reaped + host.tasks.countP (·.sid = g)) host' := by
    induction hl with
    | refl => exact hstart
    | tail _ hs ih =>
      obtain ⟨m, hs, hw⟩ := hs
      exact ih.next (step_cases hs) hw
  have hcount := hend.count
  exact ⟨by omega, hend.ready⟩

/-- One has been reaped, and the loop waits for the other. -/
theorem kill_returns_stranded : ∃ host', Later (Host.Next 1 1) stranded host' ∧ host'.stage = .waiting 10 ∧ host'.reaped = 1 ∧
    host'.reaped ≤ 2 ∧ (host'.stage.free ∨ (∃ m, m ≠ .fail ∧ (host'.loop 1 m).isSome) ∨
      ∃ t ∈ host'.tasks, t.sid = 10 ∧ t.killed = true ∧ (host'.step 1 1 (.die t.pid)).isSome) := by
  obtain ⟨hreach, hwhole, hstage, -⟩ := stranded_whole
  have hkill : (stranded.step 1 1 .killpg).any fun host₁ =>
      (play (stepIf (Host.step 1 1) (Within 10)) host₁ [.die 11, .reap 11, .killpg]).any
        fun host' => host'.stage = .waiting 10 && host'.reaped == 1 := by decide +kernel
  obtain ⟨host₁, hk, hrest⟩ := (Option.any_eq_true ..).mp hkill
  obtain ⟨host', hl, hp⟩ := later_of_play _ _ _ _ _ hrest
  rw [Bool.and_eq_true, decide_eq_true_eq, beq_iff_eq] at hp
  have hcount : stranded.reaped + stranded.tasks.countP (·.sid = 10) = 2 := by decide +kernel
  obtain ⟨hle, hready⟩ := kill_returns hreach hwhole hstage hk hl
  exact ⟨host', .trans (.single ⟨_, hk⟩) (hl.mono fun _ _ _ hs => hs.1), hp.1, hp.2, hle.trans_eq hcount, hready⟩

/-! ## What the manager sees of it -/

theorem mem_children : pid ∈ host.children ↔ ∃ t ∈ host.tasks, t.spawned = true ∧ t.pid = pid := by
  simp [Host.children, and_assoc]

/-- Processes change, and none of launchd's own comes or goes. -/
theorem children_map {f : Task → Task} (hf : ∀ t, (f t).pid = t.pid ∧ (f t).spawned = t.spawned) :
    Host.children { host with tasks := host.tasks.map f } = host.children := by
  unfold Host.children
  rw [List.filter_map, List.map_map]
  have hfilter : (fun t : Task => t.spawned) ∘ f = fun t => t.spawned := funext fun t => (hf t).2
  have hpid : (fun t : Task => t.pid) ∘ f = fun t => t.pid := funext fun t => (hf t).1
  rw [hfilter, hpid]

theorem children_remove : pid ∈ (host.remove z.pid).children ↔ pid ∈ host.children ∧ pid ≠ z.pid := by
  rw [mem_children, mem_children]
  constructor
  · intro hex
    obtain ⟨t, ht, hsp, rfl⟩ := hex
    obtain ⟨ht, hne⟩ := List.mem_filter.mp ht
    exact ⟨⟨t, ht, hsp, rfl⟩, by simpa using hne⟩
  · intro hboth
    obtain ⟨⟨t, ht, hsp, rfl⟩, hne⟩ := hboth
    exact ⟨t, List.mem_filter.mpr ⟨ht, by simpa using hne⟩, hsp, rfl⟩

/-- Of the children launchd had at the call, only the leader of the group can be missing. -/
structure Kept (launchd top : Int) (g : Int) (host₀ host : Host) : Prop where
  sound : Sound launchd top host
  stage : host.stage = .killing g ∨ host.stage = .waiting g ∨ ∃ result, host.stage = .returned g result
  others : ∀ pid, pid ≠ g → (pid ∈ host.children ↔ pid ∈ host₀.children)
  leader : host.stage = .returned g true → g ∉ host.children

theorem Kept.same {host₀ : Host} (h : Kept launchd top g host₀ host) (hs : Sound launchd top host')
    (hchildren : ∀ pid, pid ∈ host'.children ↔ pid ∈ host.children) (hstage : host'.stage = host.stage) :
    Kept launchd top g host₀ host' where
  sound := hs
  stage := hstage ▸ h.stage
  others pid hne := (hchildren pid).trans (h.others pid hne)
  leader hr := fun hm => h.leader (hstage ▸ hr) ((hchildren g).mp hm)

theorem Kept.next {host₀ : Host} (h : Kept launchd top g host₀ host) (hc : Changes launchd top host m host')
    (hin : m.inCall = true) : Kept launchd top g host₀ host' := by
  have hsound := h.sound.next hc
  cases hc with
  | add t hhands hb hfree hzombie hcomes hsp =>
    refine h.same hsound (fun pid => ?_) rfl
    have hno : t.spawned ≠ true := by
      intro hspawned
      obtain ⟨job, rfl⟩ := hsp hspawned
      cases hin
    unfold Host.children Host.add
    rw [List.filter_append, List.filter_cons_of_neg hno, List.filter_nil, List.append_nil]
  | setsid | setpgid | alter =>
    refine h.same hsound (fun pid => ?_) rfl
    refine iff_of_eq (congrArg (pid ∈ ·) (children_map fun t => ?_))
    split
    · exact ⟨rfl, rfl⟩
    · exact ⟨rfl, rfl⟩
  | die p hp hzombie =>
    refine h.same hsound (fun pid => ?_) rfl
    refine iff_of_eq (congrArg (pid ∈ ·) (children_map fun t => ?_))
    split
    · exact ⟨rfl, rfl⟩
    · split
      · exact ⟨rfl, rfl⟩
      · exact ⟨rfl, rfl⟩
  | vanish z hz hd hparent =>
    refine h.same hsound (fun pid => children_remove.trans (and_iff_left_of_imp fun hm he => ?_)) rfl
    obtain ⟨t, ht, hsp, hpid⟩ := mem_children.mp hm
    rw [h.sound.unique t ht z hz (hpid.trans he)] at hsp
    exact hparent (h.sound.spawned z hz hsp).1
  | killpg pgid hstage =>
    have hg : pgid = g := by
      rcases h.stage with hs | hs | ⟨_, hs⟩ <;> rw [hstage] at hs <;> cases hs
      rfl
    have hchildren : (host.signal pgid).children = host.children := children_map fun t => by split <;> exact ⟨rfl, rfl⟩
    refine ⟨hsound, .inr (.inl (congrArg Stage.waiting hg)), fun pid hne => ?_, fun hr => by cases hr⟩
    exact (iff_of_eq (congrArg (pid ∈ ·) hchildren)).trans (h.others pid hne)
  | reap z hz hd hparent hstage =>
    have hg : z.pgid = g := by
      rcases h.stage with hs | hs | ⟨_, hs⟩ <;> rw [hstage] at hs <;> cases hs
      rfl
    refine ⟨hsound, .inl (congrArg Stage.killing hg), fun pid hne => ?_, fun hr => by cases hr⟩
    refine (children_remove.trans (and_iff_left_of_imp fun hm he => hne ?_)).trans (h.others pid hne)
    obtain ⟨t, ht, hsp, hpid⟩ := mem_children.mp hm
    rw [h.sound.unique t ht z hz (hpid.trans he)] at hsp
    exact he.trans ((h.sound.spawned z hz hsp).2.1.symm.trans hg)
  | echild pgid hstage hnone =>
    have hg : pgid = g := by
      rcases h.stage with hs | hs | ⟨_, hs⟩ <;> rw [hstage] at hs <;> cases hs
      rfl
    refine ⟨hsound, .inr (.inr ⟨true, congrArg (Stage.returned · true) hg⟩), h.others, fun _ hm => ?_⟩
    obtain ⟨t, ht, hsp, hpid⟩ := mem_children.mp hm
    obtain ⟨hparent, hgroup, -⟩ := h.sound.spawned t ht hsp
    exact hnone t ht hparent (hgroup.trans (hpid.trans hg.symm))
  | fail pgid hstage =>
    have hg : pgid = g := by
      rcases h.stage with hs | hs | ⟨_, hs⟩ <;> rcases hstage with hstage | hstage <;> rw [hstage] at hs <;> cases hs <;> rfl
    exact ⟨hsound, .inr (.inr ⟨false, congrArg (Stage.returned · false) hg⟩), h.others, fun hr => by cases hr⟩
  | call | collect => cases hin

/-- The processes of the manager's kernel that are not reaped, after it reaped a group's leader. -/
theorem held_reap {k : Kernel} : (∃ p ∈ (k.reap fun p => p.pid == g).procs, p.held = true ∧ p.pid = pid) ↔
    (∃ p ∈ k.procs, p.held = true ∧ p.pid = pid) ∧ pid ≠ g := by
  unfold Kernel.reap
  constructor
  · intro hex
    obtain ⟨p', hp', hheld, hpid⟩ := hex
    obtain ⟨p, hp, rfl⟩ := List.mem_map.mp hp'
    by_cases he : p.pid = g
    · rw [if_pos (beq_iff_eq.mpr he)] at hheld
      cases hheld
    · rw [if_neg fun hb => he (beq_iff_eq.mp hb)] at hheld hpid
      exact ⟨⟨p, hp, hheld, hpid⟩, fun hg => he (hpid.trans hg)⟩
  · intro hboth
    obtain ⟨⟨p, hp, hheld, hpid⟩, hne⟩ := hboth
    refine ⟨_, List.mem_map_of_mem hp, ?_⟩
    rw [if_neg fun hb => hne (hpid.symm.trans (beq_iff_eq.mp hb))]
    exact ⟨hheld, hpid⟩

/-- To the children that launchd forked, the loop does what the manager's model does at once. -/
theorem kill_refines {s : Sys} {r : Ref} {j : Job} (hj : s.heap r = some j) (hpgid : 0 ≤ j.pgid)
    (habandon : j.manifest.abandonProcessGroup = false) (h : host.Reachable launchd top)
    (hstage : host.stage = .killing j.pgid) (hshows : Shows host s.kernel) (hl : Later (Under (Host.Next launchd top) fun _ m => m.inCall = true) host host')
    (hr : host'.stage = .returned j.pgid true) :
    ∃ s', Job.killProcessGroup r s = .ok true s' ∧ Shows host' s'.kernel := by
  have hstart : Kept launchd top j.pgid host host :=
    ⟨sound h, .inl hstage, fun _ _ => Iff.rfl, fun hr => by rw [hstage] at hr; cases hr⟩
  have hend : Kept launchd top j.pgid host host' := by
    clear hr
    induction hl with
    | refl => exact hstart
    | tail _ hs ih =>
      obtain ⟨m, hs, hin⟩ := hs
      exact ih.next (step_cases hs) hin
  have hthis : Relaunchd.this r s = .ok j s := by rw [Relaunchd.this, hj]
  refine ⟨(s.updateKernel fun k => { k with groupKills := k.groupKills ++ [(r, j.pgid)] }).updateKernel
    (·.reap fun p => p.pid == j.pgid), ?_, fun pid => ?_⟩
  · rw [Job.killProcessGroup, Prog.bind_ok hthis, if_neg (by omega), habandon]
    rfl
  · refine Iff.trans ?_ held_reap.symm
    by_cases he : pid = j.pgid
    · refine iff_of_false (fun hm => hend.leader hr (he ▸ hm)) fun hboth => hboth.2 he
    · exact (hend.others pid he).trans ((hshows pid).trans (and_iff_left he).symm)

def groupJob : Job := { manifest := { label := "job" }, manifestPath := "", pgid := 10 }

def groupSys : Sys :=
  { stateFile := .null
    heap := fun r => if r = 0 then some groupJob else none
    kernel := { now := 0, users := ⟨fun _ => none, fun _ => none⟩, procs := [.forked 10 0 0 false, .forked 20 1 0 false] } }

theorem kill_refines_two : ∃ host' s', Job.killProcessGroup 0 groupSys = .ok true s' ∧ Shows host' s'.kernel ∧
    host'.stage = .returned 10 true := by
  have hshows : Shows twoJobs groupSys.kernel := by
    have hchildren : twoJobs.children = [10, 20] := by decide +kernel
    intro pid
    rw [hchildren]
    constructor
    · intro hm
      simp only [List.mem_cons, List.not_mem_nil, or_false] at hm
      rcases hm with rfl | rfl
      · exact ⟨.forked 10 0 0 false, List.mem_cons_self, rfl, rfl⟩
      · exact ⟨.forked 20 1 0 false, List.mem_cons_of_mem _ List.mem_cons_self, rfl, rfl⟩
    · intro hex
      obtain ⟨p, hp, -, rfl⟩ := hex
      have hprocs : groupSys.kernel.procs = [.forked 10 0 0 false, .forked 20 1 0 false] := rfl
      rw [hprocs] at hp
      rcases List.mem_cons.mp hp with rfl | hp
      · exact List.mem_cons_self
      · rw [List.mem_singleton.mp hp]
        exact List.mem_cons_of_mem _ List.mem_cons_self
  have hplay : (play (stepIf (Host.step 1 1) fun _ m => m.inCall = true) twoJobs
      [.killpg, .die 10, .fork 21 22, .reap 10, .killpg, .echild]).any (·.stage = .returned 10 true) := by decide +kernel
  obtain ⟨host', hl, hp⟩ := later_of_play _ _ _ _ _ hplay
  have hr : host'.stage = .returned 10 true := by simpa using hp
  obtain ⟨s', hkill, hend⟩ := @kill_refines 1 1 _ _ groupSys 0 groupJob rfl (by decide) rfl
    (playedBy_reachable (by decide +kernel)) (by decide +kernel) hshows hl hr
  exact ⟨host', s', hkill, hend, hr⟩

end ProcessTree

end Relaunchd
