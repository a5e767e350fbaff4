/-
  Relaunchd.Properties.Groups — the groups and sessions of the processes below launchd.

  Parents are older than their children, a group is part of a session and a session is of
  one job, whatever the processes do. So a signal to a group never reaches two jobs
  (`one_job`).
-/

import Relaunchd.ProcessTree

namespace Relaunchd

open Transition

namespace ProcessTree

variable {launchd top : Int} {host host' : Host} {m : Move} {t u p q z : Task} {pid g : Int}

/-! ## What a step does -/

namespace Host

theorem find_some (h : host.find pid = some t) : t ∈ host.tasks ∧ t.pid = pid :=
  ⟨List.mem_of_find?_eq_some h, by simpa using List.find?_some h⟩

theorem acts_iff : host.Acts pid ↔ ∃ t, host.find pid = some t ∧ t.zombie = false ∧ t.killed = false := by
  unfold Acts
  cases host.find pid with
  | none => simp
  | some t => simp

theorem dead_iff : host.Dead launchd pid ↔ ∃ t, host.find pid = some t ∧ t.zombie = true ∧ t.parent = launchd := by
  unfold Dead
  cases host.find pid with
  | none => simp
  | some t => simp

end Host

def Move.handsOut : Move → Option Int
  | .spawn pid _ => some pid
  | .fork _ child => some child
  | _ => none

/-- Where a new process comes from: launchd, or one that it takes after. -/
def Comes (launchd : Int) (host : Host) (t : Task) : Prop :=
  t.parent = launchd ∧ t.pgid = t.pid ∧ t.sid = t.pid ∨
  t.spawned = false ∧ ∃ p ∈ host.tasks, (p.zombie = false ∧ p.killed = false) ∧ t.parent = p.pid ∧ t.pgid = p.pgid ∧
    t.sid = p.sid ∧ t.job = p.job

inductive Changes (launchd top : Int) (host : Host) : Move → Host → Prop
  | add {m : Move} (t : Task) : m.handsOut = some t.pid → t.born = host.born → host.Free launchd top t.pid →
      t.zombie = false → Comes launchd host t → (t.spawned = true → ∃ job, m = .spawn t.pid job) →
      Changes launchd top host m (host.add t)
  | setsid (p : Task) : p ∈ host.tasks → p.zombie = false → p.killed = false → (∀ t ∈ host.tasks, t.pgid ≠ p.pid) →
      Changes launchd top host (.setsid p.pid) (host.edit p.pid fun t => { t with pgid := p.pid, sid := p.pid })
  | setpgid (c p : Task) (pgid : Int) : c ∈ host.tasks → c.zombie = false → c.killed = false → p ∈ host.tasks →
      p.sid = c.sid → p.sid ≠ p.pid → (pgid = p.pid ∨ ∃ q ∈ host.tasks, q.pgid = pgid ∧ q.sid = p.sid) →
      Changes launchd top host (.setpgid c.pid p.pid pgid) (host.edit p.pid fun t => { t with pgid })
  | alter (p : Task) (subreaper foreign : Bool) : p ∈ host.tasks → p.zombie = false → p.killed = false →
      Changes launchd top host (.alter p.pid subreaper foreign) (host.edit p.pid fun t => { t with subreaper, foreign })
  | die (p : Task) : p ∈ host.tasks → p.zombie = false →
      Changes launchd top host (.die p.pid) (host.orphan p.pid (host.heir top host.tasks.length p.parent))
  | collect (z : Task) : z ∈ host.tasks → z.zombie = true → host.stage.free →
      Changes launchd top host (.collect z.pid) (host.remove z.pid)
  | vanish (z : Task) : z ∈ host.tasks → z.zombie = true → z.parent ≠ launchd →
      Changes launchd top host (.vanish z.pid) (host.remove z.pid)
  | call (pgid : Int) : host.stage.free →
      Changes launchd top host (.call pgid) { host with stage := .killing pgid, reaped := 0 }
  | killpg (pgid : Int) : host.stage = .killing pgid →
      Changes launchd top host .killpg { host.signal pgid with stage := .waiting pgid }
  | reap (z : Task) : z ∈ host.tasks → z.zombie = true → z.parent = launchd → host.stage = .waiting z.pgid →
      Changes launchd top host (.reap z.pid) { host.remove z.pid with stage := .killing z.pgid, reaped := host.reaped + 1 }
  | echild (pgid : Int) : host.stage = .waiting pgid → (∀ t ∈ host.tasks, t.parent = launchd → t.pgid ≠ pgid) →
      Changes launchd top host .echild { host with stage := .returned pgid true }
  | fail (pgid : Int) : host.stage = .killing pgid ∨ host.stage = .waiting pgid →
      Changes launchd top host .fail { host with stage := .returned pgid false }

theorem loop_cases (h : host.loop launchd m = some host') : Changes launchd top host m host' := by
  cases m with
  | killpg =>
    rw [Host.loop] at h
    split at h
    · rename_i pgid hs
      cases h
      exact .killpg pgid hs
    · cases h
  | reap pid =>
    rw [Host.loop] at h
    split at h
    · rename_i pgid hs
      split at h
      · rename_i hboth
        cases h
        obtain ⟨z, hz, hzombie, hparent⟩ := Host.dead_iff.mp hboth.1
        obtain ⟨hmem, rfl⟩ := Host.find_some hz
        obtain rfl : z.pgid = pgid := by simpa [hz] using hboth.2
        exact .reap z hmem hzombie hparent hs
      · cases h
    · cases h
  | echild =>
    rw [Host.loop] at h
    split at h
    · rename_i pgid hs
      split at h
      · rename_i hnone
        cases h
        exact .echild pgid hs hnone
      · cases h
    · cases h
  | fail =>
    rw [Host.loop] at h
    split at h
    · rename_i pgid hs
      cases h
      exact .fail pgid (.inl hs)
    · rename_i pgid hs
      cases h
      exact .fail pgid (.inr hs)
    · cases h
  | spawn | collect | call | fork | setsid | setpgid | alter | die | vanish => cases h

theorem step_cases (h : host.Next launchd top m host') : Changes launchd top host m host' := by
  unfold Host.Next at h
  cases m with
  | spawn pid job =>
    rw [Host.step] at h
    split at h
    · rename_i hboth
      cases h
      exact .add _ rfl rfl hboth.2 rfl (.inl ⟨rfl, rfl, rfl⟩) fun _ => ⟨job, rfl⟩
    · cases h
  | collect pid =>
    rw [Host.step] at h
    split at h
    · rename_i hboth
      cases h
      obtain ⟨z, hz, hzombie, -⟩ := Host.dead_iff.mp hboth.2
      obtain ⟨hmem, rfl⟩ := Host.find_some hz
      exact .collect z hmem hzombie hboth.1
    · cases h
  | call pgid =>
    rw [Host.step] at h
    split at h
    · rename_i hfree
      cases h
      exact .call pgid hfree
    · cases h
  | fork pid child =>
    rw [Host.step] at h
    split at h
    · rename_i hboth
      obtain ⟨p, hp, hzombie, hkilled⟩ := Host.acts_iff.mp hboth.1
      obtain ⟨hmem, rfl⟩ := Host.find_some hp
      rw [hp] at h
      cases h
      exact .add _ rfl rfl hboth.2 hzombie (.inr ⟨rfl, p, hmem, ⟨hzombie, hkilled⟩, rfl, rfl, rfl, rfl⟩) fun hs => by cases hs
    · cases h
  | setsid pid =>
    rw [Host.step] at h
    split at h
    · rename_i hboth
      cases h
      obtain ⟨p, hp, hzombie, hkilled⟩ := Host.acts_iff.mp hboth.1
      obtain ⟨hmem, rfl⟩ := Host.find_some hp
      exact .setsid p hmem hzombie hkilled hboth.2
    · cases h
  | setpgid caller pid pgid =>
    rw [Host.step, Host.setpgid] at h
    split at h
    · rename_i c p hc hp
      split at h
      · rename_i hall
        cases h
        obtain ⟨⟨hzombie, hkilled⟩, -, -, hsid, hled, hto⟩ := hall
        obtain ⟨hcmem, rfl⟩ := Host.find_some hc
        obtain ⟨hpmem, rfl⟩ := Host.find_some hp
        exact .setpgid c p pgid hcmem hzombie hkilled hpmem hsid hled hto
      · cases h
    · cases h
  | alter pid subreaper foreign =>
    rw [Host.step] at h
    split at h
    · rename_i hacts
      cases h
      obtain ⟨p, hp, hzombie, hkilled⟩ := Host.acts_iff.mp hacts
      obtain ⟨hmem, rfl⟩ := Host.find_some hp
      exact .alter p subreaper foreign hmem hzombie hkilled
    · cases h
  | die pid =>
    rw [Host.step] at h
    split at h
    · rename_i p hp
      split at h
      · cases h
      · rename_i hzombie
        cases h
        obtain ⟨hmem, rfl⟩ := Host.find_some hp
        exact .die p hmem (by simpa using hzombie)
    · cases h
  | vanish pid =>
    rw [Host.step] at h
    split at h
    · rename_i hany
      cases h
      obtain ⟨z, hz, hboth⟩ := (Option.any_eq_true ..).mp hany
      obtain ⟨hmem, rfl⟩ := Host.find_some hz
      rw [Bool.and_eq_true, decide_eq_true_eq] at hboth
      exact .vanish z hmem hboth.1 hboth.2
    · cases h
  | killpg | reap | echild | fail => exact loop_cases h

/-! ## Sessions and groups -/

/-- Every parent lives and is older than its children. A group is part of a session, a session
    is of one job, and whatever has the number of a process belongs to its job. -/
structure Sound (launchd top : Int) (host : Host) : Prop where
  unique : ∀ t ∈ host.tasks, ∀ u ∈ host.tasks, t.pid = u.pid → t = u
  once : ∀ t ∈ host.tasks, ∀ u ∈ host.tasks, t.born = u.born → t = u
  born : ∀ t ∈ host.tasks, t.born < host.born
  outside : ∀ t ∈ host.tasks, t.pid ≠ launchd ∧ t.pid ≠ top
  parent : ∀ t ∈ host.tasks, t.parent = launchd ∨ t.parent = top ∨
    ∃ q ∈ host.tasks, q.pid = t.parent ∧ q.zombie = false ∧ q.born < t.born
  group : ∀ t ∈ host.tasks, ∀ u ∈ host.tasks, t.pgid = u.pgid → t.sid = u.sid
  session : ∀ t ∈ host.tasks, ∀ u ∈ host.tasks, t.sid = u.sid → t.job = u.job
  named : ∀ t ∈ host.tasks, ∀ u ∈ host.tasks, u.sid = t.pid ∨ u.pgid = t.pid → u.job = t.job
  led : ∀ t ∈ host.tasks, ∀ u ∈ host.tasks, u.pgid = t.pid → u.sid = t.sid
  spawned : ∀ t ∈ host.tasks, t.spawned = true → t.parent = launchd ∧ t.pgid = t.pid ∧ t.sid = t.pid

structure Same (t t' : Task) : Prop where
  pid : t'.pid = t.pid
  parent : t'.parent = t.parent
  zombie : t'.zombie = t.zombie
  job : t'.job = t.job
  spawned : t'.spawned = t.spawned
  born : t'.born = t.born

theorem Sound.same (h : Sound launchd top host) (htasks : host'.tasks = host.tasks) (hborn : host'.born = host.born) :
    Sound launchd top host' := by
  cases host'
  cases htasks
  cases hborn
  exact ⟨h.unique, h.once, h.born, h.outside, h.parent, h.group, h.session, h.named, h.led, h.spawned⟩

/-- Every process is changed, and keeps its number, its job and its age. -/
theorem Sound.rewrite {f : Task → Task} (h : Sound launchd top host)
    (hf : ∀ t ∈ host.tasks, (f t).pid = t.pid ∧ (f t).job = t.job ∧ (f t).spawned = t.spawned ∧ (f t).born = t.born)
    (hparent : ∀ t ∈ host.tasks, (f t).parent = launchd ∨ (f t).parent = top ∨
      ∃ q ∈ host.tasks, q.pid = (f t).parent ∧ (f q).zombie = false ∧ q.born < t.born)
    (hgroup : ∀ t ∈ host.tasks, ∀ u ∈ host.tasks, (f t).pgid = (f u).pgid → (f t).sid = (f u).sid)
    (hsession : ∀ t ∈ host.tasks, ∀ u ∈ host.tasks, (f t).sid = (f u).sid → t.job = u.job)
    (hnamed : ∀ t ∈ host.tasks, ∀ u ∈ host.tasks, (f u).sid = t.pid ∨ (f u).pgid = t.pid → u.job = t.job)
    (hled : ∀ t ∈ host.tasks, ∀ u ∈ host.tasks, (f u).pgid = t.pid → (f u).sid = (f t).sid)
    (hspawned : ∀ t ∈ host.tasks, t.spawned = true → (f t).parent = launchd ∧ (f t).pgid = t.pid ∧ (f t).sid = t.pid) :
    Sound launchd top { host with tasks := host.tasks.map f } := by
  have hpid : ∀ t ∈ host.tasks, (f t).pid = t.pid := fun t ht => (hf t ht).1
  have hjob : ∀ t ∈ host.tasks, (f t).job = t.job := fun t ht => (hf t ht).2.1
  have hborn : ∀ t ∈ host.tasks, (f t).born = t.born := fun t ht => (hf t ht).2.2.2
  constructor <;> simp only [List.forall_mem_map]
  case unique =>
    intro t ht u hu he
    rw [hpid t ht, hpid u hu] at he
    rw [h.unique t ht u hu he]
  case once =>
    intro t ht u hu he
    rw [hborn t ht, hborn u hu] at he
    rw [h.once t ht u hu he]
  case born =>
    intro t ht
    rw [hborn t ht]
    exact h.born t ht
  case outside =>
    intro t ht
    rw [hpid t ht]
    exact h.outside t ht
  case parent =>
    intro t ht
    refine (hparent t ht).imp_right fun hor => hor.imp_right fun hex => ?_
    obtain ⟨q, hq, hqp, hzombie, hlt⟩ := hex
    exact ⟨f q, List.mem_map_of_mem hq, (hpid q hq).trans hqp, hzombie, by rwa [hborn q hq, hborn t ht]⟩
  case group => exact hgroup
  case session =>
    intro t ht u hu he
    rw [hjob t ht, hjob u hu]
    exact hsession t ht u hu he
  case named =>
    intro t ht u hu he
    rw [hpid t ht] at he
    rw [hjob t ht, hjob u hu]
    exact hnamed t ht u hu he
  case led =>
    intro t ht u hu he
    rw [hpid t ht] at he
    exact hled t ht u hu he
  case spawned =>
    intro t ht hs
    rw [(hf t ht).2.2.1] at hs
    rw [hpid t ht]
    exact hspawned t ht hs

/-- The processes change, and stay where they are. -/
theorem Sound.map {f : Task → Task} (h : Sound launchd top host) (hf : ∀ t ∈ host.tasks, Same t (f t))
    (hgroup : ∀ t ∈ host.tasks, ∀ u ∈ host.tasks, (f t).pgid = (f u).pgid → (f t).sid = (f u).sid)
    (hsession : ∀ t ∈ host.tasks, ∀ u ∈ host.tasks, (f t).sid = (f u).sid → t.job = u.job)
    (hnamed : ∀ t ∈ host.tasks, ∀ u ∈ host.tasks, (f u).sid = t.pid ∨ (f u).pgid = t.pid → u.job = t.job)
    (hled : ∀ t ∈ host.tasks, ∀ u ∈ host.tasks, (f u).pgid = t.pid → (f u).sid = (f t).sid)
    (hspawned : ∀ t ∈ host.tasks, t.spawned = true → (f t).pgid = t.pid ∧ (f t).sid = t.pid) :
    Sound launchd top { host with tasks := host.tasks.map f } := by
  refine h.rewrite (fun t ht => ⟨(hf t ht).pid, (hf t ht).job, (hf t ht).spawned, (hf t ht).born⟩) (fun t ht => ?_)
    hgroup hsession hnamed hled fun t ht hs => ⟨(hf t ht).parent.trans (h.spawned t ht hs).1, hspawned t ht hs⟩
  rw [(hf t ht).parent]
  refine (h.parent t ht).imp_right fun hor => hor.imp_right fun hex => ?_
  obtain ⟨q, hq, hpid, hzombie, hborn⟩ := hex
  exact ⟨q, hq, hpid, (hf q hq).zombie.trans hzombie, hborn⟩

/-- Nothing changes that says where a process belongs. -/
theorem Sound.mark {f : Task → Task} (h : Sound launchd top host)
    (hf : ∀ t ∈ host.tasks, Same t (f t) ∧ (f t).pgid = t.pgid ∧ (f t).sid = t.sid) :
    Sound launchd top { host with tasks := host.tasks.map f } := by
  refine h.map (fun t ht => (hf t ht).1) ?_ ?_ ?_ ?_ ?_
  · intro t ht u hu
    rw [(hf t ht).2.1, (hf u hu).2.1, (hf t ht).2.2, (hf u hu).2.2]
    exact h.group t ht u hu
  · intro t ht u hu
    rw [(hf t ht).2.2, (hf u hu).2.2]
    exact h.session t ht u hu
  · intro t ht u hu
    rw [(hf u hu).2.1, (hf u hu).2.2]
    exact h.named t ht u hu
  · intro t ht u hu
    rw [(hf u hu).2.1, (hf u hu).2.2, (hf t ht).2.2]
    exact h.led t ht u hu
  · intro t ht hs
    rw [(hf t ht).2.1, (hf t ht).2.2]
    exact (h.spawned t ht hs).2

theorem Sound.find (h : Sound launchd top host) (ht : t ∈ host.tasks) : host.find t.pid = some t := by
  cases hf : host.find t.pid with
  | none => exact absurd (List.find?_eq_none.mp hf t ht) (by simp)
  | some u =>
    obtain ⟨hu, hpid⟩ := Host.find_some hf
    rw [h.unique u hu t ht hpid]

theorem find_none (h : ∀ t ∈ host.tasks, t.pid ≠ pid) : host.find pid = none :=
  List.find?_eq_none.mpr fun t ht => by simpa using h t ht

/-- A parent is older than its children. -/
theorem Sound.older (h : Sound launchd top host) (hp : p ∈ host.tasks) (ht : t ∈ host.tasks) (hchild : t.parent = p.pid) :
    p.born < t.born := by
  rcases h.parent t ht with he | he | ⟨r, hr, hrp, -, hrb⟩
  · exact absurd (hchild.symm.trans he) (h.outside p hp).1
  · exact absurd (hchild.symm.trans he) (h.outside p hp).2
  · rwa [h.unique r hr p hp (hrp.trans hchild)] at hrb

/-- The nearest subreaper is older than all that is below it. -/
theorem Sound.heir (h : Sound launchd top host) {b : Nat} : ∀ (fuel : Nat) (pid : Int),
    (∀ t, host.find pid = some t → t.born < b) →
    host.heir top fuel pid = top ∨
      ∃ q ∈ host.tasks, q.pid = host.heir top fuel pid ∧ q.zombie = false ∧ q.born < b := by
  intro fuel
  induction fuel with
  | zero => exact fun _ _ => .inl rfl
  | succ fuel ih =>
    intro pid hpid
    rw [Host.heir]
    cases hf : host.find pid with
    | none => exact .inl rfl
    | some t =>
      obtain ⟨ht, -⟩ := Host.find_some hf
      have hborn := hpid t hf
      dsimp only
      by_cases hs : (t.subreaper && !t.zombie) = true
      · rw [if_pos hs]
        rw [Bool.and_eq_true, Bool.not_eq_true'] at hs
        exact .inr ⟨t, ht, rfl, hs.2, hborn⟩
      · rw [if_neg hs]
        refine ih t.parent fun q hq => ?_
        obtain ⟨hqm, hqp⟩ := Host.find_some hq
        exact (h.older hqm ht hqp.symm).trans hborn

theorem mem_add : u ∈ (host.add t).tasks ↔ u ∈ host.tasks ∨ u = t := by simp [Host.add]

/-- What holds of any two processes there are, and of each with the new one. -/
theorem forall_add {R : Task → Task → Prop} (hold : ∀ u ∈ host.tasks, ∀ v ∈ host.tasks, R u v)
    (hnew : ∀ u ∈ host.tasks, R u t ∧ R t u) (hself : R t t) : ∀ u ∈ (host.add t).tasks, ∀ v ∈ (host.add t).tasks, R u v := by
  intro u hu' v hv'
  rcases mem_add.mp hu' with hu | hu
  · rcases mem_add.mp hv' with hv | hv
    · exact hold u hu v hv
    · exact hv ▸ (hnew u hu).1
  · rcases mem_add.mp hv' with hv | hv
    · exact hu ▸ (hnew v hv).2
    · exact hu ▸ hv ▸ hself

/-- Where something has a number of the new process for its own, that one was forked by a process
    like it. -/
theorem Comes.like (hc : Comes launchd host t) (hfree : host.Free launchd top t.pid) (hu : u ∈ host.tasks)
    (hor : u.pgid = t.pgid ∨ u.sid = t.sid ∨ u.pid = t.pgid ∨ u.pid = t.sid) :
    ∃ p ∈ host.tasks, t.pgid = p.pgid ∧ t.sid = p.sid ∧ t.job = p.job := by
  obtain ⟨-, -, -, hnew⟩ := hfree
  obtain ⟨h₁, h₂, h₃⟩ := hnew u hu
  rcases hc with ⟨-, hg, hsid⟩ | ⟨-, p, hp, -, -, hg, hsid, hj⟩
  · rw [hg, hsid] at hor
    rcases hor with he | he | he | he
    · exact absurd he h₂
    · exact absurd he h₃
    · exact absurd he h₁
    · exact absurd he h₁
  · exact ⟨p, hp, hg, hsid, hj⟩

theorem Sound.add (h : Sound launchd top host) (hb : t.born = host.born) (hfree : host.Free launchd top t.pid)
    (hzombie : t.zombie = false) (hc : Comes launchd host t)
    (hs : t.spawned = true → t.parent = launchd ∧ t.pgid = t.pid ∧ t.sid = t.pid) : Sound launchd top (host.add t) := by
  have hlike := fun u => hc.like (u := u) hfree
  obtain ⟨-, hl, htop, hnew⟩ := hfree
  constructor
  case unique =>
    exact forall_add h.unique (fun u hu => ⟨fun he => absurd he (hnew u hu).1, fun he => absurd he.symm (hnew u hu).1⟩)
      fun _ => rfl
  case once =>
    have hyoung : ∀ u ∈ host.tasks, u.born ≠ t.born := fun u hu => by rw [hb]; exact (h.born u hu).ne
    exact forall_add h.once (fun u hu => ⟨fun he => absurd he (hyoung u hu), fun he => absurd he.symm (hyoung u hu)⟩)
      fun _ => rfl
  case born =>
    intro u hu
    change u.born < host.born + 1
    rcases mem_add.mp hu with hu | rfl
    · exact Nat.lt_succ_of_lt (h.born u hu)
    · omega
  case outside =>
    intro u hu
    rcases mem_add.mp hu with hu | rfl
    · exact h.outside u hu
    · exact ⟨hl, htop⟩
  case parent =>
    intro u hu
    rcases mem_add.mp hu with hu | rfl
    · refine (h.parent u hu).imp_right fun hor => hor.imp_right fun hex => ?_
      obtain ⟨q, hq, hrest⟩ := hex
      exact ⟨q, mem_add.mpr (.inl hq), hrest⟩
    · rcases hc with ⟨hp, -, -⟩ | ⟨-, p, hp, ⟨hz, -⟩, hpp, -⟩
      · exact .inl hp
      · exact .inr (.inr ⟨p, mem_add.mpr (.inl hp), hpp.symm, hz, by rw [hb]; exact h.born p hp⟩)
  case group =>
    have hboth : ∀ u ∈ host.tasks, u.pgid = t.pgid → u.sid = t.sid := by
      intro u hu he
      obtain ⟨p, hp, hg, hsid, -⟩ := hlike u hu (.inl he)
      rw [hsid]
      exact h.group u hu p hp (he.trans hg)
    exact forall_add h.group (fun u hu => ⟨hboth u hu, fun he => (hboth u hu he.symm).symm⟩) fun _ => rfl
  case session =>
    have hboth : ∀ u ∈ host.tasks, u.sid = t.sid → u.job = t.job := by
      intro u hu he
      obtain ⟨p, hp, -, hsid, hj⟩ := hlike u hu (.inr (.inl he))
      rw [hj]
      exact h.session u hu p hp (he.trans hsid)
    exact forall_add h.session (fun u hu => ⟨hboth u hu, fun he => (hboth u hu he.symm).symm⟩) fun _ => rfl
  case named =>
    refine forall_add h.named (fun u hu => ⟨fun he => ?_, fun he => ?_⟩) fun _ => rfl
    · obtain ⟨p, hp, hg, hsid, hj⟩ := hlike u hu (by rcases he with he | he <;> simp [he])
      rw [hj]
      exact h.named u hu p hp (by rwa [← hg, ← hsid])
    · exact absurd he fun hor => hor.elim (hnew u hu).2.2 (hnew u hu).2.1
  case led =>
    refine forall_add h.led (fun u hu => ⟨fun he => ?_, fun he => absurd he (hnew u hu).2.1⟩) fun _ => rfl
    obtain ⟨p, hp, hg, hsid, -⟩ := hlike u hu (by simp [he])
    rw [hsid]
    exact h.led u hu p hp (hg ▸ he)
  case spawned =>
    intro u hu hsp
    rcases mem_add.mp hu with hu | rfl
    · exact h.spawned u hu hsp
    · exact hs hsp

/-- Who goes has no children. -/
theorem Sound.remove (h : Sound launchd top host) (hz : z ∈ host.tasks) (hd : z.zombie = true) :
    Sound launchd top (host.remove z.pid) := by
  have hmem : ∀ u, u ∈ (host.remove z.pid).tasks ↔ u ∈ host.tasks ∧ u.pid ≠ z.pid := fun u => by simp [Host.remove]
  have hin : ∀ u ∈ (host.remove z.pid).tasks, u ∈ host.tasks := fun u hu => ((hmem u).mp hu).1
  refine ⟨fun t ht u hu => h.unique t (hin t ht) u (hin u hu), fun t ht u hu => h.once t (hin t ht) u (hin u hu),
    fun t ht => h.born t (hin t ht), fun t ht => h.outside t (hin t ht), fun t ht => ?_,
    fun t ht u hu => h.group t (hin t ht) u (hin u hu), fun t ht u hu => h.session t (hin t ht) u (hin u hu),
    fun t ht u hu => h.named t (hin t ht) u (hin u hu), fun t ht u hu => h.led t (hin t ht) u (hin u hu),
    fun t ht => h.spawned t (hin t ht)⟩
  refine (h.parent t (hin t ht)).imp_right fun hor => hor.imp_right fun hex => ?_
  obtain ⟨q, hq, hpid, hlive, hborn⟩ := hex
  refine ⟨q, (hmem q).mpr ⟨hq, fun he => ?_⟩, hpid, hlive, hborn⟩
  rw [h.unique q hq z hz he, hd] at hlive
  cases hlive

/-- The children of who ends go to one that lives and is older. -/
theorem Sound.orphan (h : Sound launchd top host) (hp : p ∈ host.tasks) :
    Sound launchd top (host.orphan p.pid (host.heir top host.tasks.length p.parent)) := by
  have hnext := h.heir host.tasks.length p.parent fun q hq =>
    h.older (Host.find_some hq).1 hp (Host.find_some hq).2.symm
  generalize host.heir top host.tasks.length p.parent = heir at hnext
  obtain ⟨f, hf⟩ : ∃ f : Task → Task, f = fun t => if t.pid = p.pid then { t with zombie := true }
    else if t.parent = p.pid then { t with parent := heir } else t := ⟨_, rfl⟩
  have hstays : ∀ t : Task, (f t).pid = t.pid ∧ (f t).pgid = t.pgid ∧ (f t).sid = t.sid ∧ (f t).job = t.job ∧
      (f t).spawned = t.spawned ∧ (f t).born = t.born := by
    intro t
    rw [hf]
    dsimp only
    split
    · exact ⟨rfl, rfl, rfl, rfl, rfl, rfl⟩
    · split
      · exact ⟨rfl, rfl, rfl, rfl, rfl, rfl⟩
      · exact ⟨rfl, rfl, rfl, rfl, rfl, rfl⟩
  have hparent : ∀ t ∈ host.tasks, (t.parent = p.pid ∧ (f t).parent = heir) ∨ (t.parent ≠ p.pid ∧ (f t).parent = t.parent) := by
    intro t ht
    rw [hf]
    dsimp only
    by_cases hc : t.parent = p.pid
    · -- nobody is its own parent
      have hne : t.pid ≠ p.pid := fun he => by
        have hlt := h.older hp ht hc
        rw [h.unique t ht p hp he] at hlt
        exact absurd hlt (lt_irrefl _)
      rw [if_neg hne, if_pos hc]
      exact .inl ⟨hc, rfl⟩
    · refine .inr ⟨hc, ?_⟩
      split
      · rfl
      · rfl
  have hlive : ∀ q ∈ host.tasks, q.zombie = false → q.pid ≠ p.pid → (f q).zombie = false := by
    intro q hq hz hne
    rw [hf]
    dsimp only
    rw [if_neg hne]
    split
    · exact hz
    · exact hz
  have hrewritten : Sound launchd top { host with tasks := host.tasks.map f } := by
    refine h.rewrite (fun t ht => ?_) (fun t ht => ?_) (fun t ht u hu => ?_) (fun t ht u hu => ?_) (fun t ht u hu => ?_)
      (fun t ht u hu => ?_) fun t ht hs => ?_
    · obtain ⟨hpid, -, -, hjob, hspawned, hborn⟩ := hstays t
      exact ⟨hpid, hjob, hspawned, hborn⟩
    · rcases hparent t ht with ⟨hchild, hpar⟩ | ⟨hother, hpar⟩
      · rw [hpar]
        refine .inr (hnext.imp_right fun hex => ?_)
        obtain ⟨q, hq, hqp, hqz, hqb⟩ := hex
        have hne : q.pid ≠ p.pid := fun he => by
          rw [h.unique q hq p hp he] at hqb
          exact absurd hqb (lt_irrefl _)
        exact ⟨q, hq, hqp, hlive q hq hqz hne, hqb.trans (h.older hp ht hchild)⟩
      · rw [hpar]
        refine (h.parent t ht).imp_right fun hor => hor.imp_right fun hex => ?_
        obtain ⟨q, hq, hqp, hqz, hqb⟩ := hex
        exact ⟨q, hq, hqp, hlive q hq hqz fun he => hother (hqp.symm.trans he), hqb⟩
    · rw [(hstays t).2.1, (hstays u).2.1, (hstays t).2.2.1, (hstays u).2.2.1]
      exact h.group t ht u hu
    · rw [(hstays t).2.2.1, (hstays u).2.2.1]
      exact h.session t ht u hu
    · rw [(hstays u).2.1, (hstays u).2.2.1]
      exact h.named t ht u hu
    · rw [(hstays u).2.1, (hstays u).2.2.1, (hstays t).2.2.1]
      exact h.led t ht u hu
    · obtain ⟨hlaunchd, hown⟩ := h.spawned t ht hs
      rw [(hstays t).2.1, (hstays t).2.2.1]
      refine ⟨?_, hown⟩
      rcases hparent t ht with ⟨hchild, -⟩ | ⟨-, hpar⟩
      · exact absurd (hchild.symm.trans hlaunchd) (h.outside p hp).1
      · exact hpar.trans hlaunchd
  rw [hf] at hrewritten
  exact hrewritten

theorem mem_edit {f : Task → Task} (h : Sound launchd top host) (hp : p ∈ host.tasks) :
    u ∈ (host.edit p.pid f).tasks ↔ u = f p ∨ u ∈ host.tasks ∧ u ≠ p := by
  unfold Host.edit
  rw [List.mem_map]
  constructor
  · intro hex
    obtain ⟨t, ht, rfl⟩ := hex
    by_cases he : t.pid = p.pid
    · rw [if_pos he, h.unique t ht p hp he]
      exact .inl rfl
    · rw [if_neg he]
      exact .inr ⟨ht, fun hc => he (congrArg Task.pid hc)⟩
  · intro hor
    rcases hor with rfl | ⟨hu, hne⟩
    · exact ⟨p, hp, if_pos rfl⟩
    · exact ⟨u, hu, if_neg fun he => hne (h.unique u hu p hp he)⟩

/-- A process gets a group, and perhaps a session. -/
theorem Sound.regroup {pgid sid : Int} (h : Sound launchd top host) (hp : p ∈ host.tasks)
    (hgroup : ∀ u ∈ host.tasks, u ≠ p → u.pgid = pgid → u.sid = sid ∧ u.job = p.job)
    (hsession : ∀ u ∈ host.tasks, u ≠ p → u.sid = sid → u.job = p.job)
    (hnumber : ∀ u ∈ host.tasks, u.pid = pgid ∨ u.pid = sid → u.job = p.job)
    (hled : ∀ u ∈ host.tasks, u ≠ p → (u.pid = pgid → u.sid = sid) ∧ (u.pgid = p.pid → u.sid = sid))
    (hspawned : p.spawned = true → pgid = p.pid ∧ sid = p.pid) :
    Sound launchd top (host.edit p.pid fun t => { t with pgid, sid }) := by
  have hself : ∀ t ∈ host.tasks, t.pid = p.pid → t = p := fun t ht he => h.unique t ht p hp he
  refine h.map (f := fun t => if t.pid = p.pid then { t with pgid, sid } else t) ?_ ?_ ?_ ?_ ?_ ?_
  · intro t ht
    split
    · exact ⟨rfl, rfl, rfl, rfl, rfl, rfl⟩
    · exact ⟨rfl, rfl, rfl, rfl, rfl, rfl⟩
  · intro t ht u hu
    by_cases het : t.pid = p.pid
    · by_cases heu : u.pid = p.pid
      · rw [if_pos het, if_pos heu]
        exact fun _ => rfl
      · rw [if_pos het, if_neg heu]
        exact fun he => (hgroup u hu (fun hc => heu (congrArg Task.pid hc)) he.symm).1.symm
    · by_cases heu : u.pid = p.pid
      · rw [if_neg het, if_pos heu]
        exact fun he => (hgroup t ht (fun hc => het (congrArg Task.pid hc)) he).1
      · rw [if_neg het, if_neg heu]
        exact h.group t ht u hu
  · intro t ht u hu
    by_cases het : t.pid = p.pid
    · by_cases heu : u.pid = p.pid
      · rw [hself t ht het, hself u hu heu]
        exact fun _ => rfl
      · rw [if_pos het, if_neg heu, hself t ht het]
        exact fun he => (hsession u hu (fun hc => heu (congrArg Task.pid hc)) he.symm).symm
    · by_cases heu : u.pid = p.pid
      · rw [if_neg het, if_pos heu, hself u hu heu]
        exact fun he => hsession t ht (fun hc => het (congrArg Task.pid hc)) he
      · rw [if_neg het, if_neg heu]
        exact h.session t ht u hu
  · intro t ht u hu
    by_cases heu : u.pid = p.pid
    · rw [if_pos heu, hself u hu heu]
      exact fun hor => (hnumber t ht (hor.symm.imp Eq.symm Eq.symm)).symm
    · rw [if_neg heu]
      exact h.named t ht u hu
  · intro t ht u hu
    by_cases heu : u.pid = p.pid
    · by_cases het : t.pid = p.pid
      · rw [if_pos heu, if_pos het]
        exact fun _ => rfl
      · rw [if_pos heu, if_neg het]
        exact fun he => ((hled t ht fun hc => het (congrArg Task.pid hc)).1 he.symm).symm
    · by_cases het : t.pid = p.pid
      · rw [if_neg heu, if_pos het, het]
        exact (hled u hu fun hc => heu (congrArg Task.pid hc)).2
      · rw [if_neg heu, if_neg het]
        exact h.led t ht u hu
  · intro t ht hs
    by_cases het : t.pid = p.pid
    · rw [if_pos het, het]
      exact hspawned (hself t ht het ▸ hs)
    · rw [if_neg het]
      exact (h.spawned t ht hs).2

theorem Sound.next (h : Sound launchd top host) (hc : Changes launchd top host m host') : Sound launchd top host' := by
  cases hc with
  | add t hout hb hfree hzombie hcomes hs =>
    refine h.add hb hfree hzombie hcomes fun hsp => ?_
    rcases hcomes with hcomes | ⟨hno, -⟩
    · exact hcomes
    · rw [hsp] at hno
      cases hno
  | setsid p hp hzombie hkilled hlead =>
    refine h.regroup hp (fun u hu _ he => absurd he (hlead u hu)) (fun u hu _ he => h.named p hp u hu (.inl he))
      (fun u hu hor => by rw [h.unique u hu p hp (hor.elim id id)]) (fun u hu hne => ⟨fun he => ?_, fun he => ?_⟩)
      fun _ => ⟨rfl, rfl⟩
    · exact absurd (h.unique u hu p hp he) hne
    · exact absurd he (hlead u hu)
  | setpgid c p pgid hcm hzombie hkilled hp hsid hled hto =>
    have hsame : (fun t : Task => { t with pgid }) p = (fun t : Task => { t with pgid, sid := p.sid }) p := rfl
    have hedit : host.edit p.pid (fun t => { t with pgid }) = host.edit p.pid fun t => { t with pgid, sid := p.sid } := by
      unfold Host.edit
      congr 1
      refine List.map_congr_left fun t ht => ?_
      by_cases he : t.pid = p.pid
      · rw [if_pos he, if_pos he, h.unique t ht p hp he]
      · rw [if_neg he, if_neg he]
    rw [hedit]
    have hgroup : ∀ u ∈ host.tasks, u.pgid = pgid → u.sid = p.sid := by
      intro u hu he
      rcases hto with rfl | ⟨q, hq, hqg, hqs⟩
      · exact h.led p hp u hu he
      · exact (h.group u hu q hq (he.trans hqg.symm)).trans hqs
    refine h.regroup hp (fun u hu _ he => ⟨hgroup u hu he, h.session u hu p hp (hgroup u hu he)⟩)
      (fun u hu _ he => h.session u hu p hp he) (fun u hu hor => ?_) (fun u hu hne => ⟨fun he => ?_, fun he => ?_⟩)
      fun hs => ?_
    · rcases hor with he | he
      · rcases hto with rfl | ⟨q, hq, hqg, hqs⟩
        · rw [h.unique u hu p hp he]
        · exact (h.named u hu q hq (.inr (hqg.trans he.symm))).symm.trans (h.session q hq p hp hqs)
      · exact (h.named u hu p hp (.inl he.symm)).symm
    · rcases hto with rfl | ⟨q, hq, hqg, hqs⟩
      · exact absurd (h.unique u hu p hp he) hne
      · exact (h.led u hu q hq (hqg.trans he.symm)).symm.trans hqs
    · exact h.led p hp u hu he
    · exact absurd (h.spawned p hp hs).2.2 hled
  | alter p subreaper foreign hp hzombie hkilled =>
    refine h.mark fun t ht => ?_
    split
    · exact ⟨⟨rfl, rfl, rfl, rfl, rfl, rfl⟩, rfl, rfl⟩
    · exact ⟨⟨rfl, rfl, rfl, rfl, rfl, rfl⟩, rfl, rfl⟩
  | die p hp hzombie => exact h.orphan hp
  | collect z hz hd hfree => exact h.remove hz hd
  | vanish z hz hd hparent => exact h.remove hz hd
  | call pgid hfree => exact h.same rfl rfl
  | killpg pgid hs =>
    have hmark : Sound launchd top (host.signal pgid) := by
      refine h.mark fun t ht => ?_
      split
      · exact ⟨⟨rfl, rfl, rfl, rfl, rfl, rfl⟩, rfl, rfl⟩
      · exact ⟨⟨rfl, rfl, rfl, rfl, rfl, rfl⟩, rfl, rfl⟩
    exact hmark.same rfl rfl
  | reap z hz hd hparent hs =>
    have hless := h.remove hz hd
    exact hless.same rfl rfl
  | echild pgid hs hnone => exact h.same rfl rfl
  | fail pgid hs => exact h.same rfl rfl

theorem sound (h : host.Reachable launchd top) : Sound launchd top host := by
  refine h.invariant (fun host hi => ?_) fun host m host' h hs => h.next (step_cases hs)
  rw [show host = {} from hi]
  exact ⟨by simp, by simp, by simp, by simp, by simp, by simp, by simp, by simp, by simp, by simp⟩

/-! ## One job -/

def Stage.group : Stage → Option Int
  | .killing pgid | .waiting pgid => some pgid
  | .idle | .returned _ _ => none

/-- As long as a process of the job is in the group, no call of the loop changes a process of another job. -/
theorem one_job (h : host.Reachable launchd top) (ht : t ∈ host.tasks) (hg : host.stage.group = some t.pgid)
    (hs : host.loop launchd m = some host') (hu : u ∈ host.tasks) (hj : u.job ≠ t.job) : u ∈ host'.tasks := by
  have hsound := sound h
  have hout : u.pgid ≠ t.pgid := fun he => hj (hsound.session u hu t ht (hsound.group u hu t ht he))
  have hchanges := @loop_cases launchd top host host' m hs
  cases hchanges with
  | killpg pgid hstage =>
    rw [hstage] at hg
    obtain rfl : pgid = t.pgid := by simpa [Stage.group] using hg
    exact List.mem_map.mpr ⟨u, hu, if_neg fun hboth => hout hboth.1⟩
  | reap z hz hd hparent hstage =>
    rw [hstage] at hg
    have hzg : z.pgid = t.pgid := by simpa [Stage.group] using hg
    refine List.mem_filter.mpr ⟨hu, ?_⟩
    simp only [ne_eq, decide_not, Bool.not_eq_true', decide_eq_false_iff_not]
    intro he
    exact hout (by rw [hsound.unique u hu z hz he, hzg])
  | echild | fail | call => exact hu
  | add => exact List.mem_append_left _ hu
  | setsid | setpgid | alter | die | collect | vanish => cases hs

def playedBy (moves : List Move) : Host := (play (Host.step 1 1) {} moves).getD {}

theorem playedBy_reachable {moves : List Move} (h : (play (Host.step 1 1) {} moves).isSome) :
    (playedBy moves).Reachable 1 1 := by
  obtain ⟨host, hplay⟩ := Option.isSome_iff_exists.mp h
  have hone : playedBy moves = host := by rw [playedBy, hplay, Option.getD_some]
  rw [hone]
  have hinit : Reach Host.Init (Host.Next 1 1) {} := .init rfl
  exact hinit.later (steps_of_play hplay).later

def twoJobs : Host := playedBy [.spawn 10 0, .spawn 20 1, .fork 20 21, .call 10]

theorem one_job_two : ∃ host', twoJobs.loop 1 .killpg = some host' ∧
    (∃ t ∈ host'.tasks, t.killed = true) ∧ ∀ u ∈ twoJobs.tasks, u.job = 1 → u ∈ host'.tasks := by
  have hleader : ∃ t ∈ twoJobs.tasks, twoJobs.stage.group = some t.pgid ∧ t.job = 0 := by decide +kernel
  have hkill : (twoJobs.loop 1 .killpg).any fun host' => host'.tasks.any (·.killed) := by decide +kernel
  obtain ⟨t, ht, hg, hj⟩ := hleader
  obtain ⟨host', hs, hany⟩ := (Option.any_eq_true ..).mp hkill
  refine ⟨host', hs, by simpa using hany, fun u hu hju => ?_⟩
  exact @one_job 1 1 _ _ _ _ _ (playedBy_reachable (by decide +kernel)) ht hg hs hu (by rw [hju, hj]; decide)

end ProcessTree

end Relaunchd
