/-
  Relaunchd.Properties.Booting — what the manager stores, and the loop that boots the pending
  jobs.

  The loop moves a job out of `pending_jobs` before it boots it, and clears the map when it
  is done. A Bootstrap that throws leaves the map as it is, with a null pointer under a key
  that `jobs` has too, and the next load dies of it. No other step does this.
-/

import Relaunchd.Failures
import Relaunchd.Refinement.Endings
import Relaunchd.Runs
import Relaunchd.Writes

namespace Relaunchd

open Prog EventManager Tables Transition

variable {s s' : Sys} {e : Ev} {label : String}

/-! ## What is stored -/

/-- No label is in both maps, and each stored pointer is to a job whose manifest has the label. -/
structure WellStored (s : Sys) : Prop where
  apart : ∀ label, label ∈ s.jobs → label ∉ s.pendingJobs
  jobs : ∀ label r, s.jobs.lookup label = some r → ∃ j, s.heap r = some j ∧ j.manifest.label = label
  pendingJobs : ∀ label p, s.pendingJobs.lookup label = some p →
    ∃ r j, p = some r ∧ s.heap r = some j ∧ j.manifest.label = label

/-- The part of it that only booting jobs can end. -/
structure Apart (s : Sys) : Prop where
  keys : ∀ label, label ∈ s.jobs → label ∉ s.pendingJobs
  pointers : ∀ label, s.pendingJobs.lookup label ≠ some none

theorem Apart.of_empty (h : s.pendingJobs = ∅) : Apart s :=
  ⟨fun label _ hm => by rw [h] at hm; exact absurd hm (AList.notMem_empty label), fun label hn => by rw [h] at hn; cases hn⟩

theorem Apart.of_eq (h : Apart s) (hj : s'.jobs = s.jobs) (hp : s'.pendingJobs = s.pendingJobs) : Apart s' :=
  ⟨by rw [hj, hp]; exact h.keys, by rw [hp]; exact h.pointers⟩

def NoBoot (effect : Effect) : Prop := effect ≠ .boot

theorem Write.apart (h : Write NoBoot s s') (ha : Apart s) : Apart s' := by
  cases h with
  | creates manifest path hj hp _ =>
    refine ⟨fun label hm hn => ?_, fun label hn => ?_⟩
    · have hlook : ((insertNew manifest.label (some s.nextRef) s.pendingJobs).lookup label).isSome := AList.lookup_isSome.mpr hn
      rw [lookup_insertNew] at hlook
      split at hlook
      · rename_i heq
        exact AList.lookup_eq_none.mp hj (heq ▸ hm)
      · exact ha.keys label hm (AList.lookup_isSome.mp hlook)
    · rw [lookup_insertNew] at hn
      split at hn
      · rw [hp] at hn
        cases hn
      · exact ha.pointers label hn
  | boots l r hb | booted hb => exact absurd rfl hb
  | deletes l =>
    refine ⟨fun label hm => ha.keys label ?_, ha.pointers⟩
    exact (AList.mem_erase.mp hm).2
  | clears => exact ⟨fun label hm => absurd hm (AList.notMem_empty label), ha.pointers⟩
  | answers | time | kernel | kills | forks | fades | dispatches | eventmgr | job | records | destroys | overrides | manager | replies =>
    exact ha.of_eq rfl rfl

theorem Writes.apart (h : Writes NoBoot s s') (ha : Apart s) : Apart s' := h.keeps (fun _ _ hw => hw.apart) ha

def PendingLookUp (s : Sys) : Prop := ∀ label, label ∈ s.pendingJobs → LooksUp label s.stateFile

theorem Write.pendingLookUp {may : Effect → Prop} (h : Write may s s') (hl : PendingLookUp s) : PendingLookUp s' := by
  cases h with
  | creates manifest path _ _ hd =>
    intro label hm
    have hlook : ((insertNew manifest.label (some s.nextRef) s.pendingJobs).lookup label).isSome := AList.lookup_isSome.mpr hm
    rw [lookup_insertNew] at hlook
    split at hlook
    · rename_i heq
      subst heq
      exact overrideDisables_ok.mp hd
    · exact hl label (AList.lookup_isSome.mp hlook)
  | boots l r _ _ hp =>
    intro label hm
    rcases AList.mem_insert _ |>.mp hm with rfl | hm
    · exact hl _ (AList.lookup_isSome.mp (by rw [hp]; rfl))
    · exact hl _ hm
  | booted => exact fun label hm => absurd hm (AList.notMem_empty label)
  | overrides l enabled doc _ hdoc => exact fun label hm => (hl label hm).overridden hdoc
  | answers | time | kernel | kills | forks | fades | dispatches | eventmgr | job | records | destroys | deletes | clears |
    manager | replies => exact hl

/-! ## The loop, and what it can die of -/

def LoopText (w : String) : Prop := w = "assert(false)" ∨ w = "null pointer"

theorem ends_of_fails {α : Type} {x : M α} {texts : List String} {Q : α → Sys → Prop} {E : Sys → Prop} (h : FailsIn texts x)
    (ht : "assert(false)" ∉ texts ∧ "null pointer" ∉ texts) (hx : wp x Q E s) : ends (fun w => ¬ LoopText w) x Q E s := by
  refine ends_iff.mpr ⟨hx, fun w hw hloop => ?_⟩
  have hmem : w ∈ texts := h s w (congrArg failure? hw)
  rcases hloop with rfl | rfl
  · exact ht.1 hmem
  · exact ht.2 hmem

def Ahead (order : List String) (s : Sys) : Prop :=
  ∀ label ∈ order, label ∉ s.jobs ∧ ∃ r, s.pendingJobs.lookup label = some (some r)

theorem Write.ahead {order : List String} (h : Write NoBoot s s') (ha : Ahead order s) : Ahead order s' := by
  cases h with
  | creates manifest path _ _ _ =>
    intro label hm
    obtain ⟨hn, r, hr⟩ := ha label hm
    exact ⟨hn, r, lookup_insertNew_some hr⟩
  | boots l r hb | booted hb => exact absurd rfl hb
  | deletes l =>
    intro label hm
    obtain ⟨hn, hr⟩ := ha label hm
    exact ⟨fun hl => hn (AList.mem_erase.mp hl).2, hr⟩
  | clears => exact fun label hm => ⟨AList.notMem_empty label, (ha label hm).2⟩
  | answers | time | kernel | kills | forks | fades | dispatches | eventmgr | job | records | destroys | overrides | manager | replies =>
    exact fun label hm => ha label hm

theorem startPending_ends {order : List String} (h : Ahead (label :: order) s) (hn : (label :: order).Nodup) :
    ends (fun w => ¬ LoopText w) (Manager.startPending label) (fun _ => Ahead order) (fun _ => True) s := by
  obtain ⟨hfree, r, hr⟩ := h label List.mem_cons_self
  have hnone : ¬ (s.jobs.lookup label).isSome := by rwa [AList.lookup_isSome]
  rw [Manager.startPending, ends_bind, ends_get, ends_ite, if_neg hnone, hr]
  dsimp only
  rw [ends_bind, ends_modify]
  have hmoved : Ahead order { s with jobs := s.jobs.insert label r, pendingJobs := s.pendingJobs.insert label none } := by
    intro l hl
    have hne : l ≠ label := fun e => (List.nodup_cons.mp hn).1 (e ▸ hl)
    obtain ⟨hfree', r', hr'⟩ := h l (List.mem_cons_of_mem _ hl)
    exact ⟨fun hm => hfree' ((AList.mem_insert _).mp hm |>.resolve_left hne), r', by rw [AList.lookup_insert_ne hne, hr']⟩
  have hfails : FailsIn Job.failures (do
      Manager.markBootstrap r
      Job.execute r .bootstrap) :=
    .bind (.bind (Fails.reads r) fun _ => .bind .get fun _ => Fails.sets _ _) fun _ => Fails.executeNested 2 _ _
  have htraced : Traced NoBoot (do
      Manager.markBootstrap r
      Job.execute r .bootstrap) :=
    (Traced.bind (.derefs _) fun _ => Traced.readsAll.bind fun _ => .sets _ _ (by intro; rfl) (by intro; rfl) (by intro; rfl)).bind fun _ =>
      .executeNested 2 _ _
  exact ends_of_fails hfails (by decide) (wp_mono (htraced _ trivial) (fun _ _ hw => hw.keeps (fun _ _ hw => hw.ahead) hmoved)
    fun _ _ => trivial)

theorem startEach_ends {order : List String} (h : Ahead order s) (hn : order.Nodup) :
    ends (fun w => ¬ LoopText w) (forEach Manager.startPending order) (fun _ _ => True) (fun _ => True) s := by
  induction order generalizing s with
  | nil => trivial
  | cons label rest ih =>
    rw [forEach, ends_bind]
    exact ends_mono (startPending_ends h hn) (fun _ => id) (fun _ _ h' => ih h' (List.nodup_cons.mp hn).2) fun _ => id

/-- Each pending label is ahead, whatever the order. -/
theorem Apart.ahead {order : List String} (h : Apart s) (hp : order.Perm s.pendingJobs.keys) : Ahead order s ∧ order.Nodup := by
  refine ⟨fun label hm => ?_, hp.nodup_iff.mpr s.pendingJobs.nodupKeys⟩
  have hpend : label ∈ s.pendingJobs := hp.mem_iff.mp hm
  refine ⟨fun hj => h.keys label hj hpend, ?_⟩
  obtain ⟨p, hlook⟩ := Option.isSome_iff_exists.mp (AList.lookup_isSome.mpr hpend)
  cases p with
  | none => exact absurd hlook (h.pointers label)
  | some r => exact ⟨r, hlook⟩

/-- From a state where the maps are apart the loop dies of no job that is booted already. -/
theorem startAllJobs_ends (h : Apart s) :
    ends (fun w => ¬ LoopText w) Manager.startAllJobs (fun _ s' => s'.pendingJobs = ∅) (fun _ => True) s := by
  have hfails : FailsIn [] (visiting s.pendingJobs.keys) := Fails.visits _
  have hvisit : ends (fun w => ¬ LoopText w) (visiting s.pendingJobs.keys)
      (fun order s' => order.Perm s.pendingJobs.keys ∧ s'.jobs = s.jobs ∧ s'.pendingJobs = s.pendingJobs) (fun _ => True) s :=
    ends_of_fails hfails ⟨nofun, nofun⟩
      (wp_mono visiting_spec (fun _ _ hv => ⟨hv.1, hv.2.keeps.jobs, hv.2.keeps.pendingJobs⟩) fun _ => id)
  rw [Manager.startAllJobs, ends_bind, ends_get, ends_bind]
  refine ends_mono hvisit (fun _ => id) ?_ fun _ => id
  intro order s₁ h'
  obtain ⟨hperm, hj, hp⟩ := h'
  obtain ⟨hahead, hnodup⟩ := (h.of_eq hj hp).ahead (hp ▸ hperm)
  rw [ends_bind]
  exact ends_mono (startEach_ends hahead hnodup) (fun _ => id) (fun _ _ _ => rfl) fun _ => id

/-! ## The loop, and what it can throw -/

structure Bootable (s : Sys) : Prop where
  inv : s.tables.Inv none
  calm : s.kernel.answers.Calm
  looksUp : PendingLookUp s
  decoded : ∀ r j, s.heap r = some j → j.manifest.Decoded

/-- An interval in milliseconds is a valid time. -/
theorem periodic_valid {interval : Nat} (h : interval < 2 ^ 32) : 0 ≤ (timespecOf interval).1 := by
  have hmod : (interval : Int) % 2 ^ 64 = interval := Int.emod_eq_of_lt (by omega) (by omega)
  simp only [timespecOf, hmod]
  rw [Int.bmod_eq_of_le (by omega) (by omega)]
  omega

/-- A request leaves the jobs with the manifests they had, and creates jobs with legal ones. -/
theorem Does.decoded {q : Request} (h : Does q s s') (hd : ∀ r j, s.heap r = some j → j.manifest.Decoded) :
    ∀ r j, s'.heap r = some j → j.manifest.Decoded := by
  intro r j hj
  refine (h.fates r).alive (Q := fun l => l.manifest.Decoded) (fun _ hm => hm) (fun l a hl _ _ => ?_) (fun l hl => ?_) _ (fate_alive hj)
  · rw [(l.next_fixed a).1]
    exact hl
  · obtain ⟨j', hj', rfl⟩ := fate_eq_alive hl
    exact hd r j' hj'

theorem startPending_calm (h : Bootable s) : wp (Manager.startPending label) (fun _ => Bootable) (fun _ => False) s := by
  have hspec := startPending_spec h.inv label
  have htraced : Traced anyEffect (Manager.startPending label) := Traced.startPending trivial label
  have hcalm : wp (Manager.startPending label) (fun _ _ => True) (fun _ => False) s := by
    rw [Manager.startPending, wp_bind, wp_get, wp_ite]
    split
    · trivial
    split
    · rename_i r hr
      obtain ⟨j, hj, hjl, hjb⟩ := h.inv.owned.pended label r hr
      have hfresh := lifeOf_fresh h.inv hj hjb
      have hstate : j.state = .loaded := congrArg Life.state hfresh
      have htimer : j.timerId = none := Option.not_isSome_iff_eq_none.mp (by
        rw [show j.timerId.isSome = false from congrArg (·.timerSet) hfresh]
        simp)
      have hpend : label ∈ s.pendingJobs := AList.lookup_isSome.mp (by rw [hr]; rfl)
      have hlook : ∃ disabled, Job.disabledIn j.manifest s.stateFile = .ok disabled :=
        disabledIn_ok.mpr (show LooksUp j.manifest.label s.stateFile from (show j.manifest.label = label from hjl) ▸ h.looksUp label hpend)
      rw [wp_bind, wp_modify, wp_bind, Manager.markBootstrap, wp_bind, wp_this (j := j) (by exact hj), wp_bind, wp_get, wp_setJob]
      refine (ends_iff (C := fun _ => True).mp ?_).1
      exact bootstrap_ends (Sys.updateJob_self (by exact hj)) hstate htimer (fun _ _ => .inr ⟨trivial, trivial⟩)
        (.inr ⟨h.calm, hlook, fun interval hi => periodic_valid ((h.decoded r j hj).bounded.startInterval interval hi)⟩)
    · trivial
  refine wp_mono (wp_and (wp_and hspec (htraced s trivial)) hcalm) ?_ fun _ hf => hf.2
  intro _ s₁ h'
  obtain ⟨⟨⟨hdoes, -⟩, hwrites⟩, -⟩ := h'
  exact ⟨hdoes.inv, h.calm.left hdoes.answers, hwrites.keeps (fun _ _ hw => hw.pendingLookUp) h.looksUp, hdoes.decoded h.decoded⟩

theorem Bootable.of_took (h : Bootable s) (ht : Took s s') : Bootable s' where
  inv := ht.tables ▸ h.inv
  calm := h.calm.left ht.keeps.answers
  looksUp := fun label hm => by
    rw [show s'.stateFile = s.stateFile from ht.keeps.stateFile]
    exact h.looksUp label (by rwa [← show s'.pendingJobs = s.pendingJobs from ht.keeps.pendingJobs])
  decoded := fun r j hj => h.decoded r j (by rwa [← show s'.heap = s.heap from congrArg Tables.heap ht.tables])

/-- Where no system call fails, the loop comes to its end. -/
theorem startAllJobs_calm (h : Bootable s) : wp Manager.startAllJobs (fun _ s' => s'.pendingJobs = ∅) (fun _ => False) s := by
  rw [Manager.startAllJobs, wp_bind, wp_get, wp_bind]
  refine wp_mono visiting_spec ?_ fun _ => id
  intro order s₁ h'
  obtain ⟨-, htook⟩ := h'
  have hloop : wp (forEach Manager.startPending order) (fun _ => Bootable) (fun _ => False) s₁ :=
    wp_forEach (h.of_took htook) fun label _ s hs => startPending_calm hs
  rw [wp_bind]
  exact wp_mono hloop (fun _ _ _ => rfl) fun _ => id

/-! ## Requests and the start -/

section Requests

variable {files : String → Node}

structure Primed (files : String → Node) (s : Sys) : Prop where
  serving : Serving .running files s
  bootable : Bootable s

/-- Loading keeps it, whether it returns or throws. -/
theorem Primed.loads {α : Type} {x : M α} {may : Effect → Prop} (h : Primed files s) (hx : Serves .running files .load x)
    (ht : Traced may x) : wp x (fun _ => Primed files) (Primed files) s := by
  have hprimed : ∀ s', Does .load s s' ∧ Writes may s s' → Primed files s' := by
    intro s' h'
    obtain ⟨hd, hw⟩ := h'
    exact ⟨hd.serving h.serving, ⟨hd.inv, h.bootable.calm.left hd.answers,
      hw.keeps (fun _ _ hw => hw.pendingLookUp) h.bootable.looksUp, hd.decoded h.bootable.decoded⟩⟩
  exact wp_mono (wp_and (hx s h.serving) (ht s trivial)) (fun _ => hprimed) hprimed

structure Ready (files : String → Node) (s : Sys) : Prop extends Primed files s where
  apart : Apart s

theorem Ready.loads {α : Type} {x : M α} (h : Ready files s) (hx : Serves .running files .load x) (ht : Traced NoBoot x) :
    wp x (fun _ => Ready files) (Ready files) s :=
  wp_mono (wp_and (h.toPrimed.loads hx ht) (ht s trivial)) (fun _ _ h' => ⟨h'.1, h'.2.apart h.apart⟩)
    fun _ h' => ⟨h'.1, h'.2.apart h.apart⟩

theorem Ready.startLoaded (h : Ready files s) : wp Manager.startLoaded (fun _ => Apart) (fun _ => False) s := by
  rw [wp_congr (startLoaded_eq h.serving.state), wp_ite]
  split
  · exact h.apart
  · rw [wp_bind]
    exact wp_mono (startAllJobs_calm h.bootable) (fun _ s' he => .of_empty he) fun _ => id

/-- The handlers of the requests that boot jobs. -/
theorem boots_handler {message : Json} {handler : Json → M Json} (hh : Rpc.handlerFor message = .ok handler)
    (hb : Rpc.Boots message) : handler = Rpc.opLoad ∨ handler = Rpc.opSubmit := by
  obtain ⟨method, hmem, hmethod⟩ := Rpc.of_handler hh
  obtain ⟨method', hmethod', hm⟩ := hb
  obtain rfl : method = method' := Except.ok.inj (hmethod.symm.trans hmethod')
  simp only [Rpc.handlers, List.mem_cons, Prod.mk.injEq, List.not_mem_nil, or_false] at hmem
  rcases hm with rfl | rfl
  · exact .inl (by simpa using hmem)
  · exact .inr (by simpa using hmem)

/-- Reading an argument changes nothing. -/
theorem Ready.decodes {α β : Type} {d : Decode α} {f : α → M β} (h : Ready files s)
    (hf : ∀ a, wp (f a) (fun _ => Apart) Apart s) : wp (ofDecode d >>= f) (fun _ => Apart) Apart s := by
  rw [wp_bind]
  exact wp_ofDecode (fun a _ => hf a) fun _ _ => h.apart

/-- What is loaded is booted. -/
theorem Ready.thenStarts {α : Type} {x : M α} {reply : α → Json} (h : Ready files s) (hx : Serves .running files .load x)
    (ht : Traced NoBoot x) : wp (x >>= fun a => Manager.startLoaded >>= fun _ => return reply a) (fun _ => Apart) Apart s := by
  rw [wp_bind]
  refine wp_mono (h.loads hx ht) (fun a s' hs' => ?_) fun _ hs' => hs'.apart
  rw [wp_bind]
  exact wp_mono hs'.startLoaded (fun _ _ ha => ha) fun _ => False.elim

/-- What a load or a submit leaves. -/
theorem Ready.boots {message : Json} {handler : Json → M Json} (h : Ready files s) (hh : Rpc.handlerFor message = .ok handler)
    (hb : Rpc.Boots message) : wp (handler message) (fun _ => Apart) Apart s := by
  rcases boots_handler hh hb with rfl | rfl
  · rw [Rpc.opLoad]
    refine h.decodes fun forceLoad => h.decodes fun overrideDisabled => h.decodes fun paths => ?_
    exact h.thenStarts (loadPaths_serves _ _ _ _) (.loadPaths (fun _ _ => nofun) _ _ _ _)
  · rw [Rpc.opSubmit]
    exact h.decodes fun doc => h.thenStarts (loadManifestDoc_serves _ _ _ _) (.loadManifestDoc nofun)

/-! ### What they can die of -/

/-- Loading stays clear of the texts, whatever the arguments. -/
theorem decodes_ends {α β : Type} {d : Decode α} {f : α → M β} (hd : FailsIn Manager.failures (ofDecode d))
    (hf : ∀ a, ends (fun w => ¬ LoopText w) (f a) (fun _ _ => True) (fun _ => True) s) :
    ends (fun w => ¬ LoopText w) (ofDecode d >>= f) (fun _ _ => True) (fun _ => True) s := by
  rw [ends_bind]
  exact ends_of_fails hd (by decide) (wp_ofDecode (fun a _ => hf a) fun _ _ => trivial)

theorem startLoaded_ends (hs : s.state = .running) (ha : Apart s) :
    ends (fun w => ¬ LoopText w) Manager.startLoaded (fun _ _ => True) (fun _ => True) s := by
  rw [ends_congr (startLoaded_eq hs), ends_ite]
  split
  · trivial
  · rw [ends_bind]
    exact ends_mono (startAllJobs_ends ha) (fun _ => id) (fun _ _ _ => trivial) fun _ => id

theorem thenStarts_ends {α : Type} {x : M α} {reply : α → Json} (hs : Serving .running files s) (ha : Apart s)
    (hf : FailsIn Manager.failures x) (hx : Serves .running files .load x) (ht : Traced NoBoot x) :
    ends (fun w => ¬ LoopText w) (x >>= fun a => Manager.startLoaded >>= fun _ => return reply a) (fun _ _ => True)
      (fun _ => True) s := by
  rw [ends_bind]
  refine ends_of_fails hf (by decide) (wp_mono (wp_and (hx s hs) (ht s trivial)) (fun a s' hs' => ?_) fun _ _ => trivial)
  rw [ends_bind]
  exact ends_mono (startLoaded_ends (hs'.1.serving hs).state (hs'.2.apart ha)) (fun _ => id) (fun _ _ _ => trivial) fun _ => id

theorem boots_ends {message : Json} {handler : Json → M Json} (hs : Serving .running files s) (ha : Apart s)
    (hh : Rpc.handlerFor message = .ok handler) (hb : Rpc.Boots message) :
    ends (fun w => ¬ LoopText w) (handler message) (fun _ _ => True) (fun _ => True) s := by
  rcases boots_handler hh hb with rfl | rfl
  · rw [Rpc.opLoad]
    refine decodes_ends (Fails.boolArgument _ _) fun forceLoad => decodes_ends (Fails.boolArgument _ _) fun overrideDisabled =>
      decodes_ends (Fails.argument _ _) fun paths => ?_
    exact thenStarts_ends hs ha (Fails.loadPaths _ _ _ _) (loadPaths_serves _ _ _ _) (.loadPaths (fun _ _ => nofun) _ _ _ _)
  · rw [Rpc.opSubmit]
    exact decodes_ends (Fails.constReads (Json.index_faults _ _)) fun doc =>
      thenStarts_ends hs ha (Fails.loadManifestDoc _ _ _ _) (loadManifestDoc_serves _ _ _ _) (.loadManifestDoc nofun)

theorem rpcDispatch_ends {message : Json} (hs : Serving .running files s) (ha : Apart s) (hb : Rpc.Boots message) :
    ends (fun w => ¬ LoopText w) (Rpc.rpcDispatch (some message)) (fun _ _ => True) (fun _ => True) s := by
  refine ends_catch (F := fun _ => True) ?_ fun _ _ _ => trivial
  dsimp only
  rw [ends_bind]
  have hfails : FailsIn Manager.failures (ofDecode (Rpc.handlerFor message)) := Fails.decodes (Rpc.handlerFor_faults message) (by decide)
  refine ends_of_fails hfails (by decide) (wp_ofDecode (fun handler hh => ?_) fun _ _ => trivial)
  rw [ends_bind]
  refine ends_mono (ends_catch (boots_ends hs ha hh hb) fun _ _ _ => trivial) (fun _ => id) (fun reply s' _ => ?_) fun _ => id
  exact ends_of_fails (Fails.writeMessage reply) (by decide) (wp_of_ok (fun _ _ _ => trivial) fun _ _ _ => trivial)

end Requests

/-! ## Steps -/

/-- A message is taken from the socket, while the manager runs. -/
theorem Sound.ofSocket {message : Option Json} {answers : Answers} {u : Sys} (h : Sound s)
    (ht : Takes (s.given answers) (.socket message) u) : u = s.given answers ∧ s.state = .running := by
  cases ht with
  | @queued w event rest hw hq =>
    have hkind : (Event.socket message).Queued :=
      hw.inv.kinds _ (by rw [show w.tables.eventmgr.pendingEvents = _ from hq]; exact List.mem_cons_self)
    exact hkind.elim
  | socket _ hl => exact ⟨rfl, h.listening hl⟩

/-- The system calls that a load or a submit makes to boot its jobs succeed. -/
def BootsCalmly (s : Sys) (e : Ev) : Prop := ∀ wakeup answers message, e = .handleEvent wakeup answers →
  e.dispatched s = some (.socket (some message)) → Rpc.Boots message → answers.Calm

theorem startAllJobs_clears (s : Sys) : wp Manager.startAllJobs (fun _ s' => s'.pendingJobs = ∅) (fun _ => True) s := by
  rw [Manager.startAllJobs, wp_bind, wp_get, wp_bind]
  refine wp_of_ok (fun order s₁ _ => ?_) fun _ _ _ => trivial
  rw [wp_bind]
  exact wp_of_ok (fun _ _ _ => rfl) fun _ _ _ => trivial

/-- Nothing is pending when the manager has started. -/
theorem startRunning_apart (hs : s.state = .unconfigured) (paths : List String) :
    wp (Manager.startRunning paths) (fun _ => Apart) (fun _ => True) s := by
  rw [wp_congr (startRunning_eq hs paths), wp_bind]
  refine wp_of_ok (fun _ s₁ _ => ?_) fun _ _ _ => trivial
  rw [wp_bind]
  exact wp_mono (startAllJobs_clears s₁) (fun _ _ he => .of_empty he) fun _ => id

/-- What a request leaves when its jobs boot calmly. -/
theorem rpcDispatch_apart {files : String → Node} {message : Json} (h : Ready files s) (hb : Rpc.Boots message) :
    wp (Rpc.rpcDispatch (some message)) (fun _ => Apart) Apart s := by
  refine wp_catch (F := Apart) ?_ fun _ _ ha => ha
  dsimp only
  rw [wp_bind]
  refine wp_ofDecode (fun handler hh => ?_) fun _ _ => h.apart
  rw [wp_bind]
  refine wp_mono (wp_catch (h.boots hh hb) fun _ _ ha => ha) (fun reply s' ha => ?_) fun _ => id
  have htraced : Traced NoBoot (Rpc.writeMessage reply) := .writeMessage nofun reply
  exact wp_mono (htraced s' trivial) (fun _ _ hw => hw.apart ha) fun _ hw => hw.apart ha

theorem next_apart (h : Sound s) (ha : Apart s) (hl : PendingLookUp s) (hd : ∀ r j, s.heap r = some j → j.manifest.Decoded)
    (hc : BootsCalmly s e) (hn : Next s e s') : Apart s' := by
  cases e with
  | timePasses | childExits | signalSent =>
    cases hn.2
    exact ha.of_eq rfl rfl
  | startRunning paths answers =>
    have hspec : wp (step (.startRunning paths answers)) (fun _ => Apart) (fun _ => True) s := by
      rw [step, wp_bind, wp_modify, wp_bind, wp_get, wp_ite]
      split
      · rename_i hs
        exact startRunning_apart hs paths
      · exact ha.of_eq rfl rfl
    exact wp_ok (Q := fun _ => Apart) hspec hn.2
  | handleEvent wakeup answers =>
    cases he : (Ev.handleEvent wakeup answers).dispatched s with
    | none =>
      cases next_cases h hn with
      | still hs => exact ha.of_eq hs.jobs hs.pendingJobs
      | finished _ _ _ _ _ hs => exact hs ▸ ha.of_eq rfl rfl
      | starts _ _ e => cases e
      | exit _ _ _ _ _ _ _ _ _ _ hd | timer _ _ _ _ _ _ _ _ hd | delete _ _ _ _ _ _ _ hd | request _ _ _ _ hd
      | shutsDown _ _ _ _ _ hd | forced _ _ _ _ _ hd =>
        rw [he] at hd
        cases hd
    | some event =>
      obtain ⟨wakeup', answers', u, e, hnext, hdispatch⟩ := hn.dispatches he
      cases e
      by_cases hb : ∃ message, event = .socket (some message) ∧ Rpc.Boots message
      · obtain ⟨message, rfl, hb⟩ := hb
        have htakes : Takes (s.given answers) (.socket (some message)) u :=
          wp_ok (Q := Waits (s.given answers)) (nextEvent_spec (s := s.given answers) h.inv wakeup) hnext
        obtain ⟨rfl, hstate⟩ := h.ofSocket htakes
        have hready : Ready answers.files (s.given answers) :=
          ⟨⟨⟨h.inv, hstate, rfl⟩, ⟨h.inv, hc wakeup answers message rfl he hb, hl, hd⟩⟩, ha.of_eq rfl rfl⟩
        exact wp_ok (rpcDispatch_apart hready hb) hdispatch
      · have hwait : Writes NoBoot (s.given answers) u :=
          wp_ok (Q := fun _ => Writes NoBoot (s.given answers)) (Traced.nextEvent (by simp [NoBoot]) wakeup _ trivial) hnext
        have hcallback : Traced NoBoot (EventManager.dispatch event) :=
          .dispatch (fun _ _ h => by cases h) (by simp [NoBoot]) (fun message he hm => absurd ⟨message, he, hm⟩ hb)
            (fun _ _ _ _ h => by cases h) fun _ _ h => by cases h
        exact (wp_ok (hcallback u trivial) hdispatch).apart (hwait.apart (ha.of_eq rfl rfl))

/-- The loop is never asked to boot a job that is booted already, whatever the step. -/
theorem step_ends (h : Sound s) (ha : Apart s) (e : Ev) :
    ends (fun w => ¬ LoopText w) (step e) (fun _ _ => True) (fun _ => True) s := by
  cases e with
  | timePasses | childExits | signalSent => trivial
  | startRunning paths answers =>
    rw [step, ends_bind, ends_modify, ends_bind, ends_get, ends_ite]
    split
    · rename_i hs
      have hload : FailsIn Manager.failures (Manager.loadEachPath paths) := .loops paths fun _ =>
        .bind (Fails.loadAllManifests _ _ _) fun _ => .returns _
      have htraced : Traced NoBoot (Manager.loadEachPath paths) := .loops paths fun _ =>
        (Traced.loadAllManifests (by simp) _).bind fun _ => .done _
      rw [ends_congr (startRunning_eq hs paths), ends_bind]
      refine ends_of_fails hload (by decide) (wp_mono (htraced _ trivial) (fun _ s₁ hw => ?_) fun _ _ => trivial)
      rw [ends_bind]
      exact ends_mono (startAllJobs_ends (hw.apart (ha.of_eq rfl rfl))) (fun _ => id) (fun _ _ _ => trivial) fun _ => id
    · trivial
  | handleEvent wakeup answers =>
    have hwait : s.state = .running ∨ s.state = .gracefulShutdown →
        ends (fun w => ¬ LoopText w) (waitForEvent wakeup) (fun _ _ => True) (fun _ => True) (s.given answers) := by
      intro _
      have htraced : Traced NoBoot (nextEvent wakeup) := Traced.nextEvent (by simp [NoBoot]) wakeup
      rw [waitForEvent, ends_bind]
      refine ends_of_fails (Fails.nextEvent wakeup) (by decide)
        (wp_mono (wp_and (nextEvent_spec (s := s.given answers) h.inv wakeup) (htraced _ trivial)) (fun event u hu => ?_)
          fun _ _ => trivial)
      obtain ⟨hwaits, hw⟩ := hu
      cases event with
      | none => trivial
      | some event =>
        by_cases hb : ∃ message, event = .socket (some message) ∧ Rpc.Boots message
        · obtain ⟨message, rfl, hb⟩ := hb
          obtain ⟨rfl, hstate⟩ := h.ofSocket hwaits
          have hserving : Serving .running answers.files (s.given answers) := ⟨h.inv, hstate, rfl⟩
          exact rpcDispatch_ends hserving (ha.of_eq rfl rfl) hb
        · exact ends_of_fails (Fails.dispatch fun message he hm => hb ⟨message, he, hm⟩) (by decide)
            (wp_of_ok (fun _ _ _ => trivial) fun _ _ _ => trivial)
    have hhandle : ends (fun w => ¬ LoopText w) (Manager.handleEvent wakeup) (fun _ _ => True) (fun _ => True)
        (s.given answers) := by
      rw [ends_congr (handleEvent_eq _ _)]
      cases hs : s.state with
      | unconfigured | finished =>
        simp only [show (s.given answers).state = s.state from rfl, hs]
        trivial
      | running =>
        simp only [show (s.given answers).state = s.state from rfl, hs]
        exact hwait (.inl hs)
      | gracefulShutdown =>
        simp only [show (s.given answers).state = s.state from rfl, hs]
        rw [ends_ite]
        split
        · exact ends_of_fails (Fails.execute [] (by simp)) (by decide) (wp_of_ok (fun _ _ _ => trivial) fun _ _ _ => trivial)
        · exact hwait (.inr hs)
    rw [step, ends_bind, ends_modify]
    exact hhandle

/-! ## Runs -/

theorem reachable_pendingLookUp (h : Reachable s) : PendingLookUp s :=
  reachable_of_writes (fun s hi => by
    obtain ⟨stateFile, now, users, rfl⟩ := hi
    exact fun label hm => absurd hm (AList.notMem_empty label)) (fun _ _ hw => hw.pendingLookUp) h

/-- The manifest of every job is one that was decoded. -/
theorem Runs.decoded {C : Sys → Ev → Prop} (h : Runs C s) : ∀ r j, s.heap r = some j → j.manifest.Decoded := fun r _ hj =>
  h.lives (Q := fun l => l.manifest.Decoded) (fun _ hm => hm) (fun _ _ _ l a _ _ _ _ _ hm => by rwa [(l.next_fixed a).1]) r _
    (fate_alive hj)

/-- Nothing else than a Bootstrap that throws sets the maps at odds. -/
theorem Runs.apart (h : Runs BootsCalmly s) : Apart s := by
  induction h with
  | init hi =>
    obtain ⟨stateFile, now, users, rfl⟩ := hi
    exact .of_empty rfl
  | @step s s' e hr hn ih =>
    have hruns : Runs BootsCalmly s := hr
    exact next_apart (hruns.sound hn.1.1) ih (reachable_pendingLookUp hruns.reachable) hruns.decoded hn.2 hn.1

/-- A finished manager does nothing. -/
theorem step_finished (hs : s.state = .finished) (e : Ev) : ∃ s', step e s = .ok () s' := by
  cases e with
  | timePasses | childExits | signalSent => exact ⟨_, rfl⟩
  | startRunning paths answers =>
    refine ⟨s.given answers, ?_⟩
    show (if (s.given answers).state = .unconfigured then Manager.startRunning paths else return ()) (s.given answers) = _
    rw [if_neg (by rw [show (s.given answers).state = s.state from rfl, hs]; nofun)]
    rfl
  | handleEvent wakeup answers =>
    refine ⟨s.given answers, ?_⟩
    show Manager.handleEvent wakeup (s.given answers) = _
    rw [handleEvent_eq, show (s.given answers).state = s.state from rfl, hs]
    rfl

/-- While the system calls of the boots that requests ask for succeed, no label is in both
    maps, no pointer stored is null, and each job is stored under its label; so no step fails
    the assertion of the loop that boots the pending jobs. -/
theorem well_stored (h : Runs BootsCalmly s) : WellStored s ∧ ∀ e, step e s ≠ .crash "assert(false)" := by
  have ha : Apart s := h.apart
  have hpend : ∀ label p, s.pendingJobs.lookup label = some p → ∃ r, p = some r := fun label p hp => by
    cases p with
    | none => exact absurd hp (ha.pointers label)
    | some r => exact ⟨r, rfl⟩
  constructor
  · rcases h.cases with hs | ⟨s₀, e, w, -, -, -, -, -, hw, hf⟩
    · refine ⟨ha.keys, fun label r hr => ?_, fun label p hp => ?_⟩
      · obtain ⟨j, hj, hl, -⟩ := hs.inv.owned.stored label r hr
        exact ⟨j, hj, hl⟩
      · obtain ⟨r, rfl⟩ := hpend label p hp
        obtain ⟨j, hj, hl, -⟩ := hs.inv.owned.pended label r hp
        exact ⟨r, j, rfl, hj, hl⟩
    · refine ⟨ha.keys, fun label r hr => ?_, fun label p hp => ?_⟩
      · rw [hf.jobs] at hr
        cases hr
      · obtain ⟨r, rfl⟩ := hpend label p hp
        rw [hf.pendingJobs] at hp
        obtain ⟨j, hj, hl, hb⟩ := hw.inv.owned.pended label r hp
        exact ⟨r, j, rfl, (hf.heap r j).mpr ⟨hj, hb⟩, hl⟩
  · intro e hcrash
    by_cases hs : s.state = .finished
    · obtain ⟨s', hok⟩ := step_finished hs e
      rw [hok] at hcrash
      cases hcrash
    · exact (ends_iff.mp (step_ends (h.sound hs) ha e)).2 _ hcrash (.inl rfl)

/-- The first start of a job that a request loads has no pipe; the next request is the last. -/
theorem boot_fails_halfway : ¬ ∀ s, Reachable s → WellStored s ∧ ∀ e, step e s ≠ .crash "assert(false)" := by
  intro h
  obtain ⟨s, hs, hp⟩ := reachable_of_run [.startRunning [] {}, loadWith { forks := [.noPipe] }]
    (fun s => crashed? (step (loadWith {}) s) == some "assert(false)") (by decide +kernel)
  exact (h s hs).2 _ (crashed?_eq.mp (beq_iff_eq.mp hp))

/-- The request again, with a pipe. -/
theorem well_stored_loaded : ∃ s, Runs BootsCalmly s ∧ s.jobs.lookup "job" = some 0 ∧ WellStored s ∧
    ∀ e, step e s ≠ .crash "assert(false)" := by
  obtain ⟨s, hs, hp⟩ := runs_of_run (C := BootsCalmly) (fun _ _ => true) [.startRunning [] {}, loadWith {}]
    (fun s => s.jobs.lookup "job" == some 0) (fun s e he _ wakeup answers message e' _ _ => by
      rcases List.mem_pair.mp he with rfl | rfl
      · cases e'
      · cases e'
        exact ⟨nofun, nofun, nofun⟩) (by decide +kernel)
  exact ⟨s, hs, beq_iff_eq.mp hp, well_stored hs⟩

end Relaunchd
