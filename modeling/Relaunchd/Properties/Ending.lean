/-
  Relaunchd.Properties.Ending — the second shutdown signal.

  `forceUnloadAllJobs` calls `kill(2)` with the `pid` of every job whose `pid` is not 0, kills
  its group, destroys the jobs and finishes the manager. A failed `fork(2)` leaves -1 in a
  `pid`, which is everybody to `kill(2)`. The loop is `noexcept`, and `forceUnloadJob` cancels
  the timer of a job that has one, which throws: a single timer that is left ends launchd instead.
-/

import Relaunchd.Properties.Timers
import Relaunchd.Refinement.Endings
import Relaunchd.Runs

namespace Relaunchd

open Prog EventManager Tables

variable {s s' s'' : Sys} {e : Ev} {C : String → Prop} {E : Sys → Prop} {r : Ref} {j : Job}

/-! ## What a forced unload touches -/

def Kill.args (k : Kill) : Ref × Int × Int := (k.job, k.pid, k.sig)

structure Signalled where
  kills : List (Ref × Int × Int) := []
  groups : List (Ref × Int) := []

def Signalled.append (x y : Signalled) : Signalled := ⟨x.kills ++ y.kills, x.groups ++ y.groups⟩

theorem Signalled.append_none (x : Signalled) : x.append {} = x := by
  rw [append, List.append_nil, List.append_nil]

/-- A job may have changed, but for its timer; signals were sent; no other job, and no timer, was touched. -/
structure Struck (r : Ref) (sent : Signalled) (s s' : Sys) : Prop where
  jobs : s'.jobs = s.jobs
  state : s'.state = s.state
  timerfdMap : s'.eventmgr.timerfdMap = s.eventmgr.timerfdMap
  others : ∀ r', r' ≠ r → s'.heap r' = s.heap r'
  job : ∀ j, s.heap r = some j → ∃ j', s'.heap r = some j' ∧ j'.timerId = j.timerId
  kills : s'.kernel.kills.map Kill.args = s.kernel.kills.map Kill.args ++ sent.kills
  groupKills : s'.kernel.groupKills = s.kernel.groupKills ++ sent.groups

variable {sent sent' : Signalled}

/-- Nothing of a job, and nothing that was sent, has changed. -/
theorem Struck.same (r : Ref) (hjobs : s'.jobs = s.jobs) (hstate : s'.state = s.state)
    (hmap : s'.eventmgr.timerfdMap = s.eventmgr.timerfdMap) (hheap : s'.heap = s.heap)
    (hkills : s'.kernel.kills = s.kernel.kills) (hgroups : s'.kernel.groupKills = s.kernel.groupKills) : Struck r {} s s' :=
  ⟨hjobs, hstate, hmap, fun r' _ => congrFun hheap r', fun j hj => ⟨j, (congrFun hheap r).trans hj, rfl⟩,
    by rw [hkills, List.append_nil], by rw [hgroups, List.append_nil]⟩

theorem Struck.refl (r : Ref) (s : Sys) : Struck r {} s s := .same r rfl rfl rfl rfl rfl rfl

theorem Struck.trans (h : Struck r sent s s') (h' : Struck r sent' s' s'') : Struck r (sent.append sent') s s'' where
  jobs := h'.jobs.trans h.jobs
  state := h'.state.trans h.state
  timerfdMap := h'.timerfdMap.trans h.timerfdMap
  others r' hne := (h'.others r' hne).trans (h.others r' hne)
  job j hj := by
    obtain ⟨j₁, hj₁, ht₁⟩ := h.job j hj
    obtain ⟨j₂, hj₂, ht₂⟩ := h'.job j₁ hj₁
    exact ⟨j₂, hj₂, ht₂.trans ht₁⟩
  kills := by rw [h'.kills, h.kills, List.append_assoc]; rfl
  groupKills := by rw [h'.groupKills, h.groupKills, List.append_assoc]; rfl

theorem Struck.quiet (h : Struck r sent s s') (h' : Struck r {} s' s'') : Struck r sent s s'' :=
  sent.append_none ▸ h.trans h'

/-- The job is written, and its timer kept. -/
theorem Struck.setJob (r : Ref) (s : Sys) {f : Job → Job} (hf : ∀ j, (f j).timerId = j.timerId) :
    Struck r {} s (s.updateJob r f) where
  jobs := rfl
  state := rfl
  timerfdMap := rfl
  others _ hne := Function.update_of_ne hne ..
  job j hj := ⟨f j, Sys.updateJob_self hj, hf j⟩
  kills := (List.append_nil _).symm
  groupKills := (List.append_nil _).symm

/-- Processes are reaped. -/
theorem Struck.waitFor (r : Ref) (s : Sys) (pid : Int) : Struck r {} s (s.updateKernel (Job.waitFor pid)) := by
  rw [Sys.updateKernel, Job.waitFor_eq]
  exact .same r rfl rfl rfl rfl rfl rfl

def Job.groupOf (j : Job) (r : Ref) : List (Ref × Int) :=
  if j.pgid < 0 ∨ j.manifest.abandonProcessGroup then [] else [(r, j.pgid)]

/-- What `kill(2)` is called with when the job is unloaded by force. -/
def Job.forceKills (j : Job) (r : Ref) : List (Ref × Int × Int) := if j.pid = 0 then [] else [(r, j.pid, SIGKILL)]

def Job.forceGroups (j : Job) (r : Ref) : List (Ref × Int) := if j.pid = 0 then [] else j.groupOf r

def Sys.forceKills (s : Sys) (label : String) : List (Ref × Int × Int) :=
  match s.jobs.lookup label with
  | none => []
  | some r => match s.heap r with
    | none => []
    | some j => j.forceKills r

def Sys.forceGroups (s : Sys) (label : String) : List (Ref × Int) :=
  match s.jobs.lookup label with
  | none => []
  | some r => match s.heap r with
    | none => []
    | some j => j.forceGroups r

/-- The jobs of `s` stored under the labels `gone` are unloaded by force, the others not yet. -/
structure Killing (s : Sys) (gone : List String) (s' : Sys) : Prop where
  jobs : s'.jobs = s.jobs
  state : s'.state = s.state
  timerfdMap : s'.eventmgr.timerfdMap = s.eventmgr.timerfdMap
  others : ∀ r, (∀ label ∈ gone, s.jobs.lookup label ≠ some r) → s'.heap r = s.heap r
  kills : s'.kernel.kills.map Kill.args = s.kernel.kills.map Kill.args ++ gone.flatMap s.forceKills
  groupKills : s'.kernel.groupKills = s.kernel.groupKills ++ gone.flatMap s.forceGroups

/-- A job is as it was until its own turn. -/
theorem Killing.untouched {gone : List String} {label : String} (hinv : s.tables.Inv none) (h : Killing s gone s')
    (hl : label ∉ gone) (hr : s.jobs.lookup label = some r) (hj : s.heap r = some j) : s'.heap r = some j := by
  refine (h.others r fun label' hm hr' => ?_).trans hj
  have hlabel : label' = label := (hinv.owned.label_eq hr' hj).symm.trans (hinv.owned.label_eq hr hj)
  exact hl (hlabel ▸ hm)

theorem Took.killing (h : Took s s') : Killing s [] s' where
  jobs := h.keeps.jobs
  state := h.keeps.state
  timerfdMap := congrArg (·.eventmgr.timerfdMap) h.tables
  others r _ := congrFun (congrArg Tables.heap h.tables) r
  kills := by rw [List.flatMap_nil, List.append_nil, show s'.kernel.kills = s.kernel.kills from congrArg Tables.kills h.tables]
  groupKills := by
    rw [List.flatMap_nil, List.append_nil]
    exact congrArg Tables.groupKills h.tables

/-- A forced shutdown dispatches a signal to the jobs as they were. -/
theorem Forces.dispatches (h : Sound s) (hf : Forces s e) : ∃ (sig : Signal) (u : Sys), sig.shutsDown ∧ Still s u ∧
    step e s = Manager.signalCallback sig u := by
  obtain ⟨hs, sig, hsig, hd⟩ := hf
  obtain ⟨wakeup, answers, u, he, hnext, hstep⟩ := step_dispatched hd (.inr hs)
  have hwaits : Waits (s.given answers) (some (.signal sig)) u :=
    wp_ok (nextEvent_spec (s := s.given answers) h.inv wakeup) hnext
  have htakes : Takes (s.given answers) (.signal sig) u := hwaits
  generalize hevent : Event.signal sig = event at htakes
  cases htakes with
  | queued hw hq =>
    subst hevent
    exact ⟨sig, _, hsig, (given_woken h.inv answers).trans (popped_woken hw hq rfl fun _ => rfl).toStill, hstep⟩
  | socket | timer => cases hevent

end Relaunchd
