/-
  Relaunchd.Properties.Credentials — as which user and group a program runs.
-/

import Relaunchd.Child
import Relaunchd.Refinement.Start

namespace Relaunchd

open Prog

namespace Child

def Syscall.isCredential : Syscall → Bool
  | .initgroups .. | .setgid _ | .setuid _ => true
  | _ => false

def Syscall.isExecve : Syscall → Bool
  | .execve .. => true
  | _ => false

namespace Setup

variable (s : Setup)

def made : List Syscall := s.calls.map Prod.fst

def credentials : List Syscall := s.made.filter Syscall.isCredential

def execs : Bool := s.made.any Syscall.isExecve

end Setup

/-! ## The stages -/

/-- A stage makes the credential calls `l`, in this order, unless it returns; it does not
    execute the program, and returns only when a call fails. -/
def Goes (l : List Syscall) (stage : Stage) : Prop := ∀ s, ∃ r s', stage s = .ok r s' ∧ s'.execs = s.execs ∧
  (r = none → s'.credentials = s.credentials ++ l) ∧ (s.answers = [] → r = none ∧ s'.answers = [])

variable {s s' : Setup} {c : Syscall} {l l' : List Syscall} {stage : Stage} {code : ExecErrorCode}

theorem Setup.made_after : (s.after c).made = s.made ++ [c] := by simp [made, after]

theorem Setup.execs_after : (s.after c).execs = (s.execs || c.isExecve) := by simp [execs, made_after]

theorem Setup.credentials_after : (s.after c).credentials = s.credentials ++ if c.isCredential then [c] else [] := by
  rw [credentials, made_after, List.filter_append]
  cases h : c.isCredential <;> simp [credentials, h]

def Returns (stage : Stage) : Prop := ∀ s, ∃ status s', stage s = .ok (some status) s' ∧ s'.execs = s.execs

theorem returns (status : ExecStatus) : Returns (return some status) := fun s => ⟨status, s, rfl, rfl⟩

theorem goes_none : Goes [] (return none) := fun s => ⟨none, s, rfl, rfl, fun _ => (List.append_nil _).symm, fun h => ⟨rfl, h⟩⟩

/-- A call, after which the stage goes on if it succeeds, and returns if it does not. -/
theorem Goes.call {f : Answer → Stage} (h : c.isExecve = false) (hok : ∀ v, Goes l (f (.ok v)))
    (herror : ∀ errno, Returns (f (.error errno))) : Goes ((if c.isCredential then [c] else []) ++ l) (Child.call c >>= f) := fun s => by
  rw [call_bind]
  have hexecs : (s.after c).execs = s.execs := by rw [Setup.execs_after, h, Bool.or_false]
  cases ha : s.answers.headD (.ok 0) with
  | error errno =>
    obtain ⟨status, s', hs', hx⟩ := herror errno (s.after c)
    refine ⟨_, s', hs', hx.trans hexecs, nofun, fun hnil => ?_⟩
    rw [hnil] at ha
    cases ha
  | ok v =>
    obtain ⟨r, s', hs', hx, hc, hnil⟩ := hok v (s.after c)
    refine ⟨r, s', hs', hx.trans hexecs, fun hr => ?_, fun h => hnil (by rw [Setup.after, h]; rfl)⟩
    rw [hc hr, Setup.credentials_after, List.append_assoc]

theorem Returns.call {f : Answer → Stage} (h : c.isExecve = false) (hf : ∀ a, Returns (f a)) : Returns (Child.call c >>= f) := fun s => by
  obtain ⟨status, s', hs', hx⟩ := hf (s.answers.headD (.ok 0)) (s.after c)
  exact ⟨status, s', hs', by rw [hx, Setup.execs_after, h, Bool.or_false]⟩

theorem attempt_goes (h : c.isExecve = false) : Goes (if c.isCredential then [c] else []) (attempt c code) := by
  rw [← List.append_nil (if c.isCredential then [c] else [])]
  exact .call h (fun _ => goes_none) fun errno => returns { errorCode := code, savedErrno := errno }

theorem attempt_after : ∃ r, attempt c code s = .ok r (s.after c) := by
  rw [attempt, call_bind]
  cases s.answers.headD (.ok 0) <;> exact ⟨_, rfl⟩

theorem attemptIf_goes {value : Option α} {c : α → Syscall} (h : ∀ a, (c a).isExecve = false)
    (h' : ∀ a, (c a).isCredential = false) : Goes [] (attemptIf value c code) := by
  cases value with
  | none => exact goes_none
  | some a =>
    have hgoes : Goes (if (c a).isCredential then [c a] else []) (attempt (c a) code) := attempt_goes (h a)
    simpa [h', attemptIf] using hgoes

theorem inOrder_cons {rest : List Stage} {r : Option ExecStatus} (h : stage s = .ok r s') :
    inOrder (stage :: rest) s =
      match r with
      | some status => .ok (some status) s'
      | none => inOrder rest s' := by
  simp only [inOrder, bind, andThen, h]
  cases r <;> rfl

theorem Goes.cons {rest : List Stage} (h : Goes l stage) (hrest : Goes l' (inOrder rest)) :
    Goes (l ++ l') (inOrder (stage :: rest)) := fun s => by
  obtain ⟨r, s₁, hs₁, hx₁, hc₁, ha₁⟩ := h s
  rw [inOrder_cons hs₁]
  cases r with
  | some status => exact ⟨_, s₁, rfl, hx₁, nofun, fun ha => nomatch (ha₁ ha).1⟩
  | none =>
    obtain ⟨r, s₂, hs₂, hx₂, hc₂, ha₂⟩ := hrest s₁
    refine ⟨r, s₂, hs₂, hx₂.trans hx₁, fun hr => ?_, fun ha => ha₂ (ha₁ ha).2⟩
    rw [hc₂ hr, hc₁ rfl, List.append_assoc]

/-- A stage that makes no credential calls. -/
theorem Goes.skip {rest : List Stage} (h : Goes [] stage) (hrest : Goes l (inOrder rest)) : Goes l (inOrder (stage :: rest)) :=
  h.cons hrest

theorem Goes.nil : Goes [] (inOrder []) := goes_none

theorem replaceFd_goes (oldfd : Nat) (path : String) (flags : OpenFlags) (mode : Nat) :
    Goes [] (replaceFd oldfd path flags mode) := by
  refine .call (c := .openFile path flags mode) rfl (fun newfd => ?_) fun errno => returns _
  refine .call (c := .dup2 newfd oldfd) rfl (fun _ => attempt_goes (c := .close newfd) rfl) fun errno => ?_
  exact .call rfl fun a => by cases a <;> exact returns _

theorem redirect_goes (oldfd : Nat) (path : String) (flags : OpenFlags) (mode : Nat) (context : ExecErrorContext) :
    Goes [] (redirect oldfd path flags mode context) := fun s => by
  obtain ⟨r, s', hs', hx, hc, ha⟩ := replaceFd_goes oldfd path flags mode s
  simp only [redirect, bind, andThen, hs']
  cases r with
  | none => exact ⟨none, s', rfl, hx, hc, ha⟩
  | some status => exact ⟨_, s', rfl, hx, by simp, fun h => by cases (ha h).1⟩

/-! ## The whole set-up -/

section Setup

variable {manifest : Manifest} {ctx : ExecutionContext} {user path : String} {gid uid : Nat}

def credentialCalls (manifest : Manifest) (user : String) (gid uid : Nat) : List Syscall :=
  (if manifest.initGroups then [.initgroups user gid] else []) ++ [.setgid gid, .setuid uid]

theorem becomeUser_goes (hu : manifest.userName = some user) (hg : ctx.gid = some gid) (hi : ctx.uid = some uid) :
    Goes (credentialCalls manifest user gid uid) (becomeUser manifest ctx) := by
  have hgroups : Goes (if manifest.initGroups then [.initgroups user gid] else [])
      (if manifest.initGroups then attempt (.initgroups user gid) .initGroupsFailed else return none) := by
    split
    · exact attempt_goes (c := .initgroups user gid) rfl
    · exact goes_none
  simp only [becomeUser, hu, hg, hi]
  exact .cons hgroups (.cons (attempt_goes (c := .setgid gid) rfl) (.cons (attempt_goes (c := .setuid uid) rfl) .nil))

theorem stages_goes (hu : manifest.userName = some user) (hg : ctx.gid = some gid) (hi : ctx.uid = some uid) :
    Goes (credentialCalls manifest user gid uid) (inOrder (stages manifest ctx)) := by
  have hmask : Goes [] (setUmask manifest) := fun s =>
    ⟨none, s.after _, rfl, by rw [Setup.execs_after]; exact Bool.or_false _, fun _ => Setup.credentials_after, fun ha =>
      ⟨rfl, by rw [Setup.after, ha]; rfl⟩⟩
  have hafter : Goes [] (inOrder ((stages manifest ctx).drop 6)) :=
    .skip (redirect_goes _ _ _ _ _) <| .skip (redirect_goes _ _ _ _ _) <| .skip (redirect_goes _ _ _ _ _) <|
      .skip (attempt_goes (c := .calloc _) rfl) <| .skip (attempt_goes (c := .calloc _) rfl) .nil
  have huser : Goes (credentialCalls manifest user gid uid) (inOrder ((stages manifest ctx).drop 5)) := by
    rw [← List.append_nil (credentialCalls manifest user gid uid)]
    exact .cons (becomeUser_goes hu hg hi) hafter
  exact .skip hmask <| .skip (attempt_goes (c := .setsid) rfl) <| .skip (attemptIf_goes (fun _ => rfl) fun _ => rfl) <|
    .skip (attemptIf_goes (fun _ => rfl) fun _ => rfl) <| .skip (attemptIf_goes (fun _ => rfl) fun _ => rfl) huser

theorem inOrder_append {xs ys : List Stage} : inOrder (xs ++ ys) s = (inOrder [inOrder xs, inOrder ys]) s := by
  induction xs generalizing s with
  | nil =>
    rw [List.nil_append]
    simp only [inOrder, bind, andThen, pure, ret]
    cases inOrder ys s with
    | ok r s' => cases r <;> rfl
    | throw | crash => rfl
  | cons stage rest ih =>
    rw [List.cons_append]
    simp only [inOrder, bind, andThen] at ih ⊢
    cases stage s with
    | ok r s' =>
      cases r with
      | some status => rfl
      | none => exact ih
    | throw | crash => rfl

/-- A child that executes the program has made its credential calls, and no others; when
    nothing fails, it executes the program. -/
theorem startChildProcess_spec (hu : manifest.userName = some user) (hp : manifest.program = some path) (hg : ctx.gid = some gid)
    (hi : ctx.uid = some uid) (answers : List Answer) :
    ∃ r s', startChildProcess manifest ctx { answers } = .ok r s' ∧
      (s'.execs → s'.credentials = credentialCalls manifest user gid uid) ∧ (answers = [] → s'.execs) := by
  obtain ⟨r, s₁, hs₁, hx, hc, ha⟩ := stages_goes hu hg hi { answers }
  rw [startChildProcess, inOrder_append, inOrder_cons hs₁]
  cases r with
  | some status =>
    refine ⟨_, s₁, rfl, fun he => ?_, fun h => nomatch (ha h).1⟩
    rw [hx] at he
    cases he
  | none =>
    have hexec : execute manifest ctx = attempt (.execve path manifest.programArguments ctx.environ) .execFailed := by
      rw [execute, hp]
      rfl
    obtain ⟨r, hr⟩ : ∃ r, attempt (.execve path manifest.programArguments ctx.environ) .execFailed s₁ =
        .ok r (s₁.after (.execve path manifest.programArguments ctx.environ)) := attempt_after
    have hlast : ∃ r, inOrder [inOrder [execute manifest ctx]] s₁ =
        .ok r (s₁.after (.execve path manifest.programArguments ctx.environ)) := by
      simp only [inOrder, bind, andThen, hexec, hr]
      cases r <;> exact ⟨_, rfl⟩
    obtain ⟨r', hr'⟩ := hlast
    refine ⟨r', _, hr', fun _ => ?_, fun _ => ?_⟩
    · rw [Setup.credentials_after, hc rfl]
      exact (List.append_nil _).trans (List.nil_append _)
    · rw [Setup.execs_after]
      exact Bool.or_true _

end Setup

end Child

/-! ## The user of a job -/

/-- The group a job is to have: that of `GroupName`, or else the user's own. -/
def groupOf (users : Users) (manifest : Manifest) (pwent : Passwd) : Option Nat :=
  match manifest.groupName with
  | some group => users.getgrnam group
  | none => some pwent.gid

/-- A job with a `UserName` runs as that user, or not at all. -/
structure RunsAs (users : Users) (manifest : Manifest) (user : String) : Prop where
  /-- A child that executes the program has become the user, in the group. -/
  becomes : ∀ environ ctx answers r s', Job.executionContext users manifest environ = some ctx →
    Child.startChildProcess manifest ctx { answers } = .ok r s' → s'.execs →
    ∃ pwent gid, users.getpwnam user = some pwent ∧ groupOf users manifest pwent = some gid ∧
      .setuid pwent.uid ∈ s'.credentials ∧ .setgid gid ∈ s'.credentials ∧ .initgroups user gid ∈ s'.credentials
  /-- A start for a user or a group that is not known is reported as failed. -/
  refused : Job.executionContext users manifest [] = none → ∀ s r j, s.heap r = some j → j.manifest = manifest →
    s.kernel.users = users → ∃ s', Job.run r s = .ok false s'

section RunsAs

variable {users : Users} {manifest : Manifest} {user : String} {pwent : Passwd} {gid : Nat}

/-- The two ids change places. -/
theorem executionContext_eq (hu : manifest.userName = some user) (environ : List String) :
    Job.executionContext users manifest environ =
      (users.getpwnam user).bind fun pwent => (groupOf users manifest pwent).map fun gid => ⟨some pwent.uid, some gid, environ⟩ := by
  simp only [Job.executionContext, groupOf, hu]
  cases users.getpwnam user with
  | none => rfl
  | some pwent =>
    cases manifest.groupName with
    | none => rfl
    | some group => cases h : users.getgrnam group <;> simp [h]

/-- A missing entry is a null pointer that is followed. -/
theorem run_unknown {s : Sys} {r : Ref} {j : Job} (hj : s.heap r = some j)
    (h : Job.executionContext s.kernel.users j.manifest [] = none) : ∃ w, Job.run r s = .crash w := by
  have hlook : ∃ w, Job.lookUpUser r s = .crash w := by
    simp only [Job.lookUpUser, bind, andThen, this, hj, Prog.get]
    unfold Job.executionContext at h
    cases hu : j.manifest.userName with
    | none =>
      rw [hu] at h
      cases h
    | some user =>
      simp only [hu] at h ⊢
      cases hp : s.kernel.users.getpwnam user with
      | none => exact ⟨_, rfl⟩
      | some pwent =>
        cases hg : j.manifest.groupName with
        | none =>
          rw [hp, hg] at h
          cases h
        | some group =>
          cases hgr : s.kernel.users.getgrnam group with
          | none => exact ⟨"null group entry", by simp [hgr, crash]⟩
          | some gid =>
            rw [hp, hg] at h
            simp [hgr] at h
  obtain ⟨w, hw⟩ := hlook
  exact ⟨w, by simp only [Job.run, bind, andThen, hw]⟩

/-- What a child does when the entries are there: the group is set to the user's id, and
    the user to the group's. -/
theorem child_becomes (hm : manifest.Decoded) (hu : manifest.userName = some user) (hp : users.getpwnam user = some pwent)
    (hg : groupOf users manifest pwent = some gid) (environ : List String) (answers : List Child.Answer) :
    ∃ ctx r s', Job.executionContext users manifest environ = some ctx ∧
      Child.startChildProcess manifest ctx { answers } = .ok r s' ∧
      (s'.execs → s'.credentials = Child.credentialCalls manifest user pwent.uid gid) ∧ (answers = [] → s'.execs) := by
  obtain ⟨path, hpath⟩ := Option.isSome_iff_exists.mp hm.program
  obtain ⟨ctx, hctx⟩ : ∃ ctx : ExecutionContext, ctx = ⟨some pwent.uid, some gid, environ⟩ := ⟨_, rfl⟩
  obtain ⟨r, s', hs', hc, hx⟩ := Child.startChildProcess_spec hu hpath (congrArg (·.gid) hctx) (congrArg (·.uid) hctx) answers
  subst hctx
  exact ⟨_, r, s', by rw [executionContext_eq hu, hp, Option.bind_some, hg]; rfl, hs', hc, hx⟩

section Calls

variable {uid uid' gid' : Nat}

theorem setuid_mem : .setuid uid' ∈ Child.credentialCalls manifest user gid uid ↔ uid' = uid := by
  unfold Child.credentialCalls
  cases manifest.initGroups <;> simp

theorem setgid_mem : .setgid gid' ∈ Child.credentialCalls manifest user gid uid ↔ gid' = gid := by
  unfold Child.credentialCalls
  cases manifest.initGroups <;> simp

theorem initgroups_mem : .initgroups user gid' ∈ Child.credentialCalls manifest user gid uid ↔ manifest.initGroups ∧ gid' = gid := by
  unfold Child.credentialCalls
  cases manifest.initGroups <;> simp

end Calls

/-- A job with a `UserName` is run as it should be if and only if the user is known, and so
    is its group, `InitGroups` is on, and the ids of the user and of the group are equal. -/
theorem runsAs_iff (hm : manifest.Decoded) (hu : manifest.userName = some user) :
    RunsAs users manifest user ↔
      manifest.initGroups ∧ ∃ pwent, users.getpwnam user = some pwent ∧ groupOf users manifest pwent = some pwent.uid := by
  constructor
  · intro h
    have hknown : ∃ pwent gid, users.getpwnam user = some pwent ∧ groupOf users manifest pwent = some gid := by
      by_contra hn
      have hnone : Job.executionContext users manifest [] = none := by
        rw [executionContext_eq hu]
        cases hp : users.getpwnam user with
        | none => rfl
        | some pwent =>
          cases hg : groupOf users manifest pwent with
          | none => rw [Option.bind_some, hg]; rfl
          | some gid => exact absurd ⟨pwent, gid, hp, hg⟩ hn
      obtain ⟨s, hs, hj⟩ : ∃ s : Sys, s.kernel.users = users ∧ s.heap 0 = some { manifest, manifestPath := "" } :=
        ⟨{ stateFile := .null, heap := fun _ => some { manifest, manifestPath := "" }, kernel := { now := 0, users } }, rfl, rfl⟩
      obtain ⟨s', hs'⟩ := h.refused hnone s 0 _ hj rfl hs
      obtain ⟨w, hw⟩ := run_unknown hj (hs ▸ hnone)
      rw [hs'] at hw
      cases hw
    obtain ⟨pwent, gid, hp, hg⟩ := hknown
    obtain ⟨ctx, r, s', hctx, hs', hc, hx⟩ := child_becomes hm hu hp hg [] []
    obtain ⟨pwent', gid', hp', hg', -, hgid, hinit⟩ := h.becomes [] ctx [] r s' hctx hs' (hx rfl)
    rw [hp] at hp'
    cases hp'
    rw [hg] at hg'
    cases hg'
    rw [hc (hx rfl)] at hgid hinit
    exact ⟨(initgroups_mem.mp hinit).1, pwent, hp, by rw [hg, setgid_mem.mp hgid]⟩
  · intro h'
    obtain ⟨hinit, pwent, hp, hg⟩ := h'
    refine ⟨fun environ ctx answers r s' hctx hs' hx => ?_, fun hnone => ?_⟩
    · obtain ⟨ctx', r', s'', hctx', hs'', hc, -⟩ := child_becomes hm hu hp hg environ answers
      cases hctx.symm.trans hctx'
      cases hs'.symm.trans hs''
      rw [hc hx]
      exact ⟨pwent, pwent.uid, hp, hg, setuid_mem.mpr rfl, setgid_mem.mpr rfl, initgroups_mem.mpr ⟨hinit, rfl⟩⟩
    · rw [executionContext_eq hu, hp, Option.bind_some, hg] at hnone
      cases hnone

def daemon : Json := .obj [("Label", .str "job"), ("Program", .str "/bin/job"), ("UserName", .str "daemon")]

theorem exists_daemon : ∃ m : Manifest, m.Decoded ∧ m.userName = some "daemon" ∧ m.groupName = none ∧ m.initGroups := by
  have hd : (Manifest.fromJson daemon).toOption.any
      (fun m => m.userName == some "daemon" && m.groupName == none && m.initGroups) := by decide +kernel
  obtain ⟨m, hm, hp⟩ := (Option.any_eq_true ..).mp hd
  simp only [Bool.and_eq_true, beq_iff_eq] at hp
  refine ⟨m, ⟨daemon, ?_⟩, hp.1.1, hp.1.2, hp.2⟩
  cases hr : Manifest.fromJson daemon with
  | error e => rw [hr] at hm; cases hm
  | ok m' => rw [hr] at hm; cases hm; rfl

theorem runsAs_daemon : ∃ m : Manifest, m.userName = some "daemon" ∧ RunsAs ⟨fun _ => some ⟨1, 1⟩, fun _ => none⟩ m "daemon" := by
  obtain ⟨m, hm, hu, hg, hi⟩ := exists_daemon
  exact ⟨m, hu, (runsAs_iff hm hu).mpr ⟨hi, ⟨1, 1⟩, rfl, by rw [groupOf, hg]⟩⟩

/-- A user whose id is 1000 and whose group's is 100: the program runs as user 100. -/
theorem ids_swapped : ¬ ∀ (users : Users) (manifest : Manifest) (user : String), manifest.Decoded →
    manifest.userName = some user → RunsAs users manifest user := by
  intro h
  obtain ⟨m, hm, hu, hg, -⟩ := exists_daemon
  have hgroup : groupOf ⟨fun _ => some ⟨1000, 100⟩, fun _ => none⟩ m ⟨1000, 100⟩ = some 100 := by rw [groupOf, hg]
  have hruns := h ⟨fun _ => some ⟨1000, 100⟩, fun _ => none⟩ m "daemon" hm hu
  have hp : Users.getpwnam ⟨fun _ => some ⟨1000, 100⟩, fun _ => none⟩ "daemon" = some ⟨1000, 100⟩ := rfl
  obtain ⟨ctx, r, s', hctx, hs', hc, hx⟩ := child_becomes hm hu hp hgroup [] []
  obtain ⟨pwent, gid, hp', -, huid, -⟩ := hruns.becomes [] ctx [] r s' hctx hs' (hx rfl)
  cases hp'
  rw [hc (hx rfl)] at huid
  cases setuid_mem.mp huid

end RunsAs

end Relaunchd
