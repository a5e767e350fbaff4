/-
  Relaunchd.Properties.Replies — what a client is told of its request.

  A handler's exception becomes the reply that there was an error; otherwise the reply is
  what the handler makes of the result. Two of them take `true` for success, as it is, and
  reply with it as the error; so does the load of a path, whose result is the error already.
-/

import Relaunchd.Properties.Malformed
import Relaunchd.RpcClient

namespace Relaunchd

open Prog EventManager Tables Transition

variable {α : Type} {s s' : Sys} {e : Ev} {message reply doc : Json} {method label : String} {done : Prop}

/-! ## The reply to a request -/

def Silent (effect : Effect) : Prop := effect ≠ .reply

structure Unreplied (s s' : Sys) : Prop where
  replies : s'.replies = s.replies
  writes : s'.kernel.answers.writes = s.kernel.answers.writes

theorem Write.unreplied (h : Write Silent s s') : Unreplied s s' := by
  cases h with
  | answers answers ha => exact ⟨rfl, ha.resolve_right fun hr => hr rfl⟩
  | replies reply hr => exact absurd rfl hr
  | time | kernel | kills | forks | fades | dispatches | eventmgr | job | records | creates | destroys | boots | booted
  | deletes | clears | overrides | manager => exact ⟨rfl, rfl⟩

theorem Writes.unreplied (h : Writes Silent s s') : Unreplied s s' :=
  h.keeps (P := Unreplied s)
    (fun _ _ hw hu => ⟨hw.unreplied.replies.trans hu.replies, hw.unreplied.writes.trans hu.writes⟩) ⟨rfl, rfl⟩

def said : Res Sys Json → Option Json
  | .ok reply _ => some reply
  | .throw _ _ => some (Rpc.errorReply true)
  | .crash _ => none

def Sys.CanWrite (s : Sys) : Prop := s.kernel.answers.writes.headD true = true

/-- A reply is written as a whole, or not at all. -/
theorem writeMessage_caught (reply : Json) (s : Sys) :
    ∃ s', tryCatch (Rpc.writeMessage reply) (fun _ => return ()) s = .ok () s' ∧
      ((s.CanWrite ∧ s'.replies = s.replies ++ [reply]) ∨ (¬ s.CanWrite ∧ s'.replies = s.replies)) := by
  have hnext : nextWrite s = .ok (s.kernel.answers.writes.headD true)
      (s.updateKernel fun k => { k with answers := { k.answers with writes := k.answers.writes.tail } }) := rfl
  unfold Prog.tryCatch
  rw [Rpc.writeMessage, bind_ok hnext, ite_run]
  by_cases hw : s.kernel.answers.writes.headD true = true
  · rw [if_pos hw]
    exact ⟨_, rfl, .inl ⟨hw, rfl⟩⟩
  · rw [if_neg hw]
    exact ⟨_, rfl, .inr ⟨hw, rfl⟩⟩

/-- A request whose method is handled is replied to unless its handler crashes. -/
theorem rpcDispatch_said {handler : Json → M Json} (hh : Rpc.handlerFor message = .ok handler)
    (ht : Traced Silent (handler message)) :
    (∃ s', Rpc.rpcDispatch (some message) s = .ok () s' ∧ s'.replies = s.replies ++ [reply]) ↔
      s.CanWrite ∧ said (handler message s) = some reply := by
  have hdecode : ofDecode (Rpc.handlerFor message) s = .ok handler s := by
    rw [hh]
    rfl
  have hwrites : ∀ {u : Sys} {r : Json}, Unreplied s u →
      Rpc.rpcDispatch (some message) s = tryCatch (Rpc.writeMessage r) (fun _ => return ()) u →
      ((∃ s', Rpc.rpcDispatch (some message) s = .ok () s' ∧ s'.replies = s.replies ++ [reply]) ↔ s.CanWrite ∧ r = reply) := by
    intro u r hu hrun
    obtain ⟨s', hok, hreplies⟩ := writeMessage_caught r u
    have hcan : u.CanWrite ↔ s.CanWrite := by rw [Sys.CanWrite, hu.writes, Sys.CanWrite]
    rw [hu.replies, hcan] at hreplies
    rw [hrun, hok]
    constructor
    · intro ⟨s'', he, hr⟩
      cases he
      rcases hreplies with ⟨hc, hr'⟩ | ⟨-, hr'⟩
      · exact ⟨hc, by simpa using hr'.symm.trans hr⟩
      · simp [hr'] at hr
    · intro ⟨hc, he⟩
      subst he
      exact ⟨s', rfl, (hreplies.resolve_right fun hn => hn.1 hc).2⟩
  have hwp : wp (handler message) (fun _ => Unreplied s) (Unreplied s) s :=
    wp_mono (ht s trivial) (fun _ _ hw => hw.unreplied) fun _ hw => hw.unreplied
  unfold wp at hwp
  cases hrun : handler message s with
  | ok r u =>
    rw [hrun] at hwp
    have hcatch : tryCatch (handler message) (fun _ => return Rpc.errorReply true) s = .ok r u := by
      rw [Prog.tryCatch, hrun]
    have hdispatch : Rpc.rpcDispatch (some message) s = tryCatch (Rpc.writeMessage r) (fun _ => return ()) u := by
      rw [Rpc.rpcDispatch, Prog.tryCatch, bind_ok hdecode, bind_ok hcatch]
      rfl
    rw [hwrites hwp hdispatch, said, Option.some.injEq]
  | throw w u =>
    rw [hrun] at hwp
    have hcatch : tryCatch (handler message) (fun _ => return Rpc.errorReply true) s = .ok (Rpc.errorReply true) u := by
      rw [Prog.tryCatch, hrun]
      rfl
    have hdispatch : Rpc.rpcDispatch (some message) s = tryCatch (Rpc.writeMessage (Rpc.errorReply true)) (fun _ => return ()) u := by
      rw [Rpc.rpcDispatch, Prog.tryCatch, bind_ok hdecode, bind_ok hcatch]
      rfl
    rw [hwrites hwp hdispatch, said, Option.some.injEq]
  | crash w =>
    have hcatch : tryCatch (handler message) (fun _ => return Rpc.errorReply true) s = .crash w := by
      rw [Prog.tryCatch, hrun]
    have hdispatch : Rpc.rpcDispatch (some message) s = .crash w := by
      rw [Rpc.rpcDispatch, Prog.tryCatch, bind_ok hdecode, bind_crash hcatch]
    rw [hdispatch]
    exact iff_of_false (by simp) (by simp [said])

/-! ## What a request is to do -/

def manifestsAt (files : String → Node) (path : String) : List String :=
  match files path with
  | .missing => []
  | .directory entries => entries
  | .file _ => [path]

def loadsEach (overrideDisabled forceLoad : Bool) : List String → M (List Bool)
  | [] => return []
  | file :: rest => do
    let refused ← Manager.loadOne file overrideDisabled forceLoad
    return refused :: (← loadsEach overrideDisabled forceLoad rest)

def loadsAt (files : String → Node) (overrideDisabled forceLoad : Bool) : List String → M (List (List Bool))
  | [] => return []
  | path :: rest => do
    let refused ← loadsEach overrideDisabled forceLoad (manifestsAt files path)
    return refused :: (← loadsAt files overrideDisabled forceLoad rest)

/-- The unloads of manifests are accepted one after the other. -/
inductive AcceptsUnloads (overrideDisabled forceUnload : Bool) : List String → Sys → Sys → Prop
  | done (s : Sys) : AcceptsUnloads overrideDisabled forceUnload [] s s
  | next {file : String} {rest : List String} {s s₁ s₂ : Sys} :
      Manager.unloadJobAt file overrideDisabled forceUnload s = .ok true s₁ →
      AcceptsUnloads overrideDisabled forceUnload rest s₁ s₂ → AcceptsUnloads overrideDisabled forceUnload (file :: rest) s s₂

def AsksFor (message : Json) (force overrideDisabled : Bool) (paths : List String) : Prop :=
  Rpc.readPaths message = .ok (force, overrideDisabled, .arr (paths.map .str))

def Sys.Lacks (s : Sys) (paths : List String) : Prop := ∃ path ∈ paths, s.kernel.answers.files path = .missing

def Overrides (s : Sys) (message : Json) (enabled : Bool) : Prop :=
  ∃ label s', Rpc.labelArgument message = .ok label ∧ Manager.overrideJobEnabled label enabled s = .ok () s'

/-- The signal is known, and sent to the child of the job. -/
inductive SendsSignal (s : Sys) (message : Json) : Prop
  | intro {label name : String} {signum : Int} {r : Ref} {j : Job} : Rpc.labelArgument message = .ok label →
      Rpc.argument message "Signal" >>= Json.getString = .ok name → getSignalByName name = some signum →
      s.jobs.lookup label = some r → s.heap r = some j → j.pid ≠ 0 → s.kernel.answers.kills.headD true = true →
      SendsSignal s message

/-- Every path is there, and every manifest is accepted. -/
inductive LoadsEvery (s : Sys) (message : Json) : Prop
  | intro {force overrideDisabled : Bool} {paths : List String} {refused : List (List Bool)} {s' : Sys} :
      AsksFor message force overrideDisabled paths → ¬ s.Lacks paths →
      loadsAt s.kernel.answers.files overrideDisabled force paths s = .ok refused s' →
      (∀ flags ∈ refused, true ∉ flags) → LoadsEvery s message

def Removes (s : Sys) (message : Json) : Prop :=
  ∃ label s', Rpc.labelArgument message = .ok label ∧ Manager.unloadJob label false false s = .ok true s'

def Submits (s : Sys) (message : Json) : Prop :=
  ∃ doc s', message.index 1 = .ok doc ∧ Manager.loadManifestDoc doc "/dev/null" false false s = .ok true s'

/-- Every path is there, and every unload is accepted. -/
inductive UnloadsEvery (s : Sys) (message : Json) : Prop
  | intro {force overrideDisabled : Bool} {paths : List String} {s' : Sys} : AsksFor message force overrideDisabled paths →
      ¬ s.Lacks paths → AcceptsUnloads overrideDisabled force (paths.flatMap (manifestsAt s.kernel.answers.files)) s s' →
      UnloadsEvery s message

/-- What the request asks for is done. -/
def Fulfilled (s : Sys) (message : Json) : String → Prop
  | "disable" => Overrides s message false
  | "enable" => Overrides s message true
  | "kill" => SendsSignal s message
  | "load" => LoadsEvery s message
  | "remove" => Removes s message
  | "submit" => Submits s message
  | "unload" => UnloadsEvery s message
  | _ => False

def changing : List String := ["disable", "enable", "kill", "load", "remove", "start", "stop", "submit", "unload"]

/-- The step writes one reply, and the reply to a method that changes the state says that
    there was an error if and only if the request did not succeed. -/
def Replied (s : Sys) (wakeup : Wakeup) (answers : Answers) (message : Json) (method : String) : Prop :=
  ∃ s' reply, step (.handleEvent wakeup answers) s = .ok () s' ∧ s'.replies = s.replies ++ [reply] ∧
    (method ∈ changing → (reply.atKey "error" = .ok (.bool true) ↔ ¬ Fulfilled (s.given answers) message method))

/-! ## When the client is told -/

def Returns (x : M α) (s : Sys) : Prop := ∃ a s', x s = .ok a s'

def Throws (x : M α) (s : Sys) : Prop := ∃ w s', x s = .throw w s'

/-- The manifest is refused without an exception. -/
def Refused (s : Sys) (doc : Json) : Prop :=
  Unfit s doc ∨ ∃ m, Fresh s doc m ∧ (m.disabled = true ∨ Manager.overrideDisables m.label s.stateFile = .ok true)

/-- The job can be unloaded, but its override cannot be read, or its timer not be cancelled. -/
def Stuck (s : Sys) (j : Job) : Prop :=
  j.state ≠ .unloaded ∧ j.unloadRequested = false ∧
    ((∃ w, Job.disabledIn j.manifest s.stateFile = .error (.exn w)) ∨
      (Job.disabledIn j.manifest s.stateFile = .ok false ∧ j.state = .waiting ∧ j.timerId.isSome))

/-- No label is taken from the message. -/
def Illegal (message : Json) : Prop := ∃ fault, Rpc.labelArgument message = .error fault

inductive Childless (s : Sys) (message : Json) : Prop
  | intro {label name : String} {signum : Int} {r : Ref} {j : Job} : Rpc.labelArgument message = .ok label →
      Rpc.argument message "Signal" >>= Json.getString = .ok name → getSignalByName name = some signum →
      s.jobs.lookup label = some r → s.heap r = some j → j.pid = 0 → Childless s message

/-- The unload of the job throws. -/
inductive FailsUnload (s : Sys) (message : Json) : Prop
  | intro {label : String} {r : Ref} {j : Job} : Rpc.labelArgument message = .ok label → s.jobs.lookup label = some r →
      s.heap r = some j → Stuck s j → FailsUnload s message

/-- The override of the manifest's label cannot be read, or the manifest is refused while
    the jobs that an earlier boot left pending fail to boot. -/
inductive FailsSubmit (s : Sys) (message : Json) : Prop
  | lookUp {doc : Json} {m : Manifest} {w : String} : message.index 1 = .ok doc → Fresh s doc m → m.disabled = false →
      Manager.overrideDisables m.label s.stateFile = .error (.exn w) → FailsSubmit s message
  | boot {doc : Json} : message.index 1 = .ok doc → Refused s doc → Throws Manager.startLoaded s → FailsSubmit s message

/-- A path is missing, or some paths have a manifest that is refused and others have none;
    where booting fails, a refused manifest is enough. -/
inductive MixedLoad (s : Sys) (message : Json) : Prop
  | boots {force overrideDisabled : Bool} {paths : List String} {refused : List (List Bool)} {s' : Sys} :
      AsksFor message force overrideDisabled paths →
      loadsAt s.kernel.answers.files overrideDisabled force paths s = .ok refused s' → Returns Manager.startLoaded s' →
      (s.Lacks paths ∨ ((∃ flags ∈ refused, true ∉ flags) ↔ ∃ flags ∈ refused, true ∈ flags)) → MixedLoad s message
  | fails {force overrideDisabled : Bool} {paths : List String} {refused : List (List Bool)} {s' : Sys} :
      AsksFor message force overrideDisabled paths →
      loadsAt s.kernel.answers.files overrideDisabled force paths s = .ok refused s' → Throws Manager.startLoaded s' →
      (s.Lacks paths ∨ ∃ flags ∈ refused, true ∈ flags) → MixedLoad s message

/-- The requests whose replies are right. A start or a stop has no handler. -/
def Told (s : Sys) (message : Json) : String → Prop
  | "disable" | "enable" | "list" | "unload" | "version" => True
  | "kill" => Illegal message ∨ Childless s message
  | "load" => MixedLoad s message
  | "remove" => Illegal message ∨ FailsUnload s message
  | "submit" => FailsSubmit s message
  | _ => False

/-! ## Handlers -/

/-- The client is told whether it is done. -/
def Tells (done : Prop) (res : Res Sys Json) : Prop :=
  ∃ reply, said res = some reply ∧ (reply.atKey "error" = .ok (.bool true) ↔ ¬ done)

theorem errorReply_true (error : Bool) : (Rpc.errorReply error).atKey "error" = .ok (.bool true) ↔ error = true := by
  have herror : (Rpc.errorReply error).atKey "error" = .ok (.bool error) := rfl
  rw [herror]
  cases error <;> simp

theorem tells_ok {error : Bool} {u : Sys} : Tells done (.ok (Rpc.errorReply error) u) ↔ (error = true ↔ ¬ done) := by
  simp only [Tells, said, Option.some.injEq, exists_eq_left', errorReply_true]

theorem tells_throw {w : String} {u : Sys} : Tells done (.throw w u) ↔ ¬ done := by
  simp only [Tells, said, Option.some.injEq, exists_eq_left', errorReply_true, true_iff]

theorem not_tells_crash {w : String} : ¬ Tells done (.crash w) := nofun

/-- A handler that cannot crash tells of an exception; what it returns is left to be shown. -/
theorem tells_bind {x : M α} {f : α → M Json} (hcrash : ∀ w, x s ≠ .crash w) (hthrow : ∀ w u, x s = .throw w u → ¬ done)
    (hok : ∀ a u, x s = .ok a u → Tells done (f a u)) : Tells done ((x >>= f) s) := by
  cases hx : x s with
  | ok a u =>
    rw [bind_ok hx]
    exact hok a u hx
  | throw w u =>
    rw [bind_throw hx]
    exact tells_throw.mpr (hthrow w u hx)
  | crash w => exact absurd hx (hcrash w)

/-- Loading, and then booting. -/
theorem tells_thenStarts {x : M Bool} {error : Bool} {u : Sys} (hx : x s = .ok error u) :
    Tells done ((x >>= fun error => Manager.startLoaded >>= fun _ => return Rpc.errorReply error) s) ↔
      (Returns Manager.startLoaded u ∧ (error = true ↔ ¬ done)) ∨ (Throws Manager.startLoaded u ∧ ¬ done) := by
  rw [bind_ok hx, Returns, Throws]
  cases hs : Manager.startLoaded u with
  | ok a v =>
    have hend : (Manager.startLoaded >>= fun _ => return Rpc.errorReply error) u = .ok (Rpc.errorReply error) v := bind_ok hs
    rw [hend, tells_ok]
    simp
  | throw w v =>
    rw [bind_throw hs, tells_throw]
    simp
  | crash w =>
    rw [bind_crash hs]
    simp [not_tells_crash]

/-- A reading tells of its failure. -/
theorem tells_decode {d : Decode α} {f : α → M Json} (hd : ∀ w, d ≠ .error (.abort w))
    (herror : ∀ fault, d = .error fault → ¬ done) (hok : ∀ a, d = .ok a → Tells done (f a s)) : Tells done ((ofDecode d >>= f) s) := by
  cases hr : d with
  | ok a => exact hok a hr
  | error fault => cases fault with
    | exn w => exact tells_throw.mpr (herror _ hr)
    | abort w => exact absurd hr (hd w)

section Handlers

variable {files : String → Node} {enabled : Bool} {name : String} {r : Ref} {j : Job}

/-- An override is stored, or the client is told that it is not. -/
theorem override_tells (hs : Serving .running files s) (hd : ∀ w, Rpc.labelArgument message ≠ .error (.abort w)) :
    Tells (Overrides s message enabled) ((do
      Manager.overrideJobEnabled (← ofDecode (Rpc.labelArgument message)) enabled
      return Rpc.errorReply false) s) := by
  refine tells_decode hd (fun fault he hdo => ?_) fun label hl => tells_bind (fun w => ?_) (fun w u hw hdo => ?_) fun _ u hok => ?_
  · obtain ⟨label, -, hl, -⟩ := hdo
    rw [he] at hl
    cases hl
  · exact (Withstands.overrideJobEnabled label enabled).not_crash hs w
  · obtain ⟨label', s', hl', hrun⟩ := hdo
    cases hl.symm.trans hl'
    rw [hw] at hrun
    cases hrun
  · exact tells_ok.mpr ⟨nofun, fun hn => absurd ⟨label, u, hl, hok⟩ hn⟩

theorem opDisable_tells (hs : Serving .running files s) (hd : ∀ w, Rpc.labelArgument message ≠ .error (.abort w)) :
    Tells (Overrides s message false) (Rpc.opDisable message s) := override_tells hs hd

theorem opEnable_tells (hs : Serving .running files s) (hd : ∀ w, Rpc.labelArgument message ≠ .error (.abort w)) :
    Tells (Overrides s message true) (Rpc.opEnable message s) := override_tells hs hd

/-! ### Kills -/

theorem jobExists_eq (hne : label.isEmpty = false) : Manager.jobExists label s = .ok (s.jobs.lookup label).isSome s := by
  rw [Manager.jobExists, Label.string, hne]
  rfl

theorem killLabel_missing (hne : label.isEmpty = false) (hr : s.jobs.lookup label = none) :
    Manager.killJob label name s = .ok false s := by
  have hexists : Manager.jobExists label s = .ok false s := by rw [jobExists_eq hne, hr]; rfl
  unfold Manager.killJob
  cases getSignalByName name with
  | none => rfl
  | some signum => exact bind_ok hexists

theorem killLabel_eq {signum : Int} (hne : label.isEmpty = false) (hr : s.jobs.lookup label = some r)
    (hn : getSignalByName name = some signum) : Manager.killJob label name s = Job.killJob r signum s := by
  have hexists : Manager.jobExists label s = .ok true s := by rw [jobExists_eq hne, hr]; rfl
  have hget : Manager.getJob label s = .ok r s := by rw [Manager.getJob, get_bind, hr]; rfl
  rw [Manager.killJob, hn]
  exact (bind_ok hexists).trans (bind_ok hget)

theorem killRef_eq (hj : s.heap r = some j) (signum : Int) :
    ∃ u, Job.killJob r signum s = .ok (j.pid = 0 || s.kernel.answers.kills.headD true) u := by
  rw [Job.killJob, bind_ok (this_ok hj), ite_run]
  by_cases hp : j.pid = 0
  · exact ⟨s, by simp [hp]; rfl⟩
  · exact ⟨_, by simp only [hp, decide_false, Bool.false_or]; rfl⟩

/-- The result of a kill is sent as the error: it is true if the signal was sent. -/
theorem opKill_tells (hs : Serving .running files s) (hd : ∀ w, Rpc.labelArgument message ≠ .error (.abort w))
    (hn : Rpc.argument message "Signal" >>= Json.getString = .ok name) :
    Tells (SendsSignal s message) (Rpc.opKill message s) ↔ Illegal message ∨ Childless s message := by
  cases hl : Rpc.labelArgument message with
  | error fault =>
    have hnot : ¬ SendsSignal s message := by
      intro ⟨hl', _, _, _, _, _, _⟩
      rw [hl] at hl'
      cases hl'
    cases fault with
    | abort w => exact absurd hl (hd w)
    | exn w =>
      have hrun : Rpc.opKill message s = .throw w s := by rw [Rpc.opKill, hl]; rfl
      rw [hrun, tells_throw]
      exact iff_of_true hnot (.inl ⟨_, hl⟩)
  | ok label =>
    have hne : label.isEmpty = false := labelArgument_set hl
    have hop : ∀ {b u}, Manager.killJob label name s = .ok b u → Rpc.opKill message s = .ok (Rpc.errorReply b) u := by
      intro b u hkill
      rw [Rpc.opKill, hl, hn]
      exact bind_ok hkill
    have htold : Illegal message ∨ Childless s message ↔ (getSignalByName name).isSome ∧
        ∃ r j, s.jobs.lookup label = some r ∧ s.heap r = some j ∧ j.pid = 0 := by
      constructor
      · intro h
        rcases h with ⟨fault, hl'⟩ | ⟨hl', hn', hsig, hr, hj, hp⟩
        · rw [hl] at hl'
          cases hl'
        · cases hl.symm.trans hl'
          cases hn.symm.trans hn'
          exact ⟨by rw [hsig]; rfl, _, _, hr, hj, hp⟩
      · intro ⟨hsig, r, j, hr, hj, hp⟩
        obtain ⟨signum, hsig⟩ := Option.isSome_iff_exists.mp hsig
        exact .inr ⟨hl, hn, hsig, hr, hj, hp⟩
    have hdone : SendsSignal s message ↔ (getSignalByName name).isSome ∧
        ∃ r j, s.jobs.lookup label = some r ∧ s.heap r = some j ∧ j.pid ≠ 0 ∧ s.kernel.answers.kills.headD true = true := by
      constructor
      · intro ⟨hl', hn', hsig, hr, hj, hp, hk⟩
        cases hl.symm.trans hl'
        cases hn.symm.trans hn'
        exact ⟨by rw [hsig]; rfl, _, _, hr, hj, hp, hk⟩
      · intro ⟨hsig, r, j, hr, hj, hp, hk⟩
        obtain ⟨signum, hsig⟩ := Option.isSome_iff_exists.mp hsig
        exact ⟨hl, hn, hsig, hr, hj, hp, hk⟩
    rw [htold]
    cases hr : s.jobs.lookup label with
    | none =>
      rw [hop (killLabel_missing hne hr), tells_ok, hdone, hr]
      simp
    | some r =>
      obtain ⟨j, hj, -⟩ := hs.inv.owned.stored label r hr
      have hj : s.heap r = some j := hj
      cases hsig : getSignalByName name with
      | none =>
        have hkill : Manager.killJob label name s = .ok false s := by rw [Manager.killJob, hsig]; rfl
        rw [hop hkill, tells_ok, hdone, hsig]
        simp
      | some signum =>
        obtain ⟨u, hkill⟩ := killRef_eq hj signum
        rw [hop ((killLabel_eq hne hr hsig).trans hkill), tells_ok, hdone, hsig, hr]
        have hjob : ∀ P : Job → Prop, (∃ r' j', some r = some r' ∧ s.heap r' = some j' ∧ P j') ↔ P j := by
          intro P
          constructor
          · intro ⟨r', j', he, hj', hp⟩
            cases he
            cases hj.symm.trans hj'
            exact hp
          · exact fun hp => ⟨r, j, rfl, hj, hp⟩
        simp only [Option.isSome_some, true_and, hjob]
        by_cases hp : j.pid = 0 <;> simp [hp]

/-! ### Removals -/

theorem unloadLabel_missing (hne : label.isEmpty = false) (hr : s.jobs.lookup label = none) :
    Manager.unloadJob label false false s = .ok false s := by
  have hexists : Manager.jobExists label s = .ok false s := by rw [jobExists_eq hne, hr]; rfl
  rw [Manager.unloadJob]
  exact bind_ok hexists

theorem unloadLabel_stored (hs : Serving .running files s) (hne : label.isEmpty = false) (hr : s.jobs.lookup label = some r) :
    Manager.unloadJob label false false s = Job.unloadJob r false s := by
  obtain ⟨j, hj, hlabel, -⟩ := hs.inv.owned.stored label r hr
  have hj : s.heap r = some j := hj
  rw [unloadLabel_eq hr hne, unloadJobRef_eq hj, show j.label = label from hlabel, hr]
  rfl

theorem Serving.ranged (hs : Serving .running files s) (id : Nat) (fd : Fd) (h : s.timers.fds.lookup id = some fd) : timerEpfd < fd :=
  hs.inv.timed.range fd (hs.inv.timed.fds id fd h).2

theorem unloadJob_throws (hj : s.heap r = some j) (hr : ∀ id fd, s.timers.fds.lookup id = some fd → timerEpfd < fd) :
    Throws (Job.unloadJob r false) s ↔ Stuck s j := by
  rw [Throws, Stuck]
  by_cases hi : j.state = .unloaded ∨ j.unloadRequested = true
  · rw [unloadJob_ignored hj hi]
    apply iff_of_false (by simp)
    intro h'
    obtain ⟨hs, hu, -⟩ := h'
    rw [hu] at hi
    exact hi.elim hs (by simp)
  rw [not_or, Bool.not_eq_true] at hi
  have hasked : (s.asked r).heap r = some { j with unloadRequested := true } := Sys.updateJob_self hj
  rw [unloadJob_eq hj hi.1 hi.2]
  cases hd : Job.disabledIn j.manifest s.stateFile with
  | error fault => cases fault with
    | exn w => exact iff_of_true ⟨w, _, rfl⟩ ⟨hi.1, hi.2, .inl ⟨w, rfl⟩⟩
    | abort w => exact absurd (disabledIn_faults _ _ hd) (by simp [Json.exceptions])
  | ok disabled => cases disabled with
    | true =>
      apply iff_of_false (by simp)
      intro h'
      obtain ⟨-, -, h⟩ := h'
      exact h.elim (by simp) fun h => by cases h.1
    | false =>
      show (∃ w u, carryOut r (s.asked r) = .throw w u) ↔ _
      by_cases hw : j.state = .waiting ∧ j.timerId.isSome
      · obtain ⟨id, hid⟩ := Option.isSome_iff_exists.mp hw.2
        obtain ⟨w, s', hrun, -⟩ := carryOut_throws hasked hw.1 hid fun fd hfd => hr id fd hfd
        exact iff_of_true ⟨w, s', hrun⟩ ⟨hi.1, hi.2, .inr ⟨rfl, hw⟩⟩
      · have hreturns : wp (carryOut r) (fun b _ => b = true) (fun _ => False) (s.asked r) := carryOut_returns hasked hw
        constructor
        · intro h'
          obtain ⟨w, u, hrun⟩ := h'
          unfold wp at hreturns
          rw [hrun] at hreturns
          exact hreturns.elim
        · intro h'
          obtain ⟨-, -, h⟩ := h'
          exact h.elim (by simp) fun h => absurd h.2 hw

/-- The result of an unload is sent as the error: it is true if the unload was accepted. -/
theorem opRemove_tells (hs : Serving .running files s) (hd : ∀ w, Rpc.labelArgument message ≠ .error (.abort w)) :
    Tells (Removes s message) (Rpc.opRemove message s) ↔ Illegal message ∨ FailsUnload s message := by
  cases hl : Rpc.labelArgument message with
  | error fault =>
    have hnot : ¬ Removes s message := by
      intro ⟨_, _, hl', _⟩
      rw [hl] at hl'
      cases hl'
    cases fault with
    | abort w => exact absurd hl (hd w)
    | exn w =>
      have hrun : Rpc.opRemove message s = .throw w s := by rw [Rpc.opRemove, hl]; rfl
      rw [hrun, tells_throw]
      exact iff_of_true hnot (.inl ⟨_, hl⟩)
  | ok label =>
    have hne : label.isEmpty = false := labelArgument_set hl
    have hrun : Rpc.opRemove message s = (Manager.unloadJob label false false >>= fun ok => return Rpc.errorReply ok) s := by
      rw [Rpc.opRemove, hl]
      rfl
    have hdone : Removes s message ↔ ∃ s', Manager.unloadJob label false false s = .ok true s' := by
      constructor
      · intro ⟨label', s', hl', h⟩
        cases hl.symm.trans hl'
        exact ⟨s', h⟩
      · exact fun ⟨s', h⟩ => ⟨label, s', hl, h⟩
    have htold : Illegal message ∨ FailsUnload s message ↔ Throws (Manager.unloadJob label false false) s := by
      constructor
      · intro h'
        rcases h' with ⟨fault, hl'⟩ | ⟨hl', hr, hj, hstuck⟩
        · rw [hl] at hl'
          cases hl'
        · cases hl.symm.trans hl'
          obtain ⟨w, u, h⟩ := (unloadJob_throws hj hs.ranged).mpr hstuck
          exact ⟨w, u, (unloadLabel_stored hs hne hr).trans h⟩
      · intro ⟨w, u, h⟩
        cases hr : s.jobs.lookup label with
        | none => rw [unloadLabel_missing hne hr] at h; cases h
        | some r =>
          obtain ⟨j, hj, -⟩ := hs.inv.owned.stored label r hr
          rw [unloadLabel_stored hs hne hr] at h
          exact .inr ⟨hl, hr, hj, (unloadJob_throws hj hs.ranged).mp ⟨w, u, h⟩⟩
    rw [hrun, htold, hdone, Throws]
    cases h : Manager.unloadJob label false false s with
    | ok ok u =>
      rw [bind_ok h]
      refine iff_of_false (fun ht => ?_) nofun
      have hiff := tells_ok.mp ht
      cases ok with
      | true => exact hiff.mp rfl ⟨u, rfl⟩
      | false => exact absurd (hiff.mpr nofun) nofun
    | throw w u =>
      rw [bind_throw h, tells_throw]
      exact iff_of_true nofun ⟨w, u, rfl⟩
    | crash w => exact absurd h ((Withstands.unloadJob hne false false).not_crash hs w)

/-! ### Submissions -/

/-- A manifest that is refused without an exception. -/
theorem submit_refused {ok : Bool} (hx : Manager.loadManifestDoc doc "/dev/null" false false s = .ok ok s) (hok : ok = false) :
    Tells (∃ s', Manager.loadManifestDoc doc "/dev/null" false false s = .ok true s')
      ((Manager.loadManifestDoc doc "/dev/null" false false >>= fun ok => Manager.startLoaded >>= fun _ => return Rpc.errorReply ok) s) ↔
      Throws Manager.startLoaded s := by
  subst hok
  rw [tells_thenStarts hx, hx]
  simp

/-- A submission is told of if an exception makes the reply, but for one that is accepted. -/
theorem submit_tells (hs : s.state = .running) :
    Tells (∃ s', Manager.loadManifestDoc doc "/dev/null" false false s = .ok true s')
      ((Manager.loadManifestDoc doc "/dev/null" false false >>= fun ok => Manager.startLoaded >>= fun _ => return Rpc.errorReply ok) s) ↔
      (∃ m w, Fresh s doc m ∧ m.disabled = false ∧ Manager.overrideDisables m.label s.stateFile = .error (.exn w)) ∨
        (Refused s doc ∧ Throws Manager.startLoaded s) := by
  have hg : s.state ≠ .gracefulShutdown := by rw [hs]; nofun
  rcases unfit_or_fresh s doc with hunfit | ⟨m, hfresh⟩ | ⟨-, w, hw⟩
  · rw [submit_refused (loadManifestDoc_unfit hunfit) rfl]
    exact ⟨fun h => .inr ⟨.inl hunfit, h⟩, fun h => h.elim (fun ⟨m, w, hf, _⟩ => absurd hf hunfit.not_fresh) And.right⟩
  · have hsame : ∀ m', Fresh s doc m' → m' = m := fun m' hf => Except.ok.inj (hf.decoded.symm.trans hfresh.decoded)
    have hrefused : Refused s doc ↔ m.disabled = true ∨ Manager.overrideDisables m.label s.stateFile = .ok true := by
      constructor
      · intro h'
        rcases h' with h | ⟨m', hf, h⟩
        · exact absurd hfresh h.not_fresh
        · exact hsame m' hf ▸ h
      · exact fun h => .inr ⟨m, hfresh, h⟩
    have hthrows : (∃ m w, Fresh s doc m ∧ m.disabled = false ∧ Manager.overrideDisables m.label s.stateFile = .error (.exn w)) ↔
        m.disabled = false ∧ ∃ w, Manager.overrideDisables m.label s.stateFile = .error (.exn w) := by
      constructor
      · intro ⟨m', w, hf, hd, hw⟩
        obtain rfl := hsame m' hf
        exact ⟨hd, w, hw⟩
      · exact fun ⟨hd, w, hw⟩ => ⟨m, w, hfresh, hd, hw⟩
    have hload : Manager.loadManifestDoc doc "/dev/null" false false s = accept m "/dev/null" false s := loadManifestDoc_fresh hfresh
    rw [hrefused, hthrows]
    by_cases hd : m.disabled = true
    · rw [submit_refused (hload.trans (accept_disabled hd rfl)) rfl]
      simp [hd]
    rw [Bool.not_eq_true] at hd
    have hforce : m.disabled = true → false = true := fun h => absurd (hd.symm.trans h) nofun
    have haccept : accept m "/dev/null" false s = _ := accept_eq hforce
    cases ho : Manager.overrideDisables m.label s.stateFile with
    | error fault => cases fault with
      | exn w =>
        rw [ho] at haccept
        rw [bind_throw (hload.trans haccept), tells_throw, hload, haccept]
        exact iff_of_true nofun (.inl ⟨hd, w, rfl⟩)
      | abort w =>
        rw [ho] at haccept
        rw [bind_crash (hload.trans haccept)]
        exact iff_of_false not_tells_crash fun h => h.elim (fun h => nomatch h.2) fun h => h.1.elim (fun h => nomatch hd.symm.trans h) nofun
    | ok disabled => cases disabled with
      | true =>
        rw [ho] at haccept
        rw [submit_refused (hload.trans haccept) rfl]
        simp
      | false =>
        rw [ho] at haccept
        rw [tells_thenStarts (hload.trans haccept), hload, haccept]
        simp [hd]
  · rw [bind_crash (loadManifestDoc_abort hg hw)]
    apply iff_of_false not_tells_crash
    intro h'
    rcases h' with ⟨m, _, hf, -⟩ | ⟨h | ⟨m, hf, -⟩, -⟩
    · cases hw.symm.trans hf.decoded
    · cases h with
      | stopping h => exact hg h
      | malformed w' h => cases hw.symm.trans h
      | duplicate m h => cases hw.symm.trans h
    · cases hw.symm.trans hf.decoded

theorem opSubmit_tells (hs : Serving .running files s) (hdoc : message.index 1 = .ok doc) :
    Tells (Submits s message) (Rpc.opSubmit message s) ↔ FailsSubmit s message := by
  have hrun : Rpc.opSubmit message s = (Manager.loadManifestDoc doc "/dev/null" false false >>= fun ok =>
      Manager.startLoaded >>= fun _ => return Rpc.errorReply ok) s := by
    rw [Rpc.opSubmit, hdoc]
    rfl
  have hdone : Submits s message ↔ ∃ s', Manager.loadManifestDoc doc "/dev/null" false false s = .ok true s' := by
    constructor
    · intro h'
      obtain ⟨doc', s', hdoc', h⟩ := h'
      cases hdoc.symm.trans hdoc'
      exact ⟨s', h⟩
    · intro h'
      obtain ⟨s', h⟩ := h'
      exact ⟨doc, s', hdoc, h⟩
  rw [hrun, hdone, submit_tells hs.state]
  constructor
  · intro h'
    rcases h' with ⟨m, w, hf, hd, hw⟩ | ⟨hr, ht⟩
    · exact .lookUp hdoc hf hd hw
    · exact .boot hdoc hr ht
  · intro h'
    rcases h' with ⟨hdoc', hf, hd, hw⟩ | ⟨hdoc', hr, ht⟩
    · cases hdoc.symm.trans hdoc'
      exact .inl ⟨_, _, hf, hd, hw⟩
    · cases hdoc.symm.trans hdoc'
      exact .inr ⟨hr, ht⟩

/-! ### Loads -/

section Loads

variable {overrideDisabled force : Bool} {paths : List String} {refused : List (List Bool)}

theorem loadEach_eq (error : Bool) (entries : List String) : Manager.loadEach overrideDisabled force error entries s =
    (loadsEach overrideDisabled force entries >>= fun flags => return error || flags.any id) s := by
  induction entries generalizing s error with
  | nil =>
    rw [Manager.loadEach, loadsEach]
    simp [bind, andThen, pure, ret]
  | cons file rest ih =>
    rw [Manager.loadEach, loadsEach, Prog.bind_assoc]
    cases hfile : Manager.loadOne file overrideDisabled force s with
    | throw | crash => simp only [bind, andThen, hfile]
    | ok failed u =>
      rw [bind_ok hfile, bind_ok hfile, ih, Prog.bind_assoc]
      cases hrest : loadsEach overrideDisabled force rest u with
      | throw | crash => simp only [bind, andThen, hrest]
      | ok flags v =>
        rw [bind_ok hrest, bind_ok hrest]
        simp [bind, andThen, pure, ret, Bool.or_assoc]

/-- The error of a path is that of its manifests; one that is missing has none. -/
theorem loadAllManifests_flags (hs : Serving .running files s) (path : String) : Manager.loadAllManifests path overrideDisabled force s =
    (loadsEach overrideDisabled force (manifestsAt files path) >>= fun flags => return flags.any id) s := by
  rw [loadAllManifests_eq hs nofun, manifestsAt]
  cases files path with
  | missing => rfl
  | directory entries =>
    dsimp only
    rw [loadEach_eq]
    simp only [Bool.false_or]
  | file doc =>
    dsimp only
    rw [loadsEach, Prog.bind_assoc]
    cases hfile : Manager.loadOne path overrideDisabled force s with
    | throw | crash => simp only [bind, andThen, hfile]
    | ok failed u =>
      rw [bind_ok hfile]
      simp [loadsEach, bind, andThen, pure, ret]

theorem loadPaths_returns (hs : Serving .running files s) (error : Bool) : wp (Rpc.loadPaths overrideDisabled force error (paths.map .str))
    (fun _ => Serving .running files) (fun _ => False) s := by
  induction paths generalizing s error with
  | nil => exact hs
  | cons path rest ih =>
    rw [List.map_cons, Rpc.loadPaths, wp_bind]
    show wp (Manager.loadAllManifests path overrideDisabled force >>= fun ok =>
      Rpc.loadPaths overrideDisabled force (error || !ok) (rest.map .str)) _ _ s
    rw [wp_bind]
    exact wp_mono (loadAllManifests_returns hs (by simp)) (fun ok u hu => ih hu _) fun _ => id

/-- A path whose manifests are all accepted is taken for an error. -/
theorem loadPaths_flags (hs : Serving .running files s) (error : Bool) : Rpc.loadPaths overrideDisabled force error (paths.map .str) s =
    (loadsAt files overrideDisabled force paths >>= fun refused => return error || refused.any fun flags => !flags.any id) s := by
  induction paths generalizing s error with
  | nil =>
    rw [List.map_nil, Rpc.loadPaths, loadsAt]
    simp [bind, andThen, pure, ret]
  | cons path rest ih =>
    have hall : Manager.loadAllManifests path overrideDisabled force s =
        (loadsEach overrideDisabled force (manifestsAt files path) >>= fun flags => return flags.any id) s := loadAllManifests_flags hs path
    show (Manager.loadAllManifests path overrideDisabled force >>= fun ok =>
      Rpc.loadPaths overrideDisabled force (error || !ok) (rest.map .str)) s = _
    rw [loadsAt, Prog.bind_assoc]
    cases hpath : loadsEach overrideDisabled force (manifestsAt files path) s with
    | throw | crash =>
      simp only [bind, andThen, hpath] at hall ⊢
      rw [hall]
    | ok flags u =>
      rw [bind_ok hpath] at hall
      have hall : Manager.loadAllManifests path overrideDisabled force s = .ok (flags.any id) u := hall
      have hu : Serving .running files u :=
        wp_ok (Q := fun _ => Serving .running files) (loadAllManifests_returns hs (by simp)) hall
      rw [bind_ok hall, bind_ok hpath, ih hu, Prog.bind_assoc]
      cases hrest : loadsAt files overrideDisabled force rest u with
      | throw | crash => simp only [bind, andThen, hrest]
      | ok refused v =>
        rw [bind_ok hrest, bind_ok hrest]
        simp [bind, andThen, pure, ret, Bool.or_assoc]

/-- A path that is missing has no manifest that could be refused. -/
theorem loadsAt_missing {path : String} (hp : path ∈ paths) (hf : files path = .missing)
    (h : loadsAt files overrideDisabled force paths s = .ok refused s') : [] ∈ refused := by
  induction paths generalizing s refused with
  | nil => cases hp
  | cons path' rest ih =>
    rw [loadsAt] at h
    cases hpath : loadsEach overrideDisabled force (manifestsAt files path') s with
    | throw | crash => simp only [bind, andThen, hpath] at h; cases h
    | ok flags u =>
      rw [bind_ok hpath] at h
      cases hrest : loadsAt files overrideDisabled force rest u with
      | throw | crash => simp only [bind, andThen, hrest] at h; cases h
      | ok refused' v =>
        rw [bind_ok hrest] at h
        cases h
        rcases List.mem_cons.mp hp with rfl | hp
        · rw [manifestsAt, hf] at hpath
          cases hpath
          exact List.mem_cons_self
        · exact List.mem_cons_of_mem _ (ih hp hrest)

theorem AsksFor.read (h : AsksFor message force overrideDisabled paths) :
    (Rpc.argument message "Force" >>= Json.getBool) = .ok force ∧
      (Rpc.argument message "OverrideDisabled" >>= Json.getBool) = .ok overrideDisabled ∧
      Rpc.argument message "Paths" = .ok (.arr (paths.map .str)) := by
  obtain ⟨force', hforce, h⟩ := bind_eq_ok.mp h
  obtain ⟨overrideDisabled', hoverride, h⟩ := bind_eq_ok.mp h
  obtain ⟨list, hpaths, h⟩ := bind_eq_ok.mp h
  cases h
  exact ⟨hforce, hoverride, hpaths⟩

theorem AsksFor.eq {overrideDisabled' force' : Bool} {paths' : List String} (h : AsksFor message force overrideDisabled paths)
    (h' : AsksFor message force' overrideDisabled' paths') :
    force' = force ∧ overrideDisabled' = overrideDisabled ∧ paths' = paths := by
  have he := Except.ok.inj (h'.symm.trans h)
  simp only [Prod.mk.injEq, Json.arr.injEq] at he
  refine ⟨he.1, he.2.1, List.map_injective_iff.mpr (fun a b hab => ?_) he.2.2⟩
  exact Json.str.inj hab

/-- The reply to a load is the opposite of what happened, except for paths that are missing. -/
theorem opLoad_tells (hs : Serving .running files s) (ha : AsksFor message force overrideDisabled paths) :
    Tells (LoadsEvery s message) (Rpc.opLoad message s) ↔ MixedLoad s message := by
  obtain ⟨hforce, hoverride, hpaths⟩ := ha.read
  have hrun : Rpc.opLoad message s = (Rpc.loadPaths overrideDisabled force false (paths.map .str) >>= fun error =>
      Manager.startLoaded >>= fun _ => return Rpc.errorReply error) s := by
    rw [Rpc.opLoad, hforce, hoverride, hpaths]
    rfl
  have hflags : Rpc.loadPaths overrideDisabled force false (paths.map .str) s = _ := loadPaths_flags hs false
  rw [hrun]
  cases hload : loadsAt files overrideDisabled force paths s with
  | crash w =>
    rw [bind_crash hload] at hflags
    rw [bind_crash hflags]
    apply iff_of_false not_tells_crash
    intro h'
    rcases h' with ⟨ha', h, -⟩ | ⟨ha', h, -⟩
    all_goals
      obtain ⟨rfl, rfl, rfl⟩ := ha.eq ha'
      rw [hs.files, hload] at h
      cases h
  | throw w u =>
    have hreturns : wp (Rpc.loadPaths overrideDisabled force false (paths.map .str)) _ _ s := loadPaths_returns hs false
    rw [bind_throw hload] at hflags
    unfold wp at hreturns
    rw [hflags] at hreturns
    exact hreturns.elim
  | ok refused u =>
    rw [bind_ok hload] at hflags
    have herror : (false || refused.any fun flags => !flags.any id) = true ↔ ∃ flags ∈ refused, true ∉ flags := by simp
    have hlacks : s.Lacks paths → ∃ flags ∈ refused, true ∉ flags := by
      intro h'
      obtain ⟨path, hp, hf⟩ := h'
      exact ⟨[], loadsAt_missing hp (hs.files ▸ hf) hload, List.not_mem_nil⟩
    have hdone : ¬ LoadsEvery s message ↔ s.Lacks paths ∨ ∃ flags ∈ refused, true ∈ flags := by
      rw [not_iff_comm, not_or]
      constructor
      · intro h'
        obtain ⟨hl, hn⟩ := h'
        refine ⟨ha, hl, by rw [hs.files]; exact hload, fun flags hm ht => hn ⟨flags, hm, ht⟩⟩
      · intro h'
        obtain ⟨ha', hl, h, hn⟩ := h'
        obtain ⟨rfl, rfl, rfl⟩ := ha.eq ha'
        rw [hs.files, hload] at h
        cases h
        refine ⟨hl, ?_⟩
        intro h'
        obtain ⟨flags, hm, ht⟩ := h'
        exact hn flags hm ht
    have htold : MixedLoad s message ↔
        (Returns Manager.startLoaded u ∧ (s.Lacks paths ∨ ((∃ flags ∈ refused, true ∉ flags) ↔ ∃ flags ∈ refused, true ∈ flags))) ∨
          (Throws Manager.startLoaded u ∧ (s.Lacks paths ∨ ∃ flags ∈ refused, true ∈ flags)) := by
      constructor
      · intro h'
        rcases h' with ⟨ha', h, hb, hm⟩ | ⟨ha', h, hb, hm⟩
        all_goals
          obtain ⟨rfl, rfl, rfl⟩ := ha.eq ha'
          rw [hs.files, hload] at h
          cases h
        · exact .inl ⟨hb, hm⟩
        · exact .inr ⟨hb, hm⟩
      · intro h'
        rcases h' with ⟨hb, hm⟩ | ⟨hb, hm⟩
        · exact .boots ha (by rw [hs.files]; exact hload) hb hm
        · exact .fails ha (by rw [hs.files]; exact hload) hb hm
    rw [tells_thenStarts hflags, herror, hdone, htold]
    have hmixed : ((∃ flags ∈ refused, true ∉ flags) ↔ s.Lacks paths ∨ ∃ flags ∈ refused, true ∈ flags) ↔
        (s.Lacks paths ∨ ((∃ flags ∈ refused, true ∉ flags) ↔ ∃ flags ∈ refused, true ∈ flags)) := by
      by_cases hl : s.Lacks paths
      · simp only [hl, true_or, iff_true]
        exact hlacks hl
      · simp only [hl, false_or]
    rw [hmixed]

/-! ### Unloads -/

theorem acceptsUnloads_append {files₁ files₂ : List String} :
    AcceptsUnloads overrideDisabled force (files₁ ++ files₂) s s' ↔
      ∃ u, AcceptsUnloads overrideDisabled force files₁ s u ∧ AcceptsUnloads overrideDisabled force files₂ u s' := by
  induction files₁ generalizing s with
  | nil =>
    constructor
    · exact fun h => ⟨s, .done s, h⟩
    · intro hm
      obtain ⟨u, h, h'⟩ := hm
      cases h
      exact h'
  | cons file rest ih =>
    constructor
    · intro h
      cases h with
      | next hfile hrest =>
        obtain ⟨u, h₁, h₂⟩ := ih.mp hrest
        exact ⟨u, .next hfile h₁, h₂⟩
    · intro hm
      obtain ⟨u, h, h'⟩ := hm
      cases h with
      | next hfile hrest => exact .next hfile (ih.mpr ⟨u, hrest, h'⟩)

/-- What follows an unload that is accepted. -/
theorem acceptsUnloads_cons {file : String} {rest : List String} : AcceptsUnloads overrideDisabled force (file :: rest) s s' ↔
    ∃ u, Manager.unloadJobAt file overrideDisabled force s = .ok true u ∧ AcceptsUnloads overrideDisabled force rest u s' := by
  constructor
  · intro h
    cases h with
    | next hfile hrest => exact ⟨_, hfile, hrest⟩
  · exact fun ⟨u, hfile, hrest⟩ => .next hfile hrest

theorem unloadEntries_accepts {entries : List String} : Rpc.unloadEntries overrideDisabled force entries s = .ok false s' ↔
    AcceptsUnloads overrideDisabled force entries s s' := by
  induction entries generalizing s with
  | nil =>
    constructor
    · intro h
      cases h
      exact .done _
    · intro h
      cases h
      rfl
  | cons file rest ih =>
    rw [Rpc.unloadEntries, acceptsUnloads_cons]
    cases hfile : Manager.unloadJobAt file overrideDisabled force s with
    | throw w u =>
      rw [bind_throw hfile]
      exact iff_of_false nofun fun ⟨_, h, _⟩ => nomatch h
    | crash w =>
      rw [bind_crash hfile]
      exact iff_of_false nofun fun ⟨_, h, _⟩ => nomatch h
    | ok accepted u =>
      rw [bind_ok hfile]
      cases accepted with
      | false => exact iff_of_false nofun fun ⟨_, h, _⟩ => nomatch h
      | true =>
        rw [if_pos rfl, ih]
        exact ⟨fun h => ⟨u, rfl, h⟩, fun ⟨u', he, h⟩ => by cases he; exact h⟩

/-- The loop over the paths finds no error exactly if every unload is accepted. -/
theorem unloadPaths_accepts (hs : Serving .running files s) (isError : Bool) :
    Rpc.unloadPaths overrideDisabled force isError (paths.map .str) s = .ok false s' ↔
      isError = false ∧ (∀ path ∈ paths, files path ≠ .missing) ∧
        AcceptsUnloads overrideDisabled force (paths.flatMap (manifestsAt files)) s s' := by
  induction paths generalizing s isError with
  | nil =>
    constructor
    · intro h
      cases h
      exact ⟨rfl, nofun, .done _⟩
    · intro hm
      obtain ⟨rfl, -, h⟩ := hm
      cases h
      rfl
  | cons path rest ih =>
    have hrun : Rpc.unloadPaths overrideDisabled force isError ((path :: rest).map .str) s =
        (match files path with
          | .missing => return true
          | .directory entries => do
            let failed ← Rpc.unloadEntries overrideDisabled force entries
            Rpc.unloadPaths overrideDisabled force (isError || failed) (rest.map .str)
          | .file _ => do
            if ← Manager.unloadJobAt path overrideDisabled force then
              Rpc.unloadPaths overrideDisabled force isError (rest.map .str)
            else return true : M Bool) s := by
      rw [← hs.files]
      rfl
    have hserves : ∀ {β : Type} {x : M β} {b u}, Withstands files x → x s = .ok b u → Serving .running files u := fun hx hok =>
      wp_ok (Q := fun _ => Serving .running files) (ends_iff.mp (hx s hs)).1 hok
    rw [hrun, List.flatMap_cons, acceptsUnloads_append, List.forall_mem_cons, manifestsAt]
    cases hpath : files path with
    | missing => exact iff_of_false nofun fun h => h.2.1.1 rfl
    | directory entries =>
      dsimp only
      cases hentries : Rpc.unloadEntries overrideDisabled force entries s with
      | throw w u =>
        rw [bind_throw hentries]
        refine iff_of_false nofun fun ⟨_, _, u', h, _⟩ => ?_
        cases hentries.symm.trans (unloadEntries_accepts.mpr h)
      | crash w =>
        rw [bind_crash hentries]
        refine iff_of_false nofun fun ⟨_, _, u', h, _⟩ => ?_
        cases hentries.symm.trans (unloadEntries_accepts.mpr h)
      | ok failed u =>
        rw [bind_ok hentries, ih (hserves (Withstands.unloadEntries _ _ _) hentries)]
        constructor
        · intro hm
          obtain ⟨herror, hrest, h⟩ := hm
          rw [Bool.or_eq_false_iff] at herror
          obtain ⟨rfl, rfl⟩ := herror
          exact ⟨rfl, ⟨nofun, hrest⟩, u, unloadEntries_accepts.mp hentries, h⟩
        · intro hm
          obtain ⟨rfl, ⟨-, hrest⟩, u', h, h'⟩ := hm
          cases hentries.symm.trans (unloadEntries_accepts.mpr h)
          exact ⟨rfl, hrest, h'⟩
    | file doc =>
      dsimp only
      have hone : ∀ {u}, AcceptsUnloads overrideDisabled force [path] s u ↔
          Manager.unloadJobAt path overrideDisabled force s = .ok true u := by
        intro u
        rw [acceptsUnloads_cons]
        constructor
        · intro hm
          obtain ⟨u', hfile, h⟩ := hm
          cases h
          exact hfile
        · exact fun hfile => ⟨u, hfile, .done u⟩
      simp only [hone]
      cases hfile : Manager.unloadJobAt path overrideDisabled force s with
      | throw w u =>
        rw [bind_throw hfile]
        exact iff_of_false nofun fun ⟨_, _, _, h, _⟩ => nomatch h
      | crash w =>
        rw [bind_crash hfile]
        exact iff_of_false nofun fun ⟨_, _, _, h, _⟩ => nomatch h
      | ok accepted u =>
        rw [bind_ok hfile]
        cases accepted with
        | false => exact iff_of_false nofun fun ⟨_, _, _, h, _⟩ => nomatch h
        | true =>
          rw [if_pos rfl, ih (hserves (Withstands.unloadJobAt _ _ _) hfile)]
          constructor
          · exact fun ⟨herror, hrest, h⟩ => ⟨herror, ⟨nofun, hrest⟩, u, rfl, h⟩
          · intro hm
            obtain ⟨herror, ⟨-, hrest⟩, u', he, h⟩ := hm
            cases he
            exact ⟨herror, hrest, h⟩

theorem opUnload_tells (hs : Serving .running files s) (ha : AsksFor message force overrideDisabled paths) :
    Tells (UnloadsEvery s message) (Rpc.opUnload message s) := by
  obtain ⟨hforce, hoverride, hpaths⟩ := ha.read
  have hrun : Rpc.opUnload message s = (Rpc.unloadPaths overrideDisabled force false (paths.map .str) >>= fun isError =>
      return Rpc.errorReply isError) s := by
    rw [Rpc.opUnload, hforce, hoverride, hpaths]
    rfl
  have hdone : UnloadsEvery s message ↔ ∃ s', Rpc.unloadPaths overrideDisabled force false (paths.map .str) s = .ok false s' := by
    constructor
    · intro h'
      obtain ⟨ha', hl, h⟩ := h'
      obtain ⟨rfl, rfl, rfl⟩ := ha.eq ha'
      rw [hs.files] at h
      refine ⟨_, (unloadPaths_accepts hs false).mpr ⟨rfl, fun path hp hf => hl ⟨path, hp, ?_⟩, h⟩⟩
      rw [hs.files]
      exact hf
    · intro h'
      obtain ⟨s', h⟩ := h'
      obtain ⟨-, hl, h⟩ := (unloadPaths_accepts hs false).mp h
      refine ⟨ha, fun ⟨path, hp, hf⟩ => hl path hp (hs.files ▸ hf), by rw [hs.files]; exact h⟩
  rw [hrun, hdone]
  refine tells_bind (fun w => (Withstands.unloadPaths _ _ _ _).not_crash hs w) (fun w u hw ⟨s', h⟩ => ?_) fun isError u hok => ?_
  · rw [hw] at h
    cases h
  · apply tells_ok.mpr
    rw [hok]
    cases isError <;> simp

end Loads

/-! ## Requests -/

/-- The request gets one reply, and the reply is right. -/
def Answered (s : Sys) (message : Json) (method : String) : Prop :=
  ∃ s' reply, Rpc.rpcDispatch (some message) s = .ok () s' ∧ s'.replies = s.replies ++ [reply] ∧
    (method ∈ changing → (reply.atKey "error" = .ok (.bool true) ↔ ¬ Fulfilled s message method))

theorem silent_handler {handler : Json → M Json} (hh : Rpc.handlerFor message = .ok handler) : Traced Silent (handler message) :=
  Traced.handlerFor (fun _ _ => nofun) hh (fun _ => nofun) message

theorem answered_changing {handler : Json → M Json} (hh : Rpc.handlerFor message = .ok handler) (hm : method ∈ changing) :
    Answered s message method ↔ s.CanWrite ∧ Tells (Fulfilled s message method) (handler message s) := by
  constructor
  · intro h
    obtain ⟨s', reply, hrun, hreply, herror⟩ := h
    obtain ⟨hw, hsaid⟩ := (rpcDispatch_said hh (silent_handler hh)).mp ⟨s', hrun, hreply⟩
    exact ⟨hw, reply, hsaid, herror hm⟩
  · intro h
    obtain ⟨hw, reply, hsaid, herror⟩ := h
    obtain ⟨s', hrun, hreply⟩ := (rpcDispatch_said hh (silent_handler hh)).mpr ⟨hw, hsaid⟩
    exact ⟨s', reply, hrun, hreply, fun _ => herror⟩

theorem answered_asking {handler : Json → M Json} (hh : Rpc.handlerFor message = .ok handler) (hm : method ∉ changing)
    (hcrash : ∀ w, handler message s ≠ .crash w) : Answered s message method ↔ s.CanWrite := by
  have hsaid : ∃ reply, said (handler message s) = some reply := by
    cases hrun : handler message s with
    | ok reply u => exact ⟨reply, rfl⟩
    | throw w u => exact ⟨_, rfl⟩
    | crash w => exact absurd hrun (hcrash w)
  obtain ⟨reply, hsaid⟩ := hsaid
  constructor
  · intro h'
    obtain ⟨s', reply, hrun, hreply, -⟩ := h'
    exact ((rpcDispatch_said hh (silent_handler hh)).mp ⟨s', hrun, hreply⟩).1
  · intro hw
    obtain ⟨s', hrun, hreply⟩ := (rpcDispatch_said hh (silent_handler hh)).mpr ⟨hw, hsaid⟩
    exact ⟨s', reply, hrun, hreply, fun h => absurd h hm⟩

/-- A request that no handler is found for gets no reply. -/
theorem not_answered {w : String} (hh : Rpc.handlerFor message = .error (.exn w)) : ¬ Answered s message method := by
  have hdecode : ofDecode (Rpc.handlerFor message) s = .throw w s := by
    rw [hh]
    rfl
  have hrun : Rpc.rpcDispatch (some message) s = .ok () s := by
    rw [Rpc.rpcDispatch, Prog.tryCatch, bind_throw hdecode]
    rfl
  intro h
  obtain ⟨s', reply, hrun', hreply, -⟩ := h
  cases hrun.symm.trans hrun'
  simp at hreply

/-- The requests of a client that get the reply they are to get. -/
theorem answered_iff (hs : Serving .running files s) (hset : LabelsSet s) (hm : RpcClient.Message method message) :
    Answered s message method ↔ s.CanWrite ∧ Told s message method := by
  have htrue : ∀ {p q : Prop}, q → (p ∧ q ↔ p ∧ True) := fun hq => by simp [hq]
  cases hm with
  | @label method text hmem =>
    have hd : ∀ w, Rpc.labelArgument (RpcClient.request method [("Label", .str text)]) ≠ .error (.abort w) := Label.make_not_abort text
    simp only [List.mem_cons, List.not_mem_nil, or_false] at hmem
    rcases hmem with rfl | rfl | rfl | rfl | rfl
    · exact (answered_changing rfl (by decide)).trans (htrue (opDisable_tells hs hd))
    · exact (answered_changing rfl (by decide)).trans (htrue (opEnable_tells hs hd))
    · exact (answered_changing rfl (by decide)).trans (and_congr_right fun _ => opRemove_tells hs hd)
    · exact iff_of_false (not_answered rfl) fun h => h.2
    · exact iff_of_false (not_answered rfl) fun h => h.2
  | kill signal text =>
    exact (answered_changing rfl (by decide)).trans (and_congr_right fun _ => opKill_tells hs (Label.make_not_abort text) rfl)
  | list =>
    have hlist : ends (fun _ => False) Manager.listJobs (fun _ => LabelsSet) LabelsSet s := listJobs_survives s hset
    exact (answered_asking rfl (by decide) fun w hw => (ends_iff.mp hlist).2 w hw).trans (and_iff_left trivial).symm
  | @paths method kwargs hmem =>
    have ha : AsksFor (RpcClient.request method kwargs.members) kwargs.force kwargs.overrideDisabled kwargs.paths := rfl
    simp only [List.mem_cons, List.not_mem_nil, or_false] at hmem
    rcases hmem with rfl | rfl
    · exact (answered_changing rfl (by decide)).trans (and_congr_right fun _ => opLoad_tells hs ha)
    · exact (answered_changing rfl (by decide)).trans (htrue (opUnload_tells hs ha))
  | submit kwargs text hl => exact (answered_changing rfl (by decide)).trans (and_congr_right fun _ => opSubmit_tells hs rfl)
  | version =>
    have hcrash : ∀ w, Rpc.opVersion (.arr [.str "version"]) s ≠ .crash w := fun w hw => nomatch hw
    exact (answered_asking rfl (by decide) hcrash).trans (and_iff_left trivial).symm

end Handlers

section Steps

variable {canonical : String → Option String} {args : List String} {wakeup : Wakeup} {answers : Answers}

/-- A message is dispatched only while the manager runs. -/
theorem running_of_request (h : Reachable s) (hf : s.state ≠ .finished)
    (hd : (Ev.handleEvent wakeup answers).dispatched s = some (.socket (some message))) : s.state = .running := by
  have hsound : Sound s := Runs.sound (.of_reachable h) hf
  obtain ⟨wakeup', answers', u, e, ht⟩ := hsound.takes hd
  cases e
  exact (hsound.ofSocket ht).2

theorem replied_answered (hstep : step (.handleEvent wakeup answers) s = Rpc.rpcDispatch (some message) (s.given answers)) :
    Replied s wakeup answers message method ↔ Answered (s.given answers) message method := by
  rw [Replied, hstep]
  rfl

/-- A request of a subcommand gets one reply, with the right error field, exactly if the
    reply can be written and the request is one of those whose replies are right. -/
theorem replied_iff (h : Reachable s) (hf : s.state ≠ .finished)
    (hd : (Ev.handleEvent wakeup answers).dispatched s = some (.socket (some message)))
    (hm : RpcClient.invokeMethod canonical method args = .ok message) :
    Replied s wakeup answers message method ↔ (s.given answers).CanWrite ∧ Told (s.given answers) message method := by
  obtain ⟨hserving, hset, hstep⟩ := serving_request h (running_of_request h hf hd) hd
  rw [replied_answered hstep]
  exact answered_iff hserving hset (RpcClient.invokeMethod_sends hm)

theorem replied_iff_disable : ∃ s, Reachable s ∧
    Replied s (.socket (some (RpcClient.request "disable" [("Label", .str "job")]))) {}
      (RpcClient.request "disable" [("Label", .str "job")]) "disable" := by
  obtain ⟨s, hs, hrun, hl, hq, -⟩ := exists_listening
  have hsends : RpcClient.invokeMethod some "disable" ["job"] = .ok (RpcClient.request "disable" [("Label", .str "job")]) := rfl
  exact ⟨s, hs, (replied_iff hs (by rw [hrun]; nofun) (dispatched_request hrun hl hq) hsends).mpr ⟨rfl, trivial⟩⟩

/-- A signal that does not exist is not sent, and the reply has no error. -/
theorem unknown_signal : ¬ ∀ canonical method args message s wakeup answers, Reachable s → s.state ≠ .finished →
    (Ev.handleEvent wakeup answers).dispatched s = some (.socket (some message)) →
    RpcClient.invokeMethod canonical method args = .ok message → (s.given answers).CanWrite →
    Replied s wakeup answers message method := by
  intro h
  obtain ⟨s, hs, hrun, hl, hq, -⟩ := exists_listening
  let message := RpcClient.request "kill" [("Signal", .str "BOGUS"), ("Label", .str "job")]
  have hd : (Ev.handleEvent (.socket (some message)) {}).dispatched s = some (.socket (some message)) := dispatched_request hrun hl hq
  obtain ⟨hserving, hset, hstep⟩ := serving_request hs hrun hd
  have hanswered := (replied_answered hstep).mp (h some "kill" ["BOGUS", "job"] _ s _ {} hs (by rw [hrun]; nofun) hd rfl rfl)
  obtain ⟨-, htold⟩ := (answered_iff hserving hset (.kill "BOGUS" "job")).mp hanswered
  rcases htold with ⟨fault, hl⟩ | ⟨_, hn, hsig, _⟩
  · cases hl
  · cases hn
    cases hsig

end Steps

end Relaunchd
