/-
  Relaunchd.Properties.Returning — how `Job::run` comes to an end, over every order in which the
  two processes take their steps: the parent does not wait forever, and no descriptor is left.
-/

import Relaunchd.Properties.Launching
import Relaunchd.Properties.Reporting

namespace Relaunchd

open Prog Descriptors Transition

namespace Child

/-! ## A set-up that succeeds -/

/-- At least the next `n` calls succeed with `k`. -/
def Plenty (k n : Nat) (answers : List Answer) : Prop := ∃ m, n ≤ m ∧ answers = List.replicate m (.ok k)

/-- So far all calls were legal; the next will be answered with `k`, which is a free descriptor. -/
structure Ready (t : Table File) (k n : Nat) (s : Setup) : Prop where
  legal : Legal t s.calls
  free : (afterCalls t s.calls).Free k
  answers : Plenty k n s.answers

def GoesOn (_ : Option ExecStatus) (_ : Setup) : Prop := False

section Ready

variable {t : Table File} {k n : Nat} {s : Setup} {c : Syscall} {code : ExecErrorCode} {manifest : Manifest}
  {ctx : ExecutionContext} {answers : List Answer}

theorem Plenty.headD (h : Plenty k (n + 1) answers) : answers.headD (.ok 0) = .ok k := by
  obtain ⟨m, hm, rfl⟩ := h
  cases m with
  | zero => omega
  | succ m => rfl

theorem Plenty.tail (h : Plenty k (n + 1) answers) : Plenty k n answers.tail := by
  obtain ⟨m, hm, rfl⟩ := h
  exact ⟨m - 1, by omega, List.tail_replicate⟩

theorem Plenty.mono {n' : Nat} (h : Plenty k n answers) (hn : n' ≤ n) : Plenty k n' answers := by
  obtain ⟨m, hm, ha⟩ := h
  exact ⟨m, hn.trans hm, ha⟩

theorem Ready.mono {n' : Nat} (h : Ready t k n s) (hn : n' ≤ n) : Ready t k n' s := ⟨h.legal, h.free, h.answers.mono hn⟩

theorem legalCall_plain {a : Answer} (hc : c.plain) : LegalCall t (c, a) := by
  cases c with
  | openFile | dup2 | close => cases hc
  | _ => trivial

theorem Ready.after (h : Ready t k (n + 1) s) (hc : c.plain) : Ready t k n (s.after c) := by
  refine ⟨legal_concat.mpr ⟨h.legal, legalCall_plain hc⟩, ?_, h.answers.tail⟩
  rw [Setup.after, afterCalls_concat, afterCall_plain hc]
  exact h.free

theorem ready_attempt (hc : c.plain) : Carries (Ready t k (n + 1)) (Ready t k n) GoesOn (attempt c code) := by
  intro s hs
  rw [attempt, wp_bind, wp_call, hs.answers.headD, wp_pure, if_pos rfl]
  exact hs.after hc

theorem ready_attemptIf {α : Type} {value : Option α} {f : α → Syscall} (hf : ∀ a, (f a).plain) :
    Carries (Ready t k (n + 1)) (Ready t k n) GoesOn (attemptIf value f code) := by
  cases value with
  | none =>
    intro s hs
    exact Carries.done s (hs.mono (Nat.le_succ n))
  | some a => exact ready_attempt (hf a)

theorem ready_setUmask : Carries (Ready t k (n + 1)) (Ready t k n) GoesOn (setUmask manifest) := by
  intro s hs
  rw [setUmask, wp_bind, wp_call, wp_pure, if_pos rfl]
  exact hs.after rfl

theorem ready_becomeUser (h : Provides manifest ctx) :
    Carries (Ready t k (n + 3)) (Ready t k n) GoesOn (becomeUser manifest ctx) := by
  have hskip : Carries (Ready t k (n + 3)) (Ready t k n) GoesOn (return none) := by
    intro s hs
    exact Carries.done s (hs.mono (Nat.le_add_right n 3))
  unfold becomeUser
  cases hu : manifest.userName with
  | none => exact hskip
  | some user =>
    obtain ⟨hg, hi⟩ := h (by rw [hu]; rfl)
    obtain ⟨gid, hg⟩ := Option.isSome_iff_exists.mp hg
    obtain ⟨uid, hi⟩ := Option.isSome_iff_exists.mp hi
    rw [hg, hi]
    refine .cons (J := Ready t k (n + 2)) ?_ (.cons (ready_attempt rfl) (.cons (ready_attempt rfl) .done))
    split
    · exact ready_attempt rfl
    · intro s hs
      exact Carries.done s (hs.mono (Nat.le_succ (n + 2)))

/-- The new descriptor is closed again. -/
theorem ready_redirect {oldfd mode : Nat} {path : String} {flags : OpenFlags} {context : ExecErrorContext} :
    Carries (Ready t k (n + 3)) (Ready t k n) GoesOn (redirect oldfd path flags mode context) := by
  intro s hs
  have h1 : s.answers.headD (.ok 0) = .ok k := hs.answers.headD
  have h2 : (s.after (.openFile path flags mode)).answers.headD (.ok 0) = .ok k := hs.answers.tail.headD
  have h3 : ((s.after (.openFile path flags mode)).after (.dup2 k oldfd)).answers.headD (.ok 0) = .ok k :=
    hs.answers.tail.tail.headD
  rw [redirect, wp_bind, replaceFd, wp_bind, wp_call, h1, wp_bind, wp_call, h2, attempt, wp_bind, wp_call, h3, wp_pure,
    wp_pure, if_pos rfl]
  refine ⟨?_, ?_, hs.answers.tail.tail.tail⟩
  · rw [Setup.after, Setup.after, Setup.after, h1, legal_concat, legal_concat, legal_concat]
    exact ⟨⟨⟨hs.legal, hs.free⟩, trivial⟩, trivial⟩
  · rw [Setup.after, h3, afterCalls_concat]
    exact Table.lookup_close_self

/-- All calls can succeed, and then the program is executed. -/
theorem startChildProcess_succeeds (h : Provides manifest ctx) (hp : manifest.program.isSome) (hfree : t.Free k) :
    wp (startChildProcess manifest ctx) (fun r s' => r = none ∧ Legal t s'.calls) (fun _ => False)
      { answers := List.replicate 20 (.ok k) } := by
  have hexecute : Carries (Ready t k 1) (Ready t k 0) GoesOn (execute manifest ctx) := by
    obtain ⟨path, hp⟩ := Option.isSome_iff_exists.mp hp
    rw [execute, hp]
    exact ready_attempt rfl
  have hall : Carries (Ready t k 20) (Ready t k 0) GoesOn (startChildProcess manifest ctx) := by
    refine .append (.cons ready_setUmask (.cons (ready_attempt rfl) ?_)) (.cons hexecute .done)
    refine .cons (ready_attemptIf fun _ => rfl) (.cons (ready_attemptIf fun _ => rfl) (.cons (ready_attemptIf fun _ => rfl) ?_))
    refine .cons (ready_becomeUser h) (.cons ready_redirect (.cons ready_redirect (.cons ready_redirect ?_)))
    exact .cons (ready_attempt rfl) (.cons (ready_attempt rfl) .done)
  refine wp_mono (hall _ ⟨trivial, hfree, 20, le_rfl, rfl⟩) ?_ ?_
  · intro r s' hr
    split at hr
    · rename_i hnone
      exact ⟨hnone, hr.legal⟩
    · cases hr
  · intro s' hf
    cases hf

theorem exists_free (t : Table File) : ∃ k, t.Free k := by
  obtain ⟨k, hk⟩ := Infinite.exists_notMem_finset t.keys.toFinset
  exact ⟨k, AList.lookup_eq_none.mpr fun hmem => hk (List.mem_toFinset.mpr (AList.mem_keys.mp hmem))⟩

end Ready

end Child

namespace ExecMonitor

variable {fds t : Table File} {reader writer fd : Nat} {p : Party} {w w' : World} {m : Move} {manifest : Manifest}
  {ctx : ExecutionContext} {status : RawStatus} {started : Bool} {users : Users} {environ : List String}

/-! ## Every run ends -/

section Ends


def ParentAt.rank : ParentAt → Nat
  | .forked => 4
  | .reading => 3
  | .killing _ => 2
  | .waiting _ => 1
  | .returned _ _ | .threw _ => 0

def ChildAt.rank : ChildAt → Nat
  | .forked => 7
  | .cleaning => 6
  | .refusing => 5
  | .settingUp => 4
  | .reporting _ => 3
  | .exiting => 2
  | .running => 1
  | .dead | .reaped => 0

/-- How many steps the two have left at most. -/
def World.rank (w : World) : Nat := w.parentAt.rank + w.childAt.rank

theorem rank_pos_of_alive (h : w.childAt.alive) : 0 < w.childAt.rank := by
  revert h
  cases w.childAt with
  | dead | reaped => exact fun h => by cases h
  | _ => exact fun _ => Nat.succ_pos _

theorem rank_judge (hp : w.parentAt = .reading) (pipe : Bytes) (status : RawStatus) :
    (World.judge { w with pipe } status).rank < w.rank := by
  unfold World.judge World.rank
  rw [hp]
  split
  · exact Nat.add_lt_add_right (by decide : 0 < 3) _
  · split
    · exact Nat.add_lt_add_right (by decide : 2 < 3) _
    · exact Nat.add_lt_add_right (by decide : 0 < 3) _

theorem rank_parentMoves {errno : Option Nat} (hn : w.parentMoves errno = some w') : w'.rank < w.rank := by
  unfold World.parentMoves at hn
  cases hp : w.parentAt with
  | forked =>
    rw [hp] at hn
    obtain ⟨p, -, rfl⟩ := Option.map_eq_some_iff.mp hn
    rw [World.rank, World.rank, hp]
    exact Nat.add_lt_add_right (by decide : 3 < 4) _
  | reading =>
    rw [hp] at hn
    cases errno with
    | some errno => cases hn; exact rank_judge hp _ _
    | none =>
      dsimp only at hn
      split at hn
      · cases hn
      · cases hn; exact rank_judge hp _ _
  | killing status =>
    rw [hp] at hn
    cases hn
    rw [World.rank, World.rank, hp]
    split
    · rename_i hk
      have := rank_pos_of_alive hk.2
      exact Nat.add_lt_add_of_lt_of_le (by decide : 1 < 2) (Nat.zero_le _)
    · exact Nat.add_lt_add_right (by decide : 1 < 2) _
  | waiting status =>
    rw [hp] at hn
    dsimp only at hn
    split at hn
    · cases hn
      rw [World.rank, World.rank, hp]
      exact Nat.add_lt_add_of_lt_of_le (by decide : 0 < 1) (Nat.zero_le _)
    · cases hn
  | returned started status => rw [hp] at hn; cases hn
  | threw status => rw [hp] at hn; cases hn

theorem rank_childDies (h : w.childAt.alive) : w.childDies.rank < w.rank :=
  Nat.add_lt_add_left (rank_pos_of_alive h) _

/-- The child gets closer to its end. -/
theorem rank_goes {child : Party} {next : ChildAt} {pipe : Bytes} {written : List ExecStatus} {execed : Bool}
    (h : next.rank < w.childAt.rank) :
    World.rank { w with child, childAt := next, pipe, written, execed } < w.rank := Nat.add_lt_add_left h _

theorem rank_writeStatus {s : ExecStatus} {errno : Option Nat} {next : ChildAt} (h : next.rank < w.childAt.rank)
    (ha : w.childAt.alive) : (w.writeStatus s errno next).rank < w.rank := by
  unfold World.writeStatus
  split
  · split
    · exact rank_goes h
    · exact rank_childDies ha
  · exact rank_goes h

theorem rank_next (hn : Next manifest ctx w m w') : w'.rank < w.rank := by
  unfold Next at hn
  cases m with
  | parent errno => exact rank_parentMoves hn
  | child errno =>
    unfold World.step World.childMoves at hn
    cases hc : w.childAt with
    | forked =>
      rw [hc] at hn
      obtain ⟨p, -, rfl⟩ := Option.map_eq_some_iff.mp hn
      exact rank_goes (by rw [hc]; decide)
    | refusing => rw [hc] at hn; cases hn; exact rank_writeStatus (by rw [hc]; decide) (by rw [hc]; rfl)
    | reporting status =>
      rw [hc] at hn
      cases hn
      exact rank_writeStatus (by rw [hc]; exact (by decide : 2 < 3)) (by rw [hc]; rfl)
    | exiting => rw [hc] at hn; cases hn; exact rank_childDies (by rw [hc]; rfl)
    | cleaning | settingUp | running | dead | reaped => rw [hc] at hn; cases hn
  | cleanup succeeds =>
    rw [World.step] at hn
    split at hn
    · rename_i hc
      cases hn
      cases succeeds with
      | true => exact rank_goes (by rw [hc]; decide)
      | false => exact rank_goes (by rw [hc]; decide)
    · cases hn
  | setUp answers =>
    rw [World.step] at hn
    split at hn
    · rename_i hc
      have hdies : w.childDies.rank < w.rank := rank_childDies (by rw [hc]; rfl)
      unfold World.setUp at hn
      split at hn
      · dsimp only at hn
        split at hn
        · split at hn
          · cases hn; exact rank_goes (by rw [hc]; decide)
          · cases hn; exact rank_goes (by rw [hc]; exact (by decide : 3 < 4))
        · cases hn
      · split at hn
        · cases hn; exact hdies
        · cases hn
      · cases hn; exact hdies
    · cases hn
  | dies =>
    rw [World.step] at hn
    split at hn
    · rename_i hc
      cases hn
      exact rank_childDies hc
    · cases hn

/-- The set-up can go well. -/
theorem setUp_succeeds (w : World) (hm : manifest.Decoded) (hctx : Job.executionContext users manifest environ = some ctx) :
    ∃ answers w', (∀ a ∈ answers, a.isOk) ∧ w.setUp manifest ctx answers = some w' := by
  obtain ⟨k, hk⟩ := Child.exists_free w.child.fds
  obtain ⟨status, s, hrun⟩ := startChildProcess_returns hm hctx (List.replicate 20 (.ok k))
  obtain ⟨rfl, hlegal⟩ := wp_ok
    (Child.startChildProcess_succeeds (executionContext_provides hctx) hm.program hk) hrun
  refine ⟨List.replicate 20 (.ok k), ?_⟩
  rw [World.setUp, hrun]
  dsimp only
  rw [if_pos hlegal]
  exact ⟨_, fun a ha => by rw [(List.mem_replicate.mp ha).2]; rfl, rfl⟩

/-- What one of the two does when no call fails, and nothing that the child runs: a program ends
    by itself. -/
def Own (w : World) : Move → Prop
  | .parent errno | .child errno => errno = none
  | .cleanup succeeds => succeeds
  | .setUp answers => ∀ a ∈ answers, a.isOk
  | .dies => w.childAt = .running

theorem ChildAt.early_or (at_ : ChildAt) : at_.early ∨ at_ = .running ∨ at_ = .dead ∨ at_ = .reaped := by
  cases at_ <;> simp [ChildAt.early]

variable (hm : manifest.Decoded) (hctx : Job.executionContext users manifest environ = some ctx)
include hm hctx

/-- A child that runs launchd's code can go on. -/
theorem Inv.child_next (h : Inv manifest fds reader writer w) (hc : w.childAt.early) :
    ∃ m w', Under (Next manifest ctx) Own w m w' := by
  have hchild := h.child
  cases hat : w.childAt with
  | forked =>
    rw [hat] at hchild
    have hrun := becomeChild_run hchild.1
    refine ⟨.child none, { w with child := ⟨w.child.fds.close reader, ⟨-1, writer⟩⟩, childAt := .cleaning }, ?_, rfl⟩
    rw [Next, World.step, World.childMoves, hat, final?, hrun]
    rfl
  | refusing =>
    refine ⟨.child none, w.writeStatus { errorCode := .forkHandlerFailed } none .settingUp, ?_, rfl⟩
    rw [Next, World.step, World.childMoves, hat]
  | reporting s =>
    refine ⟨.child none, w.writeStatus s none .exiting, ?_, rfl⟩
    rw [Next, World.step, World.childMoves, hat]
  | exiting =>
    refine ⟨.child none, w.childDies, ?_, rfl⟩
    rw [Next, World.step, World.childMoves, hat]
  | cleaning => exact ⟨.cleanup true, _, by rw [Next, World.step, if_pos hat], rfl⟩
  | settingUp =>
    obtain ⟨answers, w', hok, hrun⟩ := setUp_succeeds w hm hctx
    exact ⟨.setUp answers, w', by rw [Next, World.step, if_pos hat, hrun], hok⟩
  | running | dead | reaped => rw [hat] at hc; cases hc

/-- Until the parent has returned, someone can go on. -/
theorem Inv.not_stuck (h : Inv manifest fds reader writer w) (hs : Started fds) :
    (∃ started status, w.parentAt = .returned started status) ∨ ∃ m w', Under (Next manifest ctx) Own w m w' := by
  have hparent := h.parent
  have hacted := h.acted
  unfold Acted at hacted
  have hmove : ∀ u, w.parentMoves none = some u → ∃ m u, Under (Next manifest ctx) Own w m u :=
    fun u hu => ⟨.parent none, u, hu, rfl⟩
  cases hp : w.parentAt with
  | forked =>
    rw [hp] at hparent
    have hrun := becomeParent_run hparent.1
    refine .inr (hmove { w with parent := ⟨w.parent.fds.close writer, ⟨reader, -1⟩⟩, parentAt := .reading } ?_)
    rw [World.parentMoves, hp, final?, hrun]
    rfl
  | reading =>
    rw [hp] at hparent
    by_cases hblocked : w.pipe = [] ∧ w.writerOpen
    · refine .inr (h.child_next hm hctx ?_)
      have hopen : w.child.fds.refers File.isWriter := by
        have hwriter := hblocked.2
        rw [World.writerOpen, hparent.2.noWriter hs.noWriter, Bool.false_or] at hwriter
        exact hwriter
      have hchild := h.child
      rcases w.childAt.early_or with hc | hc | hc | hc
      · exact hc
      · rw [hc] at hchild
        obtain ⟨fd, e, hl, hw⟩ := Table.refers_iff.mp hopen
        rw [hchild fd] at hl
        by_cases h3 : fd < 3
        · rw [if_pos h3] at hl
          cases hl
          unfold Child.stdio at hw
          split at hw <;> cases hw
        · rw [if_neg h3] at hl
          rw [Table.refers_eq_false.mp hs.noWriter fd e (Table.lookup_exec_eq_some.mp hl).1] at hw
          cases hw
      · rw [hc] at hchild
        rw [show w.child.fds = ∅ from hchild] at hopen
        cases hopen
      · rw [hc] at hchild
        rw [show w.child.fds = ∅ from hchild] at hopen
        cases hopen
    · refine .inr (hmove (World.judge { w with pipe := w.pipe.drop RawStatus.image.size }
        (readStatus (.ok (RawStatus.image.oneRead w.pipe)))) ?_)
      rw [World.parentMoves, hp]
      exact if_neg hblocked
  | killing status =>
    refine .inr (hmove { (if w.childAt.alive then w.childDies else w) with parentAt := .waiting status } ?_)
    rw [World.parentMoves, hp]
    simp only [true_and]
  | waiting status =>
    rw [hp] at hacted
    rcases w.childAt.early_or with hc | hc | hc | hc
    · exact .inr (h.child_next hm hctx hc)
    · exact .inr ⟨.dies, w.childDies, by rw [Next, World.step, if_pos (by rw [hc]; rfl)], hc⟩
    · refine .inr (hmove { w with parent := destroy w.parent, parentAt := .returned false status, childAt := .reaped } ?_)
      rw [World.parentMoves, hp]
      exact if_pos hc
    · exact absurd hc hacted.2
  | returned started status => exact .inl ⟨started, status, rfl⟩
  | threw status => rw [hp] at hacted; exact absurd hacted id

/-- The two processes take at most eleven steps, in whatever order and whatever fails; and
    wherever they are, `Job::run` can still return by steps in which no call fails. In particular
    the parent never waits for a status, or for the end of its child, that cannot come. -/
theorem run_returns {w₀ : World} {n : Nat} (hs : Started fds) (h0 : Init fds w₀) (h : Steps (Next manifest ctx) n w₀ w) :
    n ≤ 11 ∧ ∃ w', Later (Under (Next manifest ctx) Own) w w' ∧ ∃ started status, w'.parentAt = .returned started status := by
  constructor
  · have hrank : n + w.rank ≤ w₀.rank := h.length_le fun _ _ _ hn => rank_next hn
    obtain ⟨-, -, -, p, -, -, -, -, rfl⟩ := h0
    have hfirst : (forked p).rank = 11 := rfl
    omega
  · have hreach : Reach (Init fds) (Next manifest ctx) w := (Reach.init h0).later h.later
    clear h h0
    -- by induction on the steps that are left
    induction hr : w.rank using Nat.strong_induction_on generalizing w with
    | _ k ih =>
      obtain ⟨reader, writer, he, hinv⟩ := reach_inv hs hreach
      rcases hinv.not_stuck hm hctx hs with hret | hnext
      · exact ⟨w, .refl, hret⟩
      · obtain ⟨m, w', hn⟩ := hnext
        obtain ⟨w'', hlater, hret⟩ := ih w'.rank (hr ▸ rank_next hn.1) (.step m hreach hn.1) rfl
        exact ⟨w'', .head ⟨m, hn⟩ hlater, hret⟩

end Ends

theorem plainJob_decoded : Child.plainJob.Decoded :=
  ⟨.obj [("Label", .str "job"), ("Program", .str "/bin/job")], by decide +kernel⟩

/-- The child is setting up, and the parent waits in `read(2)`. -/
theorem run_returns_waiting : ∃ w : World, (w.parentAt = .reading ∧ w.childAt = .settingUp ∧ w.parentMoves none = none) ∧ 3 ≤ 11 ∧
    ∃ w', Later (Under (Next Child.plainJob ⟨none, none, []⟩) Own) w w' ∧ ∃ started status, w'.parentAt = .returned started status := by
  obtain ⟨w, hsteps, hw⟩ := steps_plain [.child none, .parent none, .cleanup true]
    (fun w => decide (w.parentAt = .reading ∧ w.childAt = .settingUp) && (w.parentMoves none).isNone) (by decide +kernel)
  rw [Bool.and_eq_true, decide_eq_true_eq, Option.isNone_iff_eq_none] at hw
  have hctx : Job.executionContext ⟨fun _ => none, fun _ => none⟩ Child.plainJob [] = some ⟨none, none, []⟩ := rfl
  exact ⟨w, ⟨hw.1.1, hw.1.2, hw.2⟩, run_returns plainJob_decoded hctx daemon_started daemon_init hsteps⟩

/-! ## Descriptors -/

/-- `Job::run` leaves launchd's descriptors as they were, however it ends: when `pipe(2)`,
    `fcntl(2)` or `fork(2)` fails, and when it returns over a child. The program has the
    manifest's standard files, and of the rest what launchd lets it have: no end of the pipe. -/
theorem descriptors_kept (hs : Started fds) :
    (∀ pipe succeeds what p, (∀ r ∈ pipe, Ends fds r.1 r.2) → createPipe pipe succeeds { fds } = .throw what p →
      ∀ fd, p.fds.lookup fd = fds.lookup fd) ∧
    (∀ pipe succeeds p, (∀ r ∈ pipe, Ends fds r.1 r.2) → createPipe pipe succeeds { fds } = .ok () p →
      ∀ fd, (destroy p).fds.lookup fd = fds.lookup fd) ∧
    ∀ w, Reach (Init fds) (Next manifest ctx) w →
      (∀ started status, w.parentAt = .returned started status → ∀ fd, w.parent.fds.lookup fd = fds.lookup fd) ∧
      (w.childAt = .running → ∀ fd, w.child.fds.lookup fd =
        if fd < 3 then some { file := Child.stdio manifest fd } else fds.exec.lookup fd) := by
  refine ⟨fun pipe succeeds what p hends hrun => ?_, fun pipe succeeds p hends hrun => ?_, fun w h => ?_⟩
  · cases pipe with
    | none => cases hrun; exact fun _ => rfl
    | some ends =>
      have hspec := createPipe_spec (hends ends rfl) succeeds
      unfold wp at hspec
      rw [show createPipe (some (ends.1, ends.2)) succeeds { fds } = .throw what p from hrun] at hspec
      exact hspec.2
  · cases pipe with
    | none => cases hrun
    | some ends =>
      have he := hends ends rfl
      obtain ⟨hm, ho⟩ := wp_ok (createPipe_spec he succeeds) hrun
      rw [destroy_both hm (hs.pos he.reader_free) (hs.pos he.writer_free)]
      exact (ho.closeReader.closeWriter he.ne).restored he
  · obtain ⟨reader, writer, he, hinv⟩ := reach_inv hs h
    refine ⟨fun started status hp => ?_, fun hc => ?_⟩
    · have hparent := hinv.parent
      rw [hp] at hparent
      exact Holds.restored hparent he
    · have hchild := hinv.child
      rw [hc] at hchild
      exact hchild

/-- The program runs, and `Job::run` has returned. -/
theorem descriptors_kept_daemon : ∃ w : World, (w.parentAt = .returned true ⟨0, 0, 4⟩ ∧ w.childAt = .running) ∧
    (∀ fd, w.parent.fds.lookup fd = Child.daemonFds.lookup fd) ∧
    ∀ fd, w.child.fds.lookup fd =
      if fd < 3 then some { file := Child.stdio Child.plainJob fd } else Child.daemonFds.exec.lookup fd := by
  obtain ⟨w, hsteps, hw⟩ := steps_plain
    [.child none, .cleanup true, .parent none, .setUp Child.plainAnswers, .parent none]
    (fun w => decide (w.parentAt = .returned true ⟨0, 0, 4⟩ ∧ w.childAt = .running)) (by decide +kernel)
  rw [decide_eq_true_eq] at hw
  obtain ⟨hparent, hchild⟩ := (descriptors_kept daemon_started).2.2 w ((Reach.init daemon_init).later hsteps.later)
  exact ⟨w, hw, hparent _ _ hw.1, hchild hw.2⟩

end ExecMonitor

end Relaunchd
