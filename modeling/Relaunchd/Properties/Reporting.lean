/-
  Relaunchd.Properties.Reporting — the pipe of `Job::run`, over every order in which the two
  processes take their steps: what the parent comes to believe of its child.
-/

import Relaunchd.Lib.Transition
import Relaunchd.Properties.Inheriting

namespace Relaunchd

open Prog Descriptors Transition

namespace ExecMonitor

variable {fds t : Table File} {reader writer fd : Nat} {p : Party} {w w' : World} {m : Move} {manifest : Manifest}
  {ctx : ExecutionContext} {status : RawStatus} {started : Bool}

/-! ## The ends of the pipe -/

def Holds (fds : Table File) (reader writer : Nat) (ends : Bool × Bool) (t : Table File) : Prop :=
  ∀ fd, t.lookup fd = if fd = reader then (if ends.1 then some ⟨.pipeReader, true⟩ else none)
    else if fd = writer then (if ends.2 then some ⟨.pipeWriter, true⟩ else none) else fds.lookup fd

structure Ends (fds : Table File) (reader writer : Nat) : Prop where
  reader_free : fds.Free reader
  writer_free : fds.Free writer
  ne : reader ≠ writer

section Holds

variable {a b : Bool}

theorem Holds.closeReader (h : Holds fds reader writer (a, b) t) : Holds fds reader writer (false, b) (t.close reader) := by
  intro fd
  by_cases hr : fd = reader
  · subst hr
    rw [Table.lookup_close_self, if_pos rfl]
    rfl
  · rw [Table.lookup_close_ne hr, h fd, if_neg hr, if_neg hr]

theorem Holds.closeWriter (h : Holds fds reader writer (a, b) t) (hne : reader ≠ writer) :
    Holds fds reader writer (a, false) (t.close writer) := by
  intro fd
  by_cases hw : fd = writer
  · subst hw
    rw [Table.lookup_close_self, if_neg hne.symm, if_pos rfl]
    rfl
  · rw [Table.lookup_close_ne hw, h fd, if_neg hw, if_neg hw]

theorem Holds.of_reader (h : Holds fds reader writer (true, b) t) : t.lookup reader = some ⟨.pipeReader, true⟩ := by
  rw [h reader, if_pos rfl]
  rfl

theorem Holds.of_writer (h : Holds fds reader writer (a, true) t) (hne : reader ≠ writer) :
    t.lookup writer = some ⟨.pipeWriter, true⟩ := by
  rw [h writer, if_neg hne.symm, if_pos rfl]
  rfl

/-- With both ends closed, the table is as it was. -/
theorem Holds.restored (h : Holds fds reader writer (false, false) t) (he : Ends fds reader writer) (fd : Nat) :
    t.lookup fd = fds.lookup fd := by
  rw [h fd]
  by_cases hr : fd = reader
  · subst hr
    rw [if_pos rfl]
    exact he.reader_free.symm
  · rw [if_neg hr]
    by_cases hw : fd = writer
    · subst hw
      rw [if_pos rfl]
      exact he.writer_free.symm
    · rw [if_neg hw]

theorem Holds.noWriter (h : Holds fds reader writer (a, false) t) (hf : fds.refers File.isWriter = false) :
    t.refers File.isWriter = false := by
  refine Table.refers_eq_false.mpr fun fd e hl => ?_
  rw [h fd] at hl
  by_cases hr : fd = reader
  · rw [if_pos hr] at hl
    cases a with
    | true => cases hl; rfl
    | false => cases hl
  · rw [if_neg hr] at hl
    by_cases hw : fd = writer
    · rw [if_pos hw] at hl
      cases hl
    · rw [if_neg hw] at hl
      exact Table.refers_eq_false.mp hf fd e hl

end Holds

theorem Started.pos (h : Started fds) (hf : fds.Free fd) : 2 < fd := by
  by_contra hlt
  exact h.stdio fd (by omega) hf

/-! ## `createPipe` -/

def Opened (fds : Table File) (reader writer : Nat) (cloexec : Bool × Bool) (t : Table File) : Prop :=
  ∀ fd, t.lookup fd = if fd = reader then some ⟨.pipeReader, cloexec.1⟩
    else if fd = writer then some ⟨.pipeWriter, cloexec.2⟩ else fds.lookup fd

theorem opened_pipe (he : Ends fds reader writer) :
    Opened fds reader writer (false, false) ((fds.openAt reader .pipeReader).openAt writer .pipeWriter) := by
  intro fd
  by_cases hw : fd = writer
  · subst hw
    rw [Table.lookup_openAt_self, if_neg he.ne.symm, if_pos rfl]
  · rw [Table.lookup_openAt_ne hw]
    by_cases hr : fd = reader
    · subst hr
      rw [Table.lookup_openAt_self, if_pos rfl]
    · rw [Table.lookup_openAt_ne hr, if_neg hr, if_neg hw]

theorem Opened.markReader {c : Bool} (h : Opened fds reader writer (false, c) t) :
    Opened fds reader writer (true, c) (t.setCloexec reader) := by
  intro fd
  by_cases hr : fd = reader
  · subst hr
    rw [Table.lookup_setCloexec_self, h fd, if_pos rfl, if_pos rfl]
    rfl
  · rw [Table.lookup_setCloexec_ne hr, h fd, if_neg hr, if_neg hr]

theorem Opened.markWriter {c : Bool} (h : Opened fds reader writer (c, false) t) (hne : reader ≠ writer) :
    Opened fds reader writer (c, true) (t.setCloexec writer) := by
  intro fd
  by_cases hw : fd = writer
  · subst hw
    rw [Table.lookup_setCloexec_self, h fd, if_neg hne.symm, if_neg hne.symm, if_pos rfl, if_pos rfl]
    rfl
  · rw [Table.lookup_setCloexec_ne hw, h fd, if_neg hw, if_neg hw]

/-- Closing both ends leaves the table as it was. -/
theorem Opened.closed {cloexec : Bool × Bool} (h : Opened fds reader writer cloexec t) (he : Ends fds reader writer) (fd : Nat) :
    ((t.close reader).close writer).lookup fd = fds.lookup fd := by
  by_cases hw : fd = writer
  · subst hw
    rw [Table.lookup_close_self]
    exact he.writer_free.symm
  · rw [Table.lookup_close_ne hw]
    by_cases hr : fd = reader
    · subst hr
      rw [Table.lookup_close_self]
      exact he.reader_free.symm
    · rw [Table.lookup_close_ne hr, h fd, if_neg hr, if_neg hw]

/-- It opens both ends, to be closed on `execve(2)`, or nothing. -/
theorem createPipe_spec (he : Ends fds reader writer) (succeeds : List Bool) :
    wp (createPipe (some (reader, writer)) succeeds)
      (fun _ p => p.monitor = ⟨reader, writer⟩ ∧ Holds fds reader writer (true, true) p.fds)
      (fun p => p.monitor = {} ∧ ∀ fd, p.fds.lookup fd = fds.lookup fd) { fds } := by
  have hopened := opened_pipe he
  have hmonitor : ¬ (0 ≤ ({} : ExecMonitor).reader ∨ 0 ≤ ({} : ExecMonitor).writer) := by decide
  rw [createPipe, wp_bind, wp_get]
  dsimp only
  rw [if_neg hmonitor, wp_bind, wp_modify, setCloexecs, wp_ite]
  split
  · rw [wp_bind, wp_modify, setCloexecs, wp_ite]
    split
    · rw [wp_bind, wp_modify, setCloexecs, wp_pure]
      exact ⟨rfl, hopened.markReader.markWriter he.ne⟩
    · simp only [closeFd, wp_bind, wp_get, wp_modify, wp_throw, Int.toNat_natCast]
      exact ⟨trivial, hopened.markReader.closed he⟩
  · simp only [closeFd, wp_bind, wp_get, wp_modify, wp_throw, Int.toNat_natCast]
    exact ⟨trivial, hopened.closed he⟩

/-! ## The other operations -/

theorem becomeChild_run (h : p.monitor = ⟨reader, writer⟩) :
    becomeChild p = .ok () { fds := p.fds.close reader, monitor := ⟨-1, writer⟩ } := by
  obtain ⟨table, monitor⟩ := p
  subst h
  have hr : ¬ (reader : Int) < 0 := by omega
  simp only [becomeChild, bind, andThen, Prog.get, closeFd, Prog.modify, if_neg hr, Int.toNat_natCast]

theorem becomeParent_run (h : p.monitor = ⟨reader, writer⟩) :
    becomeParent p = .ok () { fds := p.fds.close writer, monitor := ⟨reader, -1⟩ } := by
  obtain ⟨table, monitor⟩ := p
  subst h
  have hw : ¬ (writer : Int) < 0 := by omega
  simp only [becomeParent, bind, andThen, Prog.get, closeFd, Prog.modify, if_neg hw, Int.toNat_natCast]

/-- The destructor closes the end of the parent that is still open, as it is not descriptor 0. -/
theorem destroy_reader (h : p.monitor = ⟨reader, -1⟩) (hpos : 2 < reader) : (destroy p).fds = p.fds.close reader := by
  obtain ⟨table, monitor⟩ := p
  subst h
  have hr : (0 : Int) < reader := by omega
  simp only [destroy, if_pos hr, Int.toNat_natCast]
  rfl

theorem destroy_both (h : p.monitor = ⟨reader, writer⟩) (hr : 2 < reader) (hw : 2 < writer) :
    (destroy p).fds = (p.fds.close reader).close writer := by
  obtain ⟨table, monitor⟩ := p
  subst h
  have hr : (0 : Int) < reader := by omega
  have hw : (0 : Int) < writer := by omega
  simp only [destroy, if_pos hr, if_pos hw, Int.toNat_natCast]

/-- The text of a status that one side made can be made. -/
theorem getErrorCode_raw (status : ExecStatus) : status.raw.getErrorCode = .ok status.errorCode.name := by
  rw [RawStatus.getErrorCode, ExecStatus.raw, ExecErrorCode.all_toNat]

/-- Reading never finds a part of a status. -/
theorem readStatus_stream (l : List ExecStatus) :
    readStatus (.ok (RawStatus.image.oneRead (RawStatus.image.stream (l.map ExecStatus.raw)))) = (Child.readStatus l).raw := by
  cases l with
  | nil => rfl
  | cons status rest =>
    have hlen : (RawStatus.image.bytes status.raw).length = 12 := RawStatus.image.length_bytes _
    have hsize : ¬ (RawStatus.image.bytes status.raw).length < RawStatus.image.size := by
      rw [RawStatus.image.length_bytes]
      exact lt_irrefl _
    rw [List.map_cons, Image.oneRead_cons, readStatus, if_neg (by omega), if_neg hsize]
    exact status.raw_faithful

/-! ## What holds of the two -/

def ParentHas (fds : Table File) (reader writer : Nat) (p : Party) : ParentAt → Prop
  | .forked => p.monitor = ⟨reader, writer⟩ ∧ Holds fds reader writer (true, true) p.fds
  | .reading | .killing _ | .waiting _ => p.monitor = ⟨reader, -1⟩ ∧ Holds fds reader writer (true, false) p.fds
  | .returned _ _ | .threw _ => Holds fds reader writer (false, false) p.fds

def ChildHas (manifest : Manifest) (fds : Table File) (reader writer : Nat) (p : Party) : ChildAt → Prop
  | .forked => p.monitor = ⟨reader, writer⟩ ∧ Holds fds reader writer (true, true) p.fds
  | .cleaning | .refusing | .settingUp => p.monitor = ⟨-1, writer⟩ ∧ Holds fds reader writer (false, true) p.fds
  | .reporting _ | .exiting => p.monitor = ⟨-1, writer⟩ ∧ p.fds.lookup writer = some ⟨.pipeWriter, true⟩
  | .running => ∀ fd, p.fds.lookup fd = if fd < 3 then some { file := Child.stdio manifest fd } else fds.exec.lookup fd
  | .dead | .reaped => p.fds = ∅

def ReadFailed (status : RawStatus) : Prop := ∃ errno, status = readStatus (.error errno)

/-- What the parent knows: nothing yet, or the first status there was to read when no more
    could come before it. -/
def Told (w : World) : Prop :=
  match w.parentAt.status? with
  | none => w.pipe = RawStatus.image.stream (w.written.map ExecStatus.raw)
  | some status => ReadFailed status ∨
      status = (Child.readStatus w.written).raw ∧ (w.written = [] → w.childAt.early = false)

/-- What the parent did with what it knows. -/
def Acted (w : World) : Prop :=
  match w.parentAt with
  | .forked | .reading => w.childAt ≠ .reaped
  | .killing status | .waiting status => status.errorCode ≠ 0 ∧ w.childAt ≠ .reaped
  | .returned true status => status.errorCode = 0 ∧ w.childAt ≠ .reaped
  | .returned false status => status.errorCode ≠ 0 ∧ w.childAt = .reaped
  | .threw _ => False

def Errors (w : World) : Prop :=
  (∀ s ∈ w.written, s.errorCode ≠ .execSuccess) ∧ ∀ s, w.childAt = .reporting s → s.errorCode ≠ .execSuccess

structure Inv (manifest : Manifest) (fds : Table File) (reader writer : Nat) (w : World) : Prop where
  parent : ParentHas fds reader writer w.parent w.parentAt
  child : ChildHas manifest fds reader writer w.child w.childAt
  told : Told w
  acted : Acted w
  errors : Errors w
  execed : w.childAt = .running → w.execed

theorem inv_forked (h : p.monitor = ⟨reader, writer⟩)
    (ho : Holds fds reader writer (true, true) p.fds) : Inv manifest fds reader writer (forked p) where
  parent := ⟨h, ho⟩
  child := ⟨h, ho⟩
  told := rfl
  acted := by unfold Acted; exact ChildAt.noConfusion
  errors := ⟨fun _ hm => (by cases hm), fun _ h => by cases h⟩
  execed := fun h => by cases h

/-- A child that runs launchd's code has the end it writes to. -/
theorem ChildHas.canWrite (h : ChildHas manifest fds reader writer w.child w.childAt) (he : Ends fds reader writer)
    (hc : w.childAt.early) : w.child.fds.lookup writer = some ⟨.pipeWriter, true⟩ := by
  revert h hc
  cases w.childAt with
  | forked | cleaning | refusing | settingUp => exact fun h _ => h.2.of_writer he.ne
  | reporting status | exiting => exact fun h _ => h.2
  | running | dead | reaped => exact fun _ hc => by cases hc

theorem writerOpen_of_early (h : ChildHas manifest fds reader writer w.child w.childAt) (he : Ends fds reader writer)
    (hc : w.childAt.early) : w.writerOpen := by
  rw [World.writerOpen, Bool.or_eq_true]
  exact .inr (Table.refers_iff.mpr ⟨writer, _, h.canWrite he hc, rfl⟩)

/-! ## The parent's steps -/

section Parent

variable (h : Inv manifest fds reader writer w) (he : Ends fds reader writer) (hs : Started fds)
include he hs

theorem destroyed (hm : w.parent.monitor = ⟨reader, -1⟩) (ho : Holds fds reader writer (true, false) w.parent.fds) :
    Holds fds reader writer (false, false) (destroy w.parent).fds := by
  rw [destroy_reader hm (hs.pos he.reader_free)]
  exact ho.closeReader

include h

/-- It judges a status that one of the two made. -/
theorem Inv.judge {s : ExecStatus} {pipe : Bytes} (hp : w.parentAt = .reading)
    (htold : ReadFailed s.raw ∨ s.raw = (Child.readStatus w.written).raw ∧ (w.written = [] → w.childAt.early = false)) :
    Inv manifest fds reader writer (World.judge { w with pipe } s.raw) := by
  have hparent := h.parent
  rw [hp] at hparent
  obtain ⟨hm, ho⟩ := hparent
  have hacted := h.acted
  unfold Acted at hacted
  rw [hp] at hacted
  have hzero : ExecErrorCode.execSuccess.toNat = 0 := rfl
  unfold World.judge
  rw [hzero]
  split
  · rename_i h0
    exact ⟨destroyed he hs hm ho, h.child, htold, ⟨h0, hacted⟩, h.errors, h.execed⟩
  · rename_i h0
    rw [getErrorCode_raw]
    exact ⟨⟨hm, ho⟩, h.child, htold, ⟨h0, hacted⟩, h.errors, h.execed⟩

theorem Inv.parentMoves {errno : Option Nat} (hn : w.parentMoves errno = some w') : Inv manifest fds reader writer w' := by
  have hparent := h.parent
  have htold := h.told
  have hacted := h.acted
  unfold Told at htold
  unfold Acted at hacted
  unfold World.parentMoves at hn
  cases hp : w.parentAt with
  | forked =>
    rw [hp] at hn hparent htold hacted
    obtain ⟨hm, ho⟩ := hparent
    rw [final?, becomeParent_run hm] at hn
    cases hn
    exact ⟨⟨rfl, ho.closeWriter he.ne⟩, h.child, htold, hacted, h.errors, h.execed⟩
  | reading =>
    rw [hp] at hn htold
    cases errno with
    | some errno =>
      cases hn
      have hfailed : ReadFailed (ExecStatus.raw ⟨.readFailed, errno, .parentProcess⟩) := ⟨errno, rfl⟩
      exact h.judge he hs hp (.inl hfailed)
    | none =>
      dsimp only at hn
      split at hn
      · cases hn
      · rename_i hready
        cases hn
        have hpipe : w.pipe = RawStatus.image.stream (w.written.map ExecStatus.raw) := htold
        rw [hpipe, readStatus_stream]
        refine h.judge he hs hp (.inr ⟨rfl, fun hnil => ?_⟩)
        -- an empty pipe is read when nobody can write to it
        by_contra hearly
        refine hready ⟨?_, writerOpen_of_early h.child he (by simpa using hearly)⟩
        rw [hpipe, hnil]
        rfl
  | killing status =>
    rw [hp] at hn hparent htold hacted
    cases hn
    by_cases hk : errno = none ∧ w.childAt.alive
    · rw [if_pos hk]
      refine ⟨hparent, rfl, ?_, ⟨hacted.1, ChildAt.noConfusion⟩, ⟨h.errors.1, fun _ h => by cases h⟩, fun h => by cases h⟩
      exact htold.imp_right fun hr => ⟨hr.1, fun _ => rfl⟩
    · rw [if_neg hk]
      exact ⟨hparent, h.child, htold, hacted, h.errors, h.execed⟩
  | waiting status =>
    rw [hp] at hn hparent htold hacted
    dsimp only at hn
    split at hn
    · rename_i hdead
      cases hn
      obtain ⟨hm, ho⟩ := hparent
      refine ⟨destroyed he hs hm ho, ?_, ?_, ⟨hacted.1, rfl⟩, ⟨h.errors.1, fun _ h => by cases h⟩, fun h => by cases h⟩
      · have hchild := h.child
        rw [hdead] at hchild
        exact hchild
      · exact htold.imp_right fun hr => ⟨hr.1, fun _ => rfl⟩
    · cases hn
  | returned started status => rw [hp] at hn; cases hn
  | threw status => rw [hp] at hn; cases hn

end Parent

/-! ## The child's steps -/

/-- What the parent knows is not changed by a child that writes nothing. -/
theorem Told.quiet (h : Told w) (hp : w'.parentAt = w.parentAt) (hpipe : w'.pipe = w.pipe) (hw : w'.written = w.written)
    (hc : w.childAt.early = false → w'.childAt.early = false) : Told w' := by
  unfold Told at h ⊢
  rw [hp, hpipe, hw]
  cases hs : w.parentAt.status? with
  | none => rwa [hs] at h
  | some status =>
    rw [hs] at h
    exact h.imp_right fun hr => ⟨hr.1, fun hnil => hc (hr.2 hnil)⟩

/-- A status that is written is added to what the parent is still to read. -/
theorem Told.write (h : Told w) {s : ExecStatus} (hp : w'.parentAt = w.parentAt)
    (hpipe : w'.pipe = w.pipe ++ RawStatus.image.bytes s.raw) (hw : w'.written = w.written ++ [s]) (hc : w.childAt.early) :
    Told w' := by
  unfold Told at h ⊢
  rw [hp, hpipe, hw]
  cases hs : w.parentAt.status? with
  | none =>
    rw [hs] at h
    dsimp only at h ⊢
    rw [h, List.map_append, List.map_singleton, Image.stream_concat]
  | some status =>
    rw [hs] at h
    refine h.imp_right fun hr => ⟨?_, fun hnil => by simp at hnil⟩
    cases hwritten : w.written with
    | nil =>
      have hlate := hr.2 hwritten
      rw [hc] at hlate
      cases hlate
    | cons first rest =>
      rw [hr.1, hwritten]
      rfl

/-- A child that lives is not reaped, and what it does next does not make it. -/
theorem Acted.quiet (h : Acted w) (hp : w'.parentAt = w.parentAt) (hc : w.childAt ≠ .reaped) (hc' : w'.childAt ≠ .reaped) :
    Acted w' := by
  unfold Acted at h ⊢
  rw [hp]
  revert h
  cases w.parentAt with
  | forked | reading => exact fun _ => hc'
  | killing status | waiting status => exact fun h => ⟨h.1, hc'⟩
  | returned started status =>
    cases started with
    | true => exact fun h => ⟨h.1, hc'⟩
    | false => exact fun h => absurd h.2 hc
  | threw status => exact id

section Child

variable (h : Inv manifest fds reader writer w)
include h

theorem Inv.dies (hc : w.childAt ≠ .reaped) : Inv manifest fds reader writer w.childDies where
  parent := h.parent
  child := rfl
  told := h.told.quiet rfl rfl rfl fun _ => rfl
  acted := h.acted.quiet rfl hc ChildAt.noConfusion
  errors := ⟨h.errors.1, fun _ e => by cases e⟩
  execed e := by cases e

/-- The child goes on without writing anything. -/
theorem Inv.goes (child : Party) (next : ChildAt) (hc : w.childAt.early) (hn : next.early)
    (hchild : ChildHas manifest fds reader writer child next) (he : ∀ s, next = .reporting s → s.errorCode ≠ .execSuccess) :
    Inv manifest fds reader writer { w with child, childAt := next } where
  parent := h.parent
  child := hchild
  told := h.told.quiet rfl rfl rfl fun hf => by rw [hc] at hf; cases hf
  acted := h.acted.quiet rfl (fun e => by rw [e] at hc; cases hc) fun e => by
    have hn' : ChildAt.early next := hn
    rw [show next = ChildAt.reaped from e] at hn'
    cases hn'
  errors := ⟨h.errors.1, he⟩
  execed := fun e => by
    have hn' : ChildAt.early next := hn
    rw [show next = ChildAt.running from e] at hn'
    cases hn'

theorem Inv.writeStatus {s : ExecStatus} {errno : Option Nat} {next : ChildAt} (hc : w.childAt.early) (hn : next.early)
    (hchild : ChildHas manifest fds reader writer w.child next) (hnext : ∀ s, next ≠ .reporting s)
    (hs : s.errorCode ≠ .execSuccess) : Inv manifest fds reader writer (w.writeStatus s errno next) := by
  have hgoes := h.goes w.child next hc hn hchild fun s e => absurd e (hnext s)
  unfold World.writeStatus
  split
  · split
    · refine ⟨hgoes.parent, hgoes.child, h.told.write rfl rfl rfl hc, ?_, ⟨fun s' hm => ?_, hgoes.errors.2⟩, hgoes.execed⟩
      · exact hgoes.acted.quiet rfl (fun e => by rw [show next = ChildAt.reaped from e] at hn; cases hn)
          fun e => by rw [show next = ChildAt.reaped from e] at hn; cases hn
      · rcases List.mem_append.mp hm with hm | hm
        · exact h.errors.1 s' hm
        · rw [List.mem_singleton.mp hm]
          exact hs
    · exact h.dies fun e => by rw [e] at hc; cases hc
  · exact hgoes

theorem Inv.childMoves {errno : Option Nat} (hn : w.childMoves errno = some w') : Inv manifest fds reader writer w' := by
  have hchild := h.child
  unfold World.childMoves at hn
  cases hc : w.childAt with
  | forked =>
    rw [hc] at hn hchild
    obtain ⟨hm, ho⟩ := hchild
    rw [final?, becomeChild_run hm] at hn
    cases hn
    exact h.goes _ .cleaning (by rw [hc]; rfl) rfl ⟨rfl, ho.closeReader⟩ fun _ e => by cases e
  | refusing =>
    rw [hc] at hn hchild
    cases hn
    exact h.writeStatus (by rw [hc]; rfl) rfl hchild (fun _ => ChildAt.noConfusion) ExecErrorCode.noConfusion
  | reporting status =>
    rw [hc] at hn hchild
    cases hn
    exact h.writeStatus (by rw [hc]; rfl) rfl hchild (fun _ => ChildAt.noConfusion) (h.errors.2 status hc)
  | exiting =>
    rw [hc] at hn
    cases hn
    exact h.dies (by rw [hc]; exact ChildAt.noConfusion)
  | cleaning | settingUp | running | dead | reaped => rw [hc] at hn; cases hn

variable (he : Ends fds reader writer) (hs : Started fds)
include he hs

/-- The child's table when it sets up: the standard files are open, and the end it writes to. -/
theorem Inv.settingUp (hc : w.childAt = .settingUp) : w.child.monitor = ⟨-1, writer⟩ ∧
    Holds fds reader writer (false, true) w.child.fds ∧ ∀ fd < 3, w.child.fds.lookup fd ≠ none := by
  have hchild := h.child
  rw [hc] at hchild
  obtain ⟨hm, ho⟩ := hchild
  refine ⟨hm, ho, fun fd hfd => ?_⟩
  have hr := hs.pos he.reader_free
  have hw := hs.pos he.writer_free
  rw [ho fd, if_neg (by omega), if_neg (by omega)]
  exact hs.stdio fd hfd

theorem Inv.setUp {answers : List Child.Answer} (hc : w.childAt = .settingUp) (hn : w.setUp manifest ctx answers = some w') :
    Inv manifest fds reader writer w' := by
  obtain ⟨hm, ho, hopen⟩ := h.settingUp he hs hc
  have hearly : w.childAt.early := by rw [hc]; rfl
  have hdies : Inv manifest fds reader writer w.childDies := h.dies (by rw [hc]; exact ChildAt.noConfusion)
  unfold World.setUp at hn
  cases hrun : Child.startChildProcess manifest ctx { answers } with
  | ok result s =>
    rw [hrun] at hn
    dsimp only at hn
    split at hn
    · rename_i hlegal
      cases result with
      | none =>
        cases hn
        refine ⟨h.parent, fun fd => ?_, h.told.quiet rfl rfl rfl fun _ => rfl,
          h.acted.quiet rfl (by rw [hc]; exact ChildAt.noConfusion) ChildAt.noConfusion,
          ⟨h.errors.1, fun _ e => by cases e⟩, fun _ => rfl⟩
        rw [Child.program_inherits hopen hrun hlegal fd]
        by_cases h3 : fd < 3
        · rw [if_pos h3, if_pos h3]
        · rw [if_neg h3, if_neg h3, Table.lookup_exec, Table.lookup_exec, ho fd]
          by_cases hr : fd = reader
          · subst hr
            rw [if_pos rfl, he.reader_free]
            rfl
          · rw [if_neg hr]
            by_cases hw : fd = writer
            · subst hw
              rw [if_pos rfl, he.writer_free]
              rfl
            · rw [if_neg hw]
      | some status =>
        cases hn
        obtain ⟨hcode, huntouched⟩ := Child.startChildProcess_failed hopen hrun hlegal
        refine h.goes _ (.reporting status) hearly rfl ⟨hm, ?_⟩ fun s e => by cases e; exact hcode
        exact huntouched writer _ (hs.pos he.writer_free) (ho.of_writer he.ne)
    · cases hn
  | throw what s =>
    rw [hrun] at hn
    dsimp only at hn
    split at hn
    · cases hn
      exact hdies
    · cases hn
  | crash why =>
    rw [hrun] at hn
    cases hn
    exact hdies

theorem Inv.next (hn : Next manifest ctx w m w') : Inv manifest fds reader writer w' := by
  unfold Next at hn
  cases m with
  | parent errno => exact h.parentMoves he hs hn
  | child errno => exact h.childMoves hn
  | cleanup succeeds =>
    rw [World.step] at hn
    split at hn
    · rename_i hc
      have hchild := h.child
      rw [hc] at hchild
      cases hn
      have hearly : w.childAt.early := by rw [hc]; rfl
      cases succeeds with
      | true => exact h.goes w.child .settingUp hearly rfl hchild fun _ e => by cases e
      | false => exact h.goes w.child .refusing hearly rfl hchild fun _ e => by cases e
    · cases hn
  | setUp answers =>
    rw [World.step] at hn
    split at hn
    · rename_i hc
      exact h.setUp he hs hc hn
    · cases hn
  | dies =>
    rw [World.step] at hn
    split at hn
    · rename_i hc
      cases hn
      exact h.dies fun e => by rw [e] at hc; cases hc
    · cases hn

end Child

/-! ## Runs -/

theorem init_inv (h : Init fds w) :
    ∃ reader writer, Ends fds reader writer ∧ Inv manifest fds reader writer w := by
  obtain ⟨reader, writer, succeeds, p, hr, hw, hne, hrun, rfl⟩ := h
  have he : Ends fds reader writer := ⟨hr, hw, hne⟩
  obtain ⟨hm, ho⟩ := wp_ok (createPipe_spec he succeeds) hrun
  exact ⟨reader, writer, he, inv_forked hm ho⟩

theorem reach_inv (hs : Started fds) (h : Reach (Init fds) (Next manifest ctx) w) :
    ∃ reader writer, Ends fds reader writer ∧ Inv manifest fds reader writer w :=
  h.invariant (P := fun w => ∃ reader writer, Ends fds reader writer ∧ Inv manifest fds reader writer w)
    (fun _ hi => init_inv hi) fun _ _ _ hinv hn => by
      obtain ⟨reader, writer, he, hinv⟩ := hinv
      exact ⟨reader, writer, he, hinv.next he hs hn⟩

/-- A parent that believes in its child has read an empty pipe. -/
theorem Inv.believes (h : Inv manifest fds reader writer w) (hp : w.parentAt = .returned true status) :
    status = (Child.readStatus w.written).raw ∧ w.written = [] ∧ w.childAt.early = false ∧ w.childAt ≠ .reaped := by
  have htold := h.told
  have hacted := h.acted
  unfold Told at htold
  unfold Acted at hacted
  rw [hp] at htold hacted
  obtain ⟨hzero, hreaped⟩ := hacted
  have htrue : status = (Child.readStatus w.written).raw ∧ (w.written = [] → w.childAt.early = false) := by
    refine htold.resolve_left fun hf => ?_
    obtain ⟨errno, rfl⟩ := hf
    cases hzero
  have hnil : w.written = [] := by
    cases hwritten : w.written with
    | nil => rfl
    | cons first rest =>
      have hcode : (Child.readStatus w.written).errorCode = .execSuccess := by
        rw [htrue.1] at hzero
        exact ExecErrorCode.toNat_eq_zero.mp hzero
      rw [hwritten] at hcode
      exact absurd hcode (h.errors.1 first (hwritten ▸ List.mem_cons_self))
  exact ⟨htrue.1, hnil, htrue.2 hnil, hreaped⟩

/-- Whatever the order of their steps: `Job::run` returns true when it has read that there is
    no status and none can come, its child having executed the program or ended; and false
    when the first status the child wrote, or a failed read, is an error, its child being
    reaped. It never throws over a status it cannot name. -/
theorem verdict (hs : Started fds) (h : Reach (Init fds) (Next manifest ctx) w) :
    (∀ status, w.parentAt = .returned true status → status = (Child.readStatus w.written).raw ∧ w.written = [] ∧
      (w.childAt = .running ∧ w.execed ∨ w.childAt = .dead)) ∧
    (∀ status, w.parentAt = .returned false status → w.childAt = .reaped ∧
      (ReadFailed status ∨ w.written ≠ [] ∧ status = (Child.readStatus w.written).raw)) ∧
    ∀ status, w.parentAt ≠ .threw status := by
  obtain ⟨reader, writer, he, hinv⟩ := reach_inv hs h
  have htold := hinv.told
  have hacted := hinv.acted
  unfold Told at htold
  unfold Acted at hacted
  refine ⟨fun status hp => ?_, fun status hp => ?_, fun status hp => ?_⟩
  · obtain ⟨hstatus, hnil, hlate, hreaped⟩ := hinv.believes hp
    refine ⟨hstatus, hnil, ?_⟩
    cases hc : w.childAt with
    | running => exact .inl ⟨rfl, hinv.execed hc⟩
    | dead => exact .inr rfl
    | reaped => exact absurd hc hreaped
    | forked | cleaning | refusing | settingUp | reporting _ | exiting => rw [hc] at hlate; cases hlate
  · rw [hp] at htold hacted
    refine ⟨hacted.2, htold.imp_right fun hr => ⟨fun hnil => hacted.1 ?_, hr.1⟩⟩
    rw [hr.1, hnil]
    rfl
  · rw [hp] at hacted
    exact hacted

def daemonForked : World :=
  forked { fds := (((Child.daemonFds.openAt 4 .pipeReader).openAt 5 .pipeWriter).setCloexec 4).setCloexec 5, monitor := ⟨4, 5⟩ }

theorem daemon_started : Started Child.daemonFds := ⟨by decide, by decide, by decide⟩

theorem daemon_init : Init Child.daemonFds daemonForked :=
  ⟨4, 5, [], _, by decide, by decide, by decide, rfl, rfl⟩

def plainStep (w : World) (m : Move) : Option World := w.step Child.plainJob ⟨none, none, []⟩ m

/-- A state the two are in after some steps. -/
theorem steps_plain (moves : List Move) (p : World → Bool) (h : (play plainStep daemonForked moves).any p) :
    ∃ w, Steps (Next Child.plainJob ⟨none, none, []⟩) moves.length daemonForked w ∧ p w := steps_of_any h

/-- A child that is killed before its set-up passes for one that runs its program. -/
theorem verdict_killed : ∃ w : World, (w.parentAt = .returned true ⟨0, 0, 4⟩ ∧ w.execed = false) ∧
    ((∀ status, w.parentAt = .returned true status → status = (Child.readStatus w.written).raw ∧ w.written = [] ∧
      (w.childAt = .running ∧ w.execed ∨ w.childAt = .dead)) ∧
    (∀ status, w.parentAt = .returned false status → w.childAt = .reaped ∧
      (ReadFailed status ∨ w.written ≠ [] ∧ status = (Child.readStatus w.written).raw)) ∧
    ∀ status, w.parentAt ≠ .threw status) := by
  obtain ⟨w, hsteps, hw⟩ := steps_plain [.child none, .dies, .parent none, .parent none]
    (fun w => decide (w.parentAt = .returned true ⟨0, 0, 4⟩ ∧ w.execed = false)) (by decide +kernel)
  exact ⟨w, of_decide_eq_true hw, verdict daemon_started ((Reach.init daemon_init).later hsteps.later)⟩

/-! ## Runs where nothing fails but the set-up -/

/-- No call on the pipe fails, the child is killed by nobody else, and no exception leaves its
    set-up. -/
def Orderly (manifest : Manifest) (ctx : ExecutionContext) (w : World) : Move → Prop
  | .parent errno | .child errno => errno = none
  | .cleanup _ => True
  | .setUp answers => ∃ result s, Child.startChildProcess manifest ctx { answers } = .ok result s
  | .dies => w.childAt = .running

/-- All it said before its set-up is that the cleanup failed. -/
def Quiet (w : World) : Prop := w.written = [] ∨ w.written = [{ errorCode := .forkHandlerFailed }]

def Said (w : World) : Prop :=
  match w.childAt with
  | .forked | .cleaning | .refusing => w.written = [] ∧ w.execed = false
  | .settingUp | .reporting _ => Quiet w ∧ w.execed = false
  | .exiting => w.written ≠ [] ∧ w.execed = false
  | .running => Quiet w ∧ w.execed
  | .dead | .reaped => (w.written = [] → w.execed) ∧ (w.execed → Quiet w)

/-- What the parent has read is the first the child said. -/
def Heard (w : World) : Prop := ∀ status, w.parentAt.status? = some status → status = (Child.readStatus w.written).raw

/-- A child that ends has said why, or ends as the program. -/
theorem Said.ends (h : Said w) (hspoken : w.written ≠ [] ∨ w.childAt = .running) (hc : w.childAt ≠ .reaped) :
    Said w.childDies := by
  have hgoal : (w.written = [] → w.execed) ∧ (w.execed → Quiet w) := by
    unfold Said at h
    cases hat : w.childAt with
    | forked | cleaning | refusing | settingUp | reporting _ | exiting =>
      rw [hat] at h hspoken
      have hw : w.written ≠ [] := hspoken.resolve_right ChildAt.noConfusion
      exact ⟨fun e => absurd e hw, fun e => by rw [h.2] at e; cases e⟩
    | running => rw [hat] at h; exact ⟨fun _ => h.2, fun _ => h.1⟩
    | dead => rw [hat] at h; exact h
    | reaped => exact absurd hat hc
  exact hgoal

section Orderly

variable (h : Inv manifest fds reader writer w) (he : Ends fds reader writer) (hs : Started fds)
include h

/-- As long as the child runs launchd's code, the parent can read. -/
theorem Inv.listening (hc : w.childAt.early) : w.readerOpen := by
  have hparent := h.parent
  have hreader : ∀ {b : Bool}, Holds fds reader writer (true, b) w.parent.fds → w.readerOpen := by
    intro b ho
    rw [World.readerOpen, Bool.or_eq_true]
    exact .inl (Table.refers_iff.mpr ⟨reader, _, ho.of_reader, rfl⟩)
  have hacted := h.acted
  unfold Acted at hacted
  cases hp : w.parentAt with
  | forked | reading | killing _ | waiting _ => rw [hp] at hparent; exact hreader hparent.2
  | returned started status =>
    cases started with
    | true => rw [(h.believes hp).2.2.1] at hc; cases hc
    | false => rw [hp] at hacted; rw [hacted.2] at hc; cases hc
  | threw status => rw [hp] at hacted; exact absurd hacted id

/-- A write that does not fail adds the status to the pipe. -/
theorem Inv.writes {s : ExecStatus} (he : Ends fds reader writer) (hc : w.childAt = .refusing ∨ w.childAt = .reporting s)
    (said : ExecStatus) (next : ChildAt) : w.writeStatus said none next =
      { w with pipe := w.pipe ++ RawStatus.image.bytes said.raw, written := w.written ++ [said], childAt := next } := by
  have hearly : w.childAt.early := by rcases hc with hc | hc <;> rw [hc] <;> rfl
  have hmonitor : w.child.monitor = ⟨-1, writer⟩ := by
    have hchild := h.child
    rcases hc with hc | hc <;> rw [hc] at hchild <;> exact hchild.1
  have hfile : w.child.fds.file? w.child.monitor.writer.toNat = some .pipeWriter := by
    rw [hmonitor, Int.toNat_natCast, Table.file?, h.child.canWrite he hearly]
    rfl
  rw [World.writeStatus, if_pos ⟨rfl, hfile⟩, if_pos (h.listening hearly)]

/-- The parent kills only a child that has spoken. -/
theorem Inv.spoken (hh : Heard w) (hp : w.parentAt = .killing status) : w.written ≠ [] := by
  intro hnil
  have hacted := h.acted
  unfold Acted at hacted
  rw [hp] at hacted
  refine hacted.1 ?_
  rw [hh status (by rw [hp]; rfl), hnil]
  rfl

/-- More that the child says does not change what the parent has read. -/
theorem Inv.heard_more {said : ExecStatus} (hh : Heard w) (hc : w.childAt.early) (hp : w.parentAt.status? = some status) :
    status = (Child.readStatus (w.written ++ [said])).raw := by
  have hstatus := hh status hp
  cases hwritten : w.written with
  | cons first rest =>
    rw [hstatus, hwritten]
    rfl
  | nil =>
    have hzero : status.errorCode = 0 := by rw [hstatus, hwritten]; rfl
    have hacted := h.acted
    unfold Acted at hacted
    cases hat : w.parentAt with
    | forked | reading => rw [hat] at hp; cases hp
    | killing s | waiting s =>
      rw [hat] at hp hacted
      cases hp
      exact absurd hzero hacted.1
    | returned started s =>
      cases started with
      | true => rw [(h.believes hat).2.2.1] at hc; cases hc
      | false => rw [hat] at hacted; rw [hacted.2] at hc; cases hc
    | threw s => rw [hat] at hacted; exact absurd hacted id

theorem Inv.orderly_parent (hsaid : Said w) (hh : Heard w) (hn : w.parentMoves none = some w') : Said w' ∧ Heard w' := by
  have htold := h.told
  unfold Told at htold
  unfold World.parentMoves at hn
  cases hp : w.parentAt with
  | forked =>
    rw [hp] at hn
    obtain ⟨p, -, rfl⟩ := Option.map_eq_some_iff.mp hn
    exact ⟨hsaid, fun status e => by cases e⟩
  | reading =>
    rw [hp] at hn htold
    dsimp only at hn
    split at hn
    · cases hn
    · cases hn
      have hpipe : w.pipe = RawStatus.image.stream (w.written.map ExecStatus.raw) := htold
      rw [hpipe, readStatus_stream]
      unfold World.judge
      split
      · exact ⟨hsaid, fun status e => by cases e; rfl⟩
      · rw [getErrorCode_raw]
        exact ⟨hsaid, fun status e => by cases e; rfl⟩
  | killing status =>
    rw [hp] at hn
    cases hn
    have hstatus := hh status (by rw [hp]; rfl)
    by_cases hk : (none : Option Nat) = none ∧ w.childAt.alive
    · rw [if_pos hk]
      refine ⟨hsaid.ends (.inl (h.spoken hh hp)) fun e => ?_, fun s e => by cases e; exact hstatus⟩
      rw [e] at hk
      cases hk.2
    · rw [if_neg hk]
      exact ⟨hsaid, fun s e => by cases e; exact hstatus⟩
  | waiting status =>
    rw [hp] at hn
    dsimp only at hn
    split at hn
    · rename_i hdead
      cases hn
      unfold Said at hsaid
      rw [hdead] at hsaid
      exact ⟨hsaid, fun s e => by cases e; exact hh status (by rw [hp]; rfl)⟩
    · cases hn
  | returned started status => rw [hp] at hn; cases hn
  | threw status => rw [hp] at hn; cases hn

include he

theorem Inv.orderly_child (hsaid : Said w) (hh : Heard w) (hn : w.childMoves none = some w') : Said w' ∧ Heard w' := by
  unfold World.childMoves at hn
  cases hc : w.childAt with
  | forked =>
    unfold Said at hsaid
    rw [hc] at hn hsaid
    obtain ⟨p, -, rfl⟩ := Option.map_eq_some_iff.mp hn
    exact ⟨hsaid, hh⟩
  | refusing =>
    unfold Said at hsaid
    rw [hc] at hn hsaid
    dsimp only at hn
    rw [h.writes (s := { errorCode := .forkHandlerFailed }) he (.inl hc)] at hn
    cases hn
    refine ⟨⟨.inr ?_, hsaid.2⟩, fun status e => h.heard_more hh (by rw [hc]; rfl) e⟩
    dsimp only
    rw [hsaid.1]
    rfl
  | reporting status =>
    unfold Said at hsaid
    rw [hc] at hn hsaid
    dsimp only at hn
    rw [h.writes he (.inr hc)] at hn
    cases hn
    exact ⟨⟨by simp, hsaid.2⟩, fun status e => h.heard_more hh (by rw [hc]; rfl) e⟩
  | exiting =>
    have hsaid' := hsaid
    unfold Said at hsaid'
    rw [hc] at hn hsaid'
    cases hn
    exact ⟨hsaid.ends (.inl hsaid'.1) (by rw [hc]; exact ChildAt.noConfusion), hh⟩
  | cleaning | settingUp | running | dead | reaped => rw [hc] at hn; cases hn

theorem Inv.orderly_next (hsaid : Said w) (hh : Heard w) (hn : Next manifest ctx w m w') (ho : Orderly manifest ctx w m) :
    Said w' ∧ Heard w' := by
  unfold Next at hn
  cases m with
  | parent errno => exact h.orderly_parent hsaid hh (by rw [show errno = none from ho] at hn; exact hn)
  | child errno => exact h.orderly_child he hsaid hh (by rw [show errno = none from ho] at hn; exact hn)
  | cleanup succeeds =>
    rw [World.step] at hn
    split at hn
    · rename_i hc
      cases hn
      unfold Said at hsaid
      rw [hc] at hsaid
      cases succeeds with
      | true => exact ⟨⟨.inl hsaid.1, hsaid.2⟩, hh⟩
      | false => exact ⟨hsaid, hh⟩
    · cases hn
  | setUp answers =>
    obtain ⟨result, s, hrun⟩ := ho
    rw [World.step] at hn
    split at hn
    · rename_i hc
      unfold World.setUp at hn
      rw [hrun] at hn
      dsimp only at hn
      unfold Said at hsaid
      rw [hc] at hsaid
      split at hn
      · cases result with
        | none => cases hn; exact ⟨⟨hsaid.1, rfl⟩, hh⟩
        | some status => cases hn; exact ⟨hsaid, hh⟩
      · cases hn
    · cases hn
  | dies =>
    have hc : w.childAt = .running := ho
    rw [World.step, hc] at hn
    cases hn
    exact ⟨hsaid.ends (.inr hc) (by rw [hc]; exact ChildAt.noConfusion), hh⟩

end Orderly

/-- Where no call on the pipe fails and nobody else kills the child, `Job::run` returns true
    exactly when the program was executed by a child whose cleanup had not failed; what it
    returns false for is the first status of the child, which is then reaped. -/
theorem started_iff_execed (hs : Started fds) (h : Reach (Init fds) (Under (Next manifest ctx) (Orderly manifest ctx)) w)
    (hp : w.parentAt = .returned started status) : status = (Child.readStatus w.written).raw ∧
      (started = true ↔ w.execed ∧ { errorCode := .forkHandlerFailed } ∉ w.written) := by
  have hall : ∃ reader writer, Ends fds reader writer ∧ Inv manifest fds reader writer w ∧ Said w ∧ Heard w := by
    refine h.invariant (P := fun w => ∃ reader writer, Ends fds reader writer ∧ Inv manifest fds reader writer w ∧ Said w ∧ Heard w)
      (fun w hi => ?_) fun w m w' hw hn => ?_
    · have hinv : ∃ reader writer, Ends fds reader writer ∧ Inv manifest fds reader writer w := init_inv hi
      obtain ⟨reader, writer, he, hinv⟩ := hinv
      obtain ⟨-, -, -, p, -, -, -, -, rfl⟩ := hi
      exact ⟨reader, writer, he, hinv, ⟨rfl, rfl⟩, fun status e => by cases e⟩
    · obtain ⟨reader, writer, he, hinv, hsaid, hh⟩ := hw
      exact ⟨reader, writer, he, hinv.next he hs hn.1, hinv.orderly_next he hsaid hh hn.1 hn.2⟩
  obtain ⟨reader, writer, he, hinv, hsaid, hh⟩ := hall
  have hstatus := hh status (by rw [hp]; rfl)
  refine ⟨hstatus, ?_⟩
  unfold Said at hsaid
  have hacted := hinv.acted
  unfold Acted at hacted
  cases started with
  | true =>
    obtain ⟨-, hnil, hlate, hreaped⟩ := hinv.believes hp
    refine iff_of_true rfl ⟨?_, by rw [hnil]; exact List.not_mem_nil⟩
    cases hc : w.childAt with
    | running => exact hinv.execed hc
    | dead => rw [hc] at hsaid; exact hsaid.1 hnil
    | reaped => exact absurd hc hreaped
    | forked | cleaning | refusing | settingUp | reporting _ | exiting => rw [hc] at hlate; cases hlate
  | false =>
    rw [hp] at hacted
    rw [hacted.2] at hsaid
    refine iff_of_false Bool.noConfusion fun hboth => ?_
    rcases hsaid.2 hboth.1 with hnil | hone
    · refine hacted.1 ?_
      rw [hstatus, hnil]
      rfl
    · exact hboth.2 (by rw [hone]; exact List.mem_singleton_self _)

def orderly (w : World) : Move → Bool
  | .parent errno | .child errno => errno.isNone
  | .cleanup _ => true
  | .setUp answers => passes (Child.startChildProcess Child.plainJob ⟨none, none, []⟩) (fun _ _ => true) { answers }
  | .dies => decide (w.childAt = .running)

theorem orderly_of {w : World} {m : Move} (h : orderly w m) : Orderly Child.plainJob ⟨none, none, []⟩ w m := by
  cases m with
  | parent errno => exact Option.isNone_iff_eq_none.mp h
  | child errno => exact Option.isNone_iff_eq_none.mp h
  | cleanup succeeds => exact trivial
  | setUp answers =>
    obtain ⟨result, s, hrun, -⟩ := of_passes h
    exact ⟨result, s, hrun⟩
  | dies =>
    have hc : w.childAt = .running := of_decide_eq_true h
    exact hc

theorem steps_orderly (moves : List Move) (p : World → Bool)
    (h : (play (fun w m => if orderly w m then plainStep w m else none) daemonForked moves).any p) :
    ∃ w, Steps (Under (Next Child.plainJob ⟨none, none, []⟩) (Orderly Child.plainJob ⟨none, none, []⟩)) moves.length
      daemonForked w ∧ p w := by
  obtain ⟨w, hsteps, hw⟩ := steps_of_any h
  refine ⟨w, hsteps.mono fun w m w' hs => ?_, hw⟩
  split at hs
  · rename_i ho
    exact ⟨hs, orderly_of ho⟩
  · cases hs

/-- A program whose child could not clean up is executed, and killed. -/
theorem started_iff_execed_unclean : ∃ (w : World) (status : RawStatus), w.parentAt = .returned false status ∧ w.execed ∧
    (status = (Child.readStatus w.written).raw ∧
      (false = true ↔ w.execed ∧ { errorCode := .forkHandlerFailed } ∉ w.written)) := by
  obtain ⟨w, hsteps, hw⟩ := steps_orderly
    [.child none, .cleanup false, .child none, .setUp Child.plainAnswers, .parent none, .parent none, .parent none, .parent none]
    (fun w => decide (w.parentAt = .returned false ⟨15, 0, 0⟩) && w.execed) (by decide +kernel)
  rw [Bool.and_eq_true, decide_eq_true_eq] at hw
  have hreach := (Reach.init daemon_init).later hsteps.later
  exact ⟨w, _, hw.1, hw.2, started_iff_execed daemon_started hreach hw.1⟩

end ExecMonitor

end Relaunchd
