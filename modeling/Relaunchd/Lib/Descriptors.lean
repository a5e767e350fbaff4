/-
  Relaunchd.Lib.Descriptors — the file descriptors of a process.

  A table gives each open descriptor the file it refers to, and says if `execve(2)` closes it.
  What a file is, is a parameter. The kernel may give a new file any descriptor that is free.
-/

import Mathlib

namespace Descriptors

structure Entry (F : Type) where
  file : F
  cloexec : Bool := false
  deriving DecidableEq

abbrev Table (F : Type) := AList fun _ : Nat => Entry F

variable {F : Type}

namespace Table

variable (t : Table F)

def file? (fd : Nat) : Option F := (t.lookup fd).map (·.file)

def Free (fd : Nat) : Prop := t.lookup fd = none

instance (fd : Nat) : Decidable (t.Free fd) := inferInstanceAs (Decidable (_ = none))

def refers (which : F → Bool) : Bool := t.entries.any fun e => which e.2.file

def openAt (fd : Nat) (file : F) : Table F := t.insert fd { file }

def close (fd : Nat) : Table F := t.erase fd

def setCloexec (fd : Nat) : Table F :=
  match t.lookup fd with
  | none => t
  | some e => t.insert fd { e with cloexec := true }

/-- `dup2(old, new)`: nothing changes when the two are the same. -/
def dup2 (old new : Nat) : Table F :=
  match t.lookup old with
  | none => t
  | some e => if old = new then t else t.insert new { file := e.file }

/-- What is left of a table when the process executes another program. -/
def exec : Table F := ⟨t.entries.filter fun e => !e.2.cloexec, t.nodupKeys.sublist List.filter_sublist⟩

variable {t} {fd fd' : Nat} {file : F}

theorem refers_iff {which : F → Bool} : t.refers which ↔ ∃ fd e, t.lookup fd = some e ∧ which e.file := by
  rw [refers, List.any_eq_true]
  constructor
  · intro h
    obtain ⟨e, he, hw⟩ := h
    exact ⟨e.1, e.2, AList.mem_lookup_iff.mpr he, hw⟩
  · intro h
    obtain ⟨fd, e, he, hw⟩ := h
    exact ⟨⟨fd, e⟩, AList.mem_lookup_iff.mp he, hw⟩

theorem refers_eq_false {which : F → Bool} : t.refers which = false ↔ ∀ fd e, t.lookup fd = some e → which e.file = false := by
  rw [← Bool.not_eq_true, refers_iff]
  constructor
  · intro h fd e he
    by_contra hw
    exact h ⟨fd, e, he, by simpa using hw⟩
  · intro h hr
    obtain ⟨fd, e, he, hw⟩ := hr
    rw [h fd e he] at hw
    cases hw

/-! ## What each operation does to a descriptor -/

@[simp] theorem lookup_openAt_self : (t.openAt fd file).lookup fd = some { file } := AList.lookup_insert t

theorem lookup_openAt_ne (h : fd' ≠ fd) : (t.openAt fd file).lookup fd' = t.lookup fd' := AList.lookup_insert_ne h

@[simp] theorem lookup_close_self : (t.close fd).lookup fd = none := AList.lookup_erase fd t

theorem lookup_close_ne (h : fd' ≠ fd) : (t.close fd).lookup fd' = t.lookup fd' := AList.lookup_erase_ne h

theorem lookup_setCloexec_self : (t.setCloexec fd).lookup fd = (t.lookup fd).map fun e => { e with cloexec := true } := by
  unfold setCloexec
  split
  · rename_i h; rw [h]; rfl
  · rename_i e h; rw [h]; exact AList.lookup_insert t

theorem lookup_setCloexec_ne (h : fd' ≠ fd) : (t.setCloexec fd).lookup fd' = t.lookup fd' := by
  unfold setCloexec
  split
  · rfl
  · exact AList.lookup_insert_ne h

theorem lookup_dup2_self {e : Entry F} (h : t.lookup fd' = some e) (hne : fd' ≠ fd) :
    (t.dup2 fd' fd).lookup fd = some { file := e.file } := by
  unfold dup2
  rw [h]
  dsimp only
  rw [if_neg hne]
  exact AList.lookup_insert t

theorem lookup_dup2_ne {old : Nat} (h : fd' ≠ fd) : (t.dup2 old fd).lookup fd' = t.lookup fd' := by
  unfold dup2
  split
  · rfl
  · split
    · rfl
    · exact AList.lookup_insert_ne h

theorem lookup_exec (fd : Nat) : t.exec.lookup fd = (t.lookup fd).filter fun e => !e.cloexec := by
  apply Option.ext
  intro e
  have hm : (⟨fd, e⟩ : Sigma fun _ : Nat => Entry F) ∈ t.exec.entries ↔
      (⟨fd, e⟩ : Sigma fun _ : Nat => Entry F) ∈ t.entries ∧ (!e.cloexec) = true := List.mem_filter
  rw [← Option.mem_def, AList.mem_lookup_iff, hm, ← AList.mem_lookup_iff, Option.mem_def, Option.filter_eq_some_iff]

/-- A program that is executed keeps a descriptor if it is not closed on the way. -/
theorem lookup_exec_eq_some {e : Entry F} : t.exec.lookup fd = some e ↔ t.lookup fd = some e ∧ e.cloexec = false := by
  rw [lookup_exec, Option.filter_eq_some_iff]
  simp

end Table

end Descriptors
