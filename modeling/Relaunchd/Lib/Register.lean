/-
  Relaunchd.Lib.Register — a register whose content outlives the programs that hold it, one
  after the other: what each of them finds is what the last of them left.
-/

import Relaunchd.Lib.Simulation

namespace Register

open Transition

variable {V : Type}

structure State (V : Type) where
  stored : Option V
  /-- What the program that runs has; `none` when none does. -/
  held : Option V

inductive Event (V : Type) where
  /-- A program starts, and finds the value. -/
  | opens (value : V)
  | sets (value : V)
  | dies
  deriving DecidableEq, Repr

/-- An empty register has a value that the first program puts there. -/
inductive Next (default : V) : State V → Event V → State V → Prop
  | opens (stored : Option V) :
      Next default ⟨stored, none⟩ (.opens (stored.getD default)) ⟨some (stored.getD default), some (stored.getD default)⟩
  | sets (stored : Option V) (held value : V) : Next default ⟨stored, some held⟩ (.sets value) ⟨some value, some value⟩
  | dies (stored held : Option V) : Next default ⟨stored, held⟩ .dies ⟨stored, none⟩

def Event.value? : Event V → Option V
  | .opens v | .sets v => some v
  | .dies => none

/-- The value the events leave, with what was there before them. -/
def last (first : V) (events : List (Event V)) : V := events.foldl (fun v e => e.value?.getD v) first

theorem last_concat (first : V) (events : List (Event V)) (e : Event V) :
    last first (events ++ [e]) = e.value?.getD (last first events) := by
  simp [last, List.foldl_append]

/-- Every program that starts finds the value set last, by whichever program. -/
theorem opens_last {default : V} {first : Option V} {t : State V} {events : List (Event V)}
    (h : Behaves (fun t => t = ⟨first, none⟩) (Next default) t events) :
    t.stored.getD default = last (first.getD default) events ∧
      ∀ before v after, events = before ++ .opens v :: after → v = last (first.getD default) before := by
  refine h.invariant (P := fun t events => t.stored.getD default = last (first.getD default) events ∧
    ∀ before v after, events = before ++ .opens v :: after → v = last (first.getD default) before)
    (fun t ht => ?_) fun t events e t' _ hp hn => ?_
  · subst ht
    exact ⟨rfl, fun before v after he => by simp at he⟩
  · obtain ⟨hstored, hopens⟩ := hp
    rw [Option.toList_some, last_concat]
    refine ⟨?_, fun before v after he => ?_⟩
    · cases hn with
      | opens stored => rfl
      | sets stored held value => rfl
      | dies stored held => exact hstored
    · rcases List.eq_nil_or_concat after with rfl | ⟨rest, x, rfl⟩
      · -- the event that is looked for is the last one
        obtain ⟨rfl, hx⟩ := List.append_inj' he rfl
        cases hx
        cases hn with
        | opens stored => exact hstored
      · rw [List.concat_eq_append, ← List.cons_append, ← List.append_assoc] at he
        exact hopens before v rest (List.append_inj' he rfl).1

end Register
