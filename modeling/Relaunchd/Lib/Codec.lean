/-
  Relaunchd.Lib.Codec — a text format, as a program that uses a library for it knows it:
  values are dumped to bytes and parsed from bytes.
-/

import Mathlib

abbrev Bytes := List UInt8

/-- `parse` undoes `dump`, and no dump has a NUL byte. -/
structure Codec (V : Type) where
  dump : V → Bytes
  parse : Bytes → Option V
  parse_dump : ∀ v, parse (dump v) = some v
  noNul : ∀ v, 0 ∉ dump v

namespace Codec

variable {V : Type} (codec : Codec V)

/-- What is left of a text when its end is cut off is no dump of the same value. -/
def CutsFail : Prop := ∀ v n, n < (codec.dump v).length → codec.parse ((codec.dump v).take n) ≠ some v

/-- A byte that stands in no text. -/
def Illegal (b : UInt8) : Prop := ∀ text rest, codec.parse (text ++ b :: rest) = none

/-! ## A C string in a larger buffer -/

def untilNul (bytes : Bytes) : Bytes := bytes.takeWhile (· ≠ 0)

theorem untilNul_append_of_not_mem {text : Bytes} (rest : Bytes) (h : 0 ∉ text) : untilNul (text ++ rest) = text ++ untilNul rest :=
  List.takeWhile_append_of_pos fun b hb => by
    simp only [ne_eq, decide_eq_true_eq]
    rintro rfl
    exact h hb

theorem untilNul_append_nul {text : Bytes} (rest : Bytes) (h : 0 ∉ text) : untilNul (text ++ 0 :: rest) = text := by
  rw [untilNul_append_of_not_mem _ h]
  simp [untilNul]

theorem untilNul_of_noNul {text : Bytes} (h : 0 ∉ text) : untilNul text = text :=
  List.takeWhile_eq_self_iff.mpr fun b hb => by
    simp only [ne_eq, decide_eq_true_eq]
    rintro rfl
    exact h hb

/-- Bytes with a NUL among them hide what comes after. -/
theorem untilNul_append_of_mem {text : Bytes} (rest : Bytes) (h : 0 ∈ text) : untilNul (text ++ rest) = untilNul text := by
  induction text with
  | nil => cases h
  | cons b text ih =>
    by_cases hb : b = 0
    · simp [untilNul, hb]
    · have hmem : (0 : UInt8) ∈ text := (List.mem_cons.mp h).resolve_left fun e => hb e.symm
      have hstep : ∀ bytes : Bytes, untilNul (b :: bytes) = b :: untilNul bytes := fun bytes => by simp [untilNul, hb]
      rw [List.cons_append, hstep, hstep, ih hmem]

theorem not_mem_untilNul {bytes : Bytes} : 0 ∉ untilNul bytes := fun h => by simpa using List.mem_takeWhile_imp h

theorem length_untilNul_le (bytes : Bytes) : (untilNul bytes).length ≤ bytes.length := (List.takeWhile_prefix _).length_le

/-! ## Strings of one letter -/

/-- The codec of the JSON strings that consist of the letter `a` alone; a value is their length. -/
def letters : Codec Nat where
  dump n := 34 :: (List.replicate n 97 ++ [34])
  parse text := if text = 34 :: (List.replicate (text.length - 2) 97 ++ [34]) then some (text.length - 2) else none
  parse_dump n := by simp
  noNul n := by simp

theorem letters_length (n : Nat) : (letters.dump n).length = n + 2 := by simp [letters]

theorem letters_parse {text : Bytes} {n : Nat} (h : letters.parse text = some n) : text = letters.dump n := by
  unfold letters at h ⊢
  dsimp only at h ⊢
  split at h
  · rename_i he
    cases h
    exact he
  · cases h

theorem letters_cutsFail : letters.CutsFail := by
  intro n k hk h
  have hlen := congrArg List.length (letters_parse h)
  rw [List.length_take, letters_length] at hlen
  rw [letters_length] at hk
  omega

theorem letters_illegal : letters.Illegal 255 := by
  intro text rest
  by_contra h
  obtain ⟨n, hn⟩ := Option.ne_none_iff_exists'.mp h
  have hmem : (255 : UInt8) ∈ letters.dump n := letters_parse hn ▸ List.mem_append_right _ List.mem_cons_self
  simp [letters] at hmem

end Codec
