/-
  Relaunchd.Numerals — strings of digits, and what the conversions make of other strings.

  Both conversions skip blanks, take a sign and stop at the first character that is no digit,
  so they read more than digits.
-/

import Relaunchd.Text

namespace Relaunchd

variable {base : Nat} {s : String} {c : Char}

def isDigitOf (base : Nat) (c : Char) : Bool := '0'.toNat ≤ c.toNat && c.toNat < '0'.toNat + base

def isNumber (base : Nat) (s : String) : Bool := !s.toList.isEmpty && s.toList.all (isDigitOf base)

theorem isDigitOf_iff : isDigitOf base c ↔ 48 ≤ c.toNat ∧ c.toNat < 48 + base := by
  simp [isDigitOf]

theorem isNumber_ne (h : isNumber base s) : s.toList.isEmpty = false := by
  simp only [isNumber, Bool.and_eq_true, Bool.not_eq_true'] at h
  exact h.1

theorem isSpace_lt (h : isSpace c) : c.toNat < 48 := by
  simp only [isSpace, Bool.or_eq_true, beq_iff_eq, Bool.and_eq_true, decide_eq_true_eq] at h
  rcases h with rfl | h
  · decide
  · omega

theorem not_isSpace (h : 48 ≤ c.toNat) : isSpace c = false := Bool.eq_false_iff.mpr fun hc => by
  have := isSpace_lt hc
  omega

/-- After the blanks and the sign. -/
theorem numeral_cons {cs : List Char} (hs : s.toList = c :: cs) (hc : 48 ≤ c.toNat) :
    numeral base s = (false, (c :: cs).takeWhile (isDigitOf base)) := by
  unfold numeral
  rw [hs, List.dropWhile_cons_of_neg (by rw [not_isSpace hc]; nofun)]
  split
  · rename_i heq
    cases heq
    exact absurd hc (by decide)
  · rename_i heq
    cases heq
    exact absurd hc (by decide)
  · rfl

/-- Digits are taken as they are. -/
theorem numeral_number (h : isNumber base s) : numeral base s = (false, s.toList) := by
  have hne := isNumber_ne h
  simp only [isNumber, Bool.and_eq_true, List.all_eq_true] at h
  cases hs : s.toList with
  | nil => rw [hs] at hne; cases hne
  | cons c cs =>
    rw [hs] at h
    have hc : 48 ≤ c.toNat := (isDigitOf_iff.mp (h.2 c List.mem_cons_self)).1
    rw [numeral_cons hs hc, List.takeWhile_eq_self_iff.mpr h.2]

/-- Where digits are found, the string starts with a blank, a sign or a digit. -/
theorem numeral_head (h : (numeral base s).2 ≠ []) : ∃ c cs, s.toList = c :: cs ∧ c.toNat < 48 + base := by
  cases hs : s.toList with
  | nil =>
    simp only [numeral, hs, List.dropWhile_nil, List.takeWhile_nil, ne_eq, not_true_eq_false] at h
  | cons c cs =>
    refine ⟨c, cs, rfl, ?_⟩
    by_contra hc
    have hdigit : isDigitOf base c = false := Bool.eq_false_iff.mpr fun hd => hc (isDigitOf_iff.mp hd).2
    rw [numeral_cons hs (by omega), List.takeWhile_cons_of_neg (by rw [hdigit]; nofun)] at h
    exact h rfl

/-- A string of digits is read as the number it is, if that fits. -/
theorem stoi_number (h : isNumber 10 s) : stoi s = if digits 10 s.toList < 2 ^ 31 then some (digits 10 s.toList : Int) else none := by
  unfold stoi
  rw [numeral_number h]
  simp only [isNumber_ne h, Bool.not_false, Bool.true_and, Bool.false_eq_true, if_false, Bool.and_eq_true, decide_eq_true_eq]
  by_cases hlt : digits 10 s.toList < 2 ^ 31
  · rw [if_pos hlt, if_pos (by omega)]
  · rw [if_neg hlt, if_neg (by omega)]

theorem stoulOctal_number (h : isNumber 8 s) : stoulOctal s = if digits 8 s.toList < 2 ^ 64 then some (digits 8 s.toList) else none := by
  unfold stoulOctal
  rw [numeral_number h]
  simp only [isNumber_ne h, Bool.not_false, Bool.true_and, Bool.false_eq_true, if_false, decide_eq_true_eq]

/-- Only a number that is found is read. -/
theorem stoi_head {n : Int} (h : stoi s = some n) : ∃ c cs, s.toList = c :: cs ∧ c.toNat < 58 := by
  have hfound : (numeral 10 s).2 ≠ [] := by
    intro hnil
    cases hnum : numeral 10 s with
    | mk neg ds =>
      rw [hnum] at hnil
      subst hnil
      simp [stoi, hnum] at h
  exact numeral_head hfound

end Relaunchd
