/-
  Relaunchd.Properties.SignalNames — what `getSignalByName` makes of a string, against the
  grammar its comment gives: a number, or a name of the table with or without its `SIG`.

  A conversion that stops at the first character it cannot use takes more strings for numbers.
-/

import Relaunchd.Numerals

namespace Relaunchd

variable {s : String} {n : Int} {c : Char}

/-! ## The grammar -/

/-- The number the table gives the string in upper case, with `SIG` in front. -/
def signalNamed (s : String) : Option Int :=
  let buf := String.ofList (s.toList.map Char.toUpper)
  let buf := if "SIG".toList.isPrefixOf buf.toList then buf else "SIG" ++ buf
  (signalsByName.find? (·.1 == buf)).map (·.2)

def documentedSignal (s : String) : Option Int :=
  if isNumber 10 s && digits 10 s.toList < 2 ^ 31 then some (digits 10 s.toList) else signalNamed s

/-- `std::stoi` reads a number that is not negative from a string that is not one. -/
def MistakenForNumber (s : String) : Prop := ∃ n, stoi s = some n ∧ 0 ≤ n ∧ isNumber 10 s = false

/-! ## Names -/

theorem toUpper_of_lt (h : c.toNat < 97) : c.toUpper = c := by
  unfold Char.toUpper
  rw [dif_neg]
  intro h'
  obtain ⟨hle, -⟩ := h'
  have hle : 'a'.toNat ≤ c.toNat := UInt32.le_iff_toNat_le.mp hle
  have h97 : 'a'.toNat = 97 := rfl
  omega

/-- Every name in the table goes on with a letter. -/
theorem signalsByName_letter : ∀ e ∈ signalsByName, ∀ c ∈ (e.1.toList.drop 3).head?, 58 ≤ c.toNat := by
  have h : signalsByName.all fun e => (e.1.toList.drop 3).head?.all fun c => Nat.ble 58 c.toNat := by decide +kernel
  intro e he c hc
  have he := List.all_eq_true.mp h e he
  rw [Option.mem_def.mp hc] at he
  exact Nat.le_of_ble_eq_true he

theorem signalsByName_nonneg : ∀ e ∈ signalsByName, 0 ≤ e.2 := by
  decide

/-- What is read as a number is no name. -/
theorem signalNamed_of_stoi (h : stoi s = some n) : signalNamed s = none := by
  obtain ⟨c, cs, hs, hc⟩ := stoi_head h
  have hup : c.toUpper = c := toUpper_of_lt (by omega)
  have hfirst : "SIG".toList.isPrefixOf ((c :: cs).map Char.toUpper) = false := by
    have hne : ¬ 'S' = c := fun e => absurd (e ▸ hc) (by decide)
    rw [List.map_cons, hup]
    simp [List.isPrefixOf, hne]
  unfold signalNamed
  dsimp only
  rw [hs, String.toList_ofList (l := (c :: cs).map Char.toUpper), hfirst, if_neg Bool.false_ne_true, Option.map_eq_none_iff,
    List.find?_eq_none]
  intro e he heq
  have hname : e.1.toList = "SIG".toList ++ (c :: cs).map Char.toUpper := by
    rw [beq_iff_eq.mp heq, String.toList_append, String.toList_ofList (l := (c :: cs).map Char.toUpper)]
  have hletter := signalsByName_letter e he c (by rw [hname, List.map_cons, hup]; rfl)
  omega

/-! ## The two -/

theorem getSignalByName_of_stoi (h : stoi s = some n) : getSignalByName s = if 0 ≤ n then some n else none := by
  simp only [getSignalByName, h]

theorem getSignalByName_of_none (h : stoi s = none) : getSignalByName s = signalNamed s := by
  simp only [getSignalByName, h]
  change (if 0 ≤ (signalNamed s).getD (-1) then some ((signalNamed s).getD (-1)) else none) = signalNamed s
  cases hname : signalNamed s with
  | none => rfl
  | some n =>
    obtain ⟨e, he, rfl⟩ := Option.map_eq_some_iff.mp hname
    exact if_pos (signalsByName_nonneg e (List.mem_of_find?_eq_some he))

/-- A string is taken for what the comment says, unless it is no number and is read as one. -/
theorem getSignalByName_iff (s : String) : getSignalByName s = documentedSignal s ↔ ¬ MistakenForNumber s := by
  unfold documentedSignal
  cases hnum : isNumber 10 s with
  | true =>
    refine iff_of_true ?_ fun ⟨_, _, _, hfalse⟩ => by rw [hnum] at hfalse; cases hfalse
    have hstoi := stoi_number hnum
    rw [Bool.true_and]
    by_cases hlt : digits 10 s.toList < 2 ^ 31
    · rw [if_pos hlt] at hstoi
      rw [getSignalByName_of_stoi hstoi, if_pos (decide_eq_true hlt), if_pos (Int.natCast_nonneg _)]
    · rw [if_neg hlt] at hstoi
      rw [getSignalByName_of_none hstoi, if_neg (mt of_decide_eq_true hlt)]
  | false =>
    rw [Bool.false_and, if_neg Bool.false_ne_true]
    cases hstoi : stoi s with
    | none => exact iff_of_true (getSignalByName_of_none hstoi) fun ⟨_, h, _⟩ => by rw [hstoi] at h; cases h
    | some n =>
      rw [getSignalByName_of_stoi hstoi, signalNamed_of_stoi hstoi]
      by_cases hn : 0 ≤ n
      · rw [if_pos hn]
        exact iff_of_false nofun fun h => h ⟨n, hstoi, hn, hnum⟩
      · rw [if_neg hn]
        apply iff_of_true rfl
        intro h'
        obtain ⟨m, hm, hm0, -⟩ := h'
        rw [hstoi] at hm
        cases hm
        exact hn hm0

/-- Nine, and then a letter. -/
theorem number_with_tail : ¬ ∀ s, getSignalByName s = documentedSignal s := fun h => by
  have hnine : getSignalByName "9x" ≠ documentedSignal "9x" := by decide +kernel
  exact hnine (h "9x")

end Relaunchd
