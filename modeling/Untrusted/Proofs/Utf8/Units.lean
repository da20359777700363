import Mathlib
import Untrusted.Proofs.Utf8.Valid
import Untrusted.Utf8.Units

/-!
# The units of valid text

A cut of the 16-bit units of a text that falls between the halves of no surrogate pair is a cut
between chars, and the units before it are counted for the bytes that those chars take.
-/

namespace Untrusted.Utf8

/-! ## The units of one char -/

theorem charUnits_cases (c : Char) :
    (charUnits c = [c.toNat] ∧ isHighSurrogate c.toNat = false) ∨
      ∃ high low, charUnits c = [high, low] ∧ isHighSurrogate high = true ∧
        isLowSurrogate low = true ∧ pairCodePoint high low = c.toNat := by
  have bounds := toNat_bounds c
  unfold charUnits
  split
  · refine .inl ⟨rfl, ?_⟩
    simp only [isHighSurrogate, Bool.and_eq_false_iff, decide_eq_false_iff_not]
    omega
  · refine .inr ⟨_, _, rfl, ?_, ?_, ?_⟩
    · simp only [isHighSurrogate, Bool.and_eq_true, decide_eq_true_eq]
      omega
    · simp only [isLowSurrogate, Bool.and_eq_true, decide_eq_true_eq]
      omega
    · unfold pairCodePoint
      omega

theorem units_cons (c : Char) (cs : List Char) : units (c :: cs) = charUnits c ++ units cs := rfl

theorem codePoints_charUnits_append (c : Char) (us : List Nat) :
    codePoints (charUnits c ++ us) = c.toNat :: codePoints us := by
  rcases charUnits_cases c with ⟨one, single⟩ | ⟨high, low, two, isHigh, isLow, code⟩
  · rw [one]
    cases us with
    | nil => rfl
    | cons u us => simp [codePoints, single]
  · rw [two]
    simp [codePoints, isHigh, isLow, code]

theorem codePoints_units (cs : List Char) : codePoints (units cs) = cs.map Char.toNat := by
  induction cs with
  | nil => rfl
  | cons c cs ih => rw [units_cons, codePoints_charUnits_append, ih, List.map_cons]

/-! ## Counting bytes -/

theorem encodedLength_eq (c : Char) : encodedLength c.toNat = (String.utf8EncodeChar c).length := by
  have code : c.val.toNat = c.toNat := rfl
  unfold encodedLength String.utf8EncodeChar
  simp only [code]
  split_ifs <;> first | rfl | omega

theorem unitsByteLength_eq_sum (us : List Nat) :
    unitsByteLength us = ((codePoints us).map encodedLength).sum := by
  rw [unitsByteLength, List.sum, List.foldr_map]

theorem unitsByteLength_units (cs : List Char) :
    unitsByteLength (units cs) = (encode cs).length := by
  rw [unitsByteLength_eq_sum, codePoints_units, List.map_map]
  induction cs with
  | nil => rfl
  | cons c cs ih =>
    rw [List.map_cons, List.sum_cons, ih, encode_cons, List.length_append, Function.comp_apply,
      encodedLength_eq]

/-! ## Cuts -/

theorem splitsPair_cons {u : Nat} {us : List Nat} {i : Nat} (h : 0 < i) :
    splitsPair (u :: us) (i + 1) = splitsPair us i := by
  obtain ⟨i, rfl⟩ := Nat.exists_eq_succ_of_ne_zero (Nat.ne_of_gt h)
  simp [splitsPair]

theorem exists_split_of_not_splitsPair {cs : List Char} {i : Nat} (h : i ≤ (units cs).length)
    (whole : splitsPair (units cs) i = false) :
    ∃ pre post, cs = pre ++ post ∧ (units cs).take i = units pre := by
  -- By induction on the chars: a cut inside the units of the first one splits a pair, and a cut
  -- after them is one of the other units.
  induction cs generalizing i with
  | nil => exact ⟨[], [], rfl, by simp [units]⟩
  | cons c cs ih =>
    rcases Nat.eq_zero_or_pos i with rfl | positive
    · exact ⟨[], c :: cs, rfl, by simp [units]⟩
    · have later {j : Nat} (le : j ≤ (units cs).length)
          (whole : 0 < j → splitsPair (units cs) j = false) :
          ∃ pre post, cs = pre ++ post ∧ (units cs).take j = units pre := by
        refine ih le ?_
        rcases Nat.eq_zero_or_pos j with rfl | hj
        · rfl
        · exact whole hj
      rw [units_cons] at h whole ⊢
      rcases charUnits_cases c with ⟨one, single⟩ | ⟨high, low, two, isHigh, isLow, code⟩
      · -- One unit: the cut is after it.
        rw [one] at h whole ⊢
        obtain ⟨j, rfl⟩ := Nat.exists_eq_succ_of_ne_zero (Nat.ne_of_gt positive)
        rw [List.singleton_append, List.length_cons] at h
        obtain ⟨pre, post, rfl, taken⟩ :=
          later (j := j) (by omega) fun hj => by rwa [← splitsPair_cons hj]
        refine ⟨c :: pre, post, rfl, ?_⟩
        rw [units_cons, one, List.singleton_append, List.take_succ_cons, taken,
          List.singleton_append]
      · -- A pair: the cut is between its halves or after it.
        rw [two] at h whole ⊢
        match i with
        | 1 => simp [splitsPair, isHigh, isLow] at whole
        | j + 2 =>
          simp only [List.cons_append, List.nil_append, List.length_cons] at h
          obtain ⟨pre, post, rfl, taken⟩ := later (j := j) (by omega) fun hj => by
            rwa [List.cons_append, List.cons_append, List.nil_append,
              splitsPair_cons (by omega), splitsPair_cons hj] at whole
          refine ⟨c :: pre, post, rfl, ?_⟩
          rw [units_cons, two]
          simp [taken]

end Untrusted.Utf8
