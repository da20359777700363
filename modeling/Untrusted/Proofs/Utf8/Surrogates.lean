import Mathlib
import Untrusted.Proofs.Regex.Matching

/-!
# Lone surrogates

Any 16-bit units are a row of chars and of surrogates without a partner. They are counted for the
bytes that they are encoded as, and so are the two sides of a cut, unless it falls between the
halves of a pair: then each half is counted as if it stood alone.
-/

namespace Untrusted.Utf8

/-! ## The parts of units -/

inductive UnitPart where
  | char (c : Char)
  | lone (u : Nat)

namespace UnitPart

def codePoint : UnitPart → Nat
  | char c => c.toNat
  | lone u => u

def bytes : UnitPart → List UInt8
  | char c => String.utf8EncodeChar c
  | lone _ => [0xef, 0xbf, 0xbd]

end UnitPart

/-- Units as their parts. A high surrogate has a partner if a low one comes next. -/
inductive UnitParts : List Nat → List UnitPart → Prop where
  | nil : UnitParts [] []
  | char (c : Char) {us : List Nat} {parts : List UnitPart} : UnitParts us parts →
      UnitParts (charUnits c ++ us) (.char c :: parts)
  | lone {u : Nat} {us : List Nat} {parts : List UnitPart} : isSurrogate u = true →
      (isHighSurrogate u = true → ∀ v ∈ us.head?, isLowSurrogate v = false) →
      UnitParts us parts → UnitParts (u :: us) (.lone u :: parts)

variable {us : List Nat} {parts : List UnitPart} {u v i j : Nat}

theorem codePoints_cons_of_not_pair
    (h : isHighSurrogate u = true → ∀ v ∈ us.head?, isLowSurrogate v = false) :
    codePoints (u :: us) = u :: codePoints us := by
  cases us with
  | nil => rfl
  | cons v us =>
    have alone : (isHighSurrogate u && isLowSurrogate v) = false := by
      rw [Bool.and_eq_false_imp]
      exact fun high => h high v rfl
    simp [codePoints, alone]

theorem UnitParts.codePoints_eq (h : UnitParts us parts) :
    codePoints us = parts.map UnitPart.codePoint := by
  induction h with
  | nil => rfl
  | char c _ ih => rw [codePoints_charUnits_append, ih, List.map_cons, UnitPart.codePoint]
  | lone _ alone _ ih =>
    rw [codePoints_cons_of_not_pair alone, ih, List.map_cons, UnitPart.codePoint]

theorem isSurrogate_eq_true_iff :
    isSurrogate u = true ↔ isHighSurrogate u = true ∨ isLowSurrogate u = true := by
  simp only [isSurrogate, isHighSurrogate, isLowSurrogate, Bool.and_eq_true, decide_eq_true_eq]
  omega

theorem exists_char_of_not_surrogate (small : u < 0x10000) (h : isSurrogate u = false) :
    ∃ c : Char, charUnits c = [u] := by
  have valid : u.isValidChar := by
    simp only [isSurrogate, Bool.and_eq_false_iff, decide_eq_false_iff_not] at h
    unfold Nat.isValidChar
    omega
  refine ⟨Char.ofNat u, ?_⟩
  rw [charUnits, Char.toNat_ofNat, if_pos valid, if_pos small]

theorem exists_char_of_pair (high : isHighSurrogate u = true) (low : isLowSurrogate v = true) :
    ∃ c : Char, charUnits c = [u, v] := by
  simp only [isHighSurrogate, isLowSurrogate, Bool.and_eq_true, decide_eq_true_eq] at high low
  have valid : (pairCodePoint u v).isValidChar := by
    unfold Nat.isValidChar pairCodePoint
    omega
  refine ⟨Char.ofNat (pairCodePoint u v), ?_⟩
  rw [charUnits, Char.toNat_ofNat, if_pos valid, if_neg (by unfold pairCodePoint; omega)]
  have first : 0xd800 + (pairCodePoint u v - 0x10000) / 0x400 = u := by
    unfold pairCodePoint
    omega
  have second : 0xdc00 + (pairCodePoint u v - 0x10000) % 0x400 = v := by
    unfold pairCodePoint
    omega
  rw [first, second]

theorem exists_unitParts (h : ∀ u ∈ us, u < 0x10000) : ∃ parts, UnitParts us parts := by
  have single {u : Nat} {us : List Nat} (small : u < 0x10000)
      (alone : isHighSurrogate u = true → ∀ v ∈ us.head?, isLowSurrogate v = false)
      (rest : ∃ parts, UnitParts us parts) : ∃ parts, UnitParts (u :: us) parts := by
    obtain ⟨parts, rest⟩ := rest
    cases surrogate : isSurrogate u with
    | true => exact ⟨_, .lone surrogate alone rest⟩
    | false =>
      obtain ⟨c, one⟩ := exists_char_of_not_surrogate small surrogate
      exact ⟨_, one ▸ rest.char c⟩
  -- By induction along the code points: a unit that starts no pair is a char or stands alone.
  induction us using codePoints.induct with
  | case1 => exact ⟨[], .nil⟩
  | case2 u => exact single (h u (by simp)) (by simp) ⟨[], .nil⟩
  | case3 u v us pair ih =>
    obtain ⟨parts, rest⟩ := ih fun w hw => h w (by simp [hw])
    rw [Bool.and_eq_true] at pair
    obtain ⟨c, two⟩ := exists_char_of_pair pair.1 pair.2
    exact ⟨_, two ▸ rest.char c⟩
  | case4 u v us alone ih =>
    rw [Bool.and_eq_true, not_and] at alone
    refine single (h u (by simp)) (fun high w hw => ?_) (ih fun w hw => h w (by simp [hw]))
    obtain rfl : v = w := by simpa using hw
    simpa using alone high

/-! ## Bytes of the parts -/

theorem scalar_toNat (c : Char) : scalar c.toNat = c := by
  have bounds := toNat_bounds c
  have whole : isSurrogate c.toNat = false := by
    simp only [isSurrogate, Bool.and_eq_false_iff, decide_eq_false_iff_not]
    omega
  rw [scalar, whole, if_neg Bool.false_ne_true, Char.ofNat_toNat]

theorem encodedLength_of_surrogate (h : isSurrogate u = true) : encodedLength u = 3 := by
  simp only [isSurrogate, Bool.and_eq_true, decide_eq_true_eq] at h
  unfold encodedLength
  split_ifs <;> omega

theorem encodedLength_pair (u v : Nat) : encodedLength (pairCodePoint u v) = 4 := by
  unfold encodedLength pairCodePoint
  split_ifs <;> omega

theorem UnitParts.encodeUnits_eq (h : UnitParts us parts) :
    encodeUnits us = parts.flatMap UnitPart.bytes := by
  have replaced : String.utf8EncodeChar '\uFFFD' = [0xef, 0xbf, 0xbd] := by decide +kernel
  rw [encodeUnits, h.codePoints_eq, List.map_map, encode, List.flatMap_map]
  induction h with
  | nil => rfl
  | char c _ ih =>
    rw [List.flatMap_cons, ih, List.flatMap_cons, Function.comp_apply, UnitPart.codePoint,
      scalar_toNat, UnitPart.bytes]
  | lone surrogate _ _ ih =>
    rw [List.flatMap_cons, ih, List.flatMap_cons, Function.comp_apply, UnitPart.codePoint, scalar,
      if_pos surrogate, replaced, UnitPart.bytes]

theorem UnitParts.unitsByteLength_eq (h : UnitParts us parts) :
    unitsByteLength us = (parts.flatMap UnitPart.bytes).length := by
  rw [unitsByteLength_eq_sum, h.codePoints_eq, List.map_map]
  induction h with
  | nil => rfl
  | char c _ ih =>
    rw [List.map_cons, List.sum_cons, ih, List.flatMap_cons, List.length_append,
      Function.comp_apply, UnitPart.codePoint, encodedLength_eq, UnitPart.bytes]
  | lone surrogate _ _ ih =>
    rw [List.map_cons, List.sum_cons, ih, List.flatMap_cons, List.length_append,
      Function.comp_apply, UnitPart.codePoint, encodedLength_of_surrogate surrogate,
      UnitPart.bytes]
    rfl

theorem length_encodeUnits (h : ∀ u ∈ us, u < 0x10000) :
    (encodeUnits us).length = unitsByteLength us := by
  obtain ⟨parts, split⟩ := exists_unitParts h
  rw [split.encodeUnits_eq, split.unitsByteLength_eq]

/-! ## Cuts -/

theorem splitsPair_one : splitsPair (u :: v :: us) 1 = (isHighSurrogate u && isLowSurrogate v) := by
  simp [splitsPair]

theorem codePoints_take_append_drop (h : splitsPair us i = false) :
    codePoints (us.take i) ++ codePoints (us.drop i) = codePoints us := by
  induction us using codePoints.induct generalizing i with
  | case1 => simp [codePoints]
  | case2 u => cases i <;> simp [codePoints]
  | case3 u v us pair ih =>
    rcases i with _ | _ | i
    · rfl
    · rw [splitsPair_one, pair] at h
      contradiction
    · have later : splitsPair us i = false := by
        rcases Nat.eq_zero_or_pos i with rfl | positive
        · rfl
        · rwa [splitsPair_cons (by omega), splitsPair_cons positive] at h
      simp only [List.take_succ_cons, List.drop_succ_cons, codePoints, pair, if_true,
        List.cons_append, ih later]
  | case4 u v us alone ih =>
    cases i with
    | zero => rfl
    | succ i =>
      have later : splitsPair (v :: us) i = false := by
        rcases Nat.eq_zero_or_pos i with rfl | positive
        · rfl
        · rwa [splitsPair_cons positive] at h
      have first : codePoints (u :: (v :: us).take i) = u :: codePoints ((v :: us).take i) := by
        cases i with
        | zero => rfl
        | succ i => simp [codePoints, alone]
      rw [List.take_succ_cons, List.drop_succ_cons, first, List.cons_append, ih later]
      simp [codePoints, alone]

theorem unitsByteLength_eq_of_codePoints {a b : List Nat}
    (h : codePoints us = codePoints a ++ codePoints b) :
    unitsByteLength us = unitsByteLength a + unitsByteLength b := by
  simp only [unitsByteLength_eq_sum, h, List.map_append, List.sum_append]

theorem unitsByteLength_take_add_drop (h : splitsPair us i = false) :
    unitsByteLength (us.take i) + unitsByteLength (us.drop i) = unitsByteLength us :=
  (unitsByteLength_eq_of_codePoints (codePoints_take_append_drop h).symm).symm

theorem exists_pair_of_splitsPair (h : splitsPair us i = true) :
    ∃ before high low after, us = before ++ high :: low :: after ∧ i = before.length + 1 ∧
      isHighSurrogate high = true ∧ isLowSurrogate low = true := by
  rw [← Regex.splitsPair_eq, Regex.splitsPair_eq_true_iff] at h
  obtain ⟨j, high, low, rfl, first, second, isHigh, isLow⟩ := h
  rw [List.getElem?_toArray, List.getElem?_eq_some_iff] at first second
  obtain ⟨_, rfl⟩ := first
  obtain ⟨inside, rfl⟩ := second
  refine ⟨us.take j, _, _, us.drop (j + 2), ?_, ?_, isHigh, isLow⟩
  · rw [← List.drop_eq_getElem_cons, ← List.drop_eq_getElem_cons, List.take_append_drop]
  · rw [List.length_take]
    omega

theorem unitsByteLength_append (before : List Nat)
    (first : ∀ v ∈ us.head?, isLowSurrogate v = false) :
    unitsByteLength (before ++ us) = unitsByteLength before + unitsByteLength us := by
  have uncut : splitsPair (before ++ us) before.length = false := by
    rw [← Regex.splitsPair_eq]
    refine Regex.splitsPair_eq_false_of_not_low fun v at' => first v ?_
    rw [List.getElem?_toArray, List.getElem?_append_right (Nat.le_refl _), Nat.sub_self] at at'
    rwa [Option.mem_def, List.head?_eq_getElem?]
  simpa using (unitsByteLength_take_add_drop uncut).symm

theorem unitsByteLength_cons_lone (surrogate : isSurrogate u = true)
    (alone : isHighSurrogate u = true → ∀ v ∈ us.head?, isLowSurrogate v = false) :
    unitsByteLength (u :: us) = 3 + unitsByteLength us := by
  rw [unitsByteLength, codePoints_cons_of_not_pair alone, List.foldr_cons,
    encodedLength_of_surrogate surrogate, unitsByteLength]

/-- Where a cut splits a pair, each half takes the three bytes of its replacement, and the pair
takes four. -/
theorem unitsByteLength_of_splitsPair (h : splitsPair us i = true) :
    unitsByteLength (us.take i) + unitsByteLength (us.drop i) = unitsByteLength us + 2 := by
  obtain ⟨before, high, low, after, rfl, rfl, isHigh, isLow⟩ := exists_pair_of_splitsPair h
  have bare := Regex.isLowSurrogate_of_high isHigh
  have alone := Regex.isHighSurrogate_of_low isLow
  have pair : unitsByteLength (high :: low :: after) = 4 + unitsByteLength after := by
    simp [unitsByteLength, codePoints, isHigh, isLow, encodedLength_pair]
  have last : unitsByteLength [high] = 3 :=
    unitsByteLength_cons_lone (isSurrogate_eq_true_iff.2 (.inl isHigh)) (by simp)
  have next : unitsByteLength (low :: after) = 3 + unitsByteLength after :=
    unitsByteLength_cons_lone (isSurrogate_eq_true_iff.2 (.inr isLow)) (by simp [alone])
  have cut : (before ++ high :: low :: after).take (before.length + 1) = before ++ [high] := by
    simp [List.take_append]
  have left : (before ++ high :: low :: after).drop (before.length + 1) = low :: after := by
    simp [List.drop_append]
  rw [cut, left, unitsByteLength_append before (by simpa using bare),
    unitsByteLength_append before (by simpa using bare), pair, last, next]
  omega

theorem encodeUnits_take_append_drop (h : splitsPair us i = false) :
    encodeUnits (us.take i) ++ encodeUnits (us.drop i) = encodeUnits us := by
  rw [encodeUnits, encodeUnits, ← encode_append, ← List.map_append, codePoints_take_append_drop h,
    encodeUnits]

theorem splitsPair_take (h : splitsPair us i = false) (j : Nat) :
    splitsPair (us.take j) i = false := by
  rw [← Regex.splitsPair_eq, Bool.eq_false_iff, ne_eq, Regex.splitsPair_eq_true_iff] at h ⊢
  rintro ⟨k, high, low, rfl, first, second, pair⟩
  rw [List.getElem?_toArray, List.getElem?_take, Option.ite_none_right_eq_some] at first second
  exact h ⟨k, high, low, rfl, by simpa using first.2, by simpa using second.2, pair⟩

theorem encodeUnits_between (small : ∀ u ∈ us, u < 0x10000) (le : i ≤ j)
    (first : splitsPair us i = false) (last : splitsPair us j = false) :
    ((encodeUnits us).drop (Regex.byteCount us.toArray 0 i)).take (Regex.byteCount us.toArray i j) =
      encodeUnits ((us.drop i).take (j - i)) := by
  have inner : (us.take j).drop i = (us.drop i).take (j - i) := List.drop_take
  have start : (us.take j).take i = us.take i := by rw [List.take_take, Nat.min_eq_left le]
  have before : (encodeUnits (us.take i)).length = Regex.byteCount us.toArray 0 i := by
    rw [Regex.byteCount_toArray, length_encodeUnits fun u hu => small u (List.mem_of_mem_take hu)]
  have between : (encodeUnits ((us.drop i).take (j - i))).length =
      Regex.byteCount us.toArray i j := by
    rw [Regex.byteCount_toArray_extract, length_encodeUnits fun u hu =>
      small u (List.mem_of_mem_drop (List.mem_of_mem_take hu))]
  rw [← encodeUnits_take_append_drop last, ← encodeUnits_take_append_drop (splitsPair_take first j),
    start, inner, List.append_assoc, ← before, List.drop_left, ← between, List.take_left]

/-- Units are counted for just the bytes that they are encoded as: those of their chars, and three
for each surrogate without a partner. The counts of the two sides of a cut add up to the whole
unless it splits a pair, and between two cuts that split none the counts lead to the bytes of the
units between them. -/
theorem byte_counts_of_units (small : ∀ u ∈ us, u < 0x10000) :
    (∃ parts, UnitParts us parts) ∧
    (∀ parts, UnitParts us parts → encodeUnits us = parts.flatMap UnitPart.bytes) ∧
    unitsByteLength us = (encodeUnits us).length ∧
    (∀ i, unitsByteLength (us.take i) + unitsByteLength (us.drop i) = unitsByteLength us ↔
      splitsPair us i = false) ∧
    ∀ i j, i ≤ j → Regex.splitsPair us.toArray i = false → Regex.splitsPair us.toArray j = false →
      ((encodeUnits us).drop (Regex.byteCount us.toArray 0 i)).take
          (Regex.byteCount us.toArray i j) =
        encodeUnits ((us.drop i).take (j - i)) := by
  refine ⟨exists_unitParts small, fun parts => UnitParts.encodeUnits_eq,
    (length_encodeUnits small).symm, fun i => ⟨fun adds => ?_, unitsByteLength_take_add_drop⟩,
    fun i j le first last => ?_⟩
  · cases cut : splitsPair us i with
    | false => rfl
    | true =>
      have more := unitsByteLength_of_splitsPair cut
      omega
  · rw [Regex.splitsPair_eq] at first last
    exact encodeUnits_between small le first last

/-- A high surrogate, a pair and a low surrogate. -/
theorem byte_counts_of_units_lone :
    let us := [0xd83d, 0xd83d, 0xde00, 0xde00]
    (∀ u ∈ us, u < 0x10000) ∧ unitsByteLength us = 10 ∧ (encodeUnits us).length = 10 ∧
      splitsPair us 2 = true ∧ unitsByteLength (us.take 2) + unitsByteLength (us.drop 2) = 12 ∧
      Regex.splitsPair us.toArray 1 = false ∧ Regex.splitsPair us.toArray 3 = false ∧
      ((encodeUnits us).drop (Regex.byteCount us.toArray 0 1)).take
        (Regex.byteCount us.toArray 1 3) = encodeUnits [0xd83d, 0xde00] := by
  intro us
  have small : ∀ u ∈ us, u < 0x10000 := by decide
  obtain ⟨-, -, counted, -, between⟩ := byte_counts_of_units small
  have ten : unitsByteLength us = 10 := by decide
  exact ⟨small, ten, counted ▸ ten, by decide, by decide, by decide, by decide,
    between 1 3 (by decide) (by decide) (by decide)⟩

end Untrusted.Utf8
