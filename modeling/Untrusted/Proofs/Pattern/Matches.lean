import Mathlib
import Untrusted.Proofs.Ahead.Search

/-!
# Where patterns find a match

A pattern that is not of the caller's own answers with two lengths, and what it matched starts and
ends between tokens of the input that was searched.
-/

namespace Untrusted

/-! ## Matches of whole tokens -/

theorem Kind.boundaries_of_inner {k : Kind} {pre inner post : List UInt8} (filled : inner ≠ [])
    (hinner : k.Whole inner) (whole : k.Whole (pre ++ (inner ++ post))) :
    k.Boundary (pre ++ (inner ++ post)) pre.length ∧
      k.Boundary (pre ++ (inner ++ post)) (pre.length + inner.length) := by
  cases k with
  | bytes =>
    simp only [Boundary, List.length_append]
    omega
  | text =>
    have starts : Utf8.Boundary (pre ++ (inner ++ post)) pre.length := by
      obtain ⟨-, lead⟩ := Utf8.boundary_of_append pre hinner
      refine ⟨by simp, fun b hb => lead b ?_⟩
      have room : pre.length < (pre ++ inner).length := by
        rw [List.length_append]
        exact Nat.lt_add_of_pos_right (List.length_pos_iff.2 filled)
      rwa [← List.append_assoc, List.getElem?_append_left room] at hb
    have before : Utf8.isValid pre = true := by
      have valid := (starts.isValid_parts whole).1
      rwa [List.take_left] at valid
    refine ⟨starts, ?_⟩
    rw [Kind.Whole, ← List.append_assoc] at whole
    rw [← List.append_assoc, ← List.length_append]
    exact Utf8.boundary_of_valid_prefix (Utf8.isValid_append before hinner) whole

namespace Pattern

theorem exists_append_of_literalFrom? {needle l : List UInt8} {i j : Nat}
    (h : literalFrom? needle i l = some j) :
    ∃ pre post, l = pre ++ (needle ++ post) ∧ j = i + pre.length := by
  induction l generalizing i with
  | nil =>
    unfold literalFrom? at h
    split at h
    · rename_i empty
      cases h
      exact ⟨[], [], by simp [List.isEmpty_iff.1 empty], rfl⟩
    · contradiction
  | cons b l ih =>
    unfold literalFrom? at h
    split at h
    · rename_i starts
      cases h
      obtain ⟨post, same⟩ := List.isPrefixOf_iff_prefix.1 starts
      exact ⟨[], post, same.symm, rfl⟩
    · obtain ⟨pre, post, rfl, rfl⟩ := ih h
      refine ⟨b :: pre, post, rfl, ?_⟩
      rw [List.length_cons]
      omega

theorem literalFrom?_boundaries {k : Kind} {needle l : List UInt8} (hneedle : k.Whole needle)
    (whole : k.Whole l) {i : Nat} (h : literalFrom? needle 0 l = some i) :
    k.Boundary l i ∧ k.Boundary l (i + needle.length) := by
  cases needle with
  | nil =>
    rw [literalFrom?_nil] at h
    cases h
    have start : k.Boundary ([] ++ l) 0 := Kind.boundary_of_whole_prefix (Kind.whole_nil k) whole
    exact ⟨start, start⟩
  | cons b needle =>
    obtain ⟨pre, post, rfl, rfl⟩ := exists_append_of_literalFrom? h
    rw [Nat.zero_add]
    exact Kind.boundaries_of_inner (by simp) hneedle whole

theorem findIdx?_isByte_boundaries {k : Kind} {value : Number}
    (ascii : k = .text → ∃ n < 0x80, value = Number.ofNat n) {l : List UInt8} (whole : k.Whole l)
    {i : Nat} (h : l.findIdx? (isByte value) = some i) :
    k.Boundary l i ∧ k.Boundary l (i + 1) := by
  obtain ⟨inside, same, -⟩ := List.findIdx?_eq_some_iff_getElem.1 h
  have split : l = l.take i ++ ([l[i]] ++ l.drop (i + 1)) := by
    rw [List.singleton_append, ← List.drop_eq_getElem_cons, List.take_append_drop]
  have single : k.Whole [l[i]] := by
    cases k with
    | bytes => trivial
    | text =>
      obtain ⟨n, small, rfl⟩ := ascii rfl
      simp only [isByte, Number.toNat?_ofNat, beq_iff_eq, Option.some.injEq] at same
      exact Utf8.isValid_of_ascii (by simpa using by omega)
  have both := Kind.boundaries_of_inner (by simp) single (split ▸ whole)
  rwa [← split, List.length_take, Nat.min_eq_left (Nat.le_of_lt inside)] at both

end Pattern

/-! ## Regular expressions -/

namespace Utf8

theorem splitsPair_append_left {us vs : List Nat} {i : Nat} (h : 0 < i) :
    splitsPair (us ++ vs) (us.length + i) = splitsPair vs i := by
  have before : us.length + i - 1 = us.length + (i - 1) := by omega
  have positive : 0 < us.length + i := by omega
  simp only [splitsPair, before, h, positive, List.length_append, Nat.add_lt_add_iff_left,
    List.getD_eq_getElem?_getD, List.getElem?_append_right (Nat.le_add_right us.length _),
    Nat.add_sub_cancel_left]

theorem exists_parts_of_not_splitsPair {cs : List Char} {i j : Nat} (le : i ≤ (units cs).length)
    (first : splitsPair (units cs) i = false) (last : splitsPair (units cs) j = false) :
    ∃ pre inner post, cs = pre ++ (inner ++ post) ∧ (units cs).take i = units pre ∧
      ((units cs).drop i).take (j - i) = units inner := by
  obtain ⟨pre, post, rfl, taken⟩ := exists_split_of_not_splitsPair le first
  have split : units (pre ++ post) = units pre ++ units post := by simp [units]
  have length : (units pre).length = i := by
    rw [← taken, List.length_take, Nat.min_eq_left le]
  have left : (units (pre ++ post)).drop i = units post := by
    rw [split, ← length, List.drop_left]
  rw [left]
  rcases Nat.le_total (j - i) (units post).length with inside | beyond
  · have whole : splitsPair (units post) (j - i) = false := by
      rcases Nat.eq_zero_or_pos (j - i) with none | some
      · rw [none]
        rfl
      · have place : j = (units pre).length + (j - i) := by omega
        rwa [split, place, splitsPair_append_left some] at last
    obtain ⟨inner, post, rfl, counted⟩ := exists_split_of_not_splitsPair inside whole
    exact ⟨pre, inner, post, rfl, taken, counted⟩
  · exact ⟨pre, post, [], by rw [List.append_nil], taken, List.take_of_length_le beyond⟩

end Utf8

namespace Regex

variable {r : Regex} {text : Array Nat} {fuel i start stop : Nat}

theorem searchFrom_start_le (h : r.searchFrom text fuel i = some (start, stop)) :
    start ≤ text.size := by
  induction fuel generalizing i with
  | zero => simp [searchFrom] at h
  | succ fuel ih =>
    unfold searchFrom at h
    split at h
    · contradiction
    · rename_i inside
      split at h
      · cases h
        omega
      · exact ih h

theorem wholeMatch?_whole (h : r.wholeMatch? text fuel i = some (start, stop)) :
    start ≤ text.size ∧ splitsPair text start = false ∧ splitsPair text stop = false := by
  induction fuel generalizing i with
  | zero => simp [wholeMatch?] at h
  | succ fuel ih =>
    unfold wholeMatch? at h
    split at h
    · contradiction
    · rename_i found
      split at h
      · exact ih h
      · rename_i whole
        cases h
        simp only [Bool.or_eq_true, not_or, Bool.not_eq_true] at whole
        exact ⟨searchFrom_start_le found, whole⟩

theorem byteCount_toArray_extract (us : List Nat) (i j : Nat) :
    byteCount us.toArray i j = Utf8.unitsByteLength ((us.drop i).take (j - i)) := by
  simp [byteCount]

theorem splitsPair_eq (us : List Nat) (i : Nat) :
    splitsPair us.toArray i = Utf8.splitsPair us i := by
  rcases Nat.lt_or_ge i us.length with inside | beyond
  · exact splitsPair_toArray us inside
  · simp [splitsPair, Utf8.splitsPair, beyond]

theorem find?_boundaries {bytes : List UInt8} (valid : Utf8.isValid bytes = true) {i n : Nat}
    (h : r.find? bytes = some (i, n)) : Utf8.Boundary bytes i ∧ Utf8.Boundary bytes (i + n) := by
  unfold find? at h
  rw [Utf8.repaired_eq_chars valid] at h
  obtain ⟨⟨start, stop⟩, found, same⟩ := Option.map_eq_some_iff.1 h
  obtain ⟨rfl, rfl⟩ := Prod.mk.inj same
  obtain ⟨le, first, last⟩ := wholeMatch?_whole found
  rw [List.size_toArray] at le
  rw [splitsPair_eq] at first last
  obtain ⟨pre, inner, post, split, before, counted⟩ :=
    Utf8.exists_parts_of_not_splitsPair le first last
  rw [byteCount_toArray, byteCount_toArray_extract, before, counted, Utf8.unitsByteLength_units,
    Utf8.unitsByteLength_units, ← List.length_append, ← Utf8.encode_append]
  have whole : bytes = Utf8.encode (pre ++ (inner ++ post)) := by
    rw [← split]
    exact Utf8.eq_encode_chars valid
  subst whole
  constructor
  · rw [Utf8.encode_append] at valid ⊢
    exact Utf8.boundary_of_valid_prefix (Utf8.isValid_encode pre) valid
  · rw [← List.append_assoc, Utf8.encode_append] at valid ⊢
    exact Utf8.boundary_of_valid_prefix (Utf8.isValid_encode _) valid

end Regex

/-! ## Every match -/

namespace Pattern

def Library : Pattern → Prop
  | .custom _ _ => False
  | _ => True

/-- What a pattern of the library finds starts and ends between tokens. -/
theorem Library.find?_boundaries {p : Pattern} (library : p.Library) {k : Kind}
    (admissible : p.Admissible k) {bytes : List UInt8} (whole : k.Whole bytes)
    {found : Number × Number} (h : p.find? bytes = some found) :
    ∃ i n : Nat, found = (Number.ofNat i, Number.ofNat n) ∧ k.Boundary bytes i ∧
      k.Boundary bytes (i + n) := by
  cases p with
  | byte value =>
    rw [find?_byte] at h
    obtain ⟨i, at', rfl⟩ := Option.map_eq_some_iff.1 h
    exact ⟨i, 1, rfl, findIdx?_isByte_boundaries admissible whole at'⟩
  | literal needle =>
    rw [find?_literal] at h
    obtain ⟨i, at', rfl⟩ := Option.map_eq_some_iff.1 h
    exact ⟨i, _, rfl, literalFrom?_boundaries admissible whole at'⟩
  | byteWhere accepts =>
    obtain rfl := admissible
    rw [find?_byteWhere] at h
    obtain ⟨i, at', rfl⟩ := Option.map_eq_some_iff.1 h
    obtain ⟨inside, -⟩ := List.findIdx?_eq_some_iff_getElem.1 at'
    exact ⟨i, 1, rfl, Nat.le_of_lt inside, inside⟩
  | charWhere accepts =>
    obtain rfl := admissible
    simp only [find?] at h
    split at h
    · rename_i i c n scanned
      cases h
      obtain ⟨cs, rest, rfl, rfl, -, read⟩ := Utf8.exists_append_of_scanTo scanned
      obtain ⟨later, rfl, rfl⟩ := Utf8.exists_append_of_decode (read c n rfl)
      rw [Nat.zero_add]
      refine ⟨_, _, rfl, Kind.boundaries_of_inner ?_ (Utf8.isValid_encode [c]) whole⟩
      rw [Utf8.encode_singleton]
      simp
    · contradiction
  | regex r =>
    obtain rfl := admissible
    simp only [find?] at h
    obtain ⟨⟨i, n⟩, at', rfl⟩ := Option.map_eq_some_iff.1 h
    exact ⟨i, n, rfl, Regex.find?_boundaries whole at'⟩
  | custom find reject => exact library.elim

end Pattern
end Untrusted
