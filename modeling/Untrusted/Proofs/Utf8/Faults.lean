import Mathlib
import Untrusted.Proofs.Utf8.Valid

/-!
# What further bytes can do about a fault

Bytes that can never be UTF-8 stay a fault whatever follows them. Bytes that end inside a char can
be completed, by as many bytes as the lead byte announced and no fewer.
-/

namespace Untrusted.Utf8

/-! ## One char -/

theorem byteRange_le (lead : UInt8) (place : Nat) :
    (byteRange lead place).1 ≤ (byteRange lead place).2 := by
  unfold byteRange secondByteRange
  split_ifs <;> decide

section

variable {lead : UInt8} {place value owed : Nat} {l : List UInt8}

theorem exists_decodeTail_ok (lead : UInt8) (place value owed : Nat) :
    ∃ q c, q.length = owed ∧ decodeTail lead place value owed q = .ok (c, place + owed) := by
  induction owed generalizing place value with
  | zero => exact ⟨[], Char.ofNat value, rfl, rfl⟩
  | succ owed ih =>
    let least := (byteRange lead place).1
    obtain ⟨q, c, length, read⟩ := ih (place + 1) (value * 64 + least.toNat % 64)
    refine ⟨least :: q, c, by rw [List.length_cons, length], ?_⟩
    have inside : ¬ (least < (byteRange lead place).1 ∨ (byteRange lead place).2 < least) := by
      have le := byteRange_le lead place
      simp only [least, UInt8.lt_irrefl, UInt8.not_lt, false_or]
      exact le
    simp only [decodeTail, if_neg inside, read]
    congr 2
    omega

theorem decodeTail_error_of_short (h : l.length < owed) :
    ∃ f, decodeTail lead place value owed l = .error f := by
  cases read : decodeTail lead place value owed l with
  | error f => exact ⟨f, rfl⟩
  | ok found =>
    have enough := (decodeTail_length read).2
    omega

theorem decodeTail_invalid_append {n : Nat}
    (h : decodeTail lead place value owed l = .error (.invalid n)) (q : List UInt8) :
    decodeTail lead place value owed (l ++ q) = .error (.invalid n) := by
  induction owed generalizing place value l with
  | zero => simp [decodeTail] at h
  | succ owed ih =>
    cases l with
    | nil => simp [decodeTail] at h
    | cons b rest =>
      simp only [decodeTail, List.cons_append] at h ⊢
      split
      · rename_i outside
        rw [if_pos outside] at h
        exact h
      · rename_i inside
        rw [if_neg inside] at h
        exact ih h

theorem decodeTail_resume {expected available : Nat}
    (h : decodeTail lead place value owed l = .error (.incomplete expected available)) :
    available = place + l.length ∧ expected = place + owed ∧ l.length < owed ∧
      ∃ value', ∀ q, decodeTail lead place value owed (l ++ q) =
        decodeTail lead available value' (expected - available) q := by
  induction owed generalizing place value l with
  | zero => simp [decodeTail] at h
  | succ owed ih =>
    cases l with
    | nil =>
      simp only [decodeTail, Except.error.injEq, Fault.incomplete.injEq] at h
      obtain ⟨rfl, rfl⟩ := h
      refine ⟨rfl, rfl, by simp, value, fun q => ?_⟩
      rw [List.nil_append, show place + owed + 1 - place = owed + 1 by omega]
    | cons b rest =>
      simp only [decodeTail] at h
      split at h
      · simp at h
      · rename_i inside
        obtain ⟨rfl, rfl, short, value', resume⟩ := ih h
        refine ⟨by rw [List.length_cons]; omega, by omega, by rw [List.length_cons]; omega,
          value', fun q => ?_⟩
        rw [← resume q]
        simp only [List.cons_append, decodeTail, if_neg inside]

end

theorem decode_invalid_append {l : List UInt8} {n : Nat} (h : decode l = .error (.invalid n))
    (q : List UInt8) : decode (l ++ q) = .error (.invalid n) := by
  cases l with
  | nil => simp [decode] at h
  | cons lead rest =>
    simp only [decode, List.cons_append] at h ⊢
    split
    · rename_i none
      simpa [none] using h
    · rename_i owed announced
      rw [announced] at h
      exact decodeTail_invalid_append h q

/-- Bytes that end inside a char: as many as are owed can complete it, and fewer cannot. -/
theorem decode_incomplete {l : List UInt8} {expected available : Nat}
    (h : decode l = .error (.incomplete expected available)) :
    available = l.length ∧ available < expected ∧ expected ≤ maxLength ∧
      (∃ q c, q.length = expected - available ∧ decode (l ++ q) = .ok (c, expected)) ∧
      ∀ q, q.length < expected - available → ∃ f, decode (l ++ q) = .error f := by
  cases l with
  | nil =>
    simp only [decode, Except.error.injEq, Fault.incomplete.injEq] at h
    obtain ⟨rfl, rfl⟩ := h
    -- Not even a lead is there, so one byte may complete it.
    refine ⟨rfl, Nat.one_pos, by decide, ⟨[0x61], 'a', rfl, rfl⟩, fun q few => ?_⟩
    rw [List.eq_nil_of_length_eq_zero (by omega : q.length = 0)]
    exact ⟨_, rfl⟩
  | cons lead rest =>
    have most := charLength_le lead
    simp only [decode, List.cons_append] at h ⊢
    split at h
    · simp at h
    · rename_i owed announced
      obtain ⟨rfl, rfl, short, value', resume⟩ := decodeTail_resume h
      rw [announced] at most
      refine ⟨by rw [List.length_cons]; omega, by omega, by omega, ?_, fun q few => ?_⟩
      · obtain ⟨q, c, length, read⟩ := exists_decodeTail_ok lead (1 + rest.length) value'
          (1 + owed - (1 + rest.length))
        refine ⟨q, c, length, ?_⟩
        simp only [resume, read]
        congr 2
        omega
      · simp only [resume]
        exact decodeTail_error_of_short few

/-! ## A scan -/

section

variable {stops : Char → Bool} {i j : Nat} {bytes rest : List UInt8}

theorem scanTo_encodeChar_append {c : Char} (pass : stops c = false) (i : Nat)
    (rest : List UInt8) : scanTo stops i (String.utf8EncodeChar c ++ rest) =
      scanTo stops (i + (String.utf8EncodeChar c).length) rest := by
  rw [scanTo, if_neg (by simp)]
  split
  · rename_i found
    rw [decode_encodeChar_append] at found
    contradiction
  · rename_i found
    rw [decode_encodeChar_append] at found
    cases found
    rw [if_neg (by simp [pass]), List.drop_left]

theorem scanTo_encode_append {cs : List Char} (pass : ∀ c ∈ cs, stops c = false) (i : Nat)
    (rest : List UInt8) : scanTo stops i (encode cs ++ rest) =
      scanTo stops (i + (encode cs).length) rest := by
  induction cs generalizing i with
  | nil => rfl
  | cons c cs ih =>
    rw [encode_cons, List.append_assoc, scanTo_encodeChar_append (pass c (by simp)),
      ih (fun d hd => pass d (List.mem_cons_of_mem _ hd)), List.length_append, Nat.add_assoc]

theorem scanTo_of_decode_error {f : Fault} (h : decode rest = .error f) (filled : rest ≠ [])
    (i : Nat) : scanTo stops i rest = (i, some (.error f)) := by
  rw [scanTo, if_neg (by simpa using filled)]
  split
  · rename_i found
    rw [h] at found
    cases found
    rfl
  · rename_i found
    rw [h] at found
    contradiction

theorem exists_of_scanTo_error {f : Fault} (h : scanTo stops i bytes = (j, some (.error f))) :
    ∃ cs rest, bytes = encode cs ++ rest ∧ j = i + (encode cs).length ∧
      (∀ c ∈ cs, stops c = false) ∧ rest ≠ [] ∧ decode rest = .error f := by
  fun_induction scanTo stops i bytes with
  | case1 => simp at h
  | case2 i bytes filled fault failed =>
    cases h
    exact ⟨[], bytes, rfl, rfl, by simp, by simpa using filled, failed⟩
  | case3 => simp at h
  | case4 i bytes filled c n read pass ih =>
    obtain ⟨cs, rest, split, rfl, passed, rest_ne, failed⟩ := ih h
    obtain ⟨later, rfl, rfl⟩ := exists_append_of_decode read
    rw [List.drop_left] at split
    refine ⟨[c] ++ cs, rest, ?_, ?_, ?_, rest_ne, failed⟩
    · rw [encode_append, List.append_assoc, split]
    · rw [encode_append, List.length_append, Nat.add_assoc]
    · simpa using ⟨by simpa using pass, passed⟩

/-- A scan of the bytes meets a fault before a char that stops it. -/
def Faulty (stops : Char → Bool) (bytes : List UInt8) : Prop :=
  ∃ j f, scanTo stops 0 bytes = (j, some (.error f))

theorem faulty_of_decode_error {cs : List Char} (pass : ∀ c ∈ cs, stops c = false) {f : Fault}
    (filled : rest ≠ []) (h : decode rest = .error f) : Faulty stops (encode cs ++ rest) := by
  refine ⟨0 + (encode cs).length, f, ?_⟩
  rw [scanTo_encode_append pass, scanTo_of_decode_error h filled]

theorem not_faulty_of_decode {cs : List Char} (pass : ∀ c ∈ cs, stops c = false) {c : Char}
    (h : decode rest = .ok (c, rest.length)) : ¬ Faulty stops (encode cs ++ rest) := by
  rintro ⟨j, f, scanned⟩
  have filled : rest ≠ [] := by
    rintro rfl
    simp [decode] at h
  rw [scanTo_encode_append pass, scanTo, if_neg (by simpa using filled)] at scanned
  split at scanned
  · rename_i found
    rw [h] at found
    contradiction
  · rename_i found
    rw [h] at found
    cases found
    split at scanned
    · simp at scanned
    · rw [List.drop_length, scanTo] at scanned
      simp at scanned

theorem faulty_append_of_invalid {n : Nat}
    (h : scanTo stops 0 bytes = (j, some (.error (.invalid n)))) (q : List UInt8) :
    Faulty stops (bytes ++ q) := by
  obtain ⟨cs, rest, rfl, -, pass, filled, failed⟩ := exists_of_scanTo_error h
  rw [List.append_assoc]
  exact faulty_of_decode_error pass (by simp [filled]) (decode_invalid_append failed q)

theorem isLeast_of_incomplete {expected available : Nat}
    (h : scanTo stops 0 bytes = (j, some (.error (.incomplete expected available)))) :
    IsLeast {k | ∃ q : List UInt8, q.length = k ∧ ¬ Faulty stops (bytes ++ q)}
      (expected - available) := by
  obtain ⟨cs, rest, rfl, -, pass, filled, failed⟩ := exists_of_scanTo_error h
  obtain ⟨rfl, short, -, ⟨q, c, length, read⟩, few⟩ := decode_incomplete failed
  constructor
  · refine ⟨q, length, ?_⟩
    rw [List.append_assoc]
    apply not_faulty_of_decode pass (c := c)
    rw [read, List.length_append, length]
    congr 2
    omega
  · -- With fewer, the char is still cut short or no char at all.
    rintro k ⟨q, rfl, fine⟩
    by_contra fewer
    obtain ⟨f, failed'⟩ := few q (Nat.lt_of_not_le fewer)
    apply fine
    rw [List.append_assoc]
    exact faulty_of_decode_error pass (by simp [filled]) failed'

theorem incomplete_bounds {expected available : Nat}
    (h : scanTo stops 0 bytes = (j, some (.error (.incomplete expected available)))) :
    j + available = bytes.length ∧ available < expected ∧ expected ≤ maxLength := by
  obtain ⟨cs, rest, rfl, rfl, -, -, failed⟩ := exists_of_scanTo_error h
  obtain ⟨rfl, short, most, -⟩ := decode_incomplete failed
  refine ⟨?_, short, most⟩
  rw [List.length_append, Nat.zero_add]

end

/-! ## All of the bytes -/

theorem scanTo_never (i : Nat) (bytes : List UInt8) :
    scanTo (fun _ => false) i bytes =
      ((problem? bytes).elim (i + bytes.length) fun p => i + p.1,
        (problem? bytes).map fun p => .error p.2) := by
  fun_induction scanTo (fun _ => false) i bytes with
  | case1 i bytes empty =>
    obtain rfl := List.isEmpty_iff.1 empty
    simp [problem?, scan_nil]
  | case2 i bytes filled f failed =>
    have scanned : scan bytes = ([], some f) := by
      rw [scan, if_neg filled]
      split
      · rename_i found
        rw [failed] at found
        contradiction
      · rename_i found
        rw [failed] at found
        cases found
        rfl
    simp [problem?, scanned]
  | case3 => contradiction
  | case4 i bytes filled c n read pass ih =>
    obtain ⟨rest, rfl, rfl⟩ := exists_append_of_decode read
    rw [List.drop_left] at ih
    rw [List.drop_left, ih]
    have scanned : problem? (encode [c] ++ rest) =
        (problem? rest).map fun p => ((encode [c]).length + p.1, p.2) := by
      unfold problem?
      rw [encode_singleton, scan_encodeChar_append]
      cases fault : (scan rest).2 <;> simp [fault]
    rw [scanned, List.length_append]
    cases problem? rest <;> simp [Nat.add_assoc]

theorem problem?_eq_some_iff {bytes : List UInt8} {start : Nat} {f : Fault} :
    problem? bytes = some (start, f) ↔
      scanTo (fun _ => false) 0 bytes = (start, some (.error f)) := by
  rw [scanTo_never]
  cases problem? bytes <;> simp [Prod.ext_iff]

theorem faulty_never_iff {bytes : List UInt8} :
    Faulty (fun _ => false) bytes ↔ problem? bytes ≠ none := by
  unfold Faulty
  rw [scanTo_never]
  cases problem? bytes <;> simp

end Untrusted.Utf8
