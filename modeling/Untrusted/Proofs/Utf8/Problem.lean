import Mathlib
import Untrusted.Proofs.Utf8.Faults

/-!
# Where bytes stop being UTF-8

Validation goes past the longest start of the bytes that encodes chars. What it says of the bytes
after that start is what can still become of them: those that are cut short lack as many bytes as it
says, and those that are invalid start with as much of a char as it says.
-/

namespace Untrusted.Utf8

def Encoded (bytes : List UInt8) : Prop := ∃ cs, bytes = encode cs

def CutShort (w : List UInt8) : Prop :=
  ∃ c, w <+: String.utf8EncodeChar c ∧ w ≠ String.utf8EncodeChar c

/-- The longest start of the bytes that `P` holds of. -/
structure LongestStart (P : List UInt8 → Prop) (bytes w : List UInt8) : Prop where
  starts : w <+: bytes
  holds : P w
  longest : ∀ w', w' <+: bytes → P w' → w'.length ≤ w.length

theorem LongestStart.unique {P : List UInt8 → Prop} {bytes a b : List UInt8}
    (ha : LongestStart P bytes a) (hb : LongestStart P bytes b) : a = b := by
  have same := Nat.le_antisymm (hb.longest a ha.starts ha.holds) (ha.longest b hb.starts hb.holds)
  exact (List.prefix_of_prefix_length_le ha.starts hb.starts same.le).eq_of_length same

/-! ## Encodings -/

section

variable {bytes rest : List UInt8} {cs : List Char} {f : Fault}

theorem encoded_iff_isValid : Encoded bytes ↔ isValid bytes = true := by
  refine ⟨?_, exists_encode_of_isValid⟩
  rintro ⟨cs, rfl⟩
  exact isValid_encode cs

theorem encoded_encode_append (cs : List Char) (rest : List UInt8) :
    Encoded (encode cs ++ rest) ↔ Encoded rest := by
  rw [encoded_iff_isValid, encoded_iff_isValid, isValid_encode_append]

theorem not_faulty_never_iff : ¬ Faulty (fun _ => false) bytes ↔ Encoded bytes := by
  rw [faulty_never_iff, not_not, problem?_eq_none_iff, encoded_iff_isValid]

theorem decode_append_of_ok {c : Char} {n : Nat} (h : decode rest = .ok (c, n)) (q : List UInt8) :
    decode (rest ++ q) = .ok (c, n) := by
  obtain ⟨later, rfl, rfl⟩ := exists_append_of_decode h
  rw [encode_singleton, List.append_assoc, decode_encodeChar_append]

theorem scanTo_of_decode {c : Char} {n : Nat} (h : decode rest = .ok (c, n)) (stops : Char → Bool)
    (i : Nat) : scanTo stops i rest =
      if stops c then (i, some (.ok (c, n))) else scanTo stops (i + n) (rest.drop n) := by
  have filled : rest ≠ [] := by
    rintro rfl
    simp [decode] at h
  rw [scanTo, if_neg (by simpa using filled)]
  split
  · rename_i failed
    rw [h] at failed
    contradiction
  · rename_i read
    rw [h] at read
    cases read
    rfl

theorem not_encoded_of_decode_error (h : decode rest = .error f) (filled : rest ≠ []) :
    ¬ Encoded rest := by
  rintro ⟨cs, rfl⟩
  cases cs with
  | nil => exact filled rfl
  | cons c cs =>
    rw [encode_cons, decode_encodeChar_append] at h
    contradiction

/-- No longer start encodes chars: its bytes after `cs` would start with a char. -/
theorem longestStart_encode (h : decode rest = .error f) :
    LongestStart Encoded (encode cs ++ rest) (encode cs) := by
  refine ⟨List.prefix_append _ _, ⟨cs, rfl⟩, fun w starts encoded => ?_⟩
  by_contra longer
  obtain ⟨more, rfl⟩ :=
    List.prefix_of_prefix_length_le (List.prefix_append _ _) starts (Nat.le_of_not_le longer)
  obtain ⟨later, rfl⟩ := (List.prefix_append_right_inj _).1 starts
  have filled : more ≠ [] := by
    rintro rfl
    simp at longer
  cases read : decode more with
  | ok found =>
    rw [decode_append_of_ok read] at h
    contradiction
  | error f' =>
    exact not_encoded_of_decode_error read filled ((encoded_encode_append cs more).1 encoded)

end

/-! ## Chars that are cut short -/

section

variable {lead : UInt8} {place value owed n : Nat} {l w : List UInt8}

theorem cutShort_iff : CutShort w ↔
    ∃ expected available, decode w = .error (.incomplete expected available) := by
  constructor
  · rintro ⟨c, ⟨owed, whole⟩, less⟩
    have read := decode_encodeChar_append c []
    rw [List.append_nil, ← whole] at read
    have lacks : owed ≠ [] := by
      rintro rfl
      exact less (by rw [← whole, List.append_nil])
    cases result : decode w with
    | ok found =>
      -- A char that is read already would be the one that is read in the end.
      obtain ⟨d, k⟩ := found
      rw [decode_append_of_ok result] at read
      cases read
      have short := (length_of_decode result).2
      rw [List.length_append] at short
      exact absurd (List.length_pos_iff.2 lacks) (by omega)
    | error f =>
      cases f with
      | invalid n =>
        rw [decode_invalid_append result] at read
        contradiction
      | incomplete expected available => exact ⟨expected, available, rfl⟩
  · rintro ⟨expected, available, read⟩
    obtain ⟨rfl, short, -, ⟨q, c, length, done⟩, -⟩ := decode_incomplete read
    obtain ⟨split, rfl⟩ := eq_encodeChar_append_of_decode done
    have all : (w ++ q).drop (String.utf8EncodeChar c).length = [] := by
      rw [List.drop_eq_nil_iff, List.length_append]
      omega
    rw [all, List.append_nil] at split
    refine ⟨c, ⟨q, split⟩, ?_⟩
    rintro rfl
    exact absurd short (Nat.lt_irrefl _)

theorem cutShort_nil : CutShort [] := cutShort_iff.2 ⟨1, 0, rfl⟩

theorem decodeTail_invalid_take (h : decodeTail lead place value owed l = .error (.invalid n)) :
    ∃ k, n = place + k ∧ k < l.length ∧
      decodeTail lead place value owed (l.take k) = .error (.incomplete (place + owed) n) ∧
      decodeTail lead place value owed (l.take (k + 1)) = .error (.invalid n) := by
  induction owed generalizing place value l with
  | zero => simp [decodeTail] at h
  | succ owed ih =>
    cases l with
    | nil => simp [decodeTail] at h
    | cons b rest =>
      simp only [decodeTail] at h
      split at h
      · rename_i outside
        cases h
        refine ⟨0, rfl, Nat.succ_pos _, rfl, ?_⟩
        simp only [List.take_succ_cons, decodeTail, if_pos outside]
      · rename_i inside
        obtain ⟨k, rfl, less, before, there⟩ := ih h
        refine ⟨k + 1, by omega, Nat.succ_lt_succ less, ?_, ?_⟩
        · simp only [List.take_succ_cons, decodeTail, if_neg inside, before]
          congr 2
          omega
        · simp only [List.take_succ_cons, decodeTail, if_neg inside] at there ⊢
          exact there

theorem decode_invalid_take (h : decode l = .error (.invalid n)) :
    (n < l.length ∧ 0 < n ∧ CutShort (l.take n) ∧ decode (l.take (n + 1)) = .error (.invalid n)) ∨
      (n = 1 ∧ decode (l.take 1) = .error (.invalid 1)) := by
  cases l with
  | nil => simp [decode] at h
  | cons lead rest =>
    simp only [decode] at h
    split at h
    · rename_i none
      cases h
      refine .inr ⟨rfl, ?_⟩
      simp only [List.take_succ_cons, decode, none]
    · rename_i owed announced
      obtain ⟨k, rfl, less, before, there⟩ := decodeTail_invalid_take h
      rw [Nat.add_comm 1 k] at before there ⊢
      refine .inl ⟨Nat.succ_lt_succ less, Nat.succ_pos _, cutShort_iff.2 ⟨1 + owed, k + 1, ?_⟩, ?_⟩
      · simp only [List.take_succ_cons, decode, announced, before]
      · simp only [List.take_succ_cons, decode, announced, there]

theorem CutShort.length_lt {m : Nat} (h : CutShort w) (starts : w <+: l)
    (hm : decode (l.take m) = .error (.invalid n)) : w.length < m := by
  by_contra long
  obtain ⟨q, rfl⟩ := List.prefix_of_prefix_length_le (List.take_prefix m l) starts (by
    rw [List.length_take]
    omega)
  obtain ⟨expected, available, read⟩ := cutShort_iff.1 h
  rw [decode_invalid_append hm] at read
  cases read

theorem exists_longestStart_cutShort (h : decode l = .error (.invalid n)) :
    ∃ w, LongestStart CutShort l w ∧ n = max 1 w.length := by
  rcases decode_invalid_take h with ⟨less, filled, cut, there⟩ | ⟨rfl, there⟩
  · have length : (l.take n).length = n := List.length_take_of_le (Nat.le_of_lt less)
    refine ⟨l.take n, ⟨List.take_prefix n l, cut, fun w starts hw => ?_⟩, by omega⟩
    have before := hw.length_lt starts there
    omega
  · refine ⟨[], ⟨List.nil_prefix, cutShort_nil, fun w starts hw => ?_⟩, rfl⟩
    exact Nat.le_of_lt_succ (hw.length_lt starts there)

end

/-! ## What validation says -/

variable {bytes : List UInt8}

theorem exists_problem?_of_not_encoded (h : ¬ Encoded bytes) :
    ∃ cs rest fault, bytes = encode cs ++ rest ∧ decode rest = .error fault ∧
      problem? bytes = some ((encode cs).length, fault) := by
  cases found : problem? bytes with
  | none => exact absurd (encoded_iff_isValid.2 ((problem?_eq_none_iff bytes).1 found)) h
  | some place =>
    obtain ⟨start, fault⟩ := place
    obtain ⟨cs, rest, split, rfl, -, -, failed⟩ :=
      exists_of_scanTo_error (problem?_eq_some_iff.1 found)
    exact ⟨cs, rest, fault, split, failed, by rw [Nat.zero_add]⟩

/-- Of bytes that do not encode chars, validation reports how long their longest start is that
does. It reports them as incomplete exactly if more bytes can make them encode chars, with the least
number of bytes that can and the number of those after the valid ones. It reports them as invalid
exactly if no more bytes can, with the length of the longest start of a char that stands there but
at least one. -/
theorem problem_located_and_classified (h : ¬ Encoded bytes) :
    ∃ valid rest fault, bytes = valid ++ rest ∧ LongestStart Encoded bytes valid ∧
      problem? bytes = some (valid.length, fault) ∧
      ((∃ expected available, fault = .incomplete expected available) ↔
        ∃ x, Encoded (bytes ++ x)) ∧
      (∀ expected available, fault = .incomplete expected available →
        available = rest.length ∧ available ≤ expected ∧
          IsLeast {k | ∃ x, x.length = k ∧ Encoded (bytes ++ x)} (expected - available)) ∧
      ((∃ length, fault = .invalid length) ↔ ∀ x, ¬ Encoded (bytes ++ x)) ∧
      ∀ length, fault = .invalid length →
        ∃ w, LongestStart CutShort rest w ∧ length = max 1 w.length := by
  obtain ⟨cs, rest, fault, split, failed, found⟩ := exists_problem?_of_not_encoded h
  refine ⟨encode cs, rest, fault, split, ?_, found, ?_⟩
  · rw [split]
    exact longestStart_encode failed
  have scanned := problem?_eq_some_iff.1 found
  cases fault with
  | incomplete expected available =>
    have least := isLeast_of_incomplete scanned
    simp only [not_faulty_never_iff] at least
    obtain ⟨x, -, completes⟩ := least.1
    obtain ⟨length, short, -⟩ := decode_incomplete failed
    refine ⟨⟨fun _ => ⟨x, completes⟩, fun _ => ⟨_, _, rfl⟩⟩, ?_, ⟨?_, ?_⟩, ?_⟩
    · rintro _ _ ⟨⟩
      exact ⟨length, Nat.le_of_lt short, least⟩
    · rintro ⟨length, invalid⟩
      contradiction
    · exact fun never => absurd completes (never x)
    · rintro length invalid
      contradiction
  | invalid n =>
    have never (x : List UInt8) : ¬ Encoded (bytes ++ x) := by
      rw [← not_faulty_never_iff, not_not]
      exact faulty_append_of_invalid scanned x
    refine ⟨⟨?_, ?_⟩, ?_, ⟨fun _ => never, fun _ => ⟨n, rfl⟩⟩, ?_⟩
    · rintro ⟨_, _, incomplete⟩
      contradiction
    · rintro ⟨x, completes⟩
      exact absurd completes (never x)
    · rintro _ _ incomplete
      contradiction
    · rintro _ ⟨⟩
      exact exists_longestStart_cutShort failed

/-- Two bytes of a char of three, and a byte that does not go on with it. -/
theorem problem_located_and_classified_corrupted :
    let bytes : List UInt8 := [0x68, 0xe2, 0x82, 0x28]
    ¬ Encoded bytes ∧ problem? bytes = some (1, .invalid 2) ∧
      LongestStart Encoded bytes [0x68] ∧ (∀ x, ¬ Encoded (bytes ++ x)) ∧
      ∃ w, LongestStart CutShort [0xe2, 0x82, 0x28] w ∧ 2 = max 1 w.length := by
  intro bytes
  have found : problem? bytes = some (1, .invalid 2) := by cbv
  have broken : ¬ Encoded bytes := by
    rw [encoded_iff_isValid, ← problem?_eq_none_iff, found]
    simp
  obtain ⟨valid, rest, fault, split, longest, located, -, -, never, start⟩ :=
    problem_located_and_classified broken
  obtain ⟨length, same⟩ : 1 = valid.length ∧ .invalid 2 = fault := by
    rw [found] at located
    simpa using located
  obtain ⟨b, rfl⟩ := List.length_eq_one_iff.1 length.symm
  obtain ⟨rfl, rfl⟩ : 0x68 = b ∧ [0xe2, 0x82, 0x28] = rest := by simpa [bytes] using split
  exact ⟨broken, found, longest, never.1 ⟨2, same.symm⟩, start 2 same.symm⟩

end Untrusted.Utf8
