import Mathlib
import Untrusted.Proofs.Utf8.Chars

/-!
# Valid bytes and where they may be cut

Bytes are valid exactly if they encode chars. They may be cut wherever no char goes on, and each way
of going through them stops at such a place.
-/

namespace Untrusted.Utf8

/-! ## Valid bytes are encodings -/

theorem encode_cons (c : Char) (cs : List Char) :
    encode (c :: cs) = String.utf8EncodeChar c ++ encode cs := rfl

theorem encode_singleton (c : Char) : encode [c] = String.utf8EncodeChar c := by
  rw [encode_cons, encode, List.flatMap_nil, List.append_nil]

theorem scan_nil : scan [] = ([], none) := by
  rw [scan]
  rfl

theorem scan_encodeChar_append (c : Char) (rest : List UInt8) :
    scan (String.utf8EncodeChar c ++ rest) =
      ((c, (String.utf8EncodeChar c).length) :: (scan rest).1, (scan rest).2) := by
  rw [scan, if_neg (by simp)]
  split
  · rename_i found
    rw [decode_encodeChar_append] at found
    cases found
    rw [List.drop_left]
  · rename_i found
    rw [decode_encodeChar_append] at found
    contradiction

theorem isValid_iff (bytes : List UInt8) : isValid bytes = true ↔ (scan bytes).2 = none := by
  simp [isValid, problem?]

theorem problem?_eq_none_iff (bytes : List UInt8) :
    problem? bytes = none ↔ isValid bytes = true := by
  simp [isValid]

theorem isValid_encode_append (cs : List Char) (rest : List UInt8) :
    isValid (encode cs ++ rest) = isValid rest := by
  induction cs with
  | nil => rfl
  | cons c cs ih =>
    rw [← ih, Bool.eq_iff_iff, isValid_iff, isValid_iff, encode_cons, List.append_assoc,
      scan_encodeChar_append]

theorem isValid_nil : isValid [] = true := by
  rw [isValid_iff, scan_nil]

theorem isValid_encode (cs : List Char) : isValid (encode cs) = true := by
  have h := isValid_encode_append cs []
  rwa [List.append_nil, isValid_nil] at h

theorem exists_encode_of_isValid {bytes : List UInt8} (h : isValid bytes = true) :
    ∃ cs, bytes = encode cs := by
  rw [isValid_iff] at h
  fun_induction scan bytes with
  | case1 bytes empty => exact ⟨[], List.isEmpty_iff.1 empty⟩
  | case2 bytes filled c n found rest fault inner ih =>
    obtain ⟨cs, hcs⟩ := ih (by rw [inner]; exact h)
    obtain ⟨split, -⟩ := eq_encodeChar_append_of_decode found
    exact ⟨c :: cs, by rw [encode_cons, ← hcs, ← split]⟩
  | case3 => contradiction

theorem chars_encode (cs : List Char) : chars (encode cs) = cs := by
  unfold chars
  induction cs with
  | nil => rw [show encode [] = [] from rfl, scan_nil, List.map_nil]
  | cons c cs ih => rw [encode_cons, scan_encodeChar_append, List.map_cons, ih]

theorem eq_encode_chars {bytes : List UInt8} (h : isValid bytes = true) :
    bytes = encode (chars bytes) := by
  obtain ⟨cs, rfl⟩ := exists_encode_of_isValid h
  rw [chars_encode]

theorem isValid_append {a b : List UInt8} (ha : isValid a = true) (hb : isValid b = true) :
    isValid (a ++ b) = true := by
  obtain ⟨cs, rfl⟩ := exists_encode_of_isValid ha
  rw [isValid_encode_append, hb]

/-! ## Where bytes may be cut -/

/-- A place in the bytes, or their end, where no char goes on. -/
def Boundary (bytes : List UInt8) (i : Nat) : Prop :=
  i ≤ bytes.length ∧ ∀ b, bytes[i]? = some b → isContinuation b = false

theorem boundary_of_append (pre : List UInt8) {post : List UInt8} (h : isValid post = true) :
    Boundary (pre ++ post) pre.length := by
  refine ⟨by simp, fun b hb => ?_⟩
  rw [List.getElem?_append_right (Nat.le_refl _), Nat.sub_self] at hb
  obtain ⟨cs, rfl⟩ := exists_encode_of_isValid h
  cases cs with
  | nil => simp [encode] at hb
  | cons c cs =>
    obtain ⟨a, rest, form, lead, -⟩ := (form_encodeChar c).exists_cons
    rw [encode_cons, form] at hb
    obtain rfl : a = b := by simpa using hb
    rw [← isContinuation_iff] at lead
    simpa using lead

/-- A boundary of an encoding is a cut between chars: inside a char, the byte goes on with it. -/
theorem exists_split_of_boundary {cs : List Char} {i : Nat} (h : Boundary (encode cs) i) :
    ∃ pre post, cs = pre ++ post ∧ i = (encode pre).length := by
  induction cs generalizing i with
  | nil => exact ⟨[], [], rfl, by simpa [Boundary, encode] using h.1⟩
  | cons c cs ih =>
    obtain ⟨a, rest, form, -, tails⟩ := (form_encodeChar c).exists_cons
    rw [encode_cons] at h
    obtain ⟨le, starts⟩ := h
    rcases Nat.lt_or_ge i (String.utf8EncodeChar c).length with inside | after
    · -- Only the first byte of a char does not go on with it.
      rw [List.getElem?_append_left inside, form] at starts
      rw [form, List.length_cons] at inside
      cases i with
      | zero => exact ⟨[], c :: cs, rfl, rfl⟩
      | succ i =>
        have more : i < rest.length := by omega
        rw [List.getElem?_cons_succ, List.getElem?_eq_getElem more] at starts
        have goes := (isContinuation_iff _).2 (tails _ (List.getElem_mem more))
        rw [starts _ rfl] at goes
        contradiction
    · rw [List.getElem?_append_right after] at starts
      rw [List.length_append] at le
      obtain ⟨pre, post, rfl, hi⟩ := ih ⟨by omega, starts⟩
      exact ⟨c :: pre, post, rfl, by rw [encode_cons, List.length_append]; omega⟩

theorem Boundary.isValid_parts {bytes : List UInt8} {i : Nat} (h : Boundary bytes i)
    (valid : isValid bytes = true) :
    isValid (bytes.take i) = true ∧ isValid (bytes.drop i) = true := by
  obtain ⟨cs, rfl⟩ := exists_encode_of_isValid valid
  obtain ⟨pre, post, rfl, rfl⟩ := exists_split_of_boundary h
  rw [encode_append, List.take_left, List.drop_left]
  exact ⟨isValid_encode pre, isValid_encode post⟩

theorem isValid_take_of_drop {bytes : List UInt8} {i : Nat} (valid : isValid bytes = true)
    (le : i ≤ bytes.length) (rest : isValid (bytes.drop i) = true) :
    isValid (bytes.take i) = true := by
  have h := boundary_of_append (bytes.take i) rest
  rw [List.take_append_drop, List.length_take, Nat.min_eq_left le] at h
  exact (h.isValid_parts valid).1

/-! ## Ways through the bytes -/

theorem exists_append_of_decode {bytes : List UInt8} {c : Char} {n : Nat}
    (h : decode bytes = .ok (c, n)) :
    ∃ rest, bytes = encode [c] ++ rest ∧ n = (encode [c]).length := by
  obtain ⟨split, hn⟩ := eq_encodeChar_append_of_decode h
  rw [encode_singleton]
  exact ⟨_, split, hn⟩

theorem exists_append_of_charsLength? {n i j : Nat} {bytes : List UInt8}
    (h : charsLength? n i bytes = some j) :
    ∃ cs rest, bytes = encode cs ++ rest ∧ j = i + (encode cs).length := by
  induction n generalizing i bytes with
  | zero => exact ⟨[], bytes, rfl, by simpa [charsLength?, encode, eq_comm] using h⟩
  | succ n ih =>
    rw [charsLength?] at h
    split at h
    · rename_i c k found
      obtain ⟨rest, rfl, rfl⟩ := exists_append_of_decode found
      rw [List.drop_left] at h
      obtain ⟨cs, rest, rfl, rfl⟩ := ih h
      refine ⟨[c] ++ cs, rest, ?_, ?_⟩
      · rw [encode_append, List.append_assoc]
      · rw [encode_append, List.length_append, Nat.add_assoc]
    · contradiction

theorem exists_append_of_scanTo {stops : Char → Bool} {i j : Nat} {bytes : List UInt8}
    {found : Option (Except Fault (Char × Nat))} (h : scanTo stops i bytes = (j, found)) :
    ∃ cs rest, bytes = encode cs ++ rest ∧ j = i + (encode cs).length ∧
      (found = none → rest = []) ∧ ∀ c n, found = some (.ok (c, n)) → decode rest = .ok (c, n) := by
  fun_induction scanTo stops i bytes with
  | case1 i bytes empty =>
    cases h
    exact ⟨[], bytes, rfl, rfl, fun _ => by simpa using empty, by simp⟩
  | case2 i bytes filled fault failed =>
    cases h
    exact ⟨[], bytes, rfl, rfl, by simp, by simp⟩
  | case3 i bytes filled c n read stop =>
    cases h
    refine ⟨[], bytes, rfl, rfl, by simp, ?_⟩
    rintro _ _ ⟨⟩
    exact read
  | case4 i bytes filled c n read pass ih =>
    obtain ⟨cs, rest, split, rfl, atEnd, atChar⟩ := ih h
    obtain ⟨later, rfl, rfl⟩ := exists_append_of_decode read
    rw [List.drop_left] at split
    refine ⟨[c] ++ cs, rest, ?_, ?_, atEnd, atChar⟩
    · rw [encode_append, List.append_assoc, split]
    · rw [encode_append, List.length_append, Nat.add_assoc]

theorem boundary_of_valid_prefix {pre rest : List UInt8} (hpre : isValid pre = true)
    (h : isValid (pre ++ rest) = true) : Boundary (pre ++ rest) pre.length := by
  obtain ⟨cs, rfl⟩ := exists_encode_of_isValid hpre
  rw [isValid_encode_append] at h
  exact boundary_of_append _ h

theorem isValid_of_ascii {bytes : List UInt8} (h : ∀ b ∈ bytes, b.toNat < 0x80) :
    isValid bytes = true := by
  induction bytes with
  | nil => exact isValid_nil
  | cons b bytes ih =>
    have single : encode [Char.ofNat b.toNat] = [b] := by
      rw [encode_singleton]
      exact (Form.one (h b (by simp))).eq_encodeChar
    have later := ih fun b hb => h b (List.mem_cons_of_mem _ hb)
    rw [← isValid_encode_append [Char.ofNat b.toNat], single] at later
    exact later

end Untrusted.Utf8
