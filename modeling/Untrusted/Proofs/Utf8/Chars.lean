import Mathlib
import Untrusted.Utf8

/-!
# Chars and their bytes

Decoding reads exactly the byte sequences that the standard tabulates, and inverts encoding.
-/

namespace Untrusted.Utf8

/-! ## Bytes as numbers -/

theorem toNat_ofNat_byte {n : Nat} (h : n < 256) : (UInt8.ofNat n).toNat = n := by
  rw [UInt8.toNat_ofNat']
  omega

theorem ofNat_eq_byte {n : Nat} {b : UInt8} (h : n = b.toNat) : UInt8.ofNat n = b := by
  rw [h, UInt8.ofNat_toNat]

theorem charLength_eq (b : UInt8) : charLength b =
    if b.toNat < 0x80 then 1 else if b.toNat < 0xc2 then 0 else if b.toNat < 0xe0 then 2
    else if b.toNat < 0xf0 then 3 else if b.toNat < 0xf5 then 4 else 0 := by
  simp only [charLength, UInt8.lt_iff_toNat_lt]
  rfl

/-! ## The sequences that the standard tabulates -/

def Tail (b : UInt8) : Prop := 0x80 ≤ b.toNat ∧ b.toNat < 0xc0

theorem isContinuation_iff (b : UInt8) : isContinuation b = true ↔ Tail b := by
  have table : ∀ n < 256, isContinuation (UInt8.ofNat n) = true ↔ 0x80 ≤ n ∧ n < 0xc0 := by
    decide +kernel
  have h := table b.toNat b.toNat_lt
  rwa [UInt8.ofNat_toNat] at h

/-- What a lead byte asks of the byte after it beyond going on with the char: no char has a second,
longer form, none is a surrogate, and none is above the last code point. -/
def Second (a b : UInt8) : Prop :=
  (a.toNat = 0xe0 → 0xa0 ≤ b.toNat) ∧ (a.toNat = 0xed → b.toNat < 0xa0) ∧
    (a.toNat = 0xf0 → 0x90 ≤ b.toNat) ∧ (a.toNat = 0xf4 → b.toNat < 0x90)

/-- The bytes of one char, and its code point. -/
inductive Form : List UInt8 → Nat → Prop where
  | one {a : UInt8} : a.toNat < 0x80 → Form [a] a.toNat
  | two {a b : UInt8} : 0xc2 ≤ a.toNat → a.toNat < 0xe0 → Tail b →
      Form [a, b] (a.toNat % 32 * 64 + b.toNat % 64)
  | three {a b c : UInt8} : 0xe0 ≤ a.toNat → a.toNat < 0xf0 → Tail b → Second a b → Tail c →
      Form [a, b, c] ((a.toNat % 16 * 64 + b.toNat % 64) * 64 + c.toNat % 64)
  | four {a b c d : UInt8} : 0xf0 ≤ a.toNat → a.toNat < 0xf5 → Tail b → Second a b → Tail c →
      Tail d →
      Form [a, b, c, d]
        (((a.toNat % 8 * 64 + b.toNat % 64) * 64 + c.toNat % 64) * 64 + d.toNat % 64)

theorem Form.exists_cons {w : List UInt8} {n : Nat} (h : Form w n) :
    ∃ a rest, w = a :: rest ∧ ¬ Tail a ∧ ∀ b ∈ rest, Tail b := by
  cases h with
  | @one a ha => exact ⟨a, [], rfl, by unfold Tail; omega, by simp⟩
  | @two a b ha ha' hb => exact ⟨a, [b], rfl, by unfold Tail; omega, by simpa using hb⟩
  | @three a b c ha ha' hb second hc =>
    exact ⟨a, [b, c], rfl, by unfold Tail; omega, by simpa using ⟨hb, hc⟩⟩
  | @four a b c d ha ha' hb second hc hd =>
    exact ⟨a, [b, c, d], rfl, by unfold Tail; omega, by simpa using ⟨hb, hc, hd⟩⟩

theorem Form.isValidChar {w : List UInt8} {n : Nat} (h : Form w n) : n.isValidChar := by
  unfold Nat.isValidChar
  cases h with
  | one ha => omega
  | two ha ha' htb => omega
  | three ha ha' htb second htc => unfold Tail Second at *; omega
  | four ha ha' htb second htc htd => unfold Tail Second at *; omega

/-! ## Decoding -/

theorem byteRange_iff (lead b : UInt8) (place : Nat) :
    (byteRange lead place).1.toNat ≤ b.toNat ∧ b.toNat ≤ (byteRange lead place).2.toNat ↔
      Tail b ∧ (place = 1 → Second lead b) := by
  unfold byteRange Tail Second
  by_cases first : place = 1
  · simp only [first, if_true, true_implies, secondByteRange, ← UInt8.toNat_inj]
    split_ifs <;> simp_all <;> omega
  · simp [first]
    omega

theorem decodeTail_succ_eq_ok_iff {lead : UInt8} {place value owed : Nat} {bytes : List UInt8}
    {c : Char} {n : Nat} :
    decodeTail lead place value (owed + 1) bytes = .ok (c, n) ↔
      ∃ b rest, bytes = b :: rest ∧ (Tail b ∧ (place = 1 → Second lead b)) ∧
        decodeTail lead (place + 1) (value * 64 + b.toNat % 64) owed rest = .ok (c, n) := by
  cases bytes with
  | nil => simp [decodeTail]
  | cons b rest =>
    simp only [decodeTail, UInt8.lt_iff_toNat_lt, List.cons.injEq]
    split
    · rename_i outside
      simp only [reduceCtorEq, false_iff]
      rintro ⟨_, _, ⟨rfl, rfl⟩, inside, _⟩
      rw [← byteRange_iff] at inside
      omega
    · rename_i inside
      constructor
      · intro h
        exact ⟨b, rest, ⟨rfl, rfl⟩, (byteRange_iff lead b place).1 (by omega), h⟩
      · rintro ⟨_, _, ⟨rfl, rfl⟩, _, h⟩
        exact h

theorem charLength_eq_succ_iff (b : UInt8) (owed : Nat) : charLength b = owed + 1 ↔
    (owed = 0 ∧ b.toNat < 0x80) ∨ (owed = 1 ∧ 0xc2 ≤ b.toNat ∧ b.toNat < 0xe0) ∨
      (owed = 2 ∧ 0xe0 ≤ b.toNat ∧ b.toNat < 0xf0) ∨
        (owed = 3 ∧ 0xf0 ≤ b.toNat ∧ b.toNat < 0xf5) := by
  rw [charLength_eq]
  constructor
  · intro h
    split_ifs at h <;> omega
  · intro h
    split_ifs <;> omega

theorem Form.decode_append {w : List UInt8} {n : Nat} (h : Form w n) (rest : List UInt8) :
    decode (w ++ rest) = .ok (Char.ofNat n, w.length) := by
  cases h with
  | @one a ha =>
    have lead := (charLength_eq_succ_iff a 0).2 (by omega)
    simp [decode, lead, decodeTail, leadValue]
  | @two a b ha ha' hb =>
    have lead := (charLength_eq_succ_iff a 1).2 (by omega)
    have second : Second a b := by unfold Second; omega
    simp only [List.cons_append, List.nil_append, decode, lead, decodeTail_succ_eq_ok_iff]
    exact ⟨b, rest, rfl, ⟨hb, fun _ => second⟩, rfl⟩
  | @three a b c ha ha' hb second hc =>
    have lead := (charLength_eq_succ_iff a 2).2 (by omega)
    simp only [List.cons_append, List.nil_append, decode, lead, decodeTail_succ_eq_ok_iff]
    exact ⟨b, _, rfl, ⟨hb, fun _ => second⟩, c, rest, rfl, ⟨hc, by omega⟩, rfl⟩
  | @four a b c d ha ha' hb second hc hd =>
    have lead := (charLength_eq_succ_iff a 3).2 (by omega)
    simp only [List.cons_append, List.nil_append, decode, lead, decodeTail_succ_eq_ok_iff]
    exact ⟨b, _, rfl, ⟨hb, fun _ => second⟩, c, _, rfl, ⟨hc, by omega⟩, d, rest, rfl,
      ⟨hd, by omega⟩, rfl⟩

theorem exists_form_of_decode {bytes : List UInt8} {c : Char} {n : Nat}
    (h : decode bytes = .ok (c, n)) :
    ∃ w v rest, bytes = w ++ rest ∧ Form w v ∧ c = Char.ofNat v ∧ n = w.length := by
  cases bytes with
  | nil => simp [decode] at h
  | cons a rest =>
    simp only [decode] at h
    split at h
    · simp at h
    · rename_i owed found
      rw [charLength_eq_succ_iff] at found
      rcases found with ⟨rfl, ha⟩ | ⟨rfl, ha, ha'⟩ | ⟨rfl, ha, ha'⟩ | ⟨rfl, ha, ha'⟩
      · simp only [decodeTail, leadValue, Except.ok.injEq, Prod.mk.injEq] at h
        exact ⟨[a], _, rest, rfl, .one ha, h.1.symm, h.2.symm⟩
      · simp only [decodeTail_succ_eq_ok_iff] at h
        obtain ⟨b, rest, rfl, hb, done⟩ := h
        simp only [decodeTail, leadValue, Except.ok.injEq, Prod.mk.injEq] at done
        exact ⟨[a, b], _, rest, rfl, .two ha ha' hb.1, done.1.symm, done.2.symm⟩
      · simp only [decodeTail_succ_eq_ok_iff] at h
        obtain ⟨b, _, rfl, hb, c, rest, rfl, hc, done⟩ := h
        simp only [decodeTail, leadValue, Except.ok.injEq, Prod.mk.injEq] at done
        exact ⟨[a, b, c], _, rest, rfl, .three ha ha' hb.1 (hb.2 trivial) hc.1, done.1.symm,
          done.2.symm⟩
      · simp only [decodeTail_succ_eq_ok_iff] at h
        obtain ⟨b, _, rfl, hb, c, _, rfl, hc, d, rest, rfl, hd, done⟩ := h
        simp only [decodeTail, leadValue, Except.ok.injEq, Prod.mk.injEq] at done
        exact ⟨[a, b, c, d], _, rest, rfl, .four ha ha' hb.1 (hb.2 trivial) hc.1 hd.1, done.1.symm,
          done.2.symm⟩

/-! ## Encoding -/

theorem toNat_bounds (c : Char) : c.toNat < 0x110000 ∧ (c.toNat < 0xd800 ∨ 0xdfff < c.toNat) := by
  have valid : Nat.isValidChar c.toNat := c.valid
  unfold Nat.isValidChar at valid
  omega

theorem form_encodeChar (c : Char) : Form (String.utf8EncodeChar c) c.toNat := by
  have bounds := toNat_bounds c
  have code : c.val.toNat = c.toNat := rfl
  have of {w : List UInt8} {n : Nat} (h : Form w n) (same : n = c.toNat) : Form w c.toNat :=
    same ▸ h
  unfold String.utf8EncodeChar
  simp only [code]
  split_ifs
  · have lead : (UInt8.ofNat c.toNat).toNat = c.toNat := toNat_ofNat_byte (by omega)
    exact of (.one (by omega)) lead
  · have lead := toNat_ofNat_byte (n := c.toNat / 64 % 0x20 + 0xc0) (by omega)
    have last := toNat_ofNat_byte (n := c.toNat % 0x40 + 0x80) (by omega)
    exact of (.two (by omega) (by omega) (by unfold Tail; omega)) (by omega)
  · have lead := toNat_ofNat_byte (n := c.toNat / 4096 % 0x10 + 0xe0) (by omega)
    have second := toNat_ofNat_byte (n := c.toNat / 64 % 0x40 + 0x80) (by omega)
    have last := toNat_ofNat_byte (n := c.toNat % 0x40 + 0x80) (by omega)
    exact of (.three (by omega) (by omega) (by unfold Tail; omega) (by unfold Second; omega)
      (by unfold Tail; omega)) (by omega)
  · have lead := toNat_ofNat_byte (n := c.toNat / 262144 % 0x08 + 0xf0) (by omega)
    have second := toNat_ofNat_byte (n := c.toNat / 4096 % 0x40 + 0x80) (by omega)
    have third := toNat_ofNat_byte (n := c.toNat / 64 % 0x40 + 0x80) (by omega)
    have last := toNat_ofNat_byte (n := c.toNat % 0x40 + 0x80) (by omega)
    exact of (.four (by omega) (by omega) (by unfold Tail; omega) (by unfold Second; omega)
      (by unfold Tail; omega) (by unfold Tail; omega)) (by omega)

theorem Form.eq_encodeChar {w : List UInt8} {n : Nat} (h : Form w n) :
    String.utf8EncodeChar (Char.ofNat n) = w := by
  have code : (Char.ofNat n).val.toNat = n := by
    have := Char.toNat_ofNat n
    rwa [if_pos h.isValidChar] at this
  unfold String.utf8EncodeChar
  simp only [code]
  cases h with
  | one ha =>
    rw [if_pos (by omega)]
    simp
  | two ha ha' hb =>
    unfold Tail at hb
    rw [if_neg (by omega), if_pos (by omega)]
    exact congrArg₂ _ (ofNat_eq_byte (by omega)) (congrArg₂ _ (ofNat_eq_byte (by omega)) rfl)
  | three ha ha' hb second hc =>
    unfold Tail Second at *
    rw [if_neg (by omega), if_neg (by omega), if_pos (by omega)]
    exact congrArg₂ _ (ofNat_eq_byte (by omega)) (congrArg₂ _ (ofNat_eq_byte (by omega))
      (congrArg₂ _ (ofNat_eq_byte (by omega)) rfl))
  | four ha ha' hb second hc hd =>
    unfold Tail Second at *
    rw [if_neg (by omega), if_neg (by omega), if_neg (by omega)]
    exact congrArg₂ _ (ofNat_eq_byte (by omega)) (congrArg₂ _ (ofNat_eq_byte (by omega))
      (congrArg₂ _ (ofNat_eq_byte (by omega)) (congrArg₂ _ (ofNat_eq_byte (by omega)) rfl)))

theorem decode_encodeChar_append (c : Char) (rest : List UInt8) :
    decode (String.utf8EncodeChar c ++ rest) = .ok (c, (String.utf8EncodeChar c).length) := by
  rw [(form_encodeChar c).decode_append, Char.ofNat_toNat]

theorem eq_encodeChar_append_of_decode {bytes : List UInt8} {c : Char} {n : Nat}
    (h : decode bytes = .ok (c, n)) :
    bytes = String.utf8EncodeChar c ++ bytes.drop n ∧ n = (String.utf8EncodeChar c).length := by
  obtain ⟨w, v, rest, rfl, form, rfl, rfl⟩ := exists_form_of_decode h
  rw [form.eq_encodeChar, List.drop_left]
  exact ⟨rfl, rfl⟩

end Untrusted.Utf8
