import Mathlib
import Untrusted.Proofs.Utf8.Valid
import Untrusted.Proofs.View.Parts

/-!
# Validation and decoding

Validation accepts exactly the rows of forms that the standard tabulates, which are the encodings of
chars. A view of such bytes becomes a text over the same range, whose tokens are those chars.
-/

namespace Untrusted

namespace Utf8

/-! ## Rows of forms -/

/-- The bytes of any number of chars, and their code points. -/
inductive Forms : List UInt8 → List Nat → Prop where
  | nil : Forms [] []
  | cons {w rest : List UInt8} {n : Nat} {ns : List Nat} : Form w n → Forms rest ns →
      Forms (w ++ rest) (n :: ns)

theorem forms_encode (cs : List Char) : Forms (encode cs) (cs.map Char.toNat) := by
  induction cs with
  | nil => exact .nil
  | cons c cs ih => exact .cons (form_encodeChar c) ih

theorem Forms.eq_encode {bytes : List UInt8} {codes : List Nat} (h : Forms bytes codes) :
    bytes = encode (codes.map Char.ofNat) := by
  induction h with
  | nil => rfl
  | cons form _ ih => rw [List.map_cons, encode_cons, form.eq_encodeChar, ← ih]

theorem exists_encode_iff_forms (bytes : List UInt8) :
    (∃ cs, bytes = encode cs) ↔ ∃ codes, Forms bytes codes := by
  constructor
  · rintro ⟨cs, rfl⟩
    exact ⟨_, forms_encode cs⟩
  · rintro ⟨codes, h⟩
    exact ⟨_, h.eq_encode⟩

theorem isValid_iff_exists_encode (bytes : List UInt8) :
    isValid bytes = true ↔ ∃ cs, bytes = encode cs := by
  refine ⟨exists_encode_of_isValid, ?_⟩
  rintro ⟨cs, rfl⟩
  exact isValid_encode cs

theorem encode_injective {a b : List Char} (h : encode a = encode b) : a = b := by
  rw [← chars_encode a, h, chars_encode]

end Utf8

/-! ## Texts -/

namespace View

variable {v : View} {cs : List Char}

theorem intoText_of_encode (kind : v.kind = .bytes) (h : v.bytes = Utf8.encode cs) (mode : Mode)
    (op : Operation) : v.intoText mode op = .ok { v with kind := .text } := by
  have valid : Utf8.problem? v.bytes = none := by
    rw [Utf8.problem?_eq_none_iff, h, Utf8.isValid_encode]
  simp only [intoText, kind, valid]

theorem tokens_of_encode (unstray : v.stray = none) (kind : v.kind = .text)
    (h : v.bytes = Utf8.encode cs) : v.tokens = cs.map .char := by
  have scanned : (Utf8.scan v.bytes).1.map Prod.fst = cs := by rw [h]; exact Utf8.chars_encode cs
  simp only [tokens, entries, unstray, kind, List.map_map, ← scanned]
  rfl

theorem text_of_encode (unstray : v.stray = none) (h : v.bytes = Utf8.encode cs) :
    v.text = String.ofList cs := by
  simp only [text, unstray, Utf8.decodeText, h, Utf8.chars_encode]

end View

/-- Over any range of any source, validation finds no problem exactly in the encodings of chars,
which are the rows of tabulated forms. Such a range becomes a text of the same range and bound whose
tokens are those chars and no others, and encode to its bytes. Every encoding is accepted, and
decodes to the chars that it encodes. -/
theorem valid_iff_encoded_and_decoding_inverts :
    (∀ (source : Source) (offset size : Nat) (bound : Bound) (mode : Mode) (op : Operation),
      let v : View := ⟨source, offset, size, bound, .bytes, none⟩
      (Utf8.problem? v.bytes = none ↔ ∃ cs, v.bytes = Utf8.encode cs) ∧
        (Utf8.problem? v.bytes = none ↔ ∃ codes, Utf8.Forms v.bytes codes) ∧
        (Utf8.problem? v.bytes = none → ∃ text cs, v.intoText mode op = .ok text ∧
          text = ⟨source, offset, size, bound, .text, none⟩ ∧ text.tokens = cs.map .char ∧
          Utf8.encode cs = v.bytes ∧ ∀ cs', v.bytes = Utf8.encode cs' → cs' = cs)) ∧
      ∀ cs : List Char, Utf8.problem? (Utf8.encode cs) = none ∧ Utf8.chars (Utf8.encode cs) = cs ∧
        ∀ (id : Nat) (mode : Mode) (op : Operation),
          let v := View.ofSource (.ofBytes id (Utf8.encode cs)) .bytes
          ∃ text, v.intoText mode op = .ok text ∧ text.tokens = cs.map .char ∧
            text.text = String.ofList cs := by
  constructor
  · intro source offset size bound mode op v
    have valid : Utf8.problem? v.bytes = none ↔ ∃ cs, v.bytes = Utf8.encode cs := by
      rw [Utf8.problem?_eq_none_iff, Utf8.isValid_iff_exists_encode]
    refine ⟨valid, valid.trans (Utf8.exists_encode_iff_forms _), fun none => ?_⟩
    obtain ⟨cs, h⟩ := valid.1 none
    refine ⟨_, cs, View.intoText_of_encode rfl h mode op, rfl, ?_, h.symm, fun cs' h' => ?_⟩
    · exact View.tokens_of_encode rfl rfl h
    · exact Utf8.encode_injective (h'.symm.trans h)
  · intro cs
    refine ⟨?_, Utf8.chars_encode cs, fun id mode op => ?_⟩
    · rw [Utf8.problem?_eq_none_iff, Utf8.isValid_encode]
    · have h := View.bytes_ofBytes id (Utf8.encode cs) .bytes
      refine ⟨_, View.intoText_of_encode rfl h mode op, ?_, ?_⟩
      · exact View.tokens_of_encode rfl rfl h
      · exact View.text_of_encode rfl h

end Untrusted
