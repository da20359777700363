import Mathlib
import Untrusted.Proofs.Heads

/-!
# Repetitions of a literal

A repetition goes on by whole literals and stops where the bytes do not start with one. It does not
tell a literal that was cut short from bytes that differ, so the head that it closes is final only
where what follows the head can no longer become the literal.
-/

namespace Untrusted

namespace Pattern

variable {needle l rest : List UInt8} {i j : Nat}

theorem literalBreak?_nil (filled : needle ≠ []) (i : Nat) : literalBreak? needle i [] = none := by
  rw [literalBreak?, dif_neg (by simpa using filled), dif_pos (by rfl)]

theorem literalBreak?_append (filled : needle ≠ []) (i : Nat) (l : List UInt8) :
    literalBreak? needle i (needle ++ l) = literalBreak? needle (i + needle.length) l := by
  have starts : needle.isPrefixOf (needle ++ l) = true :=
    List.isPrefixOf_iff_prefix.2 (List.prefix_append _ _)
  rw [literalBreak?, dif_neg (by simpa using filled), dif_neg (by simp [filled]), if_pos starts,
    List.drop_left]

theorem literalBreak?_self (filled : needle ≠ []) (i : Nat) :
    literalBreak? needle i needle = none := by
  have once := literalBreak?_append filled i []
  rwa [List.append_nil, literalBreak?_nil filled] at once

theorem literalBreak?_of_not_prefix (filled : needle ≠ []) (left : l ≠ [])
    (differs : ¬ needle <+: l)
    (i : Nat) : literalBreak? needle i l = some i := by
  rw [literalBreak?, dif_neg (by simpa using filled), dif_neg (by simpa using left),
    if_neg (by rwa [List.isPrefixOf_iff_prefix])]

theorem exists_append_of_literalBreak? (filled : needle ≠ [])
    (h : literalBreak? needle i l = some j) :
    ∃ pre rest, l = pre ++ rest ∧ j = i + pre.length ∧ rest ≠ [] ∧ ¬ needle <+: rest ∧
      ∀ other, literalBreak? needle i (pre ++ other) = literalBreak? needle j other := by
  fun_induction literalBreak? needle i l with
  | case1 i l empty => exact absurd (List.isEmpty_iff.1 empty) filled
  | case2 => contradiction
  | case3 i l needed left starts ih =>
    obtain ⟨later, rfl⟩ := List.isPrefixOf_iff_prefix.1 starts
    rw [List.drop_left] at ih h
    obtain ⟨pre, rest, rfl, rfl, some, differs, again⟩ := ih h
    refine ⟨needle ++ pre, rest, by rw [List.append_assoc], ?_, some, differs, fun other => ?_⟩
    · rw [List.length_append, Nat.add_assoc]
    · rw [List.append_assoc, literalBreak?_append filled, again]
  | case4 i l needed left differs =>
    obtain rfl := Option.some.inj h
    refine ⟨[], l, rfl, rfl, by simpa using left, ?_, fun other => rfl⟩
    rwa [← List.isPrefixOf_iff_prefix]

theorem ofLiteral_of_long (long : 2 ≤ needle.length) : ofLiteral needle = .literal needle := by
  cases needle with
  | nil => simp at long
  | cons a l =>
    cases l with
    | nil => simp at long
    | cons b l => rfl

end Pattern

theorem Kind.Whole.append {k : Kind} {a b : List UInt8} (ha : k.Whole a) (hb : k.Whole b) :
    k.Whole (a ++ b) := by
  cases k with
  | bytes => trivial
  | text => exact Utf8.isValid_append ha hb

namespace View

variable {v w : View} {needle q : List UInt8} {j : Nat}

theorem Sound.exists_grownBy (h : v.Sound) (whole : v.kind.Whole (v.bytes ++ q)) :
    ∃ w, v.GrownBy q w := by
  let before := List.replicate v.offset (0 : UInt8)
  let w : View := ⟨.ofBytes 0 (before ++ (v.bytes ++ q)), v.offset, (v.bytes ++ q).length,
    .startBounded, v.kind, none⟩
  have bytes : w.bytes = v.bytes ++ q := by
    rw [View.bytes, Source.slice_eq, Source.bytes_ofBytes, List.drop_left' (by simp [before, w])]
    exact List.take_length
  refine ⟨w, h, ⟨rfl, ?_, ?_, ?_, by simp [w]⟩, rfl, rfl, bytes⟩
  · simp [w, before, Source.ofBytes]
  · simp [w, Source.ofBytes]
  · rw [bytes]
    exact whole

theorem Sound.splitWhile_literal_of_break (h : v.Sound) (whole : v.kind.Whole needle)
    (stops : Pattern.literalBreak? needle 0 v.bytes = some j) :
    v.kind.Boundary v.bytes j ∧ v.splitWhile (.literal needle) = v.cut j := by
  have rejects : (Pattern.literal needle).reject? v.bytes = some (Number.ofNat j) := by
    rw [Pattern.reject?, stops, Option.map_some]
  obtain ⟨i, same, boundary⟩ := Pattern.respects_literal whole _ _ h.whole rejects
  obtain rfl := Number.ofNat_inj.1 same
  exact ⟨boundary, splitWhile_of_reject? rejects ((h.isBoundary_iff j).2 boundary)⟩

theorem splitWhile_literal_of_none (stops : Pattern.literalBreak? needle 0 v.bytes = none) :
    v.splitWhile (.literal needle) = v.exhausted := by
  simp [splitWhile, Pattern.reject?, stops]

/-- Of a view of which more may follow, a repetition of a literal of two or more bytes closes its
head although the head may still change: it is final exactly if what is left after it is no start of
the literal. -/
theorem repetition_head_final_iff (h : v.Sound) (open' : v.bound = .startBounded)
    (long : 2 ≤ needle.length) (whole : v.kind.Whole needle)
    (closed : (v.splitWhile (.ofLiteral needle)).1.bound = .fullyBounded) :
    (∀ q w, v.GrownBy q w →
      (v.splitWhile (.ofLiteral needle)).1.Like True (w.splitWhile (.ofLiteral needle)).1) ↔
    ¬ (v.splitWhile (.ofLiteral needle)).2.bytes <+: needle := by
  have filled : needle ≠ [] := by
    rintro rfl
    simp at long
  rw [Pattern.ofLiteral_of_long long] at closed ⊢
  cases stops : Pattern.literalBreak? needle 0 v.bytes with
  | none =>
    rw [splitWhile_literal_of_none stops, exhausted, open'] at closed
    contradiction
  | some j =>
    obtain ⟨boundary, cut⟩ := h.splitWhile_literal_of_break whole stops
    obtain ⟨pre, rest, split, rfl, left, differs, again⟩ :=
      Pattern.exists_append_of_literalBreak? filled stops
    have le := boundary.le
    rw [h.length_bytes] at le
    have tail : (v.cut (0 + pre.length)).2.bytes = rest := by
      rw [h.cut_eq, h.bytes_shift le, split, Nat.zero_add, List.drop_left]
    rw [cut, tail]
    constructor
    · -- The bytes that complete the literal let the repetition go on past the head.
      rintro final ⟨q, completes⟩
      have before : v.kind.Whole pre := by
        have parts := boundary.whole_parts h.whole
        rw [split, Nat.zero_add, List.take_left] at parts
        exact parts.1
      have grows : v.bytes ++ q = pre ++ needle := by rw [split, List.append_assoc, completes]
      obtain ⟨w, grown⟩ := h.exists_grownBy (q := q) (by rw [grows]; exact before.append whole)
      have goes : Pattern.literalBreak? needle 0 w.bytes = none := by
        rw [grown.bytes, grows, again, Pattern.literalBreak?_self filled]
      have more : q ≠ [] := by
        rintro rfl
        rw [List.append_nil] at completes
        exact differs (completes ▸ List.prefix_rfl)
      obtain ⟨-, size, -⟩ := final q w grown trivial
      rw [splitWhile_literal_of_none goes, exhausted, grown.size_eq, h.cut_eq] at size
      have positive := List.length_pos_iff.2 more
      simp only at size
      omega
    · -- What differs from the literal differs from it still, with more bytes after it.
      intro final q w grown
      have differs' : ¬ needle <+: rest ++ q := fun starts =>
        (List.prefix_or_prefix_of_prefix starts (List.prefix_append rest q)).elim differs final
      have stops' : Pattern.literalBreak? needle 0 w.bytes = some (0 + pre.length) := by
        rw [grown.bytes, split, List.append_assoc, again]
        exact Pattern.literalBreak?_of_not_prefix filled (by simp [left]) differs' _
      rw [(grown.right.splitWhile_literal_of_break (by rwa [grown.kind]) stops').2]
      exact grown.cut_like le

theorem repetition_head_final_iff_other_byte :
    let v := ofSource (.ofBytes 0 [0x61, 0x62, 0x63]) .bytes
    let needle : List UInt8 := [0x61, 0x62]
    v.Sound ∧ v.bound = .startBounded ∧ 2 ≤ needle.length ∧ v.kind.Whole needle ∧
      v.splitWhile (.ofLiteral needle) = v.cut 2 ∧ (v.cut 2).1.bound = .fullyBounded ∧
      ¬ (v.cut 2).2.bytes <+: needle ∧
      ∀ q w, v.GrownBy q w → (v.cut 2).1.Like True (w.splitWhile (.ofLiteral needle)).1 := by
  intro v needle
  have sound : v.Sound := ofBytes_sound 0 trivial
  have stops : Pattern.literalBreak? needle 0 v.bytes = some 2 := by
    rw [bytes_ofBytes]
    simp [needle, Pattern.literalBreak?]
  have cut : v.splitWhile (.ofLiteral needle) = v.cut 2 :=
    (sound.splitWhile_literal_of_break trivial stops).2
  have left : ¬ (v.cut 2).2.bytes <+: needle := by decide
  have final := repetition_head_final_iff sound rfl (show 2 ≤ needle.length by decide) trivial
  rw [cut] at final
  exact ⟨sound, rfl, by decide, trivial, cut, rfl, left, (final rfl).2 left⟩

/-- A literal that was cut short ends a repetition with a head that is closed, and the byte that it
lacked changes the head. -/
theorem repetition_closes_too_early :
    let v := ofSource (.ofBytes 0 [0x61]) .bytes
    let w := ofSource (.ofBytes 0 [0x61, 0x62]) .bytes
    let needle : List UInt8 := [0x61, 0x62]
    v.bound = .startBounded ∧ v.GrownBy [0x62] w ∧
      (v.splitWhile (.ofLiteral needle)).1.bound = .fullyBounded ∧
      (v.splitWhile (.ofLiteral needle)).1.bytes = [] ∧
      (w.splitWhile (.ofLiteral needle)).1.bytes = [0x61, 0x62] := by
  intro v w needle
  have sound : v.Sound := ofBytes_sound 0 trivial
  have stops : Pattern.literalBreak? needle 0 v.bytes = some 0 := by
    rw [bytes_ofBytes]
    simp [needle, Pattern.literalBreak?]
  have goes : Pattern.literalBreak? needle 0 w.bytes = none := by
    rw [bytes_ofBytes]
    exact Pattern.literalBreak?_self (by decide) 0
  have cut : v.splitWhile (.ofLiteral needle) = v.cut 0 :=
    (sound.splitWhile_literal_of_break trivial stops).2
  have all : w.splitWhile (.ofLiteral needle) = w.exhausted := splitWhile_literal_of_none goes
  rw [cut, all]
  exact ⟨rfl, ⟨sound, ofBytes_sound 0 trivial, rfl, rfl, rfl⟩, rfl, rfl, rfl⟩

end View
end Untrusted
