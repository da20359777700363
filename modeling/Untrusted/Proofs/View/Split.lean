import Mathlib
import Untrusted.Proofs.View.Parts

/-!
# Every cut yields parts

Each operation that cuts a view reaches a token boundary for a reason of its own: by counting
tokens, by testing the place, by comparing with whole tokens, or by decoding up to it.
-/

namespace Untrusted.View

variable {v : View}

/-! ## Places that are boundaries -/

theorem Sound.startsAt_eq (h : v.Sound) (i : Nat) :
    v.startsAt i = !v.bytes[i]?.any Utf8.isContinuation := by
  simp only [startsAt, h.unstray, ahead_eq, List.getElem?_take_of_lt (Nat.lt_succ_self i)]

theorem Sound.isBoundary_iff (h : v.Sound) (i : Nat) :
    v.isBoundary i = true ↔ v.kind.Boundary v.bytes i := by
  have length := h.length_bytes
  unfold isBoundary
  rw [h.extent_eq]
  cases kind : v.kind with
  | bytes =>
    simp only [Number.le_ofNat, decide_eq_true_eq, Kind.Boundary, length]
  | text =>
    simp only [Number.lt_ofNat, Number.same_ofNat, h.startsAt_eq, Bool.and_eq_true,
      Bool.not_eq_true', decide_eq_false_iff_not, Nat.not_lt, Bool.or_eq_true, decide_eq_true_eq,
      Kind.Boundary, Utf8.Boundary, length]
    constructor
    · rintro ⟨le, atEnd | starts⟩
      · refine ⟨le, fun b hb => ?_⟩
        rw [List.getElem?_eq_none (by omega)] at hb
        contradiction
      · refine ⟨le, fun b hb => ?_⟩
        rwa [hb, Option.any_some] at starts
    · rintro ⟨le, starts⟩
      refine ⟨le, .inr ?_⟩
      cases hb : v.bytes[i]? with
      | none => rfl
      | some b => exact starts b hb

theorem Sound.boundary_of_byteIndex? (h : v.Sound) {count i : Nat}
    (hi : v.byteIndex? count = some i) : v.kind.Boundary v.bytes i := by
  unfold byteIndex? at hi
  rw [h.unstray, h.extent_eq] at hi
  have whole := h.whole
  cases kind : v.kind with
  | bytes =>
    simp only [kind, Number.le_ofNat, decide_eq_true_eq, Option.ite_none_right_eq_some,
      Option.some.injEq] at hi
    obtain ⟨le, rfl⟩ := hi
    exact le.trans_eq h.length_bytes.symm
  | text =>
    simp only [kind, ahead_eq, Utf8.charsLength?_take (Nat.le_refl _)] at hi whole
    obtain ⟨cs, rest, split, rfl⟩ := Utf8.exists_append_of_charsLength? hi
    rw [split] at whole ⊢
    rw [Nat.zero_add]
    exact Utf8.boundary_of_valid_prefix (Utf8.isValid_encode cs) whole

theorem Sound.boundary_of_firstEntry? (h : v.Sound) {t : Token} {n : Nat}
    (found : v.firstEntry? = some (t, n)) : v.kind.Boundary v.bytes n := by
  unfold firstEntry? at found
  rw [h.unstray] at found
  simp only [ahead_eq] at found
  exact Kind.boundary_of_token? h.whole found

theorem Sound.boundary_of_firstWhere? (h : v.Sound) {stops : Nat → Bool} {i t : Nat}
    (found : v.firstWhere? stops = some (i, t)) : v.kind.Boundary v.bytes i := by
  unfold firstWhere? at found
  rw [h.unstray] at found
  have whole := h.whole
  cases kind : v.kind with
  | bytes =>
    simp only [kind] at found
    obtain ⟨j, at', same⟩ := Option.map_eq_some_iff.1 found
    obtain ⟨rfl, -⟩ := Prod.mk.inj same
    obtain ⟨inside, -⟩ := List.findIdx?_eq_some_iff_getElem.1 at'
    exact Nat.le_of_lt inside
  | text =>
    simp only [kind] at found whole
    split at found
    · rename_i scanned
      obtain ⟨rfl, -⟩ := Prod.mk.inj (Option.some.inj found)
      obtain ⟨cs, rest, split, rfl, -⟩ := Utf8.exists_append_of_scanTo scanned
      rw [split] at whole ⊢
      rw [Nat.zero_add]
      exact Utf8.boundary_of_valid_prefix (Utf8.isValid_encode cs) whole
    · contradiction

/-! ## Cuts that find a place, or none -/

section

variable {parts : View × View}

theorem Sound.splitAt?_parts (h : v.Sound) {n : Number} (cut : v.splitAt? n = some parts) :
    v.Cut parts ∧ parts.1.kind = v.kind := by
  obtain ⟨i, place, rfl⟩ := Option.map_eq_some_iff.1 cut
  obtain ⟨count, -, index⟩ := Option.bind_eq_some_iff.1 place
  exact ⟨h.cut_parts (h.boundary_of_byteIndex? index), h.cut_kind i⟩

theorem Sound.splitAtByte?_parts (h : v.Sound) {n : Number} (cut : v.splitAtByte? n = some parts) :
    v.Cut parts := by
  obtain ⟨i, -, place⟩ := Option.bind_eq_some_iff.1 cut
  split at place
  · rename_i tested
    cases place
    rw [Bool.and_eq_true] at tested
    exact h.cut_parts ((h.isBoundary_iff i).1 tested.2)
  · contradiction

theorem Sound.splitFirst?_tail (h : v.Sound) {first : Token × View}
    (cut : v.splitFirst? = some first) : first.2.TailOf v := by
  unfold splitFirst? at cut
  split at cut
  · obtain ⟨⟨t, n⟩, found, rfl⟩ := Option.map_eq_some_iff.1 cut
    exact (h.cut_parts (h.boundary_of_firstEntry? found)).tail
  · contradiction

theorem splitWhile_of_reject? {p : Pattern} {i : Nat}
    (rejects : p.reject? v.bytes = some (Number.ofNat i)) (boundary : v.isBoundary i = true) :
    v.splitWhile p = v.cut i := by
  simp only [splitWhile, rejects, Number.toNat?_ofNat, boundary, if_true]

theorem Sound.splitWhile_parts (h : v.Sound) {p : Pattern} (hp : p.Respects v.kind) :
    v.Cut (v.splitWhile p) := by
  unfold splitWhile
  split
  · exact h.exhausted_parts
  · rename_i n rejected
    obtain ⟨i, rfl, boundary⟩ := hp _ _ h.whole rejected
    simp only [Number.toNat?_ofNat]
    rw [if_pos ((h.isBoundary_iff i).2 boundary)]
    exact h.cut_parts boundary

theorem Sound.locate?_boundaries (h : v.Sound) {p : Pattern} {start stop : Nat}
    (found : v.locate? p = some (start, stop)) :
    v.kind.Boundary v.bytes start ∧ v.kind.Boundary v.bytes stop := by
  obtain ⟨⟨index, length⟩, -, place⟩ := Option.bind_eq_some_iff.1 found
  simp only at place
  split at place
  · split at place
    · contradiction
    · rename_i tested
      cases place
      simp only [Bool.or_eq_true, Bool.not_eq_true', not_or, Bool.not_eq_false] at tested
      exact ⟨(h.isBoundary_iff _).1 tested.1.2, (h.isBoundary_iff _).1 tested.2⟩
  · contradiction

theorem Sound.splitUntil?_parts (h : v.Sound) {p : Pattern} (cut : v.splitUntil? p = some parts) :
    v.Cut parts := by
  obtain ⟨⟨start, stop⟩, found, rfl⟩ := Option.map_eq_some_iff.1 cut
  exact h.cut_parts (h.locate?_boundaries found).1

theorem Sound.splitUntilConsume?_parts (h : v.Sound) {p : Pattern}
    (cut : v.splitUntilConsume? p = some parts) : v.Cut parts := by
  obtain ⟨⟨start, stop⟩, found, rfl⟩ := Option.map_eq_some_iff.1 cut
  obtain ⟨before, after⟩ := h.locate?_boundaries found
  exact ⟨(h.cut_parts before).head, (h.cut_parts after).tail⟩

theorem Sound.splitPrefix?_parts (h : v.Sound) {literal : List UInt8}
    (hl : v.kind.Whole literal) (cut : v.splitPrefix? literal = some parts) : v.Cut parts := by
  unfold splitPrefix? at cut
  split at cut
  · rename_i isPrefix
    cases cut
    obtain ⟨rest, same⟩ := List.isPrefixOf_iff_prefix.1 isPrefix
    have whole := h.whole
    apply h.cut_parts
    rw [← same] at whole ⊢
    exact Kind.boundary_of_whole_prefix hl whole
  · contradiction

end

/-! ## Cuts that fail where there is no place -/

section

variable {mode : Mode} {op : Operation} {parts : View × View}

theorem Sound.splitAt_parts (h : v.Sound) {n : Number} (cut : v.splitAt mode n op = .ok parts) :
    v.Cut parts ∧ parts.1.kind = v.kind := by
  unfold splitAt at cut
  split at cut
  · rename_i found
    cases cut
    exact h.splitAt?_parts found
  · contradiction

theorem Sound.splitAtByte_parts (h : v.Sound) {n : Number}
    (cut : v.splitAtByte mode n op = .ok parts) : v.Cut parts := by
  unfold splitAtByte at cut
  split at cut
  · contradiction
  · split at cut
    · rename_i found
      cases cut
      exact h.cut_parts ((h.isBoundary_iff _).1 (Option.filter_eq_some_iff.1 found).2)
    · contradiction

theorem Sound.splitFirst_tail (h : v.Sound) {first : Token × View}
    (cut : v.splitFirst mode op = .ok first) : first.2.TailOf v := by
  unfold splitFirst at cut
  split at cut
  · rename_i found
    cases cut
    exact h.splitFirst?_tail found
  · contradiction

theorem Sound.splitUntil_parts (h : v.Sound) {p : Pattern}
    (cut : v.splitUntil mode p op = .ok parts) : v.Cut parts := by
  unfold splitUntil at cut
  split at cut
  · rename_i found
    cases cut
    exact h.splitUntil?_parts found
  · contradiction

theorem Sound.splitUntilConsume_parts (h : v.Sound) {p : Pattern}
    (cut : v.splitUntilConsume mode p op = .ok parts) : v.Cut parts := by
  unfold splitUntilConsume at cut
  split at cut
  · rename_i found
    cases cut
    exact h.splitUntilConsume?_parts found
  · contradiction

theorem Sound.splitPrefix_parts (h : v.Sound) {literal : List UInt8} (hl : v.kind.Whole literal)
    (cut : v.splitPrefix mode literal op = .ok parts) : v.Cut parts := by
  unfold splitPrefix at cut
  split at cut
  · rename_i found
    cases cut
    exact h.splitPrefix?_parts hl found
  · contradiction

theorem eq_of_stopped {α : Type} {check : Check} {t : Nat} {a b : α}
    (h : check.stopped mode v op t a = .ok b) : b = a := by
  unfold Check.stopped at h
  split at h
  · contradiction
  · exact (Except.ok.inj h).symm

theorem Sound.trySplitWhile_parts (h : v.Sound) {check : Check}
    (cut : v.trySplitWhile mode check op = .ok parts) : v.Cut parts := by
  unfold trySplitWhile at cut
  split at cut
  · cases cut
    exact h.exhausted_parts
  · rename_i found
    rw [eq_of_stopped cut]
    exact h.cut_parts (h.boundary_of_firstWhere? found)

end

/-! ## Text of bytes -/

section

variable {mode : Mode} {op : Operation}

theorem intoText_kind {text : View} (made : v.intoText mode op = .ok text) :
    text = { v with kind := .text } ∧ Utf8.isValid v.bytes = true ∨ text = v ∧ v.kind = .text := by
  unfold intoText at made
  cases kind : v.kind with
  | text =>
    simp only [kind] at made
    exact .inr ⟨(Except.ok.inj made).symm, rfl⟩
  | bytes =>
    simp only [kind] at made
    split at made
    · rename_i valid
      exact .inl ⟨(Except.ok.inj made).symm, (Utf8.problem?_eq_none_iff _).1 valid⟩
    · contradiction
    · contradiction

theorem PartOf.intoText {u : View} (h : u.PartOf v) {text : View}
    (made : u.intoText mode op = .ok text) : text.PartOf v ∧ text.kind = .text := by
  rcases intoText_kind made with ⟨rfl, valid⟩ | ⟨rfl, kind⟩
  · exact ⟨h.withKind valid, rfl⟩
  · exact ⟨h, kind⟩

/-- A scan of bytes stops where their text so far ends, and a scan of a text at a boundary. -/
theorem Sound.trySplitStrWhile_parts (h : v.Sound) {check : Check} {parts : View × View}
    (cut : v.trySplitStrWhile mode check op = .ok parts) : v.Cut parts := by
  unfold trySplitStrWhile at cut
  split at cut
  · rename_i scanned
    cases cut
    obtain ⟨cs, rest, split, -, toEnd, -⟩ := Utf8.exists_append_of_scanTo scanned
    obtain rfl := toEnd rfl
    refine ⟨h.partOf_self.withKind ?_, h.endView_tailOf⟩
    rw [split, List.append_nil]
    exact Utf8.isValid_encode cs
  · rename_i i c n scanned
    obtain ⟨cs, rest, split, rfl, -⟩ := Utf8.exists_append_of_scanTo scanned
    have boundary : v.kind.Boundary v.bytes (0 + (Utf8.encode cs).length) := by
      have whole := h.whole
      rw [split] at whole ⊢
      rw [Nat.zero_add]
      refine Kind.boundary_of_whole_prefix ?_ whole
      cases v.kind with
      | bytes => trivial
      | text => exact Utf8.isValid_encode cs
    have parted := h.cut_parts boundary
    rw [eq_of_stopped cut]
    refine ⟨parted.head.withKind ?_, parted.tail⟩
    have taken : (v.cut (0 + (Utf8.encode cs).length)).1.bytes = Utf8.encode cs := by
      have le := boundary.le
      rw [h.length_bytes] at le
      rw [h.cut_eq, bytes_resize le, split, Nat.zero_add, List.take_left]
    rw [taken]
    exact Utf8.isValid_encode cs
  · contradiction
  · contradiction

theorem Sound.splitForeign_tail (h : v.Sound) {α : Type} {parser : Foreign (α × Number)}
    {expected : String} {read : α × View}
    (cut : v.splitForeign mode parser expected op = .ok read) :
    (∃ n, parser v = .ok (read.1, n)) ∧ read.2.TailOf v := by
  unfold splitForeign at cut
  split at cut
  · contradiction
  · rename_i value n parsed
    cases done : v.splitAtByte mode n op with
    | error e =>
      rw [done] at cut
      contradiction
    | ok parts =>
      rw [done] at cut
      cases cut
      exact ⟨⟨n, parsed⟩, (h.splitAtByte_parts done).tail⟩

theorem eq_ok_of_intoForeign {α : Type} {parser : Foreign α} {expected : String} {a : α}
    (h : v.intoForeign mode parser expected = .ok a) : parser v = .ok a := by
  unfold intoForeign at h
  split at h
  · contradiction
  · rename_i parsed
    exact Except.ok.inj h ▸ parsed

theorem eq_of_intoNonEmpty {u : View} (h : v.intoNonEmpty mode = .ok u) : u = v := by
  unfold intoNonEmpty at h
  split at h
  · contradiction
  · exact (Except.ok.inj h).symm

end

end Untrusted.View
