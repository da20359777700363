import Mathlib
import Untrusted.Proofs.Utf8.Faults
import Untrusted.Proofs.View.Split

/-!
# Where causes lie

Each operation that fails names a range of the view that it was asked of. What a failure records is
so kept inside the view in which it arose, and inside each view that this one is a part of.
-/

namespace Untrusted

namespace Utf8

theorem decodeTail_invalid_lt {lead : UInt8} {place value owed n : Nat} {bytes : List UInt8}
    (h : decodeTail lead place value owed bytes = .error (.invalid n)) :
    n < place + bytes.length := by
  induction owed generalizing place value bytes with
  | zero => simp [decodeTail] at h
  | succ owed ih =>
    cases bytes with
    | nil => simp [decodeTail] at h
    | cons b rest =>
      simp only [decodeTail] at h
      simp only [List.length_cons]
      split at h
      · simp only [Except.error.injEq, Fault.invalid.injEq] at h
        omega
      · have := ih h
        omega

theorem decode_invalid_le {bytes : List UInt8} {n : Nat}
    (h : decode bytes = .error (.invalid n)) : n ≤ bytes.length := by
  cases bytes with
  | nil => simp [decode] at h
  | cons lead rest =>
    simp only [decode] at h
    simp only [List.length_cons]
    split at h
    · simp only [Except.error.injEq, Fault.invalid.injEq] at h
      omega
    · have := decodeTail_invalid_lt h
      omega

theorem invalid_bounds {stops : Char → Bool} {i n : Nat} {bytes : List UInt8}
    (h : scanTo stops 0 bytes = (i, some (.error (.invalid n)))) : i + n ≤ bytes.length := by
  obtain ⟨cs, rest, rfl, rfl, -, -, failed⟩ := exists_of_scanTo_error h
  have := decode_invalid_le failed
  simp only [List.length_append]
  omega

end Utf8

/-! ## Ranges of a view -/

namespace View

/-- The span from `i` to `j` bytes into a view. -/
def range (v : View) (i j : Nat) : Span :=
  ⟨v.source.buffer, (v.source.start + v.offset + i : Nat), (v.source.start + v.offset + j : Nat)⟩

variable {u v w : View} {i j : Nat}

theorem Sound.position_eq (h : v.Sound) (n : Nat) :
    v.position (n : Nat) = Number.ofNat (v.offset + n) := by
  simp only [position, h.unstray, Number.shift_ofNat]

theorem Sound.within_eq (h : v.Sound) (hij : i ≤ j) (hj : j ≤ v.size) :
    Span.within v.source (v.position i) (v.position j) = v.range i j := by
  have inside := h.inside
  rw [h.position_eq, h.position_eq, Span.within_ofNat _ (by omega) (by omega), range,
    Nat.add_assoc, Nat.add_assoc]

theorem Sound.start_eq_position (h : v.Sound) : v.start = v.position (0 : Nat) := by
  rw [h.position_eq, h.start_eq, Nat.add_zero]

theorem Sound.stop_eq_position (h : v.Sound) : v.stop = v.position v.size := by
  rw [stop, h.extent_eq]

theorem Sound.span_eq (h : v.Sound) : v.span = v.range 0 v.size := by
  rw [span, h.start_eq_position, h.stop_eq_position, h.within_eq (Nat.zero_le _) le_rfl]

theorem PartOf.range_eq (h : u.PartOf v) (i j : Nat) :
    u.range i j = v.range (u.offset - v.offset + i) (u.offset - v.offset + j) := by
  have start := h.start
  simp only [range, h.source]
  congr 2 <;> omega

theorem Sound.rangeOf?_range (h : v.Sound) (hij : i ≤ j) (hj : j ≤ v.size) :
    (v.range i j).rangeOf? v.span = some (Number.ofNat i, Number.ofNat j) := by
  rw [h.span_eq]
  simp only [Span.rangeOf?, Span.isWithin, Span.sameBuffer, range, Number.le_ofNat]
  rw [if_pos (by simp; omega), Number.distance_ofNat (by omega), Number.distance_ofNat (by omega)]
  congr 3 <;> omega

theorem Sound.range_isWithin (h : v.Sound) (hij : i ≤ j) (hj : j ≤ v.size) :
    (v.range i j).isWithin v.span = true := by
  have inside := h.rangeOf?_range hij hj
  unfold Span.rangeOf? at inside
  split at inside
  · assumption
  · contradiction

theorem PartOf.span_eq (h : u.PartOf v) :
    u.span = v.range (u.offset - v.offset) (u.offset - v.offset + u.size) := by
  rw [h.sound.span_eq, h.range_eq, Nat.add_zero]

theorem PartOf.isWithin (h : u.PartOf v) (sound : v.Sound) : u.span.isWithin v.span = true := by
  have start := h.start
  have stop := h.stop
  rw [h.span_eq]
  exact sound.range_isWithin (by omega) (by omega)

theorem Sound.consumedHead_span (h : v.Sound) {rest : View} (hr : rest.TailOf v) :
    (v.consumedHead rest).span = v.range 0 (v.size - rest.size) := by
  have head := h.consumedHead_partOf hr
  rw [head.sound.span_eq, h.consumedHead_eq hr]
  rfl

theorem TailOf.span_eq (h : u.TailOf v) : u.span = v.range (v.size - u.size) v.size := by
  have start := h.start
  have stop := h.stop
  rw [h.partOf.span_eq]
  congr 1 <;> omega

theorem length_range (hij : i ≤ j) : (v.range i j).length = Number.ofNat (j - i) := by
  rw [Span.length, range, Number.distance_ofNat (by omega)]
  congr 1
  omega

theorem Sound.bytesOf?_range (h : v.Sound) (hij : i ≤ j) (hj : j ≤ v.size) :
    (v.range i j).bytesOf? v.window = some ((v.bytes.drop i).take (j - i)) := by
  have inside := h.inside
  have window : v.window = ⟨v.source.buffer, v.source.start + v.offset, v.size⟩ := by
    rw [View.window, Nat.min_eq_left (by omega), Nat.min_eq_left (by omega)]
  have place : Span.ofSource v.window = v.span := by
    rw [h.span_eq, window]
    rfl
  rw [Span.bytesOf?, place, h.rangeOf?_range hij hj, window]
  simp only [Option.map_some, Source.window, Number.toIndex_ofNat, Option.some.injEq]
  rw [Source.bytes_eq, bytes, Source.slice_eq, Source.bytes_eq]
  simp only [List.drop_take, List.drop_drop, List.take_take]
  congr 1
  · omega
  · congr 1
    omega

/-! ## Causes that an operation finds -/

/-- A cause found in `v`, at a range of it. -/
structure Located (v : View) (c : Cause) : Prop where
  input : c.input = v
  place : ∃ i j, i ≤ j ∧ j ≤ v.size ∧ c.span = v.range i j

theorem located_invalidCause {span : Span} (op : Operation) (expected : String)
    (retry : Option Retry) (place : ∃ i j, i ≤ j ∧ j ≤ v.size ∧ span = v.range i j) :
    v.Located (v.invalidCause op expected span retry) :=
  ⟨rfl, place⟩

section

variable (h : v.Sound)

include h

theorem Sound.located_all (op : Operation) (expected : String) (retry : Option Retry) :
    v.Located (v.invalidCause op expected v.span retry) :=
  located_invalidCause op expected retry ⟨0, v.size, Nat.zero_le _, le_rfl, h.span_eq⟩

theorem Sound.located_lengthCause (n : Number) (op : Operation) :
    v.Located (v.lengthCause n op) := by
  unfold lengthCause
  split
  · refine located_invalidCause op _ _ ⟨0, 0, le_rfl, Nat.zero_le _, ?_⟩
    rw [h.start_eq_position, h.within_eq le_rfl (Nat.zero_le _)]
  · exact ⟨rfl, 0, v.size, Nat.zero_le _, le_rfl, h.span_eq⟩

theorem Sound.located_untilCause (op : Operation) : v.Located (v.untilCause op) :=
  h.located_all op _ _

theorem Sound.located_prefixCause (literal : List UInt8) (op : Operation) :
    v.Located (v.prefixCause literal op) := by
  refine ⟨rfl, 0, min literal.length v.size, Nat.zero_le _, Nat.min_le_right _ _, ?_⟩
  have most : Number.least literal.length v.extent = Number.ofNat (min literal.length v.size) := by
    rw [h.extent_eq, ← Number.least_ofNat]
  simp only [prefixCause, Cause.span, most, h.start_eq_position]
  exact h.within_eq (Nat.zero_le _) (Nat.min_le_right _ _)

theorem Sound.located_codePointCause {start length : Nat} (le : start + length ≤ v.size)
    (op : Operation) (retry : Option Retry) :
    v.Located (v.codePointCause op start length retry) :=
  located_invalidCause op _ retry
    ⟨start, start + length, Nat.le_add_right _ _, le, h.within_eq (Nat.le_add_right _ _) le⟩

theorem Sound.located_truncated {start : Nat} (le : start ≤ v.size) (expected : Number)
    (op : Operation) :
    v.Located ⟨.length expected none,
      ⟨op, "utf-8 code point", .within v.source (v.position start) v.stop⟩, v⟩ := by
  refine ⟨rfl, start, v.size, le, le_rfl, ?_⟩
  simp only [Cause.span, h.stop_eq_position]
  exact h.within_eq le le_rfl

theorem Sound.located_consumed {rest : View} (hr : rest.TailOf v) (op : Operation)
    (expected : String) (retry : Option Retry) :
    v.Located (v.invalidCause op expected (v.consumedHead rest).span retry) :=
  located_invalidCause op expected retry
    ⟨0, v.size - rest.size, Nat.zero_le _, Nat.sub_le _ _, h.consumedHead_span hr⟩

end

end View
end Untrusted
