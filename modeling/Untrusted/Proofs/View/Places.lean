import Mathlib
import Untrusted.Proofs.Widening

/-!
# Where failing cuts point

A cut that fails points at a range of the view it was asked of, whatever number of tokens it was
given, and so does a cut after a length in bytes, or after more bytes than there are. Any other
number of bytes leads to a place that is moved into the source, and so not always into the view.
-/

namespace Untrusted

/-! ## Whole numbers as positions -/

namespace Number

theorem greatest_ofInt (m : Nat) (z : Int) :
    greatest (ofNat m) (ofInt z) = ofNat (max m z.toNat) := by
  have compare : le (ofNat m) (ofInt z) = decide ((m : Int) ≤ z) := by
    rw [ofNat, ofInt, le_finite, ← Int.cast_natCast, decide_eq_decide, Int.cast_le]
  unfold greatest
  rw [compare, if_neg (by simp [ofNat, ofInt])]
  by_cases h : (m : Int) ≤ z
  · obtain ⟨k, rfl⟩ := Int.eq_ofNat_of_zero_le (show 0 ≤ z by omega)
    rw [decide_eq_true h, if_pos rfl, Int.toNat_natCast, Nat.max_eq_right (by omega)]
    simp [ofInt, ofNat]
  · rw [decide_eq_false h, if_neg Bool.false_ne_true, Nat.max_eq_left (by omega)]

end Number

theorem Span.within_ofInt (s : Source) (z : Int) : within s (.ofInt z) (.ofInt z) =
    ⟨s.buffer, (s.start + min z.toNat s.size : Nat), (s.start + min z.toNat s.size : Nat)⟩ := by
  have zero : (0 : Number) = Number.ofNat 0 := rfl
  simp only [within, zero, Number.greatest_ofInt, Number.least_ofNat, Number.shift_ofNat,
    Nat.zero_max, Span.mk.injEq, true_and]
  congr 2
  omega

namespace View

variable {v : View}

theorem Sound.position_ofInt (h : v.Sound) (z : Int) :
    v.position (.ofInt z) = .ofInt (v.offset + z) := by
  simp [position, h.unstray, Number.shift, Number.ofInt]

/-! ## Numbers of bytes -/

/-- There are fewer bytes than `n`, or the place `n` bytes on, moved into the source, is one of the
view. -/
def Covers (v : View) (n : Number) : Prop :=
  v.extent.lt n = true ∨ ∃ i j, i ≤ j ∧ j ≤ v.size ∧
    Span.within v.source (v.position n) (v.position n) = v.range i j

theorem Sound.covers_ofNat (h : v.Sound) (i : Nat) : v.Covers i := by
  by_cases le : i ≤ v.size
  · exact .inr ⟨i, i, le_rfl, le, h.within_eq le_rfl le⟩
  · left
    rw [h.extent_eq, Number.lt_ofNat]
    simpa using le

theorem Sound.covers_infinity (h : v.Sound) : v.Covers (.infinite false) := by
  left
  rw [h.extent_eq]
  rfl

theorem Sound.not_covers_nan (h : v.Sound) : ¬ v.Covers .nan := by
  rintro (more | ⟨i, j, -, -, same⟩)
  · rw [h.extent_eq] at more
    contradiction
  · have nowhere : (v.range i j).start = .nan := by
      rw [← same]
      simp [Span.within, position, h.unstray, Number.shift, Number.greatest, Number.least]
    simp [range, Number.ofNat] at nowhere

theorem covers_iff_of_moved {n : Number} {m : Nat} (hm : m ≤ v.offset - 1)
    (below : v.extent.lt n = false)
    (moved : Span.within v.source (v.position n) (v.position n) =
      ⟨v.source.buffer, (v.source.start + m : Nat), (v.source.start + m : Nat)⟩) :
    v.Covers n ↔ v.offset = 0 := by
  rw [Covers, moved, below]
  constructor
  · rintro (more | ⟨i, j, -, -, same⟩)
    · contradiction
    · simp only [range, Span.mk.injEq, Number.ofNat_inj, true_and] at same
      omega
  · intro first
    refine .inr ⟨0, 0, le_rfl, Nat.zero_le _, ?_⟩
    obtain rfl : m = 0 := by omega
    rw [range, first]

theorem Sound.covers_neg_iff (h : v.Sound) {i : Nat} (pos : 0 < i) :
    v.Covers (.ofInt (-i)) ↔ v.offset = 0 := by
  have inside := h.inside
  apply covers_iff_of_moved (m := v.offset - i) (by omega)
  · rw [h.extent_eq, Number.ofNat, Number.ofInt]
    have after : ¬ (v.size : Rat) ≤ ((-i : Int) : Rat) := by
      rw [← Int.cast_natCast, Int.cast_le]
      omega
    simp only [Number.lt, Number.le_finite, decide_eq_false after, Bool.false_and]
  · rw [h.position_ofInt, Span.within_ofInt]
    congr 3 <;> omega

theorem Sound.covers_neg_infinity_iff (h : v.Sound) :
    v.Covers (.infinite true) ↔ v.offset = 0 := by
  apply covers_iff_of_moved (m := 0) (Nat.zero_le _)
  · rw [h.extent_eq]
    rfl
  · have first : v.position (.infinite true) = .infinite true := by
      simp only [position, h.unstray, Number.shift]
    have zero : Number.greatest 0 (.infinite true) = .ofNat 0 := rfl
    have same : Number.greatest (.ofNat 0) (.infinite true) = .ofNat 0 := rfl
    rw [first, Span.within, zero, Number.least_ofNat, Nat.zero_min, same, Number.least_ofNat,
      Nat.zero_min, Number.shift_ofNat]

end View

/-! ## Where reports point -/

/-- The report names the view as its input and points at a range of it. -/
structure Report.PointsInto (v : View) (r : Report) : Prop where
  input : r.input = v
  place : v.Located r.cause

variable {v : View} {mode : Mode} {r : Report}

theorem Report.pointsInto_iff {c : Cause} (raised : mode.raise c = .report r) (hc : c.input = v) :
    r.PointsInto v ↔ v.Located c := by
  have made : r.cause = c ∧ r.input = c.input := by
    cases mode <;> simp only [Mode.raise, Failure.report.injEq, reduceCtorEq] at raised
    all_goals
      rw [← raised]
      exact ⟨rfl, rfl⟩
  obtain ⟨rfl, input⟩ := made
  exact ⟨fun h => h.place, fun h => ⟨input.trans hc, h⟩⟩

namespace View

variable {op : Operation} {n : Number}

theorem Sound.splitAt_points (h : v.Sound) (failed : v.splitAt mode n op = .error (.report r)) :
    r.PointsInto v := by
  unfold splitAt at failed
  split at failed
  · contradiction
  · have located := h.located_lengthCause n op
    exact (Report.pointsInto_iff (Except.error.inj failed) located.input).2 located

theorem Sound.splitAtByte_points_iff (h : v.Sound)
    (failed : v.splitAtByte mode n op = .error (.report r)) : r.PointsInto v ↔ v.Covers n := by
  unfold splitAtByte at failed
  split at failed
  · rename_i more
    have located := h.located_lengthCause n op
    rw [Report.pointsInto_iff (Except.error.inj failed) located.input]
    exact ⟨fun _ => .inl more, fun _ => located⟩
  · rename_i less
    split at failed
    · contradiction
    · rw [Report.pointsInto_iff (v := v) (Except.error.inj failed) rfl]
      constructor
      · intro located
        exact .inr located.place
      · rintro (more | place)
        · contradiction
        · exact located_invalidCause op _ none place

end View

def Action.counting (n : Number) : List Action :=
  [.peek (.given n), .take (.given n), .skip (.given n), .takeArray (.given n)]

theorem Action.counting_points (h : v.Sound) {n : Number} {a : Action} (ha : a ∈ counting n)
    {last : Value} (failed : (a.run mode last v).result = .error (.report r)) : r.PointsInto v := by
  have cut {α : Type} {op : Operation} {f : View → α}
      (failed : ((Read.ofCut fun v => v.splitAt mode n op) v).result.map f = .error (.report r)) :
      r.PointsInto v := by
    rw [Read.result_ofCut] at failed
    have inner := Read.eq_error_of_map_eq_error (Read.eq_error_of_map_eq_error failed)
    exact h.splitAt_points inner
  simp only [counting, List.mem_cons, List.not_mem_nil, or_false] at ha
  rcases ha with rfl | rfl | rfl | rfl
  · exact h.splitAt_points (Read.eq_error_of_map_eq_error failed)
  all_goals exact cut failed

/-- A cut after any number of tokens that fails points at a range of the view, which its report
names as the input. One after a number of bytes does so exactly if the view covers the number,
whether it was given outright or reported by a foreign parser: each length is covered, and anything
beyond them, but no number that has no value, and what is below zero only where the view starts its
source. -/
theorem View.Sound.failing_cuts_point_into (h : v.Sound) (mode : Mode) (n : Number) (r : Report) :
    (∀ op, v.splitAt mode n op = .error (.report r) → r.PointsInto v) ∧
    (∀ a ∈ Action.counting n, ∀ last, (a.run mode last v).result = .error (.report r) →
      r.PointsInto v) ∧
    (∀ op, v.splitAtByte mode n op = .error (.report r) → (r.PointsInto v ↔ v.Covers n)) ∧
    (∀ expected parser last value, parser v = .ok (value, n) →
      ((Action.tryExpectExternal expected parser).run mode last v).result = .error (.report r) →
      (r.PointsInto v ↔ v.Covers n)) ∧
    (∀ i : Nat, v.Covers i) ∧ v.Covers (.infinite false) ∧ ¬ v.Covers .nan ∧
    (∀ i : Nat, 0 < i → (v.Covers (.ofInt (-i)) ↔ v.offset = 0)) ∧
    (v.Covers (.infinite true) ↔ v.offset = 0) := by
  refine ⟨fun op failed => h.splitAt_points failed,
    fun a ha last failed => Action.counting_points h ha failed,
    fun op failed => h.splitAtByte_points_iff failed, ?_, h.covers_ofNat, h.covers_infinity,
    h.not_covers_nan, fun i pos => h.covers_neg_iff pos, h.covers_neg_infinity_iff⟩
  intro expected parser last value parsed failed
  change ((Read.ofCut fun v => v.splitForeign mode parser expected .expectExternal) v).result = _
    at failed
  rw [Read.result_ofCut] at failed
  have inner := Read.eq_error_of_map_eq_error failed
  simp only [View.splitForeign, parsed] at inner
  exact h.splitAtByte_points_iff (Read.eq_error_of_map_eq_error inner)

/-- A text after a letter, cut inside its char. -/
theorem View.Sound.failing_cuts_point_into_char :
    let v : View := ⟨.ofBytes 0 [0x61, 0xc3, 0xa9], 1, 2, .startBounded, .text, none⟩
    v.Sound ∧ ∃ r, v.splitAtByte .full 1 .splitAtByte = .error (.report r) ∧ r.PointsInto v := by
  intro v
  have valid : Utf8.isValid [0xc3, 0xa9] = true := Utf8.isValid_encode ['é']
  have sound : v.Sound := ⟨rfl, by decide, by decide, valid, by decide⟩
  have less : v.extent.lt 1 = false := by decide +kernel
  have inside : (Number.toNat? 1).filter v.isBoundary = none := by decide +kernel
  have failed : ∃ r, v.splitAtByte .full 1 .splitAtByte = .error (.report r) := by
    simp only [View.splitAtByte, less, inside]
    exact ⟨_, rfl⟩
  obtain ⟨r, failed⟩ := failed
  have points := (sound.failing_cuts_point_into .full 1 r).2.2.1 .splitAtByte failed
  exact ⟨sound, r, failed, points.2 (sound.covers_ofNat 1)⟩

/-- A cut one byte before the start of a view points before the view. -/
theorem View.splitAtByte_points_before :
    let v : View := ⟨.ofBytes 0 [1, 2], 1, 1, .startBounded, .bytes, none⟩
    v.Sound ∧ ∃ r, v.splitAtByte .root (.ofInt (-1)) .splitAtByte = .error (.report r) ∧
      r.input = v ∧ r.span.isWithin v.span = false := by
  intro v
  have sound : v.Sound := ⟨rfl, by decide, by decide, trivial, by decide⟩
  exact ⟨sound, _, rfl, rfl, by decide +kernel⟩

end Untrusted
