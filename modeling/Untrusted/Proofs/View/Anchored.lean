import Mathlib
import Untrusted.Proofs.Number
import Untrusted.Proofs.View.Optional

/-!
# Where a reader with a pattern of the caller's own can stand

A pattern may cut a view at any number, and what is left is then a view that goes by numbers of no
range. If its size has no value, it starts at no position, so no token is found there.
-/

namespace Untrusted

/-! ## Sums that have a value -/

namespace Number

theorem round_ne_nan (q : Rat) : round q ≠ .nan := by
  unfold round
  split
  · simp
  · split <;> simp

theorem isFinite_of_add {a b : Number} (h : (a.add b).isFinite = true) :
    a.isFinite = true ∧ b.isFinite = true := by
  cases a with
  | nan => simp [add, isFinite] at h
  | infinite s =>
    cases b with
    | infinite t => cases s <;> cases t <;> simp [add, isFinite] at h
    | _ => simp [add, isFinite] at h
  | finite p =>
    cases b with
    | finite q => exact ⟨rfl, rfl⟩
    | _ => simp [add, isFinite] at h

theorem eq_nan_of_sub {a b : Number} (hb : b.isFinite = true) (h : a.sub b = .nan) : a = .nan := by
  cases b with
  | finite q =>
    cases a with
    | nan => rfl
    | infinite s => simp [sub, neg, add] at h
    | finite p => exact absurd h (round_ne_nan _)
  | _ => simp [isFinite] at hb

theorem le_of_not_lt {a b : Number} (ha : a ≠ .nan) (hb : b ≠ .nan) (h : b.lt a = false) :
    a.le b = true := by
  cases a with
  | nan => exact absurd rfl ha
  | infinite s =>
    cases b with
    | nan => exact absurd rfl hb
    | infinite t => cases s <;> cases t <;> simp_all [lt, le]
    | finite q => cases s <;> simp_all [lt, le]
  | finite p =>
    cases b with
    | nan => exact absurd rfl hb
    | infinite t => cases t <;> simp_all [lt, le]
    | finite q =>
      simp only [lt, le_finite, Bool.and_eq_false_iff, decide_eq_false_iff_not, bne_eq_false_iff_eq,
        finite.injEq] at h
      rw [le_finite, decide_eq_true_eq]
      rcases h with greater | same
      · exact le_of_lt (not_le.1 greater)
      · exact same.ge

theorem toNat?_of_not_isFinite {n : Number} (h : n.isFinite = false) : n.toNat? = none := by
  cases n with
  | finite q => simp [isFinite] at h
  | _ => rfl

end Number

/-! ## Views -/

namespace View

/-- A view that has a size, or starts at no position. -/
def Anchored (v : View) : Prop := v.extent = .nan → v.start.isFinite = false

theorem anchored_of_unstray {v : View} (h : v.stray = none) : v.Anchored := by
  intro nan
  simp [extent, h, Number.ofNat] at nan

theorem place_start (v : View) (offset size : Number) (bound : Bound) :
    (v.place offset size bound).start = offset := by
  unfold place
  simp only
  split
  · rename_i whole
    exact whole.1
  · rfl

theorem place_extent (v : View) (offset size : Number) (bound : Bound) :
    (v.place offset size bound).extent = size := by
  unfold place
  simp only
  split
  · rename_i whole
    exact whole.2.1
  · rfl

variable {v : View}

theorem Anchored.cutAnywhere (h : v.Anchored) (n : Number) : (v.cutAnywhere n).2.Anchored := by
  intro nan
  rw [View.cutAnywhere, place_extent] at nan
  rw [View.cutAnywhere, place_start, ← Bool.not_eq_true]
  intro finite
  obtain ⟨start, number⟩ := Number.isFinite_of_add finite
  rw [h (Number.eq_nan_of_sub number nan)] at start
  contradiction

theorem Anchored.cut (h : v.Anchored) (i : Nat) : (v.cut i).2.Anchored := by
  unfold View.cut
  split
  · rename_i unstray
    exact anchored_of_unstray unstray
  · exact h.cutAnywhere i

theorem anchored_endView (v : View) : v.endView.Anchored := by
  unfold endView
  split
  · rename_i unstray
    exact anchored_of_unstray unstray
  · intro nan
    rw [place_extent] at nan
    contradiction

theorem Anchored.splitAt? (h : v.Anchored) {n : Number} {parts : View × View}
    (cut : v.splitAt? n = some parts) : parts.2.Anchored := by
  obtain ⟨i, -, rfl⟩ := Option.map_eq_some_iff.1 cut
  exact h.cut i

theorem Anchored.splitWhile (h : v.Anchored) (p : Pattern) : (v.splitWhile p).2.Anchored := by
  unfold View.splitWhile
  split
  · exact v.anchored_endView
  · split
    · split
      · exact h.cut _
      · exact h.cutAnywhere _
    · exact h.cutAnywhere _

theorem Anchored.splitUntil? (h : v.Anchored) {p : Pattern} {parts : View × View}
    (cut : v.splitUntil? p = some parts) : parts.2.Anchored := by
  obtain ⟨place, -, rfl⟩ := Option.map_eq_some_iff.1 cut
  exact h.cut _

theorem Anchored.splitUntilConsume? (h : v.Anchored) {p : Pattern} {parts : View × View}
    (cut : v.splitUntilConsume? p = some parts) : parts.2.Anchored := by
  obtain ⟨place, -, rfl⟩ := Option.map_eq_some_iff.1 cut
  exact h.cut _

theorem Anchored.splitPrefix? (h : v.Anchored) {literal : List UInt8} {parts : View × View}
    (cut : v.splitPrefix? literal = some parts) : parts.2.Anchored := by
  unfold View.splitPrefix? at cut
  split at cut
  · cases cut
    exact h.cut _
  · contradiction

/-! ## The first token -/

theorem token?_nil (k : Kind) : k.token? [] = none := by
  cases k <;> rfl

theorem Anchored.firstEntry?_eq_none (h : v.Anchored) (empty : Number.lt 0 v.extent = false) :
    v.firstEntry? = none := by
  unfold firstEntry?
  split
  · rename_i unstray
    rw [extent, unstray] at empty
    have none' : v.size = 0 := by
      have zero : (0 : Number) = Number.ofNat 0 := rfl
      simpa [zero, Number.lt_ofNat] using empty
    rw [ahead, none', Nat.min_zero, Source.slice_eq, List.take_zero, token?_nil]
  · unfold strayEntry?
    split
    · rfl
    · rename_i inside
      simp only [Bool.or_eq_true, not_or, Bool.not_eq_true] at inside
      have nan : v.extent = .nan := by
        by_contra sized
        have le := Number.le_of_not_lt sized (Number.ofNat_ne_nan 0) empty
        rw [show Number.ofNat 0 = 0 from rfl, inside.2] at le
        contradiction
      have nowhere : (v.start.add 0).isFinite = false := by
        rw [← Bool.not_eq_true]
        intro finite
        have start := (Number.isFinite_of_add finite).1
        rw [h nan] at start
        contradiction
      rw [Source.sliceAt, Number.toNat?_of_not_isFinite nowhere, token?_nil]

theorem Anchored.first?_eq (h : v.Anchored) : v.first? = v.splitFirst?.map Prod.fst := by
  unfold first? splitFirst?
  cases size : Number.lt 0 v.extent with
  | true =>
    rw [if_pos rfl, Option.map_map]
    rfl
  | false => simp [h.firstEntry?_eq_none size]

end View
end Untrusted
