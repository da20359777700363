import Mathlib
import Untrusted.Number.Rounding

/-!
# Lengths among the numbers

Comparing the numbers of two lengths compares the lengths.
-/

namespace Untrusted.Number

theorem ofNat_inj {m n : Nat} : ofNat m = ofNat n ↔ m = n := by
  simp [ofNat]

theorem ofNat_ne_nan (n : Nat) : ofNat n ≠ .nan := by
  simp [ofNat]

theorem lt_ofNat (m n : Nat) : lt (ofNat m) (ofNat n) = decide (m < n) := by
  rw [lt, le_ofNat, Bool.eq_iff_iff]
  simp only [Bool.and_eq_true, decide_eq_true_eq, bne_iff_ne, ne_eq, ofNat_inj]
  omega

theorem same_ofNat (m n : Nat) : same (ofNat m) (ofNat n) = decide (m = n) := by
  rw [same, Bool.eq_iff_iff]
  simp [ofNat_inj, ofNat_ne_nan]

theorem eq_ofNat_of_toNat? {n : Number} {i : Nat} (h : n.toNat? = some i) : n = ofNat i := by
  unfold toNat? at h
  split at h
  · rename_i q
    split at h
    · rename_i whole
      obtain rfl := Option.some.inj h
      have num : (q.num.toNat : Int) = q.num := Int.toNat_of_nonneg whole.2
      rw [ofNat, finite.injEq]
      exact Rat.ext (by simp [num]) (by simp [whole.1])
    · contradiction
  · contradiction

theorem toIndex_ofNat (size m : Nat) : toIndex size (ofNat m) = min m size := by
  have whole : towardZero (m : Rat) = m := by
    unfold towardZero
    rw [if_pos (Nat.cast_nonneg m), ← Int.cast_natCast, Rat.floor_intCast]
  simp only [toIndex, ofNat, whole]
  rw [if_neg (by omega), Int.toNat_natCast]

end Untrusted.Number
