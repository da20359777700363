import Mathlib
import Untrusted.Proofs.Number
import Untrusted.Retry

/-!
# Rounding whole numbers

A whole number that is no greater than the greatest binary64 number rounds to a whole number, and
no positive one rounds to zero. So a read that is short of bytes always has a requirement.
-/

namespace Untrusted.Number

@[irreducible]
def greatestWhole : Nat := (2 ^ 53 - 1) * 2 ^ 971

theorem wholeLimit_eq : wholeLimit = 2 ^ 53 := by
  simp [wholeLimit, Nat.shiftLeft_eq]

theorem scaled_le {s k t : Nat} (hs : s ≤ 2 ^ 53 - 1) (hk : k ≤ t) :
    s * 2 ^ k ≤ (2 ^ 53 - 1) * 2 ^ t :=
  Nat.mul_le_mul hs (Nat.pow_le_pow_right (by decide) hk)

theorem le_greatestWhole {m : Nat} (h : m ≤ 2 ^ 65) : m ≤ greatestWhole := by
  unfold greatestWhole
  have far : 2 ^ 52 * 2 ^ 13 ≤ (2 ^ 53 - 1) * 2 ^ 971 := scaled_le (by decide) (by decide)
  exact Nat.le_trans h far

/-! ## Quotients -/

theorem le_roundDiv (n d : Nat) : n / d ≤ roundDiv n d := by
  unfold roundDiv
  simp only
  split_ifs <;> omega

theorem roundDiv_le (n d : Nat) : roundDiv n d ≤ n / d + 1 := by
  unfold roundDiv
  simp only
  split_ifs <;> omega

theorem roundDiv_of_mod_eq_zero {n d : Nat} (hd : 0 < d) (h : n % d = 0) :
    roundDiv n d = n / d := by
  unfold roundDiv
  simp only [h, Nat.mul_zero, hd, if_true]

/-! ## Whole numbers beyond the exact ones -/

theorem binaryExponent_one {m : Nat} (h : m ≠ 0) : binaryExponent m 1 = m.log2 := by
  have reached : 1 <<< m.log2 ≤ m := by
    rw [Nat.shiftLeft_eq, Nat.one_mul]
    exact Nat.log2_self_le h
  have log1 : Nat.log2 1 = 0 := by decide
  simp [binaryExponent, log1, reached]

theorem roundMagnitude_whole {m e : Nat} (h : m.log2 = e + 52) :
    roundMagnitude m 1 = if roundDiv m (2 ^ e) * 2 ^ e < 1 <<< 1024 then
      some ((roundDiv m (2 ^ e) * 2 ^ e : Nat) : Rat) else none := by
  have nonzero : m ≠ 0 := by
    rintro rfl
    simp at h
  have exponent : max (binaryExponent m 1 - 52) (-1074) = (e : Int) := by
    rw [binaryExponent_one nonzero, h]
    omega
  unfold roundMagnitude
  simp only [exponent, Int.natCast_nonneg, if_true, Int.toNat_natCast, Nat.one_shiftLeft e,
    Nat.shiftLeft_eq _ e, Nat.cast_lt]

theorem div_pow_lt {m e : Nat} (h : m.log2 = e + 52) : m / 2 ^ e < 2 ^ 53 := by
  have below : m < 2 ^ (m.log2 + 1) := Nat.lt_log2_self
  rw [h, show e + 52 + 1 = 53 + e by omega, Nat.pow_add] at below
  exact (Nat.div_lt_iff_lt_mul (Nat.two_pow_pos e)).2 below

theorem rounded_lt {m e t n : Nat} (h : m.log2 = e + 52) (hm : m ≤ (2 ^ 53 - 1) * 2 ^ t)
    (hn : n = 53 + t) : roundDiv m (2 ^ e) * 2 ^ e < 1 <<< n := by
  subst hn
  have quotient := div_pow_lt h
  have up := roundDiv_le m (2 ^ e)
  have places : 2 ^ (e + 52) ≤ m := by
    rw [← h]
    exact Nat.log2_self_le (by rintro rfl; simp at h)
  have top : (2 ^ 53 - 1) * 2 ^ t < 2 ^ (53 + t) := by
    rw [Nat.pow_add]
    exact Nat.mul_lt_mul_of_pos_right (by decide) (Nat.two_pow_pos t)
  have small : e ≤ t := by
    have := (Nat.pow_lt_pow_iff_right (by decide : 1 < 2)).1
      (Nat.lt_of_le_of_lt (Nat.le_trans places hm) top)
    omega
  rw [Nat.one_shiftLeft, Nat.pow_add]
  rcases Nat.lt_or_eq_of_le small with below | rfl
  · -- Rounding up gives no more than the next power of two.
    have half : 2 ^ e * 2 ≤ 2 ^ t := by
      rw [← Nat.pow_succ]
      exact Nat.pow_le_pow_right (by decide) below
    have positive := Nat.two_pow_pos e
    calc roundDiv m (2 ^ e) * 2 ^ e ≤ 2 ^ 53 * 2 ^ e := Nat.mul_le_mul_right _ (by omega)
      _ < 2 ^ 53 * 2 ^ t := Nat.mul_lt_mul_of_pos_left (by omega) (by decide)
  · refine Nat.mul_lt_mul_of_pos_right ?_ (Nat.two_pow_pos e)
    rcases Nat.lt_or_ge (m / 2 ^ e) (2 ^ 53 - 1) with below | full
    · omega
    · -- The greatest number of all, which no place is cut off from.
      have exact' : m % 2 ^ e = 0 := by
        have split := Nat.div_add_mod m (2 ^ e)
        have least : 2 ^ e * (2 ^ 53 - 1) ≤ 2 ^ e * (m / 2 ^ e) := Nat.mul_le_mul_left _ full
        rw [Nat.mul_comm] at hm
        omega
      rw [roundDiv_of_mod_eq_zero (Nat.two_pow_pos e) exact']
      exact quotient

theorem round_whole {m : Nat} (pos : 0 < m) (hm : m ≤ greatestWhole) :
    ∃ k, 0 < k ∧ round (m : Rat) = ofNat k ∧ (m ≤ wholeLimit → k = m) := by
  by_cases small : m ≤ wholeLimit
  · exact ⟨m, pos, round_ofNat small, fun _ => rfl⟩
  · rw [wholeLimit_eq] at small
    have large : 52 ≤ m.log2 := (Nat.le_log2 (by omega)).2 (by omega)
    obtain ⟨e, he⟩ : ∃ e, m.log2 = e + 52 := ⟨m.log2 - 52, by omega⟩
    have quotient : 0 < m / 2 ^ e := by
      have fits : 2 ^ e ≤ m := by
        refine Nat.le_trans (Nat.pow_le_pow_right (by decide) ?_) (Nat.log2_self_le (by omega))
        omega
      exact Nat.div_pos fits (Nat.two_pow_pos e)
    have least := le_roundDiv m (2 ^ e)
    have below : roundDiv m (2 ^ e) * 2 ^ e < 1 <<< 1024 := by
      unfold greatestWhole at hm
      exact rounded_lt he hm rfl
    refine ⟨roundDiv m (2 ^ e) * 2 ^ e, Nat.mul_pos (by omega) (Nat.two_pow_pos e), ?_, ?_⟩
    · unfold round
      rw [if_neg (by rw [Rat.num_natCast, Int.natAbs_natCast, wholeLimit_eq]; omega)]
      rw [Rat.num_natCast, Rat.den_natCast, Int.natAbs_natCast, roundMagnitude_whole he,
        if_pos below]
      simp only [Int.natCast_nonneg, Int.not_lt.2, if_false]
      rfl
    · rw [wholeLimit_eq]
      omega

/-! ## Numbers that binary64 can hold -/

/-- If the number is a length, then one that is no greater than the greatest binary64 number. -/
def InRange (n : Number) : Prop := ∀ i, n.toNat? = some i → i ≤ greatestWhole

theorem inRange_nan : nan.InRange := by
  intro i h
  contradiction

theorem inRange_infinite (negative : Bool) : (infinite negative).InRange := by
  intro i h
  contradiction

theorem inRange_finite {q : Rat} (h : q ≤ greatestWhole) : (finite q).InRange := by
  intro i hi
  have same := eq_ofNat_of_toNat? hi
  rw [ofNat, finite.injEq] at same
  rw [same] at h
  exact Nat.cast_le.1 h

theorem inRange_ofInt {i : Int} (h : i ≤ 2 ^ 65) : (ofInt i).InRange := by
  apply inRange_finite
  have small : i.toNat ≤ greatestWhole := le_greatestWhole (by omega)
  calc (i : Rat) ≤ ((i.toNat : Int) : Rat) := Int.cast_le.2 (Int.self_le_toNat i)
    _ = (i.toNat : Rat) := Int.cast_natCast _
    _ ≤ greatestWhole := Nat.cast_le.2 small

theorem scaled_bounds {s : Nat} {k : Int} (hs : s ≤ 2 ^ 53 - 1) (hk : k ≤ 971) :
    0 ≤ (if 0 ≤ k then ((s <<< k.toNat : Nat) : Rat) else mkRat s (1 <<< (-k).toNat)) ∧
      (if 0 ≤ k then ((s <<< k.toNat : Nat) : Rat) else mkRat s (1 <<< (-k).toNat)) ≤
        greatestWhole := by
  split
  · refine ⟨Nat.cast_nonneg _, Nat.cast_le.2 ?_⟩
    rw [Nat.shiftLeft_eq]
    unfold greatestWhole
    exact scaled_le hs (by omega)
  · refine ⟨Rat.mkRat_nonneg (Int.natCast_nonneg s) _, ?_⟩
    rw [Rat.mkRat_eq_div, Nat.one_shiftLeft]
    have small : s ≤ greatestWhole := le_greatestWhole (by omega)
    refine le_trans (div_le_self ?_ ?_) (Nat.cast_le.2 small)
    · exact Nat.cast_nonneg s
    · exact_mod_cast Nat.one_le_two_pow

theorem inRange_ofBits (bits : Nat) : (ofBits bits).InRange := by
  have exponent : bits >>> 52 % 2048 < 2048 := Nat.mod_lt _ (by decide)
  have fraction : bits % 1 <<< 52 < 2 ^ 52 := Nat.mod_lt _ (by decide)
  unfold ofBits
  simp only
  generalize bits >>> 52 % 2048 = e at *
  generalize bits % 1 <<< 52 = f at *
  split
  · split
    · exact inRange_infinite _
    · exact inRange_nan
  · have significand : (if e = 0 then f else f + 1 <<< 52) ≤ 2 ^ 53 - 1 := by
      rw [Nat.one_shiftLeft]
      split <;> omega
    obtain ⟨nonneg, top⟩ :=
      scaled_bounds significand (k := ((max e 1 : Nat) : Int) - 1075) (by omega)
    apply inRange_finite
    split
    · exact le_trans (neg_nonpos.2 nonneg) (Nat.cast_nonneg _)
    · exact top

theorem inRange_round_int {i : Int} (h : i.natAbs ≤ 2 ^ 64) : (round (i : Rat)).InRange := by
  unfold round
  rw [Rat.num_intCast, Rat.den_intCast]
  split
  · exact inRange_ofInt (by omega)
  · rename_i large
    rw [wholeLimit_eq] at large
    have log : 52 ≤ i.natAbs.log2 := (Nat.le_log2 (by omega)).2 (by omega)
    obtain ⟨e, he⟩ : ∃ e, i.natAbs.log2 = e + 52 := ⟨i.natAbs.log2 - 52, by omega⟩
    rw [roundMagnitude_whole he]
    split
    · rename_i m found
      split at found
      · obtain rfl := Option.some.inj found
        have places : 2 ^ e ≤ i.natAbs := by
          refine Nat.le_trans (Nat.pow_le_pow_right (by decide) ?_) (Nat.log2_self_le (by omega))
          omega
        have bound : roundDiv i.natAbs (2 ^ e) * 2 ^ e ≤ 2 ^ 65 := by
          calc roundDiv i.natAbs (2 ^ e) * 2 ^ e ≤ (i.natAbs / 2 ^ e + 1) * 2 ^ e :=
                Nat.mul_le_mul_right _ (roundDiv_le _ _)
            _ = i.natAbs / 2 ^ e * 2 ^ e + 2 ^ e := Nat.succ_mul _ _
            _ ≤ i.natAbs + i.natAbs := Nat.add_le_add (Nat.div_mul_le_self _ _) places
            _ ≤ 2 ^ 65 := by omega
        have top : ((roundDiv i.natAbs (2 ^ e) * 2 ^ e : Nat) : Rat) ≤ greatestWhole :=
          Nat.cast_le.2 (le_greatestWhole bound)
        apply inRange_finite
        split
        · exact le_trans (neg_nonpos.2 (Nat.cast_nonneg _)) (Nat.cast_nonneg _)
        · exact top
      · contradiction
    · exact inRange_infinite _

end Untrusted.Number

namespace Untrusted.Retry

open Number

/-- A read that had fewer bytes than it needs has a requirement, which is exact unless it needs more
than there can be. -/
theorem exists_ofHadAndNeeded? {had needed : Nat} (short : had < needed)
    (h : needed ≤ greatestWhole) :
    ∃ r, ofHadAndNeeded? had needed = some r ∧ (needed ≤ wholeLimit → r.count = needed - had) := by
  have split : (needed : Rat) = ((needed - had : Nat) : Rat) + (had : Rat) := by
    rw [← Rat.natCast_add, Nat.sub_add_cancel (Nat.le_of_lt short)]
  have difference : (needed : Rat) + -(had : Rat) = ((needed - had : Nat) : Rat) := by
    rw [split, Rat.add_assoc, Rat.add_neg_cancel, Rat.add_zero]
  obtain ⟨k, pos, rounded, same⟩ := round_whole (m := needed - had) (by omega) (by omega)
  refine ⟨⟨k, pos⟩, ?_, fun small => same (by omega)⟩
  have lacking : (ofNat needed).sub (ofNat had) = ofNat k := by
    simp only [sub, neg, add, ofNat, difference]
    exact rounded
  have zero : (0 : Number) = ofNat 0 := rfl
  rw [ofHadAndNeeded?, lacking, zero, greatest_ofNat, Nat.zero_max, create?_ofNat, dif_pos pos]

end Untrusted.Retry
