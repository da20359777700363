import Untrusted.Number

/-!
# Rounding to binary64

Arithmetic is exact and then rounded to the nearest number with a 53-bit significand, a tie going to
the even one. Whole numbers up to 2 ^ 53 are left as they are, so lengths of inputs are exact.
-/

namespace Untrusted.Number

/-- `n / d` to the nearest whole number, a tie to the even one. -/
def roundDiv (n d : Nat) : Nat :=
  let q := n / d
  let r := 2 * (n % d)
  if r < d then q else if d < r then q + 1 else q + q % 2

/-- The greatest `k` with `2 ^ k ≤ n / d`, for positive `n` and `d`. -/
def binaryExponent (n d : Nat) : Int :=
  let k : Int := (n.log2 : Int) - (d.log2 : Int)
  let reached := if 0 ≤ k then decide (d <<< k.toNat ≤ n) else decide (d ≤ n <<< (-k).toNat)
  if reached then k else k - 1

/-- The nearest binary64 magnitude to `n / d`, or `none` beyond the greatest one. -/
def roundMagnitude (n d : Nat) : Option Rat :=
  let e := max (binaryExponent n d - 52) (-1074)
  let value : Rat :=
    if 0 ≤ e then (roundDiv n (d <<< e.toNat) <<< e.toNat : Nat)
    else mkRat (roundDiv (n <<< (-e).toNat) d) (1 <<< (-e).toNat)
  if value < (1 <<< 1024 : Nat) then some value else none

/-- Up to here, which is 2 ^ 53, each whole number is a binary64 number. -/
def wholeLimit : Nat := 1 <<< 53

def round (q : Rat) : Number :=
  if q.den = 1 ∧ q.num.natAbs ≤ wholeLimit then .finite q
  else
    match roundMagnitude q.num.natAbs q.den with
    | some m => .finite (if q.num < 0 then -m else m)
    | none => .infinite (decide (q.num < 0))

theorem round_ofNat {n : Nat} (h : n ≤ wholeLimit) : round (n : Rat) = ofNat n :=
  if_pos ⟨Rat.den_natCast n, by rwa [Rat.num_natCast, Int.natAbs_natCast]⟩

/-! ## Arithmetic -/

def add : Number → Number → Number
  | .nan, _ => .nan
  | _, .nan => .nan
  | .infinite a, .infinite b => if a = b then .infinite a else .nan
  | .infinite a, _ => .infinite a
  | _, .infinite b => .infinite b
  | .finite a, .finite b => round (a + b)

def neg : Number → Number
  | .nan => .nan
  | .infinite a => .infinite (!a)
  | .finite q => .finite (-q)

def sub (a b : Number) : Number := add a (neg b)

theorem add_ofNat {m n : Nat} (h : m + n ≤ wholeLimit) :
    add (ofNat m) (ofNat n) = ofNat (m + n) := by
  simpa [add, ofNat] using round_ofNat h

/-! ## Positions

Positions in memory are whole numbers far below 2 ^ 53, so whole sums and differences of them are
kept exact. -/

def shift (base : Nat) : Number → Number
  | .finite q => if q.den = 1 then .finite (base + q) else add (ofNat base) (.finite q)
  | n => n

def distance : Number → Number → Number
  | .finite a, .finite b =>
    if a.den = 1 ∧ b.den = 1 then .finite (b - a) else sub (.finite b) (.finite a)
  | a, b => sub b a

theorem shift_ofNat (base n : Nat) : shift base (ofNat n) = ofNat (base + n) := by
  unfold shift ofNat
  dsimp only
  rw [if_pos (Rat.den_natCast n), Rat.natCast_add]

theorem distance_ofNat {m n : Nat} (h : m ≤ n) : distance (ofNat m) (ofNat n) = ofNat (n - m) := by
  have split : (n : Rat) = ((n - m : Nat) : Rat) + (m : Rat) := by
    rw [← Rat.natCast_add, Nat.sub_add_cancel h]
  have difference : (n : Rat) - (m : Rat) = ((n - m : Nat) : Rat) := by
    rw [split, Rat.sub_eq_add_neg, Rat.add_assoc, Rat.add_neg_cancel, Rat.add_zero]
  simp [distance, ofNat, difference]

/-! ## Numbers written down -/

/-- The number that the digits `digits` with `exponent` further places stand for. -/
def ofDecimal (negative : Bool) (digits : Nat) (exponent : Int) : Number :=
  let signed (q : Rat) : Rat := if negative then -q else q
  if digits = 0 then 0
  else if exponent > 400 then .infinite negative
  else if (digits.log2 : Int) + 3 * exponent < -1100 then 0
  else if 0 ≤ exponent then round (signed (digits * Nat.pow 10 exponent.toNat : Nat))
  else round (signed (mkRat digits (Nat.pow 10 (-exponent).toNat)))

/-- The value of a binary64 bit pattern; the sign of zero is dropped. -/
def ofBits (bits : Nat) : Number :=
  let negative := bits >>> 63 % 2 = 1
  let exponent := bits >>> 52 % 2048
  let fraction := bits % (1 <<< 52)
  if exponent = 2047 then (if fraction = 0 then .infinite negative else .nan)
  else
    let significand := if exponent = 0 then fraction else fraction + 1 <<< 52
    let scale : Int := (max exponent 1 : Nat) - 1075
    let q : Rat :=
      if 0 ≤ scale then (significand <<< scale.toNat : Nat)
      else mkRat significand (1 <<< (-scale).toNat)
    .finite (if negative then -q else q)

end Untrusted.Number
