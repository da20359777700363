import Mathlib
import Untrusted.Value

/-!
# Fixed-width integers

The number that bytes write is the sum of the bytes by their places. An integer kind reads it modulo
the power of two of its width, so it reads back each integer in its range from the bytes that the
integer is written as.
-/

namespace Untrusted

open scoped BigOperators

namespace FixedWidth

/-! ## Sums of places -/

def placeValue (endian : Endian) (width i : Nat) : Nat :=
  match endian with
  | .big => 256 ^ (width - 1 - i)
  | .little => 256 ^ i

theorem foldl_eq (l : List UInt8) (n : Nat) :
    l.foldl (fun n b => n * 256 + b.toNat) n = n * 256 ^ l.length + ofBigEndian l := by
  induction l generalizing n with
  | nil => simp [ofBigEndian]
  | cons b l ih =>
    rw [ofBigEndian, List.foldl_cons, List.foldl_cons, ih, ih (0 * 256 + b.toNat), List.length_cons,
      Nat.pow_succ]
    ring

theorem ofBytes_big_cons (b : UInt8) (l : List UInt8) :
    ofBytes .big (b :: l) = b.toNat * 256 ^ l.length + ofBytes .big l := by
  change (b :: l).foldl _ 0 = _
  rw [List.foldl_cons, foldl_eq, Nat.zero_mul, Nat.zero_add]
  rfl

theorem ofBytes_little_cons (b : UInt8) (l : List UInt8) :
    ofBytes .little (b :: l) = ofBytes .little l * 256 + b.toNat := by
  change (b :: l).reverse.foldl _ 0 = _
  rw [List.reverse_cons, List.foldl_append]
  rfl

theorem ofBytes_eq_sum (endian : Endian) (l : List UInt8) :
    ofBytes endian l = ∑ i, (l.get i).toNat * placeValue endian l.length i := by
  induction l with
  | nil => cases endian <;> rfl
  | cons b l ih =>
    refine Eq.trans ?_ (Fin.sum_univ_succ (n := l.length) _).symm
    cases endian with
    | big =>
      rw [ofBytes_big_cons, ih]
      congr 1
      refine Finset.sum_congr rfl fun i _ => ?_
      simp [placeValue, Nat.sub_sub, Nat.add_comm]
    | little =>
      rw [ofBytes_little_cons, ih, Finset.sum_mul, Nat.add_comm]
      congr 1
      · simp [placeValue]
      · refine Finset.sum_congr rfl fun i _ => ?_
        simp [placeValue, Nat.pow_succ, Nat.mul_assoc]

theorem ofBytes_lt (endian : Endian) (l : List UInt8) : ofBytes endian l < 256 ^ l.length := by
  induction l with
  | nil => cases endian <;> decide
  | cons b l ih =>
    have byte := b.toNat_lt
    rw [List.length_cons, Nat.pow_succ]
    cases endian with
    | big =>
      rw [ofBytes_big_cons]
      nlinarith
    | little =>
      rw [ofBytes_little_cons]
      omega

/-! ## Bytes that a number is written as -/

/-- The last `width` bytes of a number, the least significant one first. -/
def littleBytes : (width : Nat) → Nat → List UInt8
  | 0, _ => []
  | width + 1, n => UInt8.ofNat n :: littleBytes width (n / 256)

theorem length_littleBytes (width n : Nat) : (littleBytes width n).length = width := by
  induction width generalizing n with
  | zero => rfl
  | succ width ih => rw [littleBytes, List.length_cons, ih]

theorem ofBytes_littleBytes {width n : Nat} (h : n < 256 ^ width) :
    ofBytes .little (littleBytes width n) = n := by
  induction width generalizing n with
  | zero =>
    have zero : n = 0 := by simpa using h
    rw [zero]
    rfl
  | succ width ih =>
    rw [Nat.pow_succ] at h
    have small : n / 256 < 256 ^ width := (Nat.div_lt_iff_lt_mul (by decide)).2 h
    rw [littleBytes, ofBytes_little_cons, ih small, UInt8.toNat_ofNat']
    omega

def write (kind : NumericKind) (endian : Endian) (z : Int) : List UInt8 :=
  let bytes := littleBytes kind.width (z % 2 ^ (8 * kind.width)).toNat
  match endian with
  | .big => bytes.reverse
  | .little => bytes

theorem length_write (kind : NumericKind) (endian : Endian) (z : Int) :
    (write kind endian z).length = kind.width := by
  cases endian <;> simp [write, length_littleBytes]

theorem ofBytes_write (kind : NumericKind) (endian : Endian) (z : Int) :
    (ofBytes endian (write kind endian z) : Int) = z % 2 ^ (8 * kind.width) := by
  have nonneg : 0 ≤ z % 2 ^ (8 * kind.width) := Int.emod_nonneg _ (by positivity)
  have below : z % 2 ^ (8 * kind.width) < 2 ^ (8 * kind.width) :=
    Int.emod_lt_of_pos _ (by positivity)
  have small : (z % 2 ^ (8 * kind.width)).toNat < 256 ^ kind.width := by
    rw [show 256 = 2 ^ 8 from rfl, ← Nat.pow_mul]
    zify
    rwa [Int.toNat_of_nonneg nonneg]
  have little := ofBytes_littleBytes small
  cases endian with
  | little => rw [write, little, Int.toNat_of_nonneg nonneg]
  | big =>
    rw [write, ← ofBytes_little, little, Int.toNat_of_nonneg nonneg]

end FixedWidth

/-! ## The range of a kind -/

namespace NumericKind

def isInteger : NumericKind → Bool
  | f32 | f64 => false
  | _ => true

/-- The integers of a kind: from zero on, or as many below zero as from there on. -/
def Holds (kind : NumericKind) (z : Int) : Prop :=
  if kind.isSigned then -2 ^ (8 * kind.width - 1) ≤ z ∧ z < 2 ^ (8 * kind.width - 1)
  else 0 ≤ z ∧ z < 2 ^ (8 * kind.width)
  deriving Decidable

def value (kind : NumericKind) (z : Int) : Value :=
  if kind.width = 8 then .wide z else .number (.ofInt z)

/-- The integer of a kind that a number of its width stands for. -/
def integerOf (kind : NumericKind) (n : Nat) : Int :=
  if kind.isSigned then FixedWidth.signed (8 * kind.width) n else n

variable {kind : NumericKind} {n : Nat} {y z : Int}

theorem ofReading_interpret (h : kind.isInteger = true) (n : Nat) :
    Value.ofReading (FixedWidth.interpret kind n) = kind.value (kind.integerOf n) := by
  cases kind with
  | f32 | f64 => contradiction
  | _ => rfl

theorem integerOf_modEq (kind : NumericKind) (n : Nat) :
    kind.integerOf n ≡ n [ZMOD 2 ^ (8 * kind.width)] := by
  unfold integerOf FixedWidth.signed
  rw [Nat.one_shiftLeft, Nat.one_shiftLeft]
  split_ifs with signed low
  · rfl
  · push_cast
    exact Int.sub_emod_right _ _
  · rfl

theorem holds_integerOf (h : n < 256 ^ kind.width) : kind.Holds (kind.integerOf n) := by
  unfold Holds integerOf FixedWidth.signed
  rw [Nat.one_shiftLeft, Nat.one_shiftLeft]
  cases kind <;> simp only [isSigned, width, Bool.false_eq_true, if_true, if_false] at h ⊢ <;>
    omega

theorem Holds.unique (hy : kind.Holds y) (hz : kind.Holds z)
    (same : y ≡ z [ZMOD 2 ^ (8 * kind.width)]) : y = z := by
  unfold Holds at hy hz
  unfold Int.ModEq at same
  cases kind <;>
    simp only [isSigned, width, Bool.false_eq_true, if_true, if_false] at hy hz same <;> omega

theorem integerOf_write (h : kind.Holds z) (endian : Endian) :
    kind.integerOf (FixedWidth.ofBytes endian (FixedWidth.write kind endian z)) = z := by
  have below := FixedWidth.ofBytes_lt endian (FixedWidth.write kind endian z)
  rw [FixedWidth.length_write] at below
  refine (holds_integerOf below).unique h ((integerOf_modEq kind _).trans ?_)
  rw [FixedWidth.ofBytes_write]
  exact Int.mod_modEq z _

end NumericKind

end Untrusted
