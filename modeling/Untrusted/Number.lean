/-!
# Numbers that callers give

Lengths, byte indices, read counts and settings reach the library as numbers that need not be
lengths at all: they may be negative, fractional, infinite, or not a number. Finite values are
exact here; `Number.Rounding` says how arithmetic rounds them.
-/

namespace Untrusted

inductive Number where
  /-- The result of an operation that has no value. It is below, above and equal to nothing. -/
  | nan
  | infinite (negative : Bool)
  | finite (value : Rat)
  deriving DecidableEq, Repr, Inhabited

namespace Number

def ofInt (i : Int) : Number := .finite i

def ofNat (n : Nat) : Number := .finite n

instance (n : Nat) : OfNat Number n := ⟨ofNat n⟩

instance : Coe Nat Number := ⟨ofNat⟩

/-- The length that a number stands for, if it stands for one. -/
def toNat? : Number → Option Nat
  | .finite q => if q.den = 1 ∧ 0 ≤ q.num then some q.num.toNat else none
  | _ => none

theorem toNat?_ofNat (n : Nat) : toNat? (ofNat n) = some n := by
  simp [toNat?, ofNat]

def isFinite : Number → Bool
  | .finite _ => true
  | _ => false

/-! ## Order -/

def le : Number → Number → Bool
  | .nan, _ => false
  | _, .nan => false
  | .infinite true, _ => true
  | _, .infinite false => true
  | .finite a, .finite b => decide (a ≤ b)
  | _, _ => false

def lt (a b : Number) : Bool := le a b && a != b

/-- Equality of values, which `nan` does not have. -/
def same (a b : Number) : Bool := a != .nan && a == b

def least (a b : Number) : Number :=
  if a = .nan ∨ b = .nan then .nan else if le a b then a else b

def greatest (a b : Number) : Number :=
  if a = .nan ∨ b = .nan then .nan else if le a b then b else a

theorem le_finite (a b : Rat) : le (.finite a) (.finite b) = decide (a ≤ b) := rfl

theorem le_ofNat (m n : Nat) : le (ofNat m) (ofNat n) = decide (m ≤ n) :=
  decide_eq_decide.2 Rat.natCast_le_natCast

theorem least_ofNat (m n : Nat) : least (ofNat m) (ofNat n) = ofNat (min m n) := by
  have whole : ¬ (ofNat m = .nan ∨ ofNat n = .nan) := by simp [ofNat]
  rw [least, if_neg whole, le_ofNat]
  by_cases h : m ≤ n
  · rw [if_pos (decide_eq_true h), Nat.min_eq_left h]
  · rw [if_neg (by simpa using h), Nat.min_eq_right (Nat.le_of_not_le h)]

theorem greatest_ofNat (m n : Nat) : greatest (ofNat m) (ofNat n) = ofNat (max m n) := by
  have whole : ¬ (ofNat m = .nan ∨ ofNat n = .nan) := by simp [ofNat]
  rw [greatest, if_neg whole, le_ofNat]
  by_cases h : m ≤ n
  · rw [if_pos (decide_eq_true h), Nat.max_eq_right h]
  · rw [if_neg (by simpa using h), Nat.max_eq_left (Nat.le_of_not_le h)]

/-! ## Integers near a number -/

def floor : Number → Number
  | .finite q => ofInt q.floor
  | n => n

/-- The integer between a rational number and zero that is nearest to it. -/
def towardZero (q : Rat) : Int := if 0 ≤ q then q.floor else -(-q).floor

/-- How many whole numbers are less than a finite number. -/
def countBelow : Number → Nat
  | .finite q => q.ceil.toNat
  | _ => 0

/-- The byte that a number is stored as: its integer part modulo 256, and zero for what has none. -/
def toByte : Number → UInt8
  | .finite q => UInt8.ofNat (towardZero q % 256).toNat
  | _ => 0

/-- A number as a position in a sequence of `size` places: a negative one counts from the end, a
fraction is dropped, and everything ends inside the sequence. -/
def toIndex (size : Nat) : Number → Nat
  | .nan => 0
  | .infinite true => 0
  | .infinite false => size
  | .finite q =>
    let i := towardZero q
    if i < 0 then (size + i).toNat else min i.toNat size

end Number
end Untrusted
