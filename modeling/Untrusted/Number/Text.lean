import Untrusted.Number.Rounding

/-!
# Numbers as text

A number is written with the fewest digits that read back as it, and of those with the digits
nearest to it. It is positional from 1e-6 up to 1e21 and scientific outside.
-/

namespace Untrusted.Number

/-- The least `k` from `k` on with `d ≤ n * 10 ^ k`, at most `fuel` steps on. -/
def decimalShift (n d : Nat) : Nat → Nat → Nat
  | 0, k => k
  | fuel + 1, k => if d ≤ n * Nat.pow 10 k then k else decimalShift n d fuel (k + 1)

/-- The `p` with `10 ^ (p - 1) ≤ n / d < 10 ^ p`, for positive `n` and `d`. -/
def decimalExponent (n d : Nat) : Int :=
  if d ≤ n then ((Nat.toDigits 10 (n / d)).length : Int)
  else 1 - (decimalShift n d 400 1 : Int)

def scaleTen (q : Rat) (k : Int) : Rat :=
  if 0 ≤ k then q * (Nat.pow 10 k.toNat : Nat) else q / (Nat.pow 10 (-k).toNat : Nat)

/-- A digit string whose value, read with `places` of its digits after the point, rounds to `q`:
one of the two neighbours of `q` with that many places. -/
def neighbour? (q : Rat) (places : Int) : Option Nat :=
  let below := (scaleTen q places).floor.toNat
  let reads (s : Nat) : Bool := round (scaleTen (s : Rat) (-places)) == .finite q
  match reads below, reads (below + 1) with
  | true, true =>
    let scaled := scaleTen q places
    if scaled - below ≤ (below + 1 : Nat) - scaled then some below else some (below + 1)
  | true, false => some below
  | false, true => some (below + 1)
  | false, false => none

/-- The fewest digits that read back as the positive number `q`, and where their point stands. -/
def shortest (q : Rat) : List Char × Int :=
  let p := decimalExponent q.num.natAbs q.den
  let found := (List.range 17).findSome? fun k =>
    (neighbour? q ((k + 1 : Nat) - p)).map fun s => (s, k + 1)
  match found with
  | some (s, k) =>
    let digits := Nat.toDigits 10 s
    ((digits.reverse.dropWhile (· == '0')).reverse, p + (digits.length : Int) - (k : Int))
  | none => (['0'], 1)

def layout (digits : List Char) (point : Int) : String :=
  let count : Int := digits.length
  if count ≤ point ∧ point ≤ 21 then
    String.ofList (digits ++ List.replicate (point - count).toNat '0')
  else if 0 < point ∧ point ≤ 21 then
    String.ofList (digits.take point.toNat ++ '.' :: digits.drop point.toNat)
  else if -6 < point ∧ point ≤ 0 then
    String.ofList ('0' :: '.' :: List.replicate (-point).toNat '0' ++ digits)
  else
    let exponent := point - 1
    let sign := if exponent < 0 then "-" else "+"
    let significand :=
      match digits with
      | [d] => [d]
      | d :: rest => d :: '.' :: rest
      | [] => []
    String.ofList significand ++ "e" ++ sign ++ toString exponent.natAbs

def text : Number → String
  | .nan => "NaN"
  | .infinite negative => if negative then "-Infinity" else "Infinity"
  | .finite q =>
    if q.den = 1 ∧ q.num.natAbs ≤ wholeLimit then toString q.num
    else
      let (digits, point) := shortest (if q < 0 then -q else q)
      (if q < 0 then "-" else "") ++ layout digits point

end Untrusted.Number
