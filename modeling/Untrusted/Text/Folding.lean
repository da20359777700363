import Untrusted.Text.Lowercase

/-!
# Letters without case

Letters that a comparison without case takes for one. They have the same small letter, but some
small letters are written in more than one way.
-/

namespace Untrusted.Text.Folding

/-- Small letters written in another way, with the usual one. -/
def secondForms : List (Nat × Nat) :=
  [(0xb5, 0x3bc), (0x17f, 0x73), (0x345, 0x3b9), (0x3c2, 0x3c3), (0x3d0, 0x3b2), (0x3d1, 0x3b8),
    (0x3d5, 0x3c6), (0x3d6, 0x3c0), (0x3f0, 0x3ba), (0x3f1, 0x3c1), (0x3f5, 0x3b5),
    (0x1c80, 0x432), (0x1c81, 0x434), (0x1c82, 0x43e), (0x1c83, 0x441), (0x1c84, 0x442),
    (0x1c85, 0x442), (0x1c86, 0x44a), (0x1c87, 0x463), (0x1c88, 0xa64b), (0x1e9b, 0x1e61),
    (0x1fbe, 0x3b9), (0x1fd3, 0x390), (0x1fe3, 0x3b0), (0xfb05, 0xfb06)]

/-- The usual small letter of a letter. -/
def point (c : Nat) : Nat := (secondForms.lookup c).getD (Lowercase.point c)

/-- Letters that are the same as no other over units: those whose capital takes more than one unit
or leads to an ASCII letter, and signs that are capitals in a form of their own. -/
def isLone (c : Nat) : Bool :=
  (0x1f80 ≤ c && c ≤ 0x1faf) ||
    [0x17f, 0x3f4, 0x1e9e, 0x1fbc, 0x1fcc, 0x1fd3, 0x1fe3, 0x1ffc, 0x2126, 0x212a, 0x212b,
      0xfb05].contains c

/-- The letters whose usual small letter is `c`, and `c`. -/
def letters (c : Nat) : List Nat :=
  let capitals := Lowercase.ranges.filterMap fun (first, last, step, distance) =>
    let capital := ((c : Int) - distance).toNat
    if first ≤ capital ∧ capital ≤ last ∧ (capital - first) % step = 0 then some capital else none
  c :: capitals ++ (secondForms.filter (·.2 == c)).map Prod.fst

end Untrusted.Text.Folding
