/-!
# Hexadecimal text
-/

namespace Untrusted.Text

def hexDigit (n : Nat) : Char := "0123456789abcdef".toList.getD n '0'

def hexValue? (c : Char) : Option Nat :=
  if c.isDigit then some (c.toNat - 48)
  else if 'a' ≤ c ∧ c ≤ 'f' then some (c.toNat - 87)
  else if 'A' ≤ c ∧ c ≤ 'F' then some (c.toNat - 55)
  else none

def hex (b : UInt8) : List Char := [hexDigit (b.toNat / 16), hexDigit (b.toNat % 16)]

def hexOfBytes (bytes : List UInt8) : String := String.ofList (bytes.flatMap hex)

/-- The bytes that pairs of hexadecimal digits stand for; the first pair that is none ends them. -/
def bytesOfHex : List Char → List UInt8
  | a :: b :: rest =>
    match hexValue? a, hexValue? b with
    | some high, some low => UInt8.ofNat (high * 16 + low) :: bytesOfHex rest
    | _, _ => []
  | _ => []

theorem hexValue?_hexDigit {n : Nat} (h : n < 16) : hexValue? (hexDigit n) = some n := by
  have all : ∀ d : Fin 16, hexValue? (hexDigit d.val) = some d.val := by decide +kernel
  exact all ⟨n, h⟩

/-- The digits of a number, at least `width` of them. -/
def hexOfNat (width n : Nat) : String :=
  let digits := Nat.toDigits 16 n
  String.ofList (List.replicate (width - digits.length) '0' ++ digits)

end Untrusted.Text
