import Untrusted.Utf8

/-!
# Text as UTF-16 units

Text that reaches the library as 16-bit units, in which a surrogate may stand alone. Encoding puts
U+FFFD for a lone surrogate, which takes as many bytes as the surrogate is counted for.
-/

namespace Untrusted.Utf8

def isHighSurrogate (u : Nat) : Bool := 0xd800 ≤ u && u ≤ 0xdbff

def isLowSurrogate (u : Nat) : Bool := 0xdc00 ≤ u && u ≤ 0xdfff

def isSurrogate (u : Nat) : Bool := 0xd800 ≤ u && u ≤ 0xdfff

def pairCodePoint (high low : Nat) : Nat := 0x10000 + (high - 0xd800) * 0x400 + (low - 0xdc00)

/-- The code points of 16-bit units; a lone surrogate stands for itself. -/
def codePoints : List Nat → List Nat
  | [] => []
  | [u] => [u]
  | u :: v :: rest =>
    if isHighSurrogate u && isLowSurrogate v then pairCodePoint u v :: codePoints rest
    else u :: codePoints (v :: rest)

def charUnits (c : Char) : List Nat :=
  if c.toNat < 0x10000 then [c.toNat]
  else [0xd800 + (c.toNat - 0x10000) / 0x400, 0xdc00 + (c.toNat - 0x10000) % 0x400]

def units (chars : List Char) : List Nat := chars.flatMap charUnits

/-- The char that a code point is encoded as. -/
def scalar (codePoint : Nat) : Char :=
  if isSurrogate codePoint then '\uFFFD' else Char.ofNat codePoint

def encodeUnits (us : List Nat) : List UInt8 := encode ((codePoints us).map scalar)

/-- The number of bytes that units take, counted without encoding them. -/
def unitsByteLength (us : List Nat) : Nat :=
  (codePoints us).foldr (fun c n => encodedLength c + n) 0

/-- Whether a cut after `i` units falls between the two halves of a surrogate pair. -/
def splitsPair (us : List Nat) (i : Nat) : Bool :=
  0 < i && i < us.length && isHighSurrogate (us.getD (i - 1) 0) && isLowSurrogate (us.getD i 0)

end Untrusted.Utf8
