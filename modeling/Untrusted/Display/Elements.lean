import Untrusted.Text.Hex
import Untrusted.Utf8.Units

/-!
# Elements

An input is shown as a row of elements, one for each byte, or one for each char where it is shown as
text. An element knows which bytes it shows.
-/

namespace Untrusted.Display

structure Element where
  text : List Char
  /-- The bytes shown, counted from the start of the input. -/
  start : Nat
  stop : Nat
  deriving DecidableEq, Repr

/-- A char inside double quotes, on one line. -/
def escape (c : Char) : List Char :=
  if c = '\n' then ['\\', 'n']
  else if c = '\r' then ['\\', 'r']
  else if c = '\t' then ['\\', 't']
  else if c = '"' then ['\\', '"']
  else if c = '\\' then ['\\', '\\']
  else if c.toNat < 0x20 ∨ c.toNat = 0x7f then
    ['\\', 'u', '\x7b'] ++ Nat.toDigits 16 c.toNat ++ ['\x7d']
  else [c]

/-- A byte, as the char it is if that is asked for and can be seen. -/
def byteText (quoteAscii : Bool) (b : UInt8) : List Char :=
  if quoteAscii && 0x20 < b && b < 0x7f then ['\'', Char.ofNat b.toNat, '\''] else Text.hex b

def byteElements (quoteAscii : Bool) (bytes : List UInt8) : List Element :=
  bytes.mapIdx fun i b => ⟨byteText quoteAscii b, i, i + 1⟩

def charElementsFrom : Nat → List (Char × Nat) → List Element
  | _, [] => []
  | start, (c, n) :: rest =>
    ⟨escape c, start, start + n⟩ :: charElementsFrom (start + n) rest

def charElements (bytes : List UInt8) : List Element := charElementsFrom 0 (Utf8.scan bytes).1

/-- The elements of an input, and whether they are chars: those of text are, and with `hint` those
of bytes that are valid UTF-8 too. -/
def elements (isText hint : Bool) (bytes : List UInt8) : List Element × Bool :=
  if isText || (hint && Utf8.isValid bytes) then (charElements bytes, true)
  else (byteElements hint bytes, false)

end Untrusted.Display
