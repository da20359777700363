import Untrusted.Number.Rounding
import Untrusted.Regex.Bytes

/-!
# Patterns

A pattern says what to look for, apart from how an input is cut there. It works on the bytes of an
input and answers with offsets that are token boundaries of it.
-/

namespace Untrusted

inductive Pattern where
  /-- A byte with this value; a number that is no byte occurs nowhere. -/
  | byte (value : Number)
  | literal (needle : List UInt8)
  | byteWhere (accepts : UInt8 → Bool)
  | charWhere (accepts : Char → Bool)
  | regex (r : Regex)
  /-- A pattern of the caller's own: where it finds a match, and which offset it rejects. -/
  | custom (find : List UInt8 → Option (Number × Number)) (reject : List UInt8 → Option Number)

namespace Pattern

def ofLiteral (needle : List UInt8) : Pattern :=
  match needle with
  | [b] => .byte b.toNat
  | _ => .literal needle

/-! ## Where a literal occurs -/

/-- Where a literal of the byte `first` and of `more` bytes after it first occurs, counting from
`i`. It occurs only where its first byte does, so the search goes from one such place to the
next. -/
def anchoredFrom? (first : UInt8) (more : List UInt8) (i : Nat) (bytes : List UInt8) :
    Option Nat :=
  match _h : bytes.findIdx? (· == first) with
  | none => none
  | some j =>
    if (first :: more).isPrefixOf (bytes.drop j) then some (i + j)
    else anchoredFrom? first more (i + (j + 1)) (bytes.drop (j + 1))
termination_by bytes.length
decreasing_by
  obtain ⟨inside, -⟩ := List.findIdx?_eq_some_iff_getElem.1 _h
  rw [List.length_drop]
  omega

def literal? (needle bytes : List UInt8) : Option Nat :=
  match needle with
  | [] => some 0
  | first :: more => anchoredFrom? first more 0 bytes

/-- Where a row of `needle`s is broken, counting from `i`. -/
def literalBreak? (needle : List UInt8) (i : Nat) (bytes : List UInt8) : Option Nat :=
  if _h : needle.isEmpty then some i
  else if _h' : bytes.isEmpty then none
  else if needle.isPrefixOf bytes then
    literalBreak? needle (i + needle.length) (bytes.drop needle.length)
  else some i
termination_by bytes.length
decreasing_by
  have needed : 0 < needle.length := List.length_pos_iff.2 (by simpa using _h)
  have left : 0 < bytes.length := List.length_pos_iff.2 (by simpa using _h')
  rw [List.length_drop]
  omega

/-! ## Both questions -/

def isByte (value : Number) (b : UInt8) : Bool := value.toNat? == some b.toNat

/-- The offset and the length of the first match. -/
def find? : Pattern → List UInt8 → Option (Number × Number)
  | .byte value, bytes => (bytes.findIdx? (isByte value)).map fun i => (i, 1)
  | .literal needle, bytes => (literal? needle bytes).map fun i => (i, needle.length)
  | .byteWhere accepts, bytes => (bytes.findIdx? accepts).map fun i => (i, 1)
  | .charWhere accepts, bytes =>
    match Utf8.scanTo accepts 0 bytes with
    | (i, some (.ok (_, n))) => some (i, n)
    | _ => none
  | .regex r, bytes => (r.find? bytes).map fun (i, n) => (i, n)
  | .custom find _, bytes => find bytes

/-- The offset of the first token that the pattern rejects. -/
def reject? : Pattern → List UInt8 → Option Number
  | .byte value, bytes => (bytes.findIdx? fun b => !isByte value b).map Number.ofNat
  | .literal needle, bytes => (literalBreak? needle 0 bytes).map Number.ofNat
  | .byteWhere accepts, bytes => (bytes.findIdx? fun b => !accepts b).map Number.ofNat
  | .charWhere accepts, bytes =>
    match Utf8.scanTo (fun c => !accepts c) 0 bytes with
    | (i, some _) => some i
    | (_, none) => none
  | .regex r, bytes => (r.reject? bytes).map Number.ofNat
  | .custom _ reject, bytes => reject bytes

end Pattern
end Untrusted
