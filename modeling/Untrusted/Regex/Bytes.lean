import Untrusted.Regex.Search

/-!
# Regular expressions over UTF-8

Matches are found in the 16-bit units of the decoded text and given as offsets into its bytes. A
match that starts or ends between the halves of a surrogate pair has no such offset and is passed
over.
-/

namespace Untrusted.Regex

def byteCount (text : Array Nat) (start stop : Nat) : Nat :=
  Utf8.unitsByteLength (text.extract start stop).toList

/-- Whether a position falls between the halves of a surrogate pair. -/
def splitsPair (text : Array Nat) (i : Nat) : Bool :=
  match text[i - 1]?, text[i]? with
  | some high, some low => 0 < i && Utf8.isHighSurrogate high && Utf8.isLowSurrogate low
  | _, _ => false

/-- The first match at or after `i` that cuts no surrogate pair. -/
def wholeMatch? (r : Regex) (text : Array Nat) : Nat → Nat → Option (Nat × Nat)
  | 0, _ => none
  | fuel + 1, i =>
    match r.search? text i with
    | none => none
    | some (start, stop) =>
      if splitsPair text start || splitsPair text stop then wholeMatch? r text fuel (start + 1)
      else some (start, stop)

/-- The offset and the byte length of the first match in bytes, faults of which are repaired. -/
def find? (r : Regex) (bytes : List UInt8) : Option (Nat × Nat) :=
  let text := (Utf8.units (Utf8.repaired bytes)).toArray
  (r.wholeMatch? text (text.size + 1) 0).map fun (start, stop) =>
    (byteCount text 0 start, byteCount text start stop)

/-- Where a chain of matches, each starting where the last one ended, is broken; `none` if it
reaches the end. -/
def chainEnd? (r : Regex) (text : Array Nat) : Nat → Nat → Option Nat
  | 0, _ => none
  | fuel + 1, i =>
    if text.size ≤ i then none
    else
      match r.matchAt? text i with
      | some stop =>
        if stop = i ∨ splitsPair text stop then some i else chainEnd? r text fuel stop
      | none => some i

/-- The byte length of the chain of matches that bytes start with, unless it is all of them. -/
def reject? (r : Regex) (bytes : List UInt8) : Option Nat :=
  let text := (Utf8.units (Utf8.repaired bytes)).toArray
  (r.chainEnd? text (text.size + 1) 0).map (byteCount text 0)

end Untrusted.Regex
