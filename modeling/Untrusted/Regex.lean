import Untrusted.Text.Folding
import Untrusted.Utf8.Units

/-!
# Regular expressions

The syntax of a regular expression and what its single-character parts accept. An expression runs
over code points if its source compiles that way, and over 16-bit units if it does not.
-/

namespace Untrusted

inductive ClassItem where
  | range (lo hi : Nat)
  | digit (negated : Bool)
  | word (negated : Bool)
  | space (negated : Bool)
  deriving DecidableEq, Repr

inductive Regex.Node where
  | empty
  | char (c : Nat)
  /-- Any character, or any but a line end. -/
  | any
  | oneOf (negated : Bool) (items : List ClassItem)
  | seq (first second : Regex.Node)
  | alt (first second : Regex.Node)
  | group (index : Nat) (body : Regex.Node)
  /-- What the group of that index matched. -/
  | backreference (index : Nat)
  | repetition (body : Regex.Node) (least : Nat) (most : Option Nat) (greedy : Bool)
  | lineStart
  | lineEnd
  | wordBoundary (negated : Bool)
  | lookahead (negated : Bool) (body : Regex.Node)
  | lookbehind (negated : Bool) (body : Regex.Node)
  deriving DecidableEq, Repr

namespace Regex

structure Flags where
  ignoreCase : Bool
  multiline : Bool
  dotAll : Bool
  unicode : Bool
  deriving DecidableEq, Repr

end Regex

structure Regex where
  node : Regex.Node
  flags : Regex.Flags
  deriving DecidableEq, Repr

namespace Regex

def isLineEnd (c : Nat) : Bool := [0x0a, 0x0d, 0x2028, 0x2029].contains c

def isDigit (c : Nat) : Bool := 0x30 ≤ c && c ≤ 0x39

def isUpper (c : Nat) : Bool := 0x41 ≤ c && c ≤ 0x5a

def isLower (c : Nat) : Bool := 0x61 ≤ c && c ≤ 0x7a

def isWord (c : Nat) : Bool := isDigit c || isUpper c || isLower c || c == 0x5f

def isSpace (c : Nat) : Bool :=
  [0x09, 0x0a, 0x0b, 0x0c, 0x0d, 0x20, 0xa0, 0x1680, 0x2028, 0x2029, 0x202f, 0x205f, 0x3000,
    0xfeff].contains c || (0x2000 ≤ c && c ≤ 0x200a)

namespace Flags

/-- What is compared of a character. -/
def canonical (f : Flags) (c : Nat) : Nat :=
  if f.ignoreCase && (f.unicode || !Text.Folding.isLone c) then Text.Folding.point c else c

def sameChar (f : Flags) (a b : Nat) : Bool := f.canonical a == f.canonical b

/-- The characters that are the same as `c`. -/
def variants (f : Flags) (c : Nat) : List Nat :=
  if f.ignoreCase then (Text.Folding.letters (f.canonical c)).filter (f.sameChar c) else [c]

def isWordChar (f : Flags) (c : Nat) : Bool := (f.variants c).any isWord

end Flags

def Flags.itemHolds (f : Flags) (c : Nat) : ClassItem → Bool
  | .range lo hi => lo ≤ c && c ≤ hi
  | .digit negated => isDigit c != negated
  | .word negated => f.isWordChar c != negated
  | .space negated => isSpace c != negated

def Flags.classHolds (f : Flags) (items : List ClassItem) (c : Nat) : Bool :=
  (f.variants c).any fun v => items.any (f.itemHolds v)

def Node.groups : Node → List Nat
  | .group index body => index :: body.groups
  | .seq a b => a.groups ++ b.groups
  | .alt a b => a.groups ++ b.groups
  | .repetition body _ _ _ => body.groups
  | .lookahead _ body => body.groups
  | .lookbehind _ body => body.groups
  | _ => []

end Regex
end Untrusted
