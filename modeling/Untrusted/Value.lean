import Untrusted.Failure
import Untrusted.FixedWidth

/-!
# Values

What reading yields: tokens and numbers, parts of the input, and what callers make of them.
-/

namespace Untrusted

inductive Value where
  /-- No value: what an optional read yields when there is nothing to read. -/
  | absent
  | null
  | bool (b : Bool)
  | number (n : Number)
  | wide (i : Int)
  | float (bits : Nat)
  | text (s : String)
  | array (bytes : List UInt8)
  | view (v : View)
  | span (s : Span)
  | retry (r : Retry)
  | list (values : List Value)
  | record (fields : List (String × Value))
  deriving Inhabited

namespace Value

def ofToken : Token → Value
  | .byte b => .number b.toNat
  | .char c => .text (String.singleton c)

def ofReading : Reading → Value
  | .int i => .number (.ofInt i)
  | .wide i => .wide i
  | .float bits => .float bits

def ofOption {α : Type} (f : α → Value) : Option α → Value
  | some a => f a
  | none => .absent

/-- What a result counts as where only a value is asked for. -/
def orAbsent : Except Failure Value → Value
  | .ok a => a
  | .error _ => .absent

def isAbsent : Value → Bool
  | .absent => true
  | _ => false

/-- Whether a value is absent or null. -/
def isNothing : Value → Bool
  | .absent => true
  | .null => true
  | _ => false

/-- Whether a value confirms what was asked: any value but absence and `false`. -/
def confirms : Value → Bool
  | .absent => false
  | .bool b => b
  | _ => true

mutual

/-- A value in plain text: a list as its items with commas between, which are empty for no value. -/
def plainText : Value → String
  | .absent => "undefined"
  | .null => "null"
  | .bool b => if b then "true" else "false"
  | .number n => n.text
  | .wide i => toString i
  | .float bits => (Number.ofBits bits).text
  | .text s => s
  | .array bytes => ",".intercalate (bytes.map fun b => toString b.toNat)
  | .view v => v.plainText
  | .span s => s.text
  | .retry r => r.text
  | .list values => itemsText values
  | .record _ => "[object Object]"

def itemsText : List Value → String
  | [] => ""
  | v :: rest =>
    let item := if v.isNothing then "" else plainText v
    if rest.isEmpty then item else item ++ "," ++ itemsText rest

end

/-- The length that a value gives. Only numbers give one. -/
def toNumber : Value → Number
  | .number n => n
  | .wide i => .round i
  | .float bits => .ofBits bits
  | _ => .nan

end Value
end Untrusted
