import Untrusted.Json
import Untrusted.Text.Hex
import Untrusted.Utf8.Units

/-!
# Reading JSON

Reads exactly the values that the format allows. Numbers are rounded to binary64, and an escaped
surrogate that stands alone is replaced as it is when text is encoded. A dialect can be stricter
about names, and can take a number beyond the greatest one as text.
-/

namespace Untrusted.Json

structure Dialect where
  /-- Whether an object may repeat a name, of which the last counts. -/
  repeats : Bool
  /-- Whether a number that is too great to be one is text. -/
  textual : Bool

def Dialect.strict : Dialect := ⟨true, false⟩

def skipBlank (s : List Char) : List Char :=
  s.dropWhile fun c => c == ' ' || c == '\t' || c == '\n' || c == '\r'

def digits (s : List Char) : List Char × List Char :=
  (s.takeWhile Char.isDigit, s.dropWhile Char.isDigit)

def digitsValue (ds : List Char) : Nat := ds.foldl (fun n d => n * 10 + (d.toNat - 48)) 0

/-! ## Numbers -/

/-- The digits of a whole part, which has no leading zero unless it is zero. -/
def whole? (s : List Char) : Option (List Char × List Char) :=
  match digits s with
  | ([], _) => none
  | ('0' :: _ :: _, _) => none
  | found => some found

def fraction? (s : List Char) : Option (List Char × List Char) :=
  match s with
  | '.' :: rest =>
    match digits rest with
    | ([], _) => none
    | found => some found
  | _ => some ([], s)

def exponent? (s : List Char) : Option (Int × List Char) :=
  match s with
  | c :: rest =>
    if c = 'e' ∨ c = 'E' then
      let (negative, rest) :=
        match rest with
        | '-' :: r => (true, r)
        | '+' :: r => (false, r)
        | r => (false, r)
      match digits rest with
      | ([], _) => none
      | (ds, r) => some (if negative then -(digitsValue ds : Int) else (digitsValue ds : Int), r)
    else some (0, s)
  | [] => some (0, s)

def number? (s : List Char) : Option (Number × List Char) :=
  let (negative, s) :=
    match s with
    | '-' :: r => (true, r)
    | r => (false, r)
  (whole? s).bind fun (whole, s) =>
    (fraction? s).bind fun (fraction, s) =>
      (exponent? s).map fun (exponent, s) =>
        (.ofDecimal negative (digitsValue (whole ++ fraction)) (exponent - fraction.length), s)

/-! ## Strings -/

def unit? : List Char → Option (Nat × List Char)
  | a :: b :: c :: d :: rest => do
    let a ← Text.hexValue? a
    let b ← Text.hexValue? b
    let c ← Text.hexValue? c
    let d ← Text.hexValue? d
    pure (((a * 16 + b) * 16 + c) * 16 + d, rest)
  | _ => none

def escape? (c : Char) : Option Char :=
  match c with
  | '"' => some '"'
  | '\\' => some '\\'
  | '/' => some '/'
  | 'b' => some '\x08'
  | 'f' => some '\x0c'
  | 'n' => some '\n'
  | 'r' => some '\r'
  | 't' => some '\t'
  | _ => none

/-- The units of a string after its opening quote, and what follows its closing one. -/
def units? : Nat → List Char → Option (List Nat × List Char)
  | 0, _ => none
  | _ + 1, [] => none
  | _ + 1, '"' :: rest => some ([], rest)
  | fuel + 1, '\\' :: 'u' :: rest =>
    (unit? rest).bind fun (u, rest) => (units? fuel rest).map fun (us, r) => (u :: us, r)
  | fuel + 1, '\\' :: c :: rest =>
    (escape? c).bind fun e => (units? fuel rest).map fun (us, r) => (e.toNat :: us, r)
  | fuel + 1, c :: rest =>
    if c.toNat < 0x20 then none
    else (units? fuel rest).map fun (us, r) => (Utf8.charUnits c ++ us, r)

def string? (s : List Char) : Option (String × List Char) :=
  (units? (s.length + 1) s).map fun (us, rest) =>
    (String.ofList ((Utf8.codePoints us).map Utf8.scalar), rest)

/-! ## Values -/

def numeral? (d : Dialect) (s : List Char) : Option (Json × List Char) :=
  (number? s).map fun (n, rest) =>
    if d.textual && !n.isFinite then
      (.string (String.ofList (s.take (s.length - rest.length))), rest)
    else (.number n, rest)

def word? (word : String) (value : Json) (s : List Char) : Option (Json × List Char) :=
  let letters := word.toList
  if letters.isPrefixOf s then some (value, s.drop letters.length) else none

mutual

def value? (d : Dialect) : Nat → List Char → Option (Json × List Char)
  | 0, _ => none
  | fuel + 1, s =>
    match skipBlank s with
    | [] => none
    | '"' :: rest => (string? rest).map fun (t, r) => (.string t, r)
    | '[' :: rest =>
      match skipBlank rest with
      | ']' :: r => some (.array [], r)
      | _ => (items? d fuel rest).map fun (items, r) => (.array items, r)
    | '\x7b' :: rest =>
      match skipBlank rest with
      | '\x7d' :: r => some (.object [], r)
      | _ => (fields? d fuel [] rest).map fun (fields, r) => (.object fields, r)
    | 't' :: rest => word? "rue" (.bool true) rest
    | 'f' :: rest => word? "alse" (.bool false) rest
    | 'n' :: rest => word? "ull" .null rest
    | c :: rest => numeral? d (c :: rest)

def items? (d : Dialect) : Nat → List Char → Option (List Json × List Char)
  | 0, _ => none
  | fuel + 1, s =>
    (value? d fuel s).bind fun (first, rest) =>
      match skipBlank rest with
      | ',' :: r => (items? d fuel r).map fun (items, r) => (first :: items, r)
      | ']' :: r => some ([first], r)
      | _ => none

/-- The fields of an object up to its closing brace, after the fields `seen`. -/
def fields? (d : Dialect) : Nat → Fields → List Char → Option (Fields × List Char)
  | 0, _, _ => none
  | fuel + 1, seen, s =>
    match skipBlank s with
    | '"' :: rest =>
      (string? rest).bind fun (name, rest) =>
        match skipBlank rest with
        | ':' :: rest =>
          (value? d fuel rest).bind fun (value, rest) =>
            if !d.repeats && (Named.get? seen name).isSome then none
            else
              match skipBlank rest with
              | ',' :: r => fields? d fuel (Named.put seen name value) r
              | '\x7d' :: r => some (Named.put seen name value, r)
              | _ => none
        | _ => none
    | _ => none

end

def parse? (d : Dialect) (text : String) : Option Json :=
  let s := text.toList
  match value? d (2 * s.length + 2) s with
  | some (j, rest) => if skipBlank rest = [] then some j else none
  | none => none

end Untrusted.Json
