import Untrusted.Json.Parse
import Untrusted.Json.Print

/-!
# Block mappings

A text of lines, each of them a name and a plain scalar, nested by indentation. A scalar is null, a
boolean, a number or text, and a name is the text of its scalar. A text may instead be JSON in which
no object repeats a name. Values nested too deep are refused.
-/

namespace Untrusted.Settings.Block

/-! ## Scalars -/

def valueIn? (base : Nat) (digits : List Char) : Option Nat :=
  if digits.isEmpty then none
  else digits.foldlM (fun n c => (Text.hexValue? c).bind fun d =>
    if d < base then some (n * base + d) else none) 0

/-- A whole number, in a base that its first two characters can name. -/
def whole? (s : List Char) : Option Nat :=
  match s with
  | '0' :: 'b' :: digits => valueIn? 2 digits
  | '0' :: 'o' :: digits => valueIn? 8 digits
  | '0' :: 'x' :: digits => valueIn? 16 digits
  | digits => valueIn? 10 digits

/-- A number with a point or an exponent. It may start with its point unless it has a sign. -/
def decimal? (signed negative : Bool) (s : List Char) : Option Number :=
  let (whole, rest) := Json.digits s
  let (fraction, rest) :=
    match rest with
    | '.' :: r => Json.digits r
    | r => ([], r)
  if whole.isEmpty && (signed || fraction.isEmpty) then none
  else
    match Json.exponent? rest with
    | some (exponent, []) =>
      let digits := Json.digitsValue (whole ++ fraction)
      some (.ofDecimal negative digits (exponent - (fraction.length : Int)))
    | _ => none

def word? (signed negative : Bool) (s : List Char) : Option Number :=
  let text := String.ofList s
  if [".inf", ".Inf", ".INF"].contains text then some (.infinite negative)
  else if !signed && [".nan", ".NaN", ".NAN"].contains text then some .nan
  else none

/-- The number that a scalar writes. Digits that write one too great are none. -/
def number? (s : List Char) : Option Number :=
  let (signed, negative, s) : Bool × Bool × List Char :=
    match s with
    | '-' :: r => (true, true, r)
    | '+' :: r => (true, false, r)
    | r => (false, false, r)
  let found :=
    match whole? s with
    | some n => some (Number.round (if negative then -(n : Rat) else n))
    | none => decimal? signed negative s
  (found.filter Number.isFinite).or (word? signed negative s)

def isBlank (c : Char) : Bool := c == ' ' || c == '\t'

def isHidden (c : Char) : Bool :=
  let n := c.toNat
  (n < 0x20 && c != '\t') || (0x7f ≤ n && n ≤ 0x9f && n != 0x85) || n == 0xfffe || n == 0xffff

/-- Whether text can stand without quotes. Some characters mean something else at its start. -/
def isPlain (s : List Char) : Bool :=
  !s.any isHidden &&
    match s with
    | [] => true
    | c :: rest =>
      if c = '-' ∨ c = '?' then rest.head?.any fun d => !isBlank d
      else !(",[]\x7b\x7d#&*!|>'\"%@\x60".toList.contains c)

/-- What plain text stands for. -/
def plain (s : List Char) : Json :=
  let text := String.ofList s
  if ["", "~", "null", "Null", "NULL"].contains text then .null
  else if ["true", "True", "TRUE"].contains text then .bool true
  else if ["false", "False", "FALSE"].contains text then .bool false
  else
    match number? s with
    | some n => .number n
    | none => .string text

/-! ## Lines -/

def lines : List Char → List (List Char)
  | [] => [[]]
  | '\r' :: '\n' :: rest => [] :: lines rest
  | c :: rest =>
    if c = '\n' ∨ c = '\r' then [] :: lines rest
    else
      match lines rest with
      | line :: later => (c :: line) :: later
      | [] => [[c]]

def trimmed (s : List Char) : List Char :=
  ((s.dropWhile isBlank).reverse.dropWhile isBlank).reverse

/-- The text before a comment, which starts a line or follows a blank. -/
def withoutComment : List Char → List Char
  | [] => []
  | c :: '#' :: rest => if isBlank c then [] else c :: withoutComment ('#' :: rest)
  | c :: rest => c :: withoutComment rest

def filledLines (s : List Char) : List (List Char) :=
  ((lines s).map withoutComment).filter fun line =>
    trimmed line ≠ [] ∧ (trimmed line).head? ≠ some '#'

/-- The parts before and after the first colon that a blank or the end follows. -/
def splitColon? : List Char → Option (List Char × List Char)
  | [] => none
  | [':'] => some ([], [])
  | c :: d :: rest =>
    if c = ':' ∧ isBlank d then some ([], rest)
    else (splitColon? (d :: rest)).map fun (name, value) => (c :: name, value)
  | [_] => none

/-- A line of a block mapping: its indentation, its name, and the scalar after the name. -/
structure Line where
  indent : Nat
  name : String
  scalar : List Char

def line? (s : List Char) : Option Line :=
  let indent := (s.takeWhile (· == ' ')).length
  (splitColon? (trimmed s)).bind fun (name, scalar) =>
    let name := trimmed name
    if name = [] ∨ !isPlain name ∨ (s.drop indent).head?.any isBlank then none
    else
      let text :=
        match plain name with
        | .string t => t
        | .number n => n.text
        | j => j.text
      some ⟨indent, text, trimmed scalar⟩

/-! ## Mappings -/

def dialect : Json.Dialect := ⟨false, true⟩

/-- Whether text is JSON and no plain text. -/
def isQuoted (s : List Char) : Bool := s.head?.any fun c => "\x7b[\"".toList.contains c

def scalar? (s : List Char) : Option Json :=
  if isQuoted s then Json.parse? dialect (String.ofList s)
  else if isPlain s ∧ (splitColon? s).isNone then some (plain s)
  else none

/-- Under this name, a mapping takes over what it has no names for itself. -/
def mergeName : String := "<<"

/-- The fields of one mapping and those that it has taken over. -/
structure Mapping where
  own : Fields
  taken : Fields

def Mapping.fields (m : Mapping) : Fields :=
  m.own ++ m.taken.filter fun (name, _) => (m.own.get? name).isNone

/-- Adds a field. A name occurs once, and only a mapping can be taken over. -/
def Mapping.add? (m : Mapping) (name : String) (value : Json) : Option Mapping :=
  if name = mergeName then
    match value with
    | .object fields =>
      some { m with taken := m.taken ++ fields.filter fun (n, _) => (m.taken.get? n).isNone }
    | _ => none
  else if (m.own.get? name).isSome then none
  else some { m with own := m.own.put name value }

/-- The fields of a mapping whose lines have one indentation, and the lines after it. -/
def mapping? : Nat → Nat → Mapping → List Line → Option (Fields × List Line)
  | 0, _, _, _ => none
  | _ + 1, _, m, [] => some (m.fields, [])
  | fuel + 1, indent, m, line :: rest =>
    if line.indent < indent then some (m.fields, line :: rest)
    else if indent < line.indent then none
    else
      let nested : Option (Json × List Line) :=
        match line.scalar, rest with
        | [], next :: _ =>
          if indent < next.indent then
            (mapping? fuel next.indent ⟨[], []⟩ rest).map fun (fields, rest) =>
              (Json.object fields, rest)
          else some (.null, rest)
        | scalar, _ => (scalar? scalar).map fun value => (value, rest)
      nested.bind fun (value, rest) =>
        (m.add? line.name value).bind fun m => mapping? fuel indent m rest

def ofLines? (ls : List (List Char)) : Option Json :=
  (ls.mapM line?).bind fun found =>
    match found with
    | [] => none
    | first :: _ =>
      match mapping? (found.length + 1) first.indent ⟨[], []⟩ found with
      | some (fields, []) => some (.object fields)
      | _ => none

/-! ## Texts -/

def depthLimit : Nat := 100

/-- The value of a text after its mark for the byte order; `some none` if it holds nothing. -/
def content? (s : List Char) : Option (Option Json) :=
  match filledLines s with
  | [] => some none
  | first :: rest =>
    let start := trimmed first
    if isQuoted start then (Json.parse? dialect (String.ofList s)).map some
    else if start.head? = some '-' ∧ !isPlain start then some (some (.array []))
    else if (first :: rest).all fun l => (splitColon? (trimmed l)).isNone then
      if isPlain start then
        some (some (if rest.isEmpty then plain start else .string (String.ofList start)))
      else none
    else (ofLines? (first :: rest)).map some

def parse? (text : String) : Option (Option Json) :=
  let s :=
    match text.toList with
    | '\uFEFF' :: rest => rest
    | s => s
  (content? s).filter fun found => found.all fun j => j.depth ≤ depthLimit

end Untrusted.Settings.Block
