import Untrusted.Regex

/-!
# Reading regular expressions

An expression is read from its source over code points first. A source that is an error there, such
as an escaped character that needs no escape, is read over 16-bit units, where an escape that means
nothing stands for its character.
-/

namespace Untrusted.Regex

def ch (c : Char) : Nat := c.toNat

def hexValue? (c : Nat) : Option Nat :=
  if isDigit c then some (c - 0x30)
  else if 0x41 ≤ c ∧ c ≤ 0x46 then some (c - 0x37)
  else if 0x61 ≤ c ∧ c ≤ 0x66 then some (c - 0x57)
  else none

def hexDigits? : Nat → Nat → List Nat → Option (Nat × List Nat)
  | 0, value, s => some (value, s)
  | n + 1, value, c :: s => (hexValue? c).bind fun d => hexDigits? n (value * 16 + d) s
  | _ + 1, _, [] => none

/-- The value of a braced code point, after its opening brace. -/
def bracedCodePoint? (s : List Nat) : Option (Nat × List Nat) :=
  let digits := s.takeWhile fun c => (hexValue? c).isSome
  match s.drop digits.length with
  | c :: rest =>
    if c = ch '\x7d' ∧ digits ≠ [] then
      (hexDigits? digits.length 0 digits).bind fun (value, _) =>
        if value ≤ 0x10ffff then some (value, rest) else none
    else none
  | [] => none

def decimal? (s : List Nat) : Option (Nat × List Nat) :=
  let digits := s.takeWhile isDigit
  if digits = [] then none
  else some (digits.foldl (fun n d => n * 10 + (d - 0x30)) 0, s.drop digits.length)

def isOctalDigit (c : Nat) : Bool := 0x30 ≤ c && c ≤ 0x37

/-- The value below 256 of at most `n` octal digits, and what follows them. -/
def octal : Nat → Nat → List Nat → Nat × List Nat
  | n + 1, value, c :: s =>
    if isOctalDigit c ∧ value * 8 + (c - 0x30) < 256 then octal n (value * 8 + (c - 0x30)) s
    else (value, c :: s)
  | _, value, s => (value, s)

def isSyntaxChar (c : Nat) : Bool := "^$\\.*+?()[]\x7b\x7d|/".toList.any fun d => ch d == c

/-- What names a control character by its place in the alphabet. -/
def isControlName (unicode inClass : Bool) (c : Nat) : Bool :=
  isUpper c || isLower c || (!unicode && inClass && (isDigit c || c == ch '_'))

/-- The character that an escape stands for, after its backslash. Properties of characters are not
read. -/
def charEscape? (unicode inClass : Bool) : List Nat → Option (Nat × List Nat)
  | [] => none
  | c :: s =>
    let identity : Option (Nat × List Nat) :=
      if !unicode || isSyntaxChar c || (inClass && c == ch '-') then some (c, s) else none
    if c = ch 'n' then some (0x0a, s)
    else if c = ch 'r' then some (0x0d, s)
    else if c = ch 't' then some (0x09, s)
    else if c = ch 'v' then some (0x0b, s)
    else if c = ch 'f' then some (0x0c, s)
    else if unicode ∧ c = ch '0' then
      if s.head?.any isDigit then none else some (0, s)
    else if !unicode ∧ isOctalDigit c then some (octal 3 0 (c :: s))
    else if inClass ∧ c = ch 'b' then some (0x08, s)
    else if c = ch 'c' then
      match s with
      | [] => if unicode then none else some (ch '\\', [c])
      | d :: s' =>
        if isControlName unicode inClass d then some (d % 32, s')
        else if unicode then none else some (ch '\\', c :: s)
    else if (c = ch 'p' ∨ c = ch 'P') ∧ s.head? = some (ch '\x7b') then none
    else if c = ch 'x' then (hexDigits? 2 0 s).or identity
    else if c = ch 'u' then
      match unicode, s with
      | true, b :: s' =>
        if b = ch '\x7b' then bracedCodePoint? s'
        else
          match hexDigits? 4 0 s with
          | some (high, b1 :: b2 :: rest) =>
            if Utf8.isHighSurrogate high ∧ b1 = ch '\\' ∧ b2 = ch 'u' then
              match hexDigits? 4 0 rest with
              | some (low, rest') =>
                if Utf8.isLowSurrogate low then some (Utf8.pairCodePoint high low, rest')
                else some (high, b1 :: b2 :: rest)
              | none => some (high, b1 :: b2 :: rest)
            else some (high, b1 :: b2 :: rest)
          | other => other
      | _, _ => (hexDigits? 4 0 s).or identity
    else identity

def classEscape? : List Nat → Option (ClassItem × List Nat)
  | [] => none
  | c :: s =>
    if c = ch 'd' then some (.digit false, s)
    else if c = ch 'D' then some (.digit true, s)
    else if c = ch 'w' then some (.word false, s)
    else if c = ch 'W' then some (.word true, s)
    else if c = ch 's' then some (.space false, s)
    else if c = ch 'S' then some (.space true, s)
    else none

/-- One part of a bracketed class, before it is known to start a range. -/
def classAtom? (unicode : Bool) : List Nat → Option (ClassItem × List Nat)
  | [] => none
  | c :: s =>
    if c = ch '\\' then
      (classEscape? s).or ((charEscape? unicode true s).map fun (v, rest) => (.range v v, rest))
    else some (.range c c, s)

/-- The parts of a bracketed class up to its closing bracket. -/
def classItems? (unicode : Bool) : Nat → List Nat → Option (List ClassItem × List Nat)
  | 0, _ => none
  | fuel + 1, s =>
    match s with
    | [] => none
    | c :: s' =>
      if c = ch ']' then some ([], s')
      else
        (classAtom? unicode (c :: s')).bind fun (first, rest) =>
          let alone := (classItems? unicode fuel rest).map fun (items, r) => (first :: items, r)
          match rest with
          | d :: e :: rest' =>
            if d = ch '-' ∧ e ≠ ch ']' then
              match first, classAtom? unicode (e :: rest') with
              | .range lo _, some (.range hi _, rest'') =>
                if lo ≤ hi then
                  (classItems? unicode fuel rest'').map fun (items, r) => (.range lo hi :: items, r)
                else none
              | _, _ => if unicode then none else alone
            else alone
          | _ => alone

def quantifier? (unicode : Bool) (s : List Nat) :
    Option (Option (Nat × Option Nat) × List Nat) :=
  match s with
  | [] => some (none, s)
  | c :: s' =>
    if c = ch '*' then some (some (0, none), s')
    else if c = ch '+' then some (some (1, none), s')
    else if c = ch '?' then some (some (0, some 1), s')
    else if c = ch '\x7b' then
      let braced : Option ((Nat × Option Nat) × List Nat) :=
        (decimal? s').bind fun (least, rest) =>
          match rest with
          | d :: rest' =>
            if d = ch '\x7d' then some ((least, some least), rest')
            else if d = ch ',' then
              match decimal? rest' with
              | some (most, e :: rest'') =>
                if e = ch '\x7d' ∧ least ≤ most then some ((least, some most), rest'') else none
              | some (_, []) => none
              | none =>
                match rest' with
                | e :: rest'' => if e = ch '\x7d' then some ((least, none), rest'') else none
                | [] => none
            else none
          | [] => none
      match braced with
      | some (q, rest) => some (some q, rest)
      | none => if unicode then none else some (none, s)
    else some (none, s)

/-- A part with its quantifier, if one follows. -/
def quantified? (unicode : Bool) (node : Node) (s : List Nat) : Option (Node × List Nat) :=
  (quantifier? unicode s).map fun
    | (none, rest) => (node, rest)
    | (some (least, most), rest) =>
      match rest with
      | c :: rest' =>
        if c = ch '?' then (.repetition node least most false, rest')
        else (.repetition node least most true, rest)
      | [] => (.repetition node least most true, rest)

/-- The number of groups in a source, or in what is left of it inside a class. -/
def groupCount (inClass : Bool) : List Nat → Nat
  | [] => 0
  | [_] => 0
  | c :: d :: s =>
    if c = ch '\\' then groupCount inClass s
    else if inClass then groupCount (c ≠ ch ']') (d :: s)
    else if c = ch '(' ∧ d ≠ ch '?' then 1 + groupCount false (d :: s)
    else groupCount (c = ch '[') (d :: s)

/-- An escape outside a class, after its backslash, in a source with `total` groups. -/
def escaped? (unicode : Bool) (total : Nat) (s : List Nat) : Option (Node × List Nat) :=
  match s with
  | [] => none
  | c :: s' =>
    if c = ch 'b' then some (.wordBoundary false, s')
    else if c = ch 'B' then some (.wordBoundary true, s')
    else
      let char := (charEscape? unicode false s).bind fun (v, rest) =>
        quantified? unicode (.char v) rest
      match classEscape? s, decimal? s with
      | some (item, rest), _ => quantified? unicode (.oneOf false [item]) rest
      | none, some (index, rest) =>
        if c ≠ ch '0' ∧ index ≤ total then quantified? unicode (.backreference index) rest
        else char
      | none, none => char

/-- The text that `mark` stands for is what a source goes on with. -/
def after? (mark : String) (s : List Nat) : Option (List Nat) :=
  let codes := mark.toList.map ch
  if codes.isPrefixOf s then some (s.drop codes.length) else none

mutual

/-- Alternatives up to a closing parenthesis or the end, in a source with `total` groups. The count
is that of the groups opened. -/
def alternatives? (unicode : Bool) (total : Nat) :
    Nat → Nat → List Nat → Option (Node × Nat × List Nat)
  | 0, _, _ => none
  | fuel + 1, groups, s =>
    (terms? unicode total fuel groups s).bind fun (first, groups', rest) =>
      match rest with
      | c :: rest' =>
        if c = ch '|' then
          (alternatives? unicode total fuel groups' rest').map fun (second, r) =>
            (.alt first second, r)
        else some (first, groups', rest)
      | [] => some (first, groups', rest)

def terms? (unicode : Bool) (total : Nat) : Nat → Nat → List Nat → Option (Node × Nat × List Nat)
  | 0, _, _ => none
  | fuel + 1, groups, s =>
    match s with
    | [] => some (.empty, groups, s)
    | c :: _ =>
      if c = ch '|' ∨ c = ch ')' then some (.empty, groups, s)
      else
        (term? unicode total fuel groups s).bind fun (first, groups', rest) =>
          (terms? unicode total fuel groups' rest).map fun
            | (.empty, r) => (first, r)
            | (second, r) => (.seq first second, r)

def term? (unicode : Bool) (total : Nat) : Nat → Nat → List Nat → Option (Node × Nat × List Nat)
  | 0, _, _ => none
  | fuel + 1, groups, s =>
    let closed (groups : Nat) (inside : List Nat) (wrap : Node → Node) :
        Option (Node × Nat × List Nat) :=
      (alternatives? unicode total fuel groups inside).bind fun (body, groups', rest) =>
        match rest with
        | c :: rest' => if c = ch ')' then some (wrap body, groups', rest') else none
        | [] => none
    let quantify (r : Option (Node × Nat × List Nat)) : Option (Node × Nat × List Nat) :=
      r.bind fun (node, groups', rest) =>
        (quantified? unicode node rest).map fun (node', rest') => (node', groups', rest')
    let lookahead (negated : Bool) (inside : List Nat) : Option (Node × Nat × List Nat) :=
      let r := closed groups inside (.lookahead negated)
      if unicode then r else quantify r
    match s with
    | [] => none
    | c :: s' =>
      if c = ch '^' then some (.lineStart, groups, s')
      else if c = ch '$' then some (.lineEnd, groups, s')
      else if c = ch '.' then
        (quantified? unicode .any s').map fun (node, rest) => (node, groups, rest)
      else if c = ch '(' then
        match after? "?:" s', after? "?=" s', after? "?!" s', after? "?<=" s', after? "?<!" s' with
        | some inside, _, _, _, _ => quantify (closed groups inside id)
        | _, some inside, _, _, _ => lookahead false inside
        | _, _, some inside, _, _ => lookahead true inside
        | _, _, _, some inside, _ => closed groups inside (.lookbehind false)
        | _, _, _, _, some inside => closed groups inside (.lookbehind true)
        | _, _, _, _, _ => quantify (closed (groups + 1) s' (.group (groups + 1)))
      else if c = ch '[' then
        let (negated, inside) :=
          match s' with
          | d :: s'' => if d = ch '^' then (true, s'') else (false, s')
          | [] => (false, s')
        (classItems? unicode (inside.length + 1) inside).bind fun (items, rest) =>
          (quantified? unicode (.oneOf negated items) rest).map fun (node, r) => (node, groups, r)
      else if c = ch '\\' then
        (escaped? unicode total s').map fun (node, rest) => (node, groups, rest)
      else if [ch '*', ch '+', ch '?', ch ')'].contains c then none
      else if unicode ∧ isSyntaxChar c ∧ c ≠ ch '/' then none
      else (quantified? unicode (.char c) s').map fun (node, rest) => (node, groups, rest)

end

def node? (unicode : Bool) (source : List Nat) : Option Node :=
  match alternatives? unicode (groupCount false source) (3 * source.length + 3) 0 source with
  | some (node, _, []) => some node
  | _ => none

/-- Reads an expression with the flags given by letter. Flags that say where to search from are
dropped. -/
def parse? (source : String) (flags : String) : Option Regex :=
  let letters := flags.toList
  let withUnicode (unicode : Bool) : Flags :=
    ⟨letters.contains 'i', letters.contains 'm', letters.contains 's', unicode⟩
  let points := (node? true (source.toList.map Char.toNat)).map fun n => ⟨n, withUnicode true⟩
  if letters.contains 'u' || letters.contains 'v' then points
  else
    points.or ((node? false (Utf8.units source.toList)).map fun n => ⟨n, withUnicode false⟩)

end Untrusted.Regex
