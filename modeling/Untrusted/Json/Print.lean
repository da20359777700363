import Untrusted.Json
import Untrusted.Text.Hex

/-!
# Writing JSON

Values on one line without blanks. A text escapes what the format requires, and the line ends and
marks that are not safe in other places.
-/

namespace Untrusted.Json

def isUnsafe (c : Char) : Bool :=
  (0x7f ≤ c.toNat && c.toNat ≤ 0x9f) || [0x2028, 0x2029, 0xfeff].contains c.toNat

def escape (c : Char) : List Char :=
  if c = '"' then ['\\', '"']
  else if c = '\\' then ['\\', '\\']
  else if c = '\n' then ['\\', 'n']
  else if c = '\r' then ['\\', 'r']
  else if c = '\t' then ['\\', 't']
  else if c.toNat < 0x20 || isUnsafe c then ['\\', 'u'] ++ (Text.hexOfNat 4 c.toNat).toList
  else [c]

def quote (s : String) : String := String.ofList ('"' :: s.toList.flatMap escape ++ ['"'])

mutual

/-- A value as text. A number that the format cannot write is null. -/
def text : Json → String
  | .null => "null"
  | .bool b => if b then "true" else "false"
  | .number n => if n.isFinite then n.text else "null"
  | .string s => quote s
  | .array items => "[" ++ ",".intercalate (itemTexts items) ++ "]"
  | .object fields => "\x7b" ++ ",".intercalate (fieldTexts fields) ++ "\x7d"

def itemTexts : List Json → List String
  | [] => []
  | j :: rest => j.text :: itemTexts rest

def fieldTexts : List (String × Json) → List String
  | [] => []
  | (name, j) :: rest => (quote name ++ ":" ++ j.text) :: fieldTexts rest

end

end Untrusted.Json
