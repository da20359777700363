import Untrusted.Named
import Untrusted.Number.Text

/-!
# JSON values

Values of settings and of settings files. The fields of an object keep the order in which they were
written, and a name occurs once.
-/

namespace Untrusted

inductive Json where
  | null
  | bool (b : Bool)
  | number (n : Number)
  | string (s : String)
  | array (items : List Json)
  | object (fields : List (String × Json))
  deriving Inhabited

abbrev Fields := Named Json

namespace Json

def field? (j : Json) (name : String) : Option Json :=
  match j with
  | .object fields => Named.get? fields name
  | _ => none

/-- Whether a value counts as set: all but null, false, zero, what is no number, and empty text. -/
def isSet : Json → Bool
  | .null => false
  | .bool b => b
  | .number n => n != .nan && n != 0
  | .string s => s != ""
  | .array _ => true
  | .object _ => true

mutual

/-- How many values stand inside each other, a value that holds no other being one deep. -/
def depth : Json → Nat
  | .array items => itemsDepth items + 1
  | .object fields => fieldsDepth fields + 1
  | _ => 1

def itemsDepth : List Json → Nat
  | [] => 0
  | j :: rest => max j.depth (itemsDepth rest)

def fieldsDepth : List (String × Json) → Nat
  | [] => 0
  | (_, j) :: rest => max j.depth (fieldsDepth rest)

end

end Json
end Untrusted
