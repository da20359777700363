import Untrusted.Settings.Tree
import Untrusted.Text.Lowercase

/-!
# Settings from the environment

A variable names a path in capitals: two underscores stand for a dot, and one for a capital letter
after it. Variables are taken in the order in which they are listed.
-/

namespace Untrusted.Settings

abbrev Environment := List (String × String)

namespace Environment

def value? (env : Environment) (name : String) : Option String :=
  (env.find? (·.1 == name)).map Prod.snd

def assign (env : Environment) (name value : String) : Environment :=
  match env with
  | [] => [(name, value)]
  | (n, v) :: rest => if n = name then (n, value) :: rest else (n, v) :: assign rest name value

def unset (env : Environment) (name : String) : Environment := env.filter (·.1 != name)

end Environment

/-! ## Names of variables -/

/-- The parts of a name between pairs of underscores, taken from its start. -/
def splitNesting : List Char → List (List Char)
  | [] => [[]]
  | '_' :: '_' :: rest => [] :: splitNesting rest
  | c :: rest =>
    match splitNesting rest with
    | part :: parts => (c :: part) :: parts
    | [] => [[c]]

def isWordStart (c : Char) : Bool := c.isLower || c.isDigit

/-- Joins words that a single underscore divides, each with a capital. -/
def joinWords : List Char → List Char
  | [] => []
  | '_' :: c :: rest =>
    if isWordStart c then c.toUpper :: joinWords rest else '_' :: joinWords (c :: rest)
  | c :: rest => c :: joinWords rest

/-- The path that a name stands for, as its segments. -/
def nameSegments (name : String) : List String :=
  (splitNesting (Text.Lowercase.text name).toList).map fun part => String.ofList (joinWords part)

def pathOfName (name : String) : String := ".".intercalate (nameSegments name)

/-! ## Values of variables -/

/-- The setting that the text of a variable stands for. -/
def valueOfText (text : String) : Json :=
  if text = "1" ∨ text = "true" then .bool true
  else if text = "0" ∨ text = "false" ∨ text = "" then .bool false
  else
    let digits := text.toList
    if digits.all Char.isDigit then
      .number (.ofDecimal false (digits.foldl (fun n d => n * 10 + (d.toNat - 48)) 0) 0)
    else .string text

/-- What a variable's name starts with if it is a setting. -/
def marker : String := "CAUTION_"

def settingName? (name : String) : Option String :=
  if marker.toList.isPrefixOf name.toList then
    some (String.ofList (name.toList.drop marker.length))
  else none

def ofEnvironment (env : Environment) : Fields :=
  env.foldl (fun fields (name, text) =>
    match settingName? name with
    | some rest => putAt fields (segments (pathOfName rest)) (valueOfText text)
    | none => fields) []

end Untrusted.Settings
