import Untrusted.Regex
import Untrusted.Settings.Block

/-!
# Settings files held in memory

A file holds JSON or a block mapping, as the extension of its name says. A package file holds
settings in one of its fields. Files go by where they are below the directory that is searched.
-/

namespace Untrusted.Settings

/-- Files of a directory, by name, with what they hold. -/
abbrev Directory := List (String × String)

/-! ## Locations -/

/-- The names on the way from the directory to a file. It goes back first if the file is not below
the directory, and starts with an empty name if it leads from the root of all files. -/
abbrev Location := List String

def root : Location := [""]

/-- Goes on by a name, of which one dot stays and two go back. Nothing is above the root. -/
def enter (location : Location) (name : String) : Location :=
  if name = "" ∨ name = "." then location
  else if name = ".." then
    match location.getLast? with
    | none | some ".." => location ++ [name]
    | some _ => if location = root then location else location.dropLast
  else location ++ [name]

/-- Where a path leads from a location. -/
def resolve (location : Location) (path : String) : Location :=
  let start := if path.toList.head? = some '/' then root else location
  ((path.toList.splitOn '/').map String.ofList).foldl enter start

/-- The text of the file at a location. -/
def textAt? (directory : Directory) (location : Location) : Option String :=
  (directory.find? fun (name, _) => resolve [] name = location).map Prod.snd

/-! ## Formats -/

inductive Form where
  | json
  | block
  deriving DecidableEq

structure Format where
  form : Form
  /-- The field that holds the settings, if they are not all that the file holds. -/
  field : Option String
  deriving DecidableEq

/-- A name up to its last dot and from there on, unless it starts with that dot. -/
def splitExtension (name : String) : String × String :=
  let ending := name.toList.reverse
  match ending.dropWhile (· != '.') with
  | '.' :: c :: stem =>
    (String.ofList (c :: stem).reverse,
      String.ofList ('.' :: (ending.takeWhile (· != '.')).reverse))
  | _ => (name, "")

/-- The format that the name of a file tells, for the settings of a module. No script is run. -/
def Format.ofName? (moduleName name : String) : Option Format :=
  let (stem, extension) := splitExtension name
  let field := if stem = "package" then some moduleName else none
  if extension = ".json" then some ⟨.json, field⟩
  else if ["", ".yaml", ".yml"].contains extension then some ⟨.block, field⟩
  else none

/-! ## What a file holds -/

def isBlank (text : String) : Bool := text.toList.all fun c => Regex.isSpace c.toNat

def Form.parse? : Form → String → Option (Option Json)
  | .json, text => (Json.parse? .strict text).map some
  | .block, text => Block.parse? text

/-- The settings in the value of a file; `none` if they were in a field and it can have none. -/
def Format.settings? (format : Format) (value : Option Json) : Option (Option Json) :=
  match format.field, value with
  | none, value => some value
  | some _, none => none
  | some _, some .null => none
  | some name, some value => some (value.field? name)

def read? (moduleName name text : String) : Option (Option Json) :=
  if isBlank text then some none
  else do
    let format ← Format.ofName? moduleName name
    let value ← format.form.parse? text
    match ← format.settings? value with
    | some .null => some none
    | settings => some settings

end Untrusted.Settings
