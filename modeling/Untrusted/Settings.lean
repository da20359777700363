import Untrusted.Failure
import Untrusted.Settings.Environment

/-!
# Settings

Settings come in layers: the defaults, then the settings file, then the environment, then what the
program sets, each winning over those before it. The first three are loaded when a setting is first
asked for. How a settings file is searched for and read is left to an explorer, which is given.
-/

namespace Untrusted

structure Settings where
  tree : Setting
  file : Option String
  /-- Whether the search for a file failed. -/
  fileFailed : Bool

namespace Settings

/-! ## The settings file -/

/-- What the search for a settings file came to. -/
inductive Found where
  | nothing
  | file (path : String) (settings : Setting) (isEmpty : Bool)
  | failed

/-- Searches the places of a module for its settings file, from a directory on or from the working
directory. -/
abbrev Explorer := (moduleName : String) → (places : List String) → (start : Option String) → Found

def moduleName : String := "caution"

def places : List String :=
  ["package.json", "." ++ moduleName ++ "rc", "." ++ moduleName ++ "rc.json",
    "." ++ moduleName ++ "rc.yaml", "." ++ moduleName ++ "rc.yml", moduleName ++ ".config.cjs"]

def explore (explorer : Explorer) (start : Option String) : Found :=
  explorer moduleName places start

/-! ## Loading -/

def defaults : Fields :=
  [("debug", .bool false), ("backtrace", .string "root"),
    ("display", .object
      [("maxElements", .number 40), ("banner", .bool false), ("strHint", .bool false),
        ("colors", .bool false)])]

/-- The layers below those that the program sets. -/
def layers (fromFile : List (String × Setting)) (env : Environment) : Setting :=
  merge (merge (.ofJson (.object defaults)) fromFile) (Setting.ofFields (ofEnvironment env))

/-- Only a record that holds something counts. A search that fails is no search. -/
def load (found : Found) (env : Environment) : Settings :=
  match found with
  | .file path settings false =>
    if settings.isRecord then ⟨layers settings.own env, some path, false⟩
    else ⟨layers [] env, none, false⟩
  | .failed => ⟨layers [] env, none, true⟩
  | _ => ⟨layers [] env, none, false⟩

/-! ## Asking -/

/-- What is at a path. -/
def setting? (s : Settings) (path : String) : Option Setting := settingAt? s.tree (segments path)

def get? (s : Settings) (path : String) : Option Json := (s.setting? path).bind Setting.value?

def getBoolean? (s : Settings) (path : String) : Option Bool :=
  match s.get? path with
  | some (.bool b) => some b
  | _ => none

def getBoolean (s : Settings) (path : String) (fallback : Bool) : Bool :=
  (s.getBoolean? path).getD fallback

/-- The number at a path, if there is one and it is finite. -/
def getNumber? (s : Settings) (path : String) : Option Number :=
  match s.get? path with
  | some (.number n) => if n.isFinite then some n else none
  | _ => none

def has (s : Settings) (path : String) : Bool := (s.setting? path).any Setting.isSet

def set (s : Settings) (values : Fields) : Settings :=
  { s with tree := merge s.tree (Setting.ofFields values) }

def isDebugEnabled (s : Settings) : Bool := s.getBoolean "debug" false

/-- The mode of reports with as many frames as the settings ask for. -/
def reportMode (s : Settings) : Mode :=
  match s.get? "backtrace" with
  | some (.string "full") => .full
  | _ => .root

end Settings

/-! ## Loading when first asked -/

/-- Where settings are loaded from, and the settings once they are. -/
structure Configuration where
  explorer : Settings.Explorer
  /-- The directory that the search starts from, if it is not the working directory. -/
  searchFrom : Option String
  environment : Settings.Environment
  loaded : Option Settings

namespace Configuration

def initial (explorer : Settings.Explorer) (environment : Settings.Environment) : Configuration :=
  ⟨explorer, none, environment, none⟩

def settings (c : Configuration) : Settings :=
  c.loaded.getD (.load (Settings.explore c.explorer c.searchFrom) c.environment)

def load (c : Configuration) : Configuration := { c with loaded := some c.settings }

def set (c : Configuration) (values : Fields) : Configuration :=
  { c with loaded := some (c.settings.set values) }

/-- Forgets the settings, which are next loaded from `searchFrom` on. -/
def reset (c : Configuration) (searchFrom : Option String) : Configuration :=
  { c with searchFrom := searchFrom, loaded := none }

end Configuration
end Untrusted
