import Untrusted.Settings.Record

/-!
# Trees of settings

A setting has a dotted path through nested records. Merging lets what is merged in win wherever the
two are not both records.
-/

namespace Untrusted.Settings

def segments (path : String) : List String := (path.toList.splitOn '.').map String.ofList

def settingAt? (s : Setting) : List String → Option Setting
  | [] => some s
  | name :: rest => (s.get? name).bind fun inner => settingAt? inner rest

/-- Sets the value at the end of a path. Whatever on the way is no object is replaced by one. -/
def putAt (fields : Fields) : List String → Json → Fields
  | [], _ => fields
  | [name], value => fields.put name value
  | name :: rest, value =>
    let inner :=
      match fields.get? name with
      | some (.object f) => f
      | _ => []
    fields.put name (.object (putAt inner rest value))

mutual

/-- What a name that showed `old` shows after a merge. -/
def merged (old : Option Setting) : Setting → Setting
  | .record own parent =>
    match old with
    | some target => if target.isRecord then mergeAll target.fresh own else .record own parent
    | none => .record own parent
  | s => s

/-- Gives a record settings, one after the other. -/
def mergeAll (target : Setting) : List (String × Setting) → Setting
  | [] => target
  | (name, s) :: rest => mergeAll (target.put name (merged (target.get? name) s)) rest

end

def merge (target : Setting) (settings : List (String × Setting)) : Setting :=
  mergeAll target.fresh settings

end Untrusted.Settings
