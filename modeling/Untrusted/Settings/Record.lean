import Untrusted.Json

/-!
# Records of settings

A record shows the settings of its parent where it has none of its own. All records descend from a
common one, which shows only names that are built in and stand for no setting, unless they are given
another parent under the parent's name.
-/

namespace Untrusted

inductive Setting where
  | leaf (value : Json)
  /-- What a built-in name stands for. -/
  | builtIn
  /-- The record that the others descend from. -/
  | common
  | record (own : List (String × Setting)) (parent : Setting)
  deriving Inhabited

namespace Setting

/-- The name under which a record shows its parent. -/
def parentName : String := "__proto__"

def builtInNames : List String :=
  ["constructor", "__defineGetter__", "__defineSetter__", "hasOwnProperty", "__lookupGetter__",
    "__lookupSetter__", "isPrototypeOf", "propertyIsEnumerable", "toString", "valueOf",
    "toLocaleString"]

def listNames : List String :=
  ["at", "concat", "copyWithin", "fill", "find", "findIndex", "findLast", "findLastIndex",
    "lastIndexOf", "pop", "push", "reverse", "shift", "unshift", "slice", "sort", "splice",
    "includes", "indexOf", "join", "keys", "entries", "values", "forEach", "filter", "flat",
    "flatMap", "map", "every", "some", "reduce", "reduceRight", "toReversed", "toSorted",
    "toSpliced", "with"]

def isRecord : Setting → Bool
  | .common => true
  | .record _ _ => true
  | _ => false

/-! ## Settings and their values -/

mutual

def ofJson : Json → Setting
  | .object fields => .record (ofFields fields) .common
  | j => .leaf j

def ofFields : List (String × Json) → List (String × Setting)
  | [] => []
  | (name, j) :: rest => (name, ofJson j) :: ofFields rest

end

mutual

/-- What a setting holds; of a record, what it has of its own. -/
def toJson : Setting → Json
  | .leaf j => j
  | .builtIn => .null
  | .common => .object []
  | .record own _ => .object (toFields own)

def toFields : List (String × Setting) → List (String × Json)
  | [] => []
  | (name, s) :: rest => (name, toJson s) :: toFields rest

end

def value? : Setting → Option Json
  | .builtIn => none
  | s => some s.toJson

def isSet : Setting → Bool
  | .leaf j => j.isSet
  | _ => true

/-! ## Names -/

def parent : Setting → Setting
  | .record _ p => p
  | _ => .leaf .null

/-- What a list that is a parent shows under a name. -/
def item? (items : List Json) (name : String) : Option Setting :=
  if name = "length" then some (.leaf (.number items.length))
  else if listNames.contains name then some .builtIn
  else (items.zipIdx.find? fun (_, i) => toString i == name).map fun (j, _) => ofJson j

/-- What the records descending from a setting show under a name, if its parent's is `above`. -/
def shown? (above : Setting) (name : String) : Setting → Option Setting
  | .record own p =>
    match Named.get? own name with
    | some s => some s
    | none => shown? above name p
  | .leaf (.array items) => (item? items name).or (commonly above name)
  | .common => commonly above name
  | _ => none
where
  /-- What the common record shows. -/
  commonly (above : Setting) (name : String) : Option Setting :=
    if name = parentName then some above
    else if builtInNames.contains name then some .builtIn
    else none

/-- What a record shows under a name. -/
def get? (s : Setting) (name : String) : Option Setting :=
  if s.isRecord then shown? s.parent name s else none

/-- A record with the same settings of its own that descends from the common one. -/
def fresh : Setting → Setting
  | .record own _ => .record own .common
  | _ => .record [] .common

/-- Whether a record can descend from a setting. One that descends from null shows no more than it
has. -/
def isParent : Setting → Bool
  | .leaf .null => true
  | .leaf (.array _) => true
  | s => s.isRecord

/-- Whether a record shows its parent under the parent's name, and not a setting. -/
def showsParent : Setting → Bool
  | .record own p => (Named.get? own parentName).isNone && p.showsParent
  | .leaf (.array _) => true
  | .common => true
  | _ => false

/-- Gives a record a setting of its own, or a parent if its parent is what it shows under the
name. -/
def put (s : Setting) (name : String) (a : Setting) : Setting :=
  match s with
  | .record own p =>
    if name = parentName ∧ s.showsParent then .record own (if a.isParent then a else p)
    else .record (Named.put own name a) p
  | s => s

def own : Setting → List (String × Setting)
  | .record own _ => own
  | _ => []

end Setting
end Untrusted
