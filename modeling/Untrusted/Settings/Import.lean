import Untrusted.Settings
import Untrusted.Settings.File
import Untrusted.Utf8.Units

/-!
# Searching directories held in memory

An explorer for runs on files that are given with their texts; any other can take its place. A file
can import others, whose settings it adds to and wins over. The first usable file of the places
holds the settings. A place is passed over if its file holds nothing, or if it or a file that it
imports is missing; a malformed file ends the search, and so does one that imports itself.
-/

namespace Untrusted.Settings

/-! ## Putting settings together -/

mutual

/-- What a name that held `old` holds once a later file gives it a setting. Lists are joined. -/
def extended (old : Option Setting) : Setting → Setting
  | .record own parent =>
    match old with
    | some (.record first above) => extendAll (.record first above) own
    | _ => .record own parent
  | .leaf (.array later) =>
    match old with
    | some (.leaf (.array first)) => .leaf (.array (first ++ later))
    | _ => .leaf (.array later)
  | s => s

/-- Gives a record the settings of a later file, one after the other. -/
def extendAll (target : Setting) : List (String × Setting) → Setting
  | [] => target
  | (name, s) :: rest =>
    extendAll (target.put name (extended (Named.get? target.own name) s)) rest

end

/-- What an imported file gives. The members of a list and the units of a text go by their
indices. -/
def contribution : Setting → List (String × Setting)
  | .leaf (.array items) => items.zipIdx.map fun (j, i) => (toString i, .ofJson j)
  | .leaf (.string s) =>
    (Utf8.units s.toList).zipIdx.map fun (u, i) =>
      (toString i, .leaf (.string (Utf8.decodeText (Utf8.encodeUnits [u]))))
  | s => s.own

/-- The settings of files, of which the later win. -/
def together (files : List (List (String × Setting))) : Setting :=
  files.foldl extendAll (.record [] .common)

/-! ## Files with imports -/

inductive Unusable where
  | missing
  | malformed
  deriving DecidableEq, Repr

/-- Under this name, a file lists the paths of the files that it imports. -/
def importName : String := "$import"

/-- The paths that a value lists. -/
def paths? : Json → Option (List String)
  | .string path => some [path]
  | .array items => items.mapM fun item =>
    match item with
    | .string path => some path
    | _ => none
  | _ => none

/-- Whether a file can have a name at all. -/
def isFileName (name : String) : Bool := name.utf8ByteSize ≤ 255 && !name.toList.contains '\x00'

def readAt (moduleName : String) (directory : Directory) (location : Location) :
    Except Unusable (Option Json) :=
  if location.all isFileName then
    match textAt? directory location with
    | none => .error .missing
    | some text =>
      match read? moduleName (location.getLast?.getD "") text with
      | none => .error .malformed
      | some held => .ok held
  else .error .malformed

/-- The settings at a location with those of its imports, at most `depth` files deep. No file is
imported by way of itself, so the number of files bounds the depth. An import must hold
something. -/
def loadWithin (moduleName : String) (directory : Directory) :
    Nat → List Location → Location → Except Unusable (Option Setting)
  | 0, _, _ => .error .malformed
  | depth + 1, above, location => do
    match ← readAt moduleName directory location with
    | none => pure none
    | some (.object fields) =>
      match Named.get? fields importName with
      | none => pure (some (.ofJson (.object fields)))
      | some listed =>
        let above := location :: above
        match (paths? listed).map fun paths => paths.map (resolve location.dropLast) with
        | none => .error .malformed
        | some targets =>
          if targets.any above.contains then .error .malformed
          else
            let imported ← targets.mapM (loadWithin moduleName directory depth above)
            match imported.mapM id with
            | none => .error .malformed
            | some imported =>
              let own := Setting.ofFields (fields.filter fun (name, _) => name != importName)
              pure (some (together (imported.map contribution ++ [own])))
    | some value => pure (some (.leaf value))

def loadFile (moduleName : String) (directory : Directory) (name : String) :
    Except Unusable (Option Setting) :=
  loadWithin moduleName directory (directory.length + 1) [] [name]

/-! ## The search -/

/-- The first usable file of the places. -/
def search (moduleName : String) (directory : Directory) : (places : List String) → Found
  | [] => .nothing
  | name :: rest =>
    match loadFile moduleName directory name with
    | .ok (some settings) => .file name settings false
    | .error .malformed => .failed
    | _ => search moduleName directory rest

def explorerOf (directories : Option String → Directory) : Explorer :=
  fun moduleName places start =>
    search moduleName (directories start) places

end Untrusted.Settings
