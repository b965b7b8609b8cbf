import ComponentRegistry.Document.Json
import ComponentRegistry.Error

/-! # Package versions

The versions that a package file asks for. A package file is a JSON document with a section for each
way of depending on a package. Its values are taken as they are.
-/

namespace ComponentRegistry

/-- Versions by package, in the order of first writing. Keys and values are whatever the document
has in their place. -/
abbrev PackageVersions := List (Value × Value)

namespace PackageVersions

/-- The sections in the order in which they are read: what the package itself needs comes last and
wins. -/
def sections : List String := ["peerDependencies", "devDependencies", "dependencies"]

/-- Write a key: in its place if it has one, at the end if not. -/
def write (key value : Value) : PackageVersions → PackageVersions
  | [] => [(key, value)]
  | (k, v) :: rest => if k.sameKey key then (k, value) :: rest else (k, v) :: write key value rest

/-- The value of a package name. -/
def get? (versions : PackageVersions) (name : String) : Option Value :=
  (versions.find? fun (k, _) => k.sameKey (.string name)).map Prod.snd

/-- The parts of an item of a list of pairs. -/
def parts? : Value → Option (List Value)
  | .list items => some items
  | .string s => some (s.toList.map fun c => .string (String.singleton c))
  | .object fields => some (fields.map fun (k, _) => .string k)
  | .null | .bool _ | .number _ | .moment _ => none

/-- Whether a value can be a key. -/
def isKey : Value → Bool
  | .list _ | .object _ => false
  | .null | .bool _ | .number _ | .string _ | .moment _ => true

/-- Write the items of a list of pairs, counted from `index`. -/
def writePairs (versions : PackageVersions) (index : Nat) :
    List Value → Except Failure PackageVersions
  | [] => .ok versions
  | item :: rest =>
    match parts? item with
    | none => .error .notIterable
    | some [key, value] =>
      if isKey key then writePairs (write key value versions) (index + 1) rest
      else .error .notIterable
    | some parts => .error (.malformedPair index parts.length)

/-- Write a whole section: an object, or anything that can be read as a list of pairs. -/
def writeSection (versions : PackageVersions) (contents : Value) :
    Except Failure PackageVersions :=
  match contents with
  | .object fields => .ok (fields.foldl (fun vs (k, v) => write (.string k) v vs) versions)
  | other =>
    match parts? other with
    | some items => writePairs versions 0 items
    | none => .error .notIterable

/-- The versions in a package file. Sections that are missing or empty add nothing. -/
def ofDocument (document : Value) : Except Failure PackageVersions :=
  match document with
  | .object fields =>
    sections.foldlM (fun versions name =>
      match Value.field? fields name with
      | some contents => if contents.isGiven then writeSection versions contents else .ok versions
      | none => .ok versions) []
  | _ => .error .notTable

/-- The versions in the text of a package file. -/
def ofText (text : String) : Except Failure PackageVersions :=
  match Json.parse? text.toList with
  | some document => ofDocument document
  | none => .error .invalidJson

end PackageVersions

end ComponentRegistry
