import ComponentRegistry.Dependency.Internal
import ComponentRegistry.Document.Value

/-! # Entries

What the registry stores about a published component. Everything but the address and the version may
change later.
-/

namespace ComponentRegistry

/-- A published component. -/
structure Entry where
  /-- Who published it. -/
  owner : String
  /-- Its name among the owner's entries. -/
  slug : String
  /-- The name under which it is shown. -/
  name : String
  /-- The part of the registry that it belongs to. -/
  registry : String
  /-- Where its source text is stored. -/
  codeRef : String
  /-- Where its demo's source text is stored. -/
  demoRef : String
  /-- The names that it exports. -/
  exportedNames : List String
  /-- The export of its demo that is rendered. -/
  demoExportName : String
  /-- Packages that it needs, with versions. -/
  external : OrderedMap String String
  /-- Packages that its demo needs, with versions. -/
  demoExternal : OrderedMap String String
  /-- Entries that it or its demo imports. -/
  internal : InternalDependencies
  /-- What it is good for, if anybody said so. -/
  description : Option String
  /-- One more than the number of changes made to it. -/
  version : Nat
  deriving Repr, DecidableEq

namespace Entry

/-- The address of an entry. -/
def identifier (e : Entry) : Identifier := ⟨e.owner, e.slug⟩

end Entry

/-- The parts of an entry that may change. -/
inductive EntryField where
  | name
  | registry
  | codeRef
  | demoRef
  | exportedNames
  | demoExportName
  | external
  | demoExternal
  | internal
  | description
  deriving Repr, DecidableEq

namespace EntryField

/-- The written name of a field. -/
def key : EntryField → String
  | name => "name"
  | registry => "registry"
  | codeRef => "code_ref"
  | demoRef => "demo_ref"
  | exportedNames => "exported_names"
  | demoExportName => "demo_export_name"
  | external => "external_dependencies"
  | demoExternal => "demo_external_dependencies"
  | internal => "internal_dependencies"
  | description => "description"

/-- Every field once. -/
def all : List EntryField :=
  [name, registry, codeRef, demoRef, exportedNames, demoExportName, external, demoExternal,
    internal, description]

/-- The field with a written name. -/
def ofKey? (key : String) : Option EntryField := all.find? fun field => field.key == key

end EntryField

/-- The texts of a list value; nothing if an item is no text. -/
def Value.texts? : Value → Option (List String)
  | .list items => items.mapM Value.string?
  | _ => none

/-- The pairs of texts of an object; nothing if a value is no text. -/
def textPairs? (fields : List (String × Value)) : Option (List (String × String)) :=
  fields.mapM fun (key, value) => value.string?.map (key, ·)

/-- The map of texts that an object is. -/
def Value.textMap? : Value → Option (OrderedMap String String)
  | .object fields => (textPairs? fields).map OrderedMap.ofPairs
  | _ => none

/-- The text that a value is, or nothing where a text is optional. -/
def Value.optionalText? : Value → Option (Option String)
  | .null => some none
  | .string s => some (some s)
  | _ => none

/-- A map of texts as a value. -/
def Value.ofTextMap (m : OrderedMap String String) : Value :=
  .object (m.pairs.map fun (key, value) => (key, .string value))

/-- A new value for one field, of the type that the field has. -/
inductive EntryChange where
  | name (s : String)
  | registry (s : String)
  | codeRef (s : String)
  | demoRef (s : String)
  | exportedNames (names : List String)
  | demoExportName (s : String)
  | external (m : OrderedMap String String)
  | demoExternal (m : OrderedMap String String)
  | internal (m : InternalDependencies)
  | description (s : Option String)
  deriving Repr, DecidableEq

namespace EntryChange

/-- Read a value for a field; nothing if it has not the field's type. -/
def ofValue? (field : EntryField) (value : Value) : Option EntryChange :=
  match field with
  | .name => value.string?.map .name
  | .registry => value.string?.map .registry
  | .codeRef => value.string?.map .codeRef
  | .demoRef => value.string?.map .demoRef
  | .exportedNames => value.texts?.map .exportedNames
  | .demoExportName => value.string?.map .demoExportName
  | .external => value.textMap?.map .external
  | .demoExternal => value.textMap?.map .demoExternal
  | .internal => value.textMap?.map .internal
  | .description => value.optionalText?.map .description

/-- The entry with the field changed. -/
def apply (e : Entry) : EntryChange → Entry
  | name s => { e with name := s }
  | registry s => { e with registry := s }
  | codeRef s => { e with codeRef := s }
  | demoRef s => { e with demoRef := s }
  | exportedNames names => { e with exportedNames := names }
  | demoExportName s => { e with demoExportName := s }
  | external m => { e with external := m }
  | demoExternal m => { e with demoExternal := m }
  | internal m => { e with internal := m }
  | description s => { e with description := s }

/-- Whether the field has the value already. Maps are compared without regard to order. -/
def isMet (e : Entry) : EntryChange → Bool
  | name s => e.name == s
  | registry s => e.registry == s
  | codeRef s => e.codeRef == s
  | demoRef s => e.demoRef == s
  | exportedNames names => e.exportedNames == names
  | demoExportName s => e.demoExportName == s
  | external m => e.external.sameContent m
  | demoExternal m => e.demoExternal.sameContent m
  | internal m => e.internal.sameContent m
  | description s => e.description == s

end EntryChange

/-- New values for some fields, by their written names. The values are those that a document can hold;
a byte string, which might be taken for the text that it encodes, is no value of a patch. -/
abbrev EntryPatch := OrderedMap String Value

namespace EntryPatch

/-- The names in a patch that are no fields that may change. -/
def fixedNames (p : EntryPatch) : List String :=
  p.keys.filter fun key => (EntryField.ofKey? key).isNone

/-- The changes that a patch calls for; nothing if a value has not its field's type. -/
def changes? (p : EntryPatch) : Option (List EntryChange) :=
  p.pairs.mapM fun (key, value) =>
    (EntryField.ofKey? key).bind fun field => EntryChange.ofValue? field value

/-- Texts with which the internal dependencies of a patch would be published; a failure if one of
them is no text. -/
def checkInternal (value : Value) : Except Failure Unit :=
  match value with
  | .object fields =>
    match textPairs? fields with
    | some pairs =>
      (InternalDependencies.checkPublishable (.ofPairs pairs)).mapError .refused
    | none => .error .notText
  | _ => .error .notText

/-- Refuse a patch that would make an entry unpublishable. -/
def check (p : EntryPatch) : Except Failure Unit :=
  match p.get? EntryField.internal.key with
  | some value => checkInternal value
  | none => .ok ()

end EntryPatch

namespace Entry

/-- Apply a patch to an entry that is expected to have a certain version. The version is compared
first; then only fields that may change are accepted, the entry has to stay publishable, and every
value has to have its field's type. -/
def patched (e : Entry) (p : EntryPatch) (expected : Int) : Except Failure Entry := do
  if (e.version : Int) ≠ expected then
    refuse (.conflict e.identifier.text expected e.version)
  else if !p.fixedNames.isEmpty then .error (.fixedFields p.fixedNames)
  else
    p.check
    match p.changes? with
    | some changes => pure { changes.foldl EntryChange.apply e with version := e.version + 1 }
    | none => .error .invalidValue

/-- Whether a field has a value, in whatever form that is given. -/
def hasValue (e : Entry) (field : EntryField) (value : Value) : Bool :=
  match EntryChange.ofValue? field value with
  | some change => change.isMet e
  | none => false

/-- The pairs of a patch that would change an entry. -/
def changedPairs (e : Entry) : List (String × Value) → Except Failure (List (String × Value))
  | [] => .ok []
  | (key, value) :: rest =>
    match EntryField.ofKey? key with
    | none => .error (.fixedField key)
    | some field => do
      let changed ← changedPairs e rest
      pure (if e.hasValue field value then changed else (key, value) :: changed)

/-- The part of a patch that would change an entry. -/
def changedFields (e : Entry) (p : EntryPatch) : Except Failure EntryPatch :=
  (changedPairs e p.pairs).map OrderedMap.ofPairs

end Entry

end ComponentRegistry
