import ComponentRegistry.Entry

/-! # Entries in documents

Reading an entry from the fields of a document. Some fields have to be there, the others have
defaults, and unknown fields do not matter; every field has to have its type.
-/

namespace ComponentRegistry

namespace Entry

/-- The part of the registry that an entry belongs to by default. -/
def defaultRegistry : String := "ui"

/-- A field that has to be there. -/
def required (fields : List (String × Value)) (key : String) (read : Value → Option α) : Option α :=
  (Value.field? fields key).bind read

/-- A field that has a default. -/
def optional (fields : List (String × Value)) (key : String) (default : α)
    (read : Value → Option α) : Option α :=
  match Value.field? fields key with
  | some value => read value
  | none => some default

/-- A version, which has to be a whole number in one form or another. -/
def version? (value : Value) : Option Nat :=
  (value.asNumber?.bind Quantity.whole?).map Int.toNat

/-- Read an entry. -/
def ofFields? (fields : List (String × Value)) : Option Entry := do
  let owner ← required fields "owner" Value.string?
  let slug ← required fields "slug" Value.string?
  let name ← required fields EntryField.name.key Value.string?
  let registry ← optional fields EntryField.registry.key defaultRegistry Value.string?
  let codeRef ← required fields EntryField.codeRef.key Value.string?
  let demoRef ← optional fields EntryField.demoRef.key "" Value.string?
  let exportedNames ← optional fields EntryField.exportedNames.key [] Value.texts?
  let demoExportName ← optional fields EntryField.demoExportName.key "" Value.string?
  let external ← optional fields EntryField.external.key ∅ Value.textMap?
  let demoExternal ← optional fields EntryField.demoExternal.key ∅ Value.textMap?
  let internal ← optional fields EntryField.internal.key ∅ Value.textMap?
  let description ← optional fields EntryField.description.key none Value.optionalText?
  let version ← optional fields "version" 1 version?
  pure
    { owner, slug, name, registry, codeRef, demoRef, exportedNames, demoExportName, external,
      demoExternal, internal, description, version }

end Entry

end ComponentRegistry
