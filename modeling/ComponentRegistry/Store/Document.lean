import ComponentRegistry.Document.Json
import ComponentRegistry.Document.JsonLayout
import ComponentRegistry.Entry.Document
import ComponentRegistry.Store.Table

/-! # Stores as documents

A store in tables as one document, and the store that a document describes.
-/

namespace ComponentRegistry

/-- An entry as a document. -/
def Entry.document (e : Entry) : Value :=
  .object
    [("owner", .string e.owner),
      ("slug", .string e.slug),
      (EntryField.name.key, .string e.name),
      (EntryField.registry.key, .string e.registry),
      (EntryField.codeRef.key, .string e.codeRef),
      (EntryField.demoRef.key, .string e.demoRef),
      (EntryField.exportedNames.key, .strings e.exportedNames),
      (EntryField.demoExportName.key, .string e.demoExportName),
      (EntryField.external.key, .ofTextMap e.external),
      (EntryField.demoExternal.key, .ofTextMap e.demoExternal),
      (EntryField.internal.key, .ofTextMap e.internal),
      (EntryField.description.key, (e.description.map Value.string).getD .null),
      ("version", .int e.version)]

/-- The entry that a document describes. -/
def Entry.ofDocument? : Value → Option Entry
  | .object fields => Entry.ofFields? fields
  | _ => none

/-- A source text as a document. -/
def SourceUnit.document (u : SourceUnit) : Value :=
  .object [("ref", .string u.ref), ("name", .string u.name), ("text", .string u.text)]

/-- The source text that a document describes. -/
def SourceUnit.ofDocument? (v : Value) : Option SourceUnit := do
  let ref ← (v.get? "ref").bind Value.string?
  let name ← (v.get? "name").bind Value.string?
  let text ← (v.get? "text").bind Value.string?
  pure ⟨ref, name, text⟩

/-- The items of a list in a document. -/
def Value.itemsAt? (v : Value) (key : String) : Option (List Value) :=
  match v.get? key with
  | some (.list items) => some items
  | _ => none

namespace TableStore

/-- A store as a document. -/
def document (store : TableStore) : Value :=
  .object
    [("sources", .list (store.sources.map SourceUnit.document)),
      ("entries", .list (store.rows.map fun r => r.entry.document))]

/-- The store that a document describes. -/
def ofDocument? (v : Value) : Option TableStore := do
  let sources ← (← v.itemsAt? "sources").mapM SourceUnit.ofDocument?
  let entries ← (← v.itemsAt? "entries").mapM Entry.ofDocument?
  pure ⟨sources, entries.map Row.ofEntry⟩

/-- A store as a text. -/
def text (store : TableStore) : String := JsonLayout.line store.document

/-- The store that a text describes. An empty text describes an empty store. -/
def ofText? (text : String) : Option TableStore :=
  if text.isEmpty then some RegistryStore.empty
  else (Json.parse? text.toList).bind ofDocument?

end TableStore

end ComponentRegistry
