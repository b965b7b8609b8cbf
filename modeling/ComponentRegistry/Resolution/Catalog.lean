import ComponentRegistry.Store

/-! # Catalogs

What can be read of a registry while dependencies are resolved: entries and source texts, and what
stands in the way of reading them at the moment.
-/

namespace ComponentRegistry

/-- What is read of a registry at a time. -/
inductive Reading where
  | entry (identifier : Identifier)
  /-- The source text that is found by a reference. -/
  | text (ref : String)
  deriving Repr, DecidableEq

/-- Why something cannot be read. -/
inductive Outage where
  /-- The store cannot be reached. -/
  | unavailable (reason : String)
  /-- The store does not answer in time. -/
  | silent
  deriving Repr, DecidableEq

/-- The readable side of a registry. -/
structure Catalog where
  /-- The entries by the addresses under which they are found. -/
  entries : OrderedMap Identifier Entry
  /-- The source text that is found by a reference. -/
  text? : String → Option String
  /-- What stands in the way of a reading. -/
  outage : Reading → Option Outage := fun _ => none
  /-- How many seconds an entry and its source text are waited for. -/
  patience : Option Quantity := none

namespace Catalog

/-- How many seconds a wait lasted at least. No limit and a limit of nothing are both shown as
zero. -/
def waited (catalog : Catalog) : Quantity :=
  match catalog.patience with
  | some seconds =>
    if seconds.sameNumber (.whole 0) then .double (.zero false) else seconds
  | none => .double (.zero false)

/-- What comes of an outage while the entry behind `reference` is read. -/
def interruption (catalog : Catalog) (reference : String) : Outage → RegistryError
  | .unavailable reason => .unavailable reason
  | .silent => .timedOut reference catalog.waited

/-- Read an entry. The errors name it by `reference`. -/
def fetchEntry (catalog : Catalog) (reference : String) (identifier : Identifier) :
    Except RegistryError Entry :=
  match catalog.outage (.entry identifier) with
  | some outage => .error (catalog.interruption reference outage)
  | none =>
    match catalog.entries.get? identifier with
    | some entry => .ok entry
    | none => .error (.missingDependency reference)

/-- Read the source text of an entry. -/
def fetchText (catalog : Catalog) (reference : String) (entry : Entry) :
    Except RegistryError String :=
  match catalog.outage (.text entry.codeRef) with
  | some outage => .error (catalog.interruption reference outage)
  | none =>
    match catalog.text? entry.codeRef with
    | some text => .ok text
    | none => .error (.missingSource reference)

theorem fetchEntry_mem {catalog : Catalog} {reference : String} {identifier : Identifier}
    {entry : Entry} (h : catalog.fetchEntry reference identifier = .ok entry) :
    entry ∈ catalog.entries.values := by
  unfold fetchEntry at h
  split at h
  · cases h
  · split at h
    · next found =>
      cases h
      exact OrderedMap.mem_values_of_get? found
    · cases h

end Catalog

/-- What can be read of a store. -/
def RegistryStore.catalog {σ : Type} [RegistryStore σ] (store : σ) : Catalog where
  entries := .ofPairs ((listEntries store none).map fun entry => (entry.identifier, entry))
  text? := sourceText? store

end ComponentRegistry
