import ComponentRegistry.Decimal.Shortest
import ComponentRegistry.Syntax.Fault

/-! # Errors of the registry

Why the registry refuses what it is asked for. Each error is a cause; the wording of all of them
stands in one place.
-/

namespace ComponentRegistry

/-- Why a request is refused. -/
inductive RegistryError where
  /-- A source unit cannot be read. -/
  | unreadable (error : SyntaxError)
  /-- The default export of a demo has no name. -/
  | anonymousDemo
  /-- A demo has no default export, and not exactly one export to render. -/
  | ambiguousDemo (candidates : List String)
  /-- Some local imports have no entry assigned. -/
  | unresolvedDependencies (paths : List String)
  /-- An identifier is not an owner and a slug. -/
  | malformedIdentifier (identifier : String)
  /-- An entry that is needed does not exist. -/
  | missingDependency (identifier : String)
  /-- The source text of an entry that is needed does not exist. -/
  | missingSource (identifier : String)
  /-- A stored entry has a local import with no entry assigned. -/
  | blankDependency (path identifier : String)
  /-- Fetching an entry took too long. -/
  | timedOut (identifier : String) (seconds : Quantity)
  /-- The requested entry does not exist. -/
  | missingComponent
  /-- The entry to change does not exist. -/
  | missingEntry (identifier : String)
  /-- The store cannot be reached. -/
  | unavailable (reason : String)
  /-- An entry has changed since it was read. -/
  | conflict (identifier : String) (expected : Int) (actual : Nat)
  /-- An entry with the same owner and slug exists. -/
  | duplicate (identifier : String)
  deriving Repr, DecidableEq

namespace RegistryError

/-- What a demo has to export, and what it does. -/
def demoMessage (candidates : List String) : String :=
  "Demo must export exactly one component, found " ++
    (if candidates.isEmpty then "none"
     else toString candidates.length ++ ": " ++ ", ".intercalate candidates)

/-- The wording of an error. -/
def message : RegistryError → String
  | unreadable error => error.message
  | anonymousDemo => "Demo default export must be a named function or component"
  | ambiguousDemo candidates => demoMessage candidates
  | unresolvedDependencies paths =>
    "Please specify the slug for all internal dependencies: " ++ ", ".intercalate paths
  | malformedIdentifier identifier => "Malformed registry identifier '" ++ identifier ++ "'"
  | missingDependency identifier => "Registry dependency '" ++ identifier ++ "' not found"
  | missingSource identifier => "Source for registry dependency '" ++ identifier ++ "' not found"
  | blankDependency path identifier =>
    "Internal dependency '" ++ path ++ "' of '" ++ identifier ++ "' has no slug"
  | timedOut identifier seconds =>
    "Timed out after " ++ seconds.text ++ "s fetching registry dependency '" ++ identifier ++ "'"
  | missingComponent => "Component not found"
  | missingEntry identifier => "Registry entry '" ++ identifier ++ "' not found"
  | unavailable reason => reason
  | conflict identifier expected actual =>
    "Entry '" ++ identifier ++ "' was modified concurrently (expected version " ++
      toString expected ++ ", found " ++ toString actual ++ ")"
  | duplicate identifier => "Entry '" ++ identifier ++ "' already exists"

end RegistryError

/-- Why an operation fails: a request is refused, or what it was given has not the form that it has
to have. -/
inductive Failure where
  /-- The request is refused. -/
  | refused (error : RegistryError)
  /-- A field is not among those that may change. -/
  | fixedField (name : String)
  /-- Some fields are not among those that may change. -/
  | fixedFields (names : List String)
  /-- A value is missing or has the wrong type. -/
  | invalidValue
  /-- A text has half of a surrogate pair in it, which cannot be written. -/
  | unwritable
  /-- A text is needed where something else stands. -/
  | notText
  /-- A number or a truth value stands where something with parts is needed. -/
  | notIterable
  /-- A named group of values is needed where something else stands. -/
  | notTable
  /-- A text is no JSON document. -/
  | invalidJson
  /-- A text is no TOML document. -/
  | invalidToml
  /-- A whole number is too large for a double. -/
  | overflow
  /-- An item of a list of pairs has not two parts. -/
  | malformedPair (index length : Nat)
  /-- Something unforeseen happened. -/
  | unexpected (message : String)
  deriving Repr, DecidableEq

/-- The wording of a failure, for those that have one of their own. -/
def Failure.message? : Failure → Option String
  | refused error => some error.message
  | fixedField name => some ("Field '" ++ name ++ "' cannot be updated")
  | fixedFields names => some ("Fields cannot be updated: " ++ ", ".intercalate names)
  | malformedPair index length =>
    some ("dictionary update sequence element #" ++ toString index ++ " has length " ++
      toString length ++ "; 2 is required")
  | unexpected message => some message
  | invalidValue | unwritable | notText | notIterable | notTable | invalidJson | invalidToml
  | overflow => none

/-- A failure of an operation is a refusal of what it was asked for. -/
def refuse (error : RegistryError) : Except Failure α := .error (.refused error)

end ComponentRegistry
