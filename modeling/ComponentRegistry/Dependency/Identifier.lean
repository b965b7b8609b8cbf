import ComponentRegistry.Error
import ComponentRegistry.Text.Blank
import ComponentRegistry.Text.Lines

/-! # Identifiers

An entry is addressed by its owner and its slug, written with a slash between them.
-/

namespace ComponentRegistry

/-- The address of an entry. -/
structure Identifier where
  /-- Who published it. -/
  owner : String
  /-- Its name among the owner's entries. -/
  slug : String
  deriving Repr, DecidableEq

namespace Identifier

/-- The written form of an address. -/
def text (i : Identifier) : String := i.owner ++ "/" ++ i.slug

/-- Read an address: exactly two parts, neither of them blank. Blanks around the parts do not
count. -/
def parse? (written : String) : Option Identifier :=
  match Lines.splitAt '/' (trimChars written.toList) with
  | [owner, slug] =>
    if (trimChars owner).isEmpty || (trimChars slug).isEmpty then none
    else some ⟨String.ofList (trimChars owner), String.ofList (trimChars slug)⟩
  | _ => none

/-- Read an address, or say that it is malformed. -/
def parse (written : String) : Except RegistryError Identifier :=
  match parse? written with
  | some identifier => .ok identifier
  | none => .error (.malformedIdentifier written)

/-- The written form of what a dependency refers to: a bare slug belongs to the owner of the
dependent entry, anything with a slash stands for itself. -/
def canonical (owner value : String) : String :=
  let reference := trimChars value.toList
  if reference.isEmpty || reference.contains '/' then String.ofList reference
  else owner ++ "/" ++ String.ofList reference

end Identifier

end ComponentRegistry
