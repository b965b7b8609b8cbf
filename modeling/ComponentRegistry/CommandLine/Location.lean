import ComponentRegistry.Text.Lines

/-! # Locations

Paths of files, as they are shown and as they are followed.
-/

namespace ComponentRegistry

/-- A path, taken apart. -/
structure Location where
  /-- What a path begins with that does not start at the working directory: one slash or two. -/
  root : String
  /-- The names on the way, without those that stay in place. -/
  names : List String
  deriving Repr, DecidableEq

namespace Location

/-- Take a path apart. Exactly two slashes at its front are a root of their own. -/
def ofText (path : String) : Location where
  root :=
    match path.toList with
    | '/' :: '/' :: '/' :: _ => "/"
    | '/' :: '/' :: _ => "//"
    | '/' :: _ => "/"
    | _ => ""
  names :=
    ((Lines.splitAt '/' path.toList).map String.ofList).filter fun name =>
      name != "" && name != "."

/-- The shown form of a path: no name twice, none that stays in place. -/
def text (l : Location) : String :=
  if l.root == "" && l.names.isEmpty then "." else l.root ++ "/".intercalate l.names

/-- The directory in which something lies. -/
def parent (l : Location) : Location := { l with names := l.names.dropLast }

/-- Follow names that lead back. Nothing is known above the place where a path begins. -/
def follow (reached : List String) : List String → List String
  | [] => reached.reverse
  | ".." :: rest =>
    match reached with
    | name :: above => if name == ".." then follow (".." :: reached) rest else follow above rest
    | [] => follow [".."] rest
  | name :: rest => follow (name :: reached) rest

/-- Where a path leads to. -/
def target (l : Location) : Location := { l with names := follow [] l.names }

/-- The locations of the directories on the way to a location, outermost first. -/
def above (l : Location) : List Location :=
  (List.range l.names.length).map fun n => { l with names := l.names.take n }

end Location

end ComponentRegistry
