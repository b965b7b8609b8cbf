import ComponentRegistry.Manifest
import ComponentRegistry.Serving.Retry

/-! # Requests

What the registry answers to a request: the manifest of an entry, or the reason why there is none.
There is never a part of a manifest.
-/

namespace ComponentRegistry

/-- How the registry serves. -/
structure ServerSettings where
  /-- The extension of the files of a manifest. -/
  fileExtension : String := Manifest.defaultExtension
  /-- How often it is tried to reach the store. -/
  retries : RetryPolicy := {}
  deriving Repr

/-- What requests are served from. -/
structure Backing where
  /-- What can be read once the store is reached. -/
  catalog : Catalog
  /-- What goes wrong with the first read of an attempt, counted from zero. -/
  trouble : Nat → Option Failure := fun _ => none

/-- The manifest of an entry, as an attempt finds it. -/
def Backing.manifest (backing : Backing) (identifier : Identifier) (fileExtension : String)
    (attempt : Nat) : Except Failure Manifest :=
  match backing.trouble attempt with
  | some failure => .error failure
  | none => (backing.catalog.manifest identifier fileExtension).mapError .refused

/-- What a path leads to. -/
inductive Route where
  /-- Whether the registry is alive. -/
  | health
  /-- An entry. -/
  | item (identifier : Identifier)
  deriving Repr, DecidableEq

namespace Route

/-- The route of a path. An entry's path has exactly two parts after `/r/`, neither of them empty.
One line feed at the end of a path does not count. -/
def ofPath? (path : String) : Option Route :=
  if path == "/health" || path == "/health\n" then some .health
  else
    match Lines.splitAt '/' path.toList with
    | [[], ['r'], owner, slug] =>
      if owner.isEmpty || slug.isEmpty then none
      else some (.item ⟨String.ofList owner, String.ofList slug⟩)
    | _ => none

end Route

/-- An answer to a request. -/
structure Response where
  /-- The status code. -/
  status : Nat
  /-- The document that is sent. -/
  body : Value
  /-- The delays before it could be sent. -/
  delays : List Quantity := []

namespace Response

/-- An answer that gives a reason. -/
def reason (status : Nat) (message : String) : Response where
  status := status
  body := .object [("error", .string message)]

/-- An answer about the request itself. -/
def detail (status : Nat) (message : String) : Response where
  status := status
  body := .object [("detail", .string message)]

end Response

/-- The status code for an error: 404 for what is not there, 503 while the store is away. -/
def RegistryError.status : RegistryError → Nat
  | .missingComponent | .malformedIdentifier _ | .missingDependency _ | .missingSource _
  | .blankDependency .. | .timedOut .. | .missingEntry _ => 404
  | .unavailable _ => 503
  | .unreadable _ | .anonymousDemo | .ambiguousDemo _ | .unresolvedDependencies _
  | .conflict .. | .duplicate _ => 500

/-- What is said about a failure that nobody foresaw. -/
def unforeseenMessage (failure : Failure) : String :=
  let default := "An unexpected error occurred"
  match failure with
  | .overflow => "int too large to convert to float"
  | other =>
    match other.message? with
    | some message => if message.isEmpty then default else message
    | none => default

/-- The answer to a failure. -/
def Response.ofFailure : Failure → Response
  | .refused error => .reason error.status error.message
  | failure => .reason 500 (unforeseenMessage failure)

/-- Serve an entry. -/
def serveItem (settings : ServerSettings) (backing : Backing) (identifier : Identifier) :
    Response :=
  let run := settings.retries.run (backing.manifest identifier settings.fileExtension)
  let response : Response :=
    match run.result with
    | .ok manifest => { status := 200, body := manifest.document }
    | .error failure => Response.ofFailure failure
  { response with delays := run.delays }

/-- Answer a request. -/
def respond (settings : ServerSettings) (backing : Backing) (method path : String) : Response :=
  match Route.ofPath? path with
  | none => .detail 404 "Not Found"
  | some route =>
    if method != "GET" then .detail 405 "Method Not Allowed"
    else
      match route with
      | .health => { status := 200, body := .object [("status", .string "ok")] }
      | .item identifier => serveItem settings backing identifier

end ComponentRegistry
