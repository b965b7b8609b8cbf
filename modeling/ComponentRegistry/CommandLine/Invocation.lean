import ComponentRegistry.CommandLine.Arguments

/-! # Invocations

What a list of arguments asks for. The options of the whole program stand before the command, those
of the command anywhere after it.
-/

namespace ComponentRegistry.CommandLine

/-- Where sources come from, and what is known about their dependencies. -/
structure SubmissionArguments where
  /-- The path of the component's text. -/
  component : String
  /-- The path of the demo's text. -/
  demo : String
  /-- The path of a package file. -/
  packageFile : Option String
  /-- Entries for local paths, as a document. -/
  internal : Option String

/-- A command. -/
inductive Command where
  /-- Show what is known about a submission. -/
  | analyze (sources : SubmissionArguments)
  /-- Store a submission as a new entry. -/
  | publish (identifier : String) (sources : SubmissionArguments) (registry : String)
    (name description database : Option String)
  /-- Show the manifest of an entry. -/
  | resolve (identifier : String) (database : Option String)

/-- What is to be done after the settings have been read. -/
inductive Request where
  /-- A command. -/
  | command (c : Command)
  /-- Show how to use a command. -/
  | help
  /-- Refuse the arguments. -/
  | misuse

/-- What a list of arguments asks for. -/
inductive Invocation where
  /-- Show the version of the program. -/
  | version
  /-- Show how to use the program. -/
  | help
  /-- Refuse the arguments. -/
  | misuse
  /-- Read the settings, from a certain file if one is named, and go on. -/
  | request (settings : Option String) (r : Request)

/-- The option that asks for help. -/
def helpRule : OptionRule := { key := "help", longName := "help", takesValue := false }

/-- An option with a long name and a value. -/
def valueRule (name : String) : OptionRule := { key := name, longName := name }

/-- The rules for the options of the whole program. -/
def programGrammar : Grammar where
  options :=
    [{ key := "config", longName := "config", letter := some 'c' }, valueRule "log-level",
      { key := "version", longName := "version", letter := some 'v', takesValue := false },
      helpRule]
  optionsAnywhere := false

/-- The rules for the options of a command. -/
def commandGrammar (names : List String) : Grammar where
  options := helpRule :: names.map valueRule
  optionsAnywhere := true

/-- The options that tell what is known about a submission. -/
def submissionOptions : List String := ["package-json", "internal"]

/-- The sources that arguments name. -/
def sourcesOf (a : Arguments) (component demo : String) : SubmissionArguments :=
  ⟨component, demo, a.value? "package-json", a.value? "internal"⟩

/-- Read the arguments of a command. -/
def requestOf (options : List String) (arguments : List String)
    (read : Arguments → Option Command) : Request :=
  match Arguments.ofList? (commandGrammar options) arguments with
  | none => .misuse
  | some a =>
    if (a.value? "help").isSome then .help
    else
      match read a with
      | some c => .command c
      | none => .misuse

/-- The request that the name of a command and its arguments make; nothing if there is no such
command. -/
def request? (name : String) (arguments : List String) : Option Request :=
  match name with
  | "analyze" =>
    some (requestOf submissionOptions arguments fun a =>
      match a.positional with
      | [component, demo] => some (.analyze (sourcesOf a component demo))
      | _ => none)
  | "publish" =>
    let options := submissionOptions ++ ["registry", "name", "description", "db"]
    some (requestOf options arguments fun a =>
      match a.positional with
      | [identifier, component, demo] =>
        some (.publish identifier (sourcesOf a component demo) ((a.value? "registry").getD "ui")
          (a.value? "name") (a.value? "description") (a.value? "db"))
      | _ => none)
  | "resolve" =>
    some (requestOf ["db"] arguments fun a =>
      match a.positional with
      | [identifier] => some (.resolve identifier (a.value? "db"))
      | _ => none)
  | _ => none

/-- What a list of arguments asks for. The version and help come before everything else. -/
def Invocation.ofArguments (arguments : List String) : Invocation :=
  match Arguments.ofList? programGrammar arguments with
  | none => .misuse
  | some a =>
    match a.firstOf ["version", "help"], a.positional with
    | some "version", _ => .version
    | some _, _ => .help
    | none, [] => .misuse
    | none, name :: rest =>
      match request? name rest with
      | some r => .request (a.value? "config") r
      | none => .misuse

end ComponentRegistry.CommandLine
