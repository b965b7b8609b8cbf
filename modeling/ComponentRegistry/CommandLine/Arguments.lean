/-! # Arguments of the command line

Taking a list of arguments apart. Options begin with a dash; a value follows its option, or stands
in the same argument: after an equals sign when the option's name is long, right behind the name
when it is a single letter. Two dashes alone end the options.
-/

namespace ComponentRegistry.CommandLine

/-- An option that a command knows. -/
structure OptionRule where
  /-- What the option is about. -/
  key : String
  /-- Its name after two dashes. -/
  longName : String
  /-- Its letter after one dash. -/
  letter : Option Char := none
  /-- Whether a value belongs to it. -/
  takesValue : Bool := true

/-- The rules of a command. -/
structure Grammar where
  /-- The options that it knows. -/
  options : List OptionRule
  /-- Whether options may stand after the first argument that is none. -/
  optionsAnywhere : Bool

/-- A list of arguments, taken apart. -/
structure Arguments where
  /-- Options with their values, in order; an option without a value has an empty one. -/
  given : List (String × String) := []
  /-- The arguments that are no options, in order. -/
  positional : List String := []

namespace Arguments

/-- Put an option in front. -/
def addOption (key value : String) (a : Arguments) : Arguments :=
  { a with given := (key, value) :: a.given }

/-- Put an argument that is no option in front. -/
def addPositional (argument : String) (a : Arguments) : Arguments :=
  { a with positional := argument :: a.positional }

/-- The value of an option. The last one counts. -/
def value? (a : Arguments) (key : String) : Option String :=
  (a.given.reverse.find? fun (k, _) => k == key).map Prod.snd

/-- The first of some options that is among given ones. -/
def firstOf (a : Arguments) (keys : List String) : Option String :=
  (a.given.find? fun (k, _) => keys.contains k).map Prod.fst

end Arguments

/-- An argument up to its first equals sign, and what follows the sign. -/
def splitAtEquals (argument : List Char) : List Char × Option (List Char) :=
  match argument.dropWhile (· != '=') with
  | [] => (argument, none)
  | _ :: value => (argument.takeWhile (· != '='), some value)

/-- Options with their values, and the option whose value is the next argument, if there is one. -/
structure Reading where
  /-- Options that are complete. -/
  given : List (String × String) := []
  /-- The option that waits for its value. -/
  waiting : Option String := none

/-- Take letters after one dash apart. What stands behind the letter of an option with a value is
that value. Nothing if a letter is unknown. -/
def letters? (grammar : Grammar) : List Char → Option Reading
  | [] => some {}
  | c :: rest => do
    let rule ← grammar.options.find? fun rule => rule.letter == some c
    if rule.takesValue then
      if rest.isEmpty then pure { waiting := some rule.key }
      else pure { given := [(rule.key, String.ofList rest)] }
    else
      let reading ← letters? grammar rest
      pure { reading with given := (rule.key, "") :: reading.given }

/-- Take what stands after two dashes apart; nothing if the name is unknown, or if it has a value
that does not belong to it. -/
def long? (grammar : Grammar) (afterDashes : List Char) : Option Reading := do
  let (name, value) := splitAtEquals afterDashes
  let rule ← grammar.options.find? fun rule => rule.longName.toList == name
  match rule.takesValue, value with
  | true, some value => pure { given := [(rule.key, String.ofList value)] }
  | true, none => pure { waiting := some rule.key }
  | false, none => pure { given := [(rule.key, "")] }
  | false, some _ => none

/-- The options in an argument that begins with a dash; nothing if it has none. -/
def optionsIn? (grammar : Grammar) (argument : List Char) : Option (Option Reading) :=
  match argument with
  | '-' :: '-' :: long => some (long? grammar long)
  | '-' :: c :: more => some (letters? grammar (c :: more))
  | _ => none

namespace Arguments

/-- Put several options in front. -/
def addOptions (given : List (String × String)) (a : Arguments) : Arguments :=
  { a with given := given ++ a.given }

/-- Take arguments apart while an option may be waiting for its value. -/
def read? (grammar : Grammar) : (waiting : Option String) → List String → Option Arguments
  | some _, [] => none
  | some key, value :: rest => (read? grammar none rest).map (addOption key value)
  | none, [] => some {}
  | none, argument :: rest =>
    if argument == "--" then some { positional := rest }
    else
      match optionsIn? grammar argument.toList with
      | some none => none
      | some (some reading) =>
        (read? grammar reading.waiting rest).map (addOptions reading.given)
      | none =>
        if grammar.optionsAnywhere then (read? grammar none rest).map (addPositional argument)
        else some { positional := argument :: rest }

/-- Take a list of arguments apart; nothing if it breaks the rules. -/
def ofList? (grammar : Grammar) (arguments : List String) : Option Arguments :=
  read? grammar none arguments

end Arguments

end ComponentRegistry.CommandLine
