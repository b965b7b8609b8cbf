import ComponentRegistry.Decimal.Shortest
import ComponentRegistry.Text.Quoted

/-! # Document values

The values that a JSON or a TOML document can hold, which are kept as they are written until
somebody needs them to be of a certain type. Byte strings are not among them, and neither are texts
with half of a surrogate pair on its own: every text is made of characters.
-/

namespace ComponentRegistry

/-- A value of a document. -/
inductive Value where
  /-- No value. -/
  | null
  /-- A truth value. -/
  | bool (b : Bool)
  /-- A whole number of any size or a double. -/
  | number (q : Quantity)
  /-- A text. -/
  | string (s : String)
  /-- A date or a time of day, in its standard notation. -/
  | moment (written : String)
  /-- A sequence of values. -/
  | list (items : List Value)
  /-- Named values, each name once, in the order of first writing. -/
  | object (fields : List (String × Value))
  deriving Repr, Inhabited

namespace Value

/-- A whole number. -/
def int (n : Int) : Value := .number (.whole n)

/-- A double. -/
def float (d : Binary64) : Value := .number (.double d)

/-- A list of texts. -/
def strings (items : List String) : Value := .list (items.map .string)

/-- Write a field: in its place if it has one, at the end if not. -/
def writeField (name : String) (value : Value) : List (String × Value) → List (String × Value)
  | [] => [(name, value)]
  | (k, v) :: rest =>
    if k = name then (k, value) :: rest else (k, v) :: writeField name value rest

/-- The fields made of a list of pairs, where a name that stands twice keeps its first place and
takes its last value. -/
def fieldsOf (pairs : List (String × Value)) : List (String × Value) :=
  pairs.foldl (fun fields (name, value) => writeField name value fields) []

/-- The value of a field in a list of fields. -/
def field? (fields : List (String × Value)) (name : String) : Option Value :=
  match fields with
  | [] => none
  | (k, v) :: rest => if k = name then some v else field? rest name

/-- The value of a field, when there are fields and this one is among them. -/
def get? : Value → String → Option Value
  | .object fields, name => field? fields name
  | _, _ => none

/-- The text of a value that is one. -/
def string? : Value → Option String
  | .string s => some s
  | _ => none

/-- Values that count as given: not nothing, not false, not zero, and not empty. -/
def isGiven : Value → Bool
  | .null => false
  | .bool b => b
  | .number q => !q.sameNumber (.whole 0)
  | .string s => !s.isEmpty
  | .moment _ => true
  | .list items => !items.isEmpty
  | .object fields => !fields.isEmpty

/-- A truth value as a number, and a number as itself. -/
def asNumber? : Value → Option Quantity
  | .bool b => some (.whole (if b then 1 else 0))
  | .number q => some q
  | _ => none

/-- Whether two scalar values are the same key: the same text, or the same number, where truth
values count as one and zero. What is no number is the same as itself. -/
def sameKey (a b : Value) : Bool :=
  match a, b with
  | .null, .null => true
  | .string s, .string t => s == t
  | .moment s, .moment t => s == t
  | .number (.double .nan), .number (.double .nan) => true
  | _, _ =>
    match a.asNumber?, b.asNumber? with
    | some p, some q => p.sameNumber q
    | _, _ => false

mutual

/-- The text of a value inside another one: texts are quoted there. -/
def inner : Value → String
  | .string s => quoted s
  | .null => "None"
  | .bool b => if b then "True" else "False"
  | .number q => q.text
  | .moment m => m
  | .list items => "[" ++ innerItems items ++ "]"
  | .object fields => "\x7b" ++ innerFields fields ++ "\x7d"

/-- The texts of the items of a list, separated by commas. -/
def innerItems : List Value → String
  | [] => ""
  | [v] => inner v
  | v :: rest => inner v ++ ", " ++ innerItems rest

/-- The texts of fields, separated by commas. -/
def innerFields : List (String × Value) → String
  | [] => ""
  | [(k, v)] => quoted k ++ ": " ++ inner v
  | (k, v) :: rest => quoted k ++ ": " ++ inner v ++ ", " ++ innerFields rest

end

/-- The text of a value on its own. -/
def text : Value → String
  | .string s => s
  | v => inner v

end Value

end ComponentRegistry
