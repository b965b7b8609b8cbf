import ComponentRegistry.Document.Toml.Text
import ComponentRegistry.Document.Value

/-! # Tables of TOML documents

Writing values into nested tables, and keeping account of what may not be written any more: a table
is opened only once, and nothing is added to a value that was written as a whole.
-/

namespace ComponentRegistry.Toml

/-- The fields of a table. -/
abbrev Fields := List (String × Value)

/-- Change the table that a key leads to, and make the tables on the way that are missing. When
`intoLists` is set, a list of tables on the way stands for its last table. Nothing, if something
else than a table is on the way. -/
def changeAt (intoLists : Bool) (change : Fields → Option Fields) :
    (key : Key) → (fields : Fields) → Option Fields
  | [], fields => change fields
  | name :: rest, fields =>
    match Value.field? fields name with
    | none =>
      (changeAt intoLists change rest []).map fun inner =>
        Value.writeField name (.object inner) fields
    | some (.object inner) =>
      (changeAt intoLists change rest inner).map fun inner =>
        Value.writeField name (.object inner) fields
    | some (.list items) =>
      match items.getLast? with
      | some (.object inner) =>
        if intoLists then
          (changeAt intoLists change rest inner).map fun inner =>
            Value.writeField name (.list (items.dropLast ++ [.object inner])) fields
        else none
      | _ => none
    | some _ => none

/-- Write a new field of a table. -/
def addField? (name : String) (value : Value) (fields : Fields) : Option Fields :=
  match Value.field? fields name with
  | none => some (fields ++ [(name, value)])
  | some _ => none

/-- Add an empty table to a list of tables, which may be missing. -/
def addTable? (name : String) (fields : Fields) : Option Fields :=
  match Value.field? fields name with
  | none => some (fields ++ [(name, .list [.object []])])
  | some (.list items) => some (Value.writeField name (.list (items ++ [.object []])) fields)
  | some _ => none

/-- Whether a value was written with everything that is in it. -/
def isClosed : Value → Bool
  | .list _ | .object _ => true
  | .null | .bool _ | .number _ | .string _ | .moment _ => false

/-- The beginnings of a key, from its first name alone to all but its last. -/
def beginnings : Key → List Key
  | [] | [_] => []
  | name :: rest => [name] :: (beginnings rest).map (name :: ·)

/-- The key without its last name, and its last name. -/
def splitLast : Key → Key × String
  | [] => ([], "")
  | [name] => ([], name)
  | name :: rest => let (init, last) := splitLast rest; (name :: init, last)

/-- What may not be written any more. -/
structure Marks where
  /-- Keys of tables that were opened. -/
  opened : List Key := []
  /-- Keys of values that were written as a whole. -/
  closed : List Key := []
  /-- Keys of tables that count as opened from the next header on. -/
  pending : List Key := []

namespace Marks

/-- Whether a table was opened. -/
def isOpened (marks : Marks) (key : Key) : Bool := marks.opened.contains key

/-- Whether a key leads to a value that was written as a whole, or into one. -/
def isClosed (marks : Marks) (key : Key) : Bool := marks.closed.any fun k => k.isPrefixOf key

/-- Count pending tables as opened. -/
def settle (marks : Marks) : Marks :=
  { marks with opened := marks.pending ++ marks.opened, pending := [] }

/-- Mark a table as opened. -/
def markOpened (marks : Marks) (key : Key) : Marks := { marks with opened := key :: marks.opened }

/-- Mark a value as written as a whole. -/
def markClosed (marks : Marks) (key : Key) : Marks := { marks with closed := key :: marks.closed }

/-- Forget a table and all that is in it. -/
def forget (marks : Marks) (key : Key) : Marks :=
  { marks with
    opened := marks.opened.filter fun k => !key.isPrefixOf k
    closed := marks.closed.filter fun k => !key.isPrefixOf k }

end Marks

/-- A document that is being read. -/
structure Draft where
  /-- What has been read. -/
  fields : Fields := []
  /-- What may not be written any more. -/
  marks : Marks := {}
  /-- The key of the table that values are written into. -/
  header : Key := []

namespace Draft

/-- Open a table. -/
def openTable? (draft : Draft) (key : Key) : Option Draft :=
  let marks := draft.marks.settle
  if marks.isOpened key || marks.isClosed key then none
  else (changeAt true some key draft.fields).map fun fields => ⟨fields, marks.markOpened key, key⟩

/-- Add a table to a list of tables and open it. -/
def addTable? (draft : Draft) (key : Key) : Option Draft :=
  let marks := draft.marks.settle
  if marks.isClosed key then none
  else
    let (way, last) := splitLast key
    (changeAt true (Toml.addTable? last) way draft.fields).map fun fields =>
      ⟨fields, (marks.forget key).markOpened key, key⟩

/-- Write a value into the open table. -/
def write? (draft : Draft) (key : Key) (value : Value) : Option Draft :=
  let onTheWay := (beginnings key).map (draft.header ++ ·)
  let (way, last) := splitLast key
  if onTheWay.any draft.marks.isOpened || draft.marks.isClosed (draft.header ++ way) then none
  else
    (changeAt true (addField? last value) (draft.header ++ way) draft.fields).map fun fields =>
      let marks := { draft.marks with pending := onTheWay ++ draft.marks.pending }
      { draft with
        fields
        marks := if Toml.isClosed value then marks.markClosed (draft.header ++ key) else marks }

end Draft

/-- A table within a value that is being read. -/
structure InlineDraft where
  /-- What has been read. -/
  fields : Fields := []
  /-- Keys of values that were written as a whole. -/
  marks : Marks := {}

/-- Write a value into a table within a value. -/
def InlineDraft.write? (draft : InlineDraft) (key : Key) (value : Value) : Option InlineDraft :=
  let (way, last) := splitLast key
  if draft.marks.isClosed key then none
  else
    (changeAt false (addField? last value) way draft.fields).map fun fields =>
      ⟨fields, if isClosed value then draft.marks.markClosed key else draft.marks⟩

end ComponentRegistry.Toml
