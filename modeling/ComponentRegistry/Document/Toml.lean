import ComponentRegistry.Document.Toml.Moment
import ComponentRegistry.Document.Toml.Number
import ComponentRegistry.Document.Toml.Table

/-! # TOML documents

Reading a TOML document: one statement a line, which writes a value or opens a table.
-/

namespace ComponentRegistry.Toml

/-- A value that has no values in it, and what follows. -/
def scalar? (text : List Char) : Option (Value × List Char) :=
  match text with
  | 't' :: 'r' :: 'u' :: 'e' :: rest => some (.bool true, rest)
  | 'f' :: 'a' :: 'l' :: 's' :: 'e' :: rest => some (.bool false, rest)
  | _ =>
    match quotedText? text with
    | some (s, rest) => some (.string (String.ofList s), rest)
    | none =>
      match moment text with
      | .found written rest => some (.moment written, rest)
      | .impossible => none
      | .other => (number? text).map fun (q, rest) => (.number q, rest)

mutual

/-- A value at the front of a text. -/
def value? (text : List Char) : Option (Parsed text Value) :=
  match text with
  | '[' :: rest =>
    match skipFiller? rest with
    | none => none
    | some (']' :: after) => parsed? _ (.list []) after
    | some inside =>
      if inside.length < ('[' :: rest).length then
        (items? inside).bind fun p => parsed? _ (.list p.value) p.rest
      else none
  | '{' :: rest =>
    match skipBlanks rest with
    | '}' :: after => parsed? _ (.object []) after
    | inside =>
      if inside.length < ('{' :: rest).length then
        (fields? {} inside).bind fun p => parsed? _ (.object p.value) p.rest
      else none
  | other =>
    match scalar? other with
    | some (value, rest) => parsed? other value rest
    | none => none
termination_by (text.length, 0)

/-- The items of a list up to its closing bracket. A comma may stand after the last one. -/
def items? (text : List Char) : Option (Parsed text (List Value)) :=
  match value? text with
  | none => none
  | some first =>
    match skipFiller? first.rest with
    | some (']' :: rest) => parsed? text [first.value] rest
    | some (',' :: rest) =>
      match skipFiller? rest with
      | some (']' :: after) => parsed? text [first.value] after
      | some next =>
        if next.length < text.length then
          (items? next).bind fun p => parsed? text (first.value :: p.value) p.rest
        else none
      | none => none
    | _ => none
termination_by (text.length, 1)

/-- The fields of a table within a value up to its closing brace. -/
def fields? (draft : InlineDraft) (text : List Char) : Option (Parsed text Fields) :=
  match key? text with
  | some (key, '=' :: afterKey) =>
    if (skipBlanks afterKey).length < text.length then
      match value? (skipBlanks afterKey) with
      | none => none
      | some first =>
        match draft.write? key first.value with
        | none => none
        | some draft =>
          match skipBlanks first.rest with
          | '}' :: rest => parsed? text draft.fields rest
          | ',' :: rest =>
            if (skipBlanks rest).length < text.length then
              (fields? draft (skipBlanks rest)).bind fun p => parsed? text p.value p.rest
            else none
          | _ => none
    else none
  | _ => none
termination_by (text.length, 1)

end

/-- A line that writes a value. -/
def assignment? (draft : Draft) (text : List Char) : Option (Draft × List Char) := do
  let (key, rest) ← key? text
  let rest ← expect? '=' rest
  let p ← value? (skipBlanks rest)
  let draft ← draft.write? key p.value
  pure (draft, p.rest)

/-- A line that opens a table. -/
def header? (draft : Draft) (text : List Char) : Option (Draft × List Char) :=
  match text with
  | '[' :: '[' :: rest => do
    let (key, rest) ← key? (skipBlanks rest)
    let draft ← draft.addTable? key
    let rest ← (expect? ']' rest).bind (expect? ']')
    pure (draft, rest)
  | '[' :: rest => do
    let (key, rest) ← key? (skipBlanks rest)
    let draft ← draft.openTable? key
    let rest ← expect? ']' rest
    pure (draft, rest)
  | _ => none

/-- One line, up to its end. A line may be empty, and may end in a comment. -/
def line? (draft : Draft) (text : List Char) : Option (Draft × List Char) := do
  let (draft, rest) ←
    match text with
    | '[' :: _ => header? draft text
    | c :: _ => if c == '#' || c == '\n' then some (draft, text) else assignment? draft text
    | [] => some (draft, [])
  let rest ← skipComment? (skipBlanks rest)
  pure (draft, rest)

/-- The lines of a document. -/
def lines? (draft : Draft) (text : List Char) : Option Fields :=
  match line? draft (skipBlanks text) with
  | none => none
  | some (draft, []) => some draft.fields
  | some (draft, '\n' :: rest) =>
    if rest.length < text.length then lines? draft rest else none
  | some _ => none
termination_by text.length

/-- The fields of a whole document, which has to be made of lines that end in line feeds. -/
def parse? (text : List Char) : Option Fields := lines? {} text

end ComponentRegistry.Toml
