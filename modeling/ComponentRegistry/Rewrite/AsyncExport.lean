import ComponentRegistry.Rewrite.Edit
import ComponentRegistry.Syntax.Outline

/-! # Synchronous exports

Demos are rendered at once, so the exported functions of a demo lose their `async` words.
-/

namespace ComponentRegistry

/-- Spaces and tabs. -/
def isInlineBlank (c : Char) : Bool := c == ' ' || c == '\t'

/-- The edit that removes a word together with the spaces and tabs after it. -/
def removeWord (text : List Char) (word : Token) : Edit where
  start := word.start.offset
  stop := word.stop + ((text.drop word.stop).takeWhile isInlineBlank).length
  replacement := []

/-- The edits that make the exports of a module synchronous. -/
def Outline.asyncEdits (text : List Char) (o : Outline) : List Edit :=
  (o.exports.filterMap fun s => s.form.asyncToken).map (removeWord text)

/-- A text whose exported functions are synchronous. -/
def removeAsyncExports (text : List Char) : Except Fault (List Char) :=
  (outline text).map fun o => Edit.applyAll text (o.asyncEdits text)

/-- A default expression that starts with the word `async` loses it whatever follows, here also
the parameter that follows the word and has the same name. -/
theorem removeAsyncExports_again :
    let text := "export default async async => 1".toList
    (removeAsyncExports text).toOption = some "export default async => 1".toList ∧
      (removeAsyncExports "export default async => 1".toList).toOption =
        some "export default => 1".toList := by
  intro text
  decide +kernel

end ComponentRegistry
