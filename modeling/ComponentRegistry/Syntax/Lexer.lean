import ComponentRegistry.Syntax.Fault
import ComponentRegistry.Syntax.Lexeme

/-! # Reading tokens

One step takes a lexeme off the front of the text and says which token it is, if any. Braces are
kept on a stack, so that a closing brace can tell a block from an expression embedded in a template.
-/

namespace ComponentRegistry

namespace Lexer

/-- What an unmatched opening brace began. -/
inductive Bracket where
  /-- A block, an object or a clause. -/
  | block
  /-- An expression embedded in a template. -/
  | substitution
  deriving Repr, DecidableEq

/-- An unmatched opening brace. -/
structure Enclosure where
  /-- What it began. -/
  bracket : Bracket
  /-- The brace of a block; the beginning of the whole template of an embedded expression. -/
  opened : Position
  deriving Repr, DecidableEq

/-- The cause to report when an enclosure is never closed. -/
def Enclosure.unclosed (e : Enclosure) : Fault :=
  match e.bracket with
  | .block => ⟨.unclosedBrace, e.opened⟩
  | .substitution => ⟨.unterminatedTemplate, e.opened⟩

/-- What one step took off the text. -/
structure Step where
  /-- The kind and the value of the token that was read; nothing for blanks and comments. -/
  found : Option (TokenKind × List Char)
  /-- The characters that were taken off. -/
  lexeme : List Char
  /-- The characters that follow. -/
  rest : List Char
  /-- The braces that are open now. -/
  enclosures : List Enclosure
  deriving Repr, DecidableEq

/-- Marks and operators after which a slash cannot divide. A `<` is not among them, since `</`
closes an element of the markup. -/
def Mark.precedesRegex : Mark → Bool
  | .openParen | .openBracket | .openBrace | .comma | .semicolon | .colon | .equals | .arrow
  | .star => true
  | _ => false

/-- Words that are plain names to the statement grammar and still end no expression. -/
def wordsBeforeRegex : List String :=
  ["return", "typeof", "case", "do", "else", "in", "of", "new", "delete", "void", "throw",
    "instanceof", "yield", "await"]

/-- Whether a slash after a token begins a regular expression instead of dividing. -/
def regexMayFollow : Option Token → Bool
  | none => true
  | some t =>
    match t.kind with
    | .mark m => Mark.precedesRegex m
    | .operator | .keyword .defaultWord | .keyword .exportWord => true
    | .identifier => wordsBeforeRegex.contains t.value
    | _ => false

/-- A step that reads a token whose value is the lexeme itself. -/
def verbatim (kind : TokenKind) (lexeme rest : List Char) (enclosures : List Enclosure) : Step :=
  ⟨some (kind, lexeme), lexeme, rest, enclosures⟩

/-- A step over blanks or a comment. -/
def skipped (lexeme rest : List Char) (enclosures : List Enclosure) : Step :=
  ⟨none, lexeme, rest, enclosures⟩

/-- A stretch of template text after the character that leads into it. -/
def templateStep (opened : Position) (lead : Char) (after : List Char)
    (enclosures : List Enclosure) : Except Fault Step :=
  match Lexeme.templateBody after with
  | none => .error ⟨.unterminatedTemplate, opened⟩
  | some (body, ending, rest) =>
    let enclosures :=
      match ending with
      | .closed => enclosures
      | .substitution => ⟨.substitution, opened⟩ :: enclosures
    .ok ⟨some (.template, body), lead :: body ++ ending.delimiter, rest, enclosures⟩

/-- The kind of a whole word: a keyword, or else a name. -/
def wordKind (word : List Char) : TokenKind :=
  match Keyword.ofSpelling? (String.ofList word) with
  | some keyword => .keyword keyword
  | none => .identifier

/-- A name together with the characters that continue it. -/
def nameStep (c : Char) (after : List Char) (enclosures : List Enclosure) : Step :=
  let word := c :: after.takeWhile Lexeme.continuesName
  verbatim (wordKind word) word (after.dropWhile Lexeme.continuesName) enclosures

/-- A character that begins no longer lexeme. -/
def singleStep (c : Char) (after : List Char) (enclosures : List Enclosure) : Step :=
  match Mark.ofChar? c with
  | some m => verbatim (.mark m) [c] after enclosures
  | none => verbatim .operator [c] after enclosures

/-- A string, or its quote alone when it does not close on its line. -/
def quoteStep (quote : Char) (after : List Char) (enclosures : List Enclosure) : Step :=
  match Lexeme.quotedBody quote after with
  | some (body, rest) =>
    ⟨some (.string, Lexeme.unescape body), quote :: body ++ [quote], rest, enclosures⟩
  | none => verbatim .operator [quote] after enclosures

/-- A regular expression with its flags where one may begin, or else a single slash. -/
def slashStep (previous : Option Token) (after : List Char) (enclosures : List Enclosure) : Step :=
  match if regexMayFollow previous then Lexeme.regexBody false after else none with
  | some (body, rest) =>
    let flags := rest.takeWhile CharacterClass.isAlphanumeric
    verbatim .regex ('/' :: body ++ '/' :: flags) (rest.dropWhile CharacterClass.isAlphanumeric)
      enclosures
  | none => verbatim (.mark .slash) ['/'] after enclosures

/-- A closing brace: the end of a block, or the way back into the text of a template. -/
def closeBraceStep (here : Position) (after : List Char) :
    List Enclosure → Except Fault Step
  | [] => .error ⟨.unexpectedCloseBrace, here⟩
  | ⟨.block, _⟩ :: enclosures => .ok (verbatim (.mark .closeBrace) ['}'] after enclosures)
  | ⟨.substitution, opened⟩ :: enclosures => templateStep opened '}' after enclosures

/-- Whether a numeral begins here: with a digit, or with a point and a digit. -/
def startsNumeral (c : Char) (after : List Char) : Bool :=
  CharacterClass.isDigit c || (c == '.' && (after.head?.any CharacterClass.isDigit))

/-- Take one lexeme off a text that is not empty. -/
def step (previous : Option Token) (enclosures : List Enclosure) (here : Position) (c : Char)
    (after : List Char) : Except Fault Step :=
  if Lexeme.isSpace c then .ok (skipped [c] after enclosures)
  else
    match c, after with
    | '/', '/' :: _ =>
      .ok (skipped ('/' :: after.takeWhile Lexeme.staysOnLine) (after.dropWhile Lexeme.staysOnLine)
        enclosures)
    | '/', '*' :: inside =>
      match Lexeme.blockComment inside with
      | some (body, rest) => .ok (skipped ('/' :: '*' :: body ++ ['*', '/']) rest enclosures)
      | none => .error ⟨.unterminatedComment, here⟩
    | '"', _ => .ok (quoteStep '"' after enclosures)
    | '\x27', _ => .ok (quoteStep '\x27' after enclosures)
    | '\x60', _ => templateStep here '\x60' after enclosures
    | '/', _ => .ok (slashStep previous after enclosures)
    | '{', _ => .ok (verbatim (.mark .openBrace) ['{'] after (⟨.block, here⟩ :: enclosures))
    | '}', _ => closeBraceStep here after enclosures
    | '=', '>' :: rest => .ok (verbatim (.mark .arrow) ['=', '>'] rest enclosures)
    | '=', _ => .ok (verbatim (.mark .equals) ['='] after enclosures)
    | _, _ =>
      if startsNumeral c after then
        .ok (verbatim .number (c :: after.takeWhile Lexeme.continuesNumeral)
          (after.dropWhile Lexeme.continuesNumeral) enclosures)
      else if Lexeme.startsName c then .ok (nameStep c after enclosures)
      else
        match c, after with
        | '.', '.' :: '.' :: rest =>
          .ok (verbatim (.mark .ellipsis) ['.', '.', '.'] rest enclosures)
        | '.', _ => .ok (verbatim (.mark .dot) ['.'] after enclosures)
        | _, _ => .ok (singleStep c after enclosures)

/-- A step cuts the text in two: what it took off, which is not empty, and what follows. -/
def Step.Cuts (s : Step) (text : List Char) : Prop := s.lexeme ≠ [] ∧ s.lexeme ++ s.rest = text

theorem cuts_templateStep {opened : Position} {lead : Char} {after : List Char}
    {enclosures : List Enclosure} {s : Step}
    (h : templateStep opened lead after enclosures = .ok s) : s.Cuts (lead :: after) := by
  unfold templateStep at h
  split at h
  · simp at h
  · next body ending rest hbody =>
    have := Lexeme.templateBody_append hbody
    simp only [Except.ok.injEq] at h
    subst h
    simp [Step.Cuts, ← this]

theorem cuts_quoteStep (quote : Char) (after : List Char) (enclosures : List Enclosure) :
    (quoteStep quote after enclosures).Cuts (quote :: after) := by
  unfold quoteStep
  split
  · next body rest hbody => simp [Step.Cuts, ← Lexeme.quotedBody_append hbody]
  · simp [Step.Cuts, verbatim]

theorem cuts_slashStep (previous : Option Token) (after : List Char) (enclosures : List Enclosure) :
    (slashStep previous after enclosures).Cuts ('/' :: after) := by
  unfold slashStep
  split
  · next body rest hbody =>
    split at hbody
    · simp [Step.Cuts, verbatim, ← Lexeme.regexBody_append hbody]
    · simp at hbody
  · simp [Step.Cuts, verbatim]

theorem cuts_closeBraceStep {here : Position} {after : List Char} {enclosures : List Enclosure}
    {s : Step} (h : closeBraceStep here after enclosures = .ok s) : s.Cuts ('}' :: after) := by
  match enclosures with
  | [] => simp [closeBraceStep] at h
  | ⟨.block, _⟩ :: _ =>
    simp only [closeBraceStep, Except.ok.injEq] at h
    subst h
    simp [Step.Cuts, verbatim]
  | ⟨.substitution, opened⟩ :: _ => exact cuts_templateStep h

theorem cuts_singleStep (c : Char) (after : List Char) (enclosures : List Enclosure) :
    (singleStep c after enclosures).Cuts (c :: after) := by
  unfold singleStep
  split <;> simp [Step.Cuts, verbatim]

/-- Every step cuts the text. -/
theorem cuts_step {previous : Option Token} {enclosures : List Enclosure} {here : Position}
    {c : Char} {after : List Char} {s : Step}
    (h : step previous enclosures here c after = .ok s) : s.Cuts (c :: after) := by
  unfold step at h
  split at h
  · cases h
    simp [Step.Cuts, skipped]
  · split at h
    · cases h
      simp [Step.Cuts, skipped]
    · next inside =>
      split at h
      · next body rest hbody =>
        cases h
        simp [Step.Cuts, skipped, ← Lexeme.blockComment_append hbody]
      · cases h
    · cases h
      exact cuts_quoteStep ..
    · cases h
      exact cuts_quoteStep ..
    · exact cuts_templateStep h
    · cases h
      exact cuts_slashStep ..
    · cases h
      simp [Step.Cuts, verbatim]
    · exact cuts_closeBraceStep h
    · cases h
      simp [Step.Cuts, verbatim]
    · cases h
      simp [Step.Cuts, verbatim]
    · split at h
      · cases h
        simp [Step.Cuts, verbatim]
      · split at h
        · cases h
          simp [Step.Cuts, nameStep, verbatim]
        · split at h
          · cases h
            simp [Step.Cuts, verbatim]
          · cases h
            simp [Step.Cuts, verbatim]
          · cases h
            exact cuts_singleStep ..

theorem length_rest_lt {previous : Option Token} {enclosures : List Enclosure} {here : Position}
    {c : Char} {after : List Char} {s : Step}
    (h : step previous enclosures here c after = .ok s) : s.rest.length < (c :: after).length := by
  obtain ⟨hne, hcut⟩ := cuts_step h
  have := List.length_pos_iff.2 hne
  rw [← hcut, List.length_append]
  omega

/-- The tokens of the rest of a text, after a previous token and inside some open braces. -/
def tokensFrom (previous : Option Token) (enclosures : List Enclosure) (here : Position) :
    List Char → Except Fault TokenStream
  | [] =>
    match enclosures with
    | [] => .ok ⟨[], here⟩
    | e :: _ => .error e.unclosed
  | c :: after =>
    match _h : step previous enclosures here c after with
    | .error fault => .error fault
    | .ok s =>
      let next := here.advance s.lexeme
      match s.found with
      | none => tokensFrom previous s.enclosures next s.rest
      | some (kind, value) =>
        let token : Token := ⟨kind, String.ofList value, String.ofList s.lexeme, here⟩
        (tokensFrom (some token) s.enclosures next s.rest).map (TokenStream.cons token)
termination_by text => text.length
decreasing_by all_goals exact length_rest_lt _h

/-- The line at the very beginning of a text that names its interpreter, if there is one. -/
def interpreterLine (text : List Char) : List Char :=
  match text with
  | '#' :: '!' :: _ => text.takeWhile Lexeme.staysOnLine
  | _ => []

end Lexer

/-- The tokens of a text, with the end of the text after them. -/
def tokenize (text : List Char) : Except Fault TokenStream :=
  let skipped := Lexer.interpreterLine text
  Lexer.tokensFrom none [] (Position.start.advance skipped) (text.drop skipped.length)

end ComponentRegistry
