import ComponentRegistry.Text.CharacterClass
import ComponentRegistry.Text.Blank

/-! # Lexemes

How far each sort of lexeme reaches. Every function here cuts its lexeme off the front of the rest
of the text and gives back what was cut off and what follows; a law beside it says that nothing is
lost.
-/

namespace ComponentRegistry.Lexeme

/-- The characters that may stand between tokens outside of comments. -/
def isSpace (c : Char) : Bool :=
  c == ' ' || c == '\t' || c == '\r' || c == '\n' || c == '\uFEFF'

/-- Characters that begin a name. -/
def startsName (c : Char) : Bool := CharacterClass.isLetter c || c == '_' || c == '$'

/-- Characters that continue a name. -/
def continuesName (c : Char) : Bool := CharacterClass.isAlphanumeric c || c == '_' || c == '$'

/-- Characters that continue a numeral, whatever its notation. -/
def continuesNumeral (c : Char) : Bool := CharacterClass.isAlphanumeric c || c == '.' || c == '_'

/-- Characters of a line: a line comment reaches to the next line feed. -/
def staysOnLine (c : Char) : Bool := c != '\n'

/-- The body of a block comment and what follows its end, when it ends. -/
def blockComment : List Char → Option (List Char × List Char)
  | [] => none
  | '*' :: '/' :: rest => some ([], rest)
  | c :: rest => (blockComment rest).map fun (body, after) => (c :: body, after)

/-- The body of a string and what follows its closing quote, when the quote closes on the same line.
An escaped character, a line feed included, never closes the string. -/
def quotedBody (quote : Char) : List Char → Option (List Char × List Char)
  | [] => none
  | '\n' :: _ => none
  | '\\' :: c :: rest => (quotedBody quote rest).map fun (body, after) => ('\\' :: c :: body, after)
  | c :: rest =>
    if c = quote then some ([], rest)
    else (quotedBody quote rest).map fun (body, after) => (c :: body, after)

/-- What an escaped character stands for: a line feed joins two lines and stands for nothing. -/
def unescaped (c : Char) : List Char :=
  if c = 'n' then ['\n'] else if c = 't' then ['\t'] else if c = '\n' then [] else [c]

/-- The text that the body of a string says. -/
def unescape : List Char → List Char
  | '\\' :: c :: rest => unescaped c ++ unescape rest
  | c :: rest => c :: unescape rest
  | [] => []

/-- How a stretch of template text ends. -/
inductive TemplateEnd where
  /-- At the closing quote of the template. -/
  | closed
  /-- At the opening of an embedded expression. -/
  | substitution
  deriving Repr, DecidableEq

/-- The characters that end a stretch of template text. -/
def TemplateEnd.delimiter : TemplateEnd → List Char
  | .closed => ['\x60']
  | .substitution => ['$', '{']

/-- A stretch of template text, how it ends and what follows, when it ends. -/
def templateBody : List Char → Option (List Char × TemplateEnd × List Char)
  | [] => none
  | '\\' :: c :: rest =>
    (templateBody rest).map fun (body, ending, after) => ('\\' :: c :: body, ending, after)
  | '\x60' :: rest => some ([], .closed, rest)
  | '$' :: '{' :: rest => some ([], .substitution, rest)
  | c :: rest => (templateBody rest).map fun (body, ending, after) => (c :: body, ending, after)

/-- Whether a character class is open after one more character of a regular expression. -/
def classAfter (inClass : Bool) (c : Char) : Bool :=
  if c = '[' then true else if c = ']' then false else inClass

/-- The body of a regular expression and what follows its closing slash, when it closes on the same
line. A slash inside a character class does not close it. -/
def regexBody (inClass : Bool) : List Char → Option (List Char × List Char)
  | [] => none
  | '\n' :: _ => none
  | ['\\'] => none
  | '\\' :: '\n' :: _ => none
  | '\\' :: c :: rest =>
    (regexBody inClass rest).map fun (body, after) => ('\\' :: c :: body, after)
  | c :: rest =>
    if c = '/' ∧ inClass = false then some ([], rest)
    else (regexBody (classAfter inClass c) rest).map fun (body, after) => (c :: body, after)

theorem blockComment_append {text body rest : List Char}
    (h : blockComment text = some (body, rest)) :
    body ++ '*' :: '/' :: rest = text := by
  fun_induction blockComment text generalizing body with
  | case1 => simp at h
  | case2 rest' => simp_all
  | case3 c rest' _ ih =>
    obtain ⟨⟨b, a⟩, hb, heq⟩ := Option.map_eq_some_iff.1 h
    simp only [Prod.mk.injEq] at heq
    obtain ⟨rfl, rfl⟩ := heq
    simp [ih hb]

theorem quotedBody_append {quote : Char} {text body rest : List Char}
    (h : quotedBody quote text = some (body, rest)) : body ++ quote :: rest = text := by
  fun_induction quotedBody quote text generalizing body with
  | case1 => simp at h
  | case2 => simp at h
  | case3 c rest' ih =>
    obtain ⟨⟨b, a⟩, hb, heq⟩ := Option.map_eq_some_iff.1 h
    simp only [Prod.mk.injEq] at heq
    obtain ⟨rfl, rfl⟩ := heq
    simp [ih hb]
  | case4 => simp_all
  | case5 c rest' _ _ _ ih =>
    obtain ⟨⟨b, a⟩, hb, heq⟩ := Option.map_eq_some_iff.1 h
    simp only [Prod.mk.injEq] at heq
    obtain ⟨rfl, rfl⟩ := heq
    simp [ih hb]

theorem templateBody_append {text body rest : List Char} {ending : TemplateEnd}
    (h : templateBody text = some (body, ending, rest)) :
    body ++ ending.delimiter ++ rest = text := by
  fun_induction templateBody text generalizing body with
  | case1 => simp at h
  | case2 c rest' ih =>
    obtain ⟨⟨b, e, a⟩, hb, heq⟩ := Option.map_eq_some_iff.1 h
    simp only [Prod.mk.injEq] at heq
    obtain ⟨rfl, rfl, rfl⟩ := heq
    have := ih hb
    simp_all
  | case3 =>
    obtain ⟨rfl, rfl, rfl⟩ : _ ∧ _ ∧ _ := by simpa using h
    rfl
  | case4 =>
    obtain ⟨rfl, rfl, rfl⟩ : _ ∧ _ ∧ _ := by simpa using h
    rfl
  | case5 c rest' _ _ _ ih =>
    obtain ⟨⟨b, e, a⟩, hb, heq⟩ := Option.map_eq_some_iff.1 h
    simp only [Prod.mk.injEq] at heq
    obtain ⟨rfl, rfl, rfl⟩ := heq
    have := ih hb
    simp_all

theorem regexBody_append {inClass : Bool} {text body rest : List Char}
    (h : regexBody inClass text = some (body, rest)) : body ++ '/' :: rest = text := by
  fun_induction regexBody inClass text generalizing body with
  | case1 => simp at h
  | case2 => simp at h
  | case3 => simp at h
  | case4 => simp at h
  | case5 inClass c rest' _ ih =>
    obtain ⟨⟨b, a⟩, hb, heq⟩ := Option.map_eq_some_iff.1 h
    simp only [Prod.mk.injEq] at heq
    obtain ⟨rfl, rfl⟩ := heq
    simp [ih hb]
  | case6 => simp_all
  | case7 inClass c rest' _ _ _ _ _ ih =>
    obtain ⟨⟨b, a⟩, hb, heq⟩ := Option.map_eq_some_iff.1 h
    simp only [Prod.mk.injEq] at heq
    obtain ⟨rfl, rfl⟩ := heq
    simp [ih hb]

end ComponentRegistry.Lexeme
