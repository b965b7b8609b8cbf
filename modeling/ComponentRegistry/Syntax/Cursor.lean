import ComponentRegistry.Outcome
import ComponentRegistry.Syntax.Fault

/-! # Cursors

A place between two tokens of a source unit, and the small readers that look at the next token or
move past it. Nothing moves past the end of the text.
-/

namespace ComponentRegistry

/-- A place between two tokens. -/
structure Cursor where
  /-- The token just before the place. -/
  previous : Option Token
  /-- The tokens after the place, without the end of the text. -/
  ahead : List Token
  /-- Where the text ends. -/
  finish : Position
  deriving Repr, DecidableEq

namespace Cursor

/-- The place before the first token. -/
def ofStream (s : TokenStream) : Cursor := ⟨none, s.tokens, s.finish⟩

/-- The token `n` places ahead; the end of the text from there on. -/
def peek (n : Nat) (c : Cursor) : Token := c.ahead[n]?.getD (Token.endOfInput c.finish)

/-- The next token. -/
def current (c : Cursor) : Token := c.peek 0

/-- The kind of the next token. -/
def kind (c : Cursor) : TokenKind := c.current.kind

/-- The kind of the token after the next one. -/
def followingKind (c : Cursor) : TokenKind := (c.peek 1).kind

/-- Number of tokens up to the end of the text. -/
def remaining (c : Cursor) : Nat := c.ahead.length

/-- The place after the next token; the end of the text is not passed. -/
def advance (c : Cursor) : Cursor :=
  match c.ahead with
  | [] => c
  | token :: rest => ⟨some token, rest, c.finish⟩

/-- The place after the next token under a condition, and this place otherwise. -/
def advanceIf (condition : Bool) (c : Cursor) : Cursor := if condition then c.advance else c

/-- The offset just past the last token that was passed. -/
def passedOffset (c : Cursor) : Nat :=
  match c.previous with
  | some token => token.stop
  | none => 0

/-- Whether the next token is a certain mark. -/
def atMark (m : Mark) (c : Cursor) : Bool := c.kind == .mark m

/-- Whether the next token is a certain keyword. -/
def atWord (w : Keyword) (c : Cursor) : Bool := c.kind == .keyword w

/-- Whether the next token may stand as a name. -/
def atName (c : Cursor) : Bool := c.kind.isName

/-- Whether the next token is a string. -/
def atString (c : Cursor) : Bool := c.kind == .string

/-- A fault at the next token. -/
def fault (cause : Token → FaultCause) (c : Cursor) : Fault := ⟨cause c.current, c.current.start⟩

/-- Move past a token of a certain kind. -/
def expect (kind : TokenKind) (c : Cursor) : Except Fault (Token × Cursor) :=
  if c.kind = kind then .ok (c.current, c.advance) else .error (c.fault (.expected kind))

/-- Move past a name. Keywords are names here. -/
def expectName (c : Cursor) : Except Fault (Token × Cursor) :=
  if c.atName then .ok (c.current, c.advance) else .error (c.fault .expectedName)

/-- Move past a name in an import or export clause, where a string may stand for it. -/
def expectModuleName (c : Cursor) : Except Fault (Token × Cursor) :=
  if c.atString then .ok (c.current, c.advance) else c.expectName

/-- Move past a semicolon if there is one, and tell whether there was. -/
def takeSemicolon (c : Cursor) : Bool × Cursor :=
  if c.atMark .semicolon then (true, c.advance) else (false, c)

end Cursor

namespace Cursor

theorem remaining_advance (c : Cursor) : c.advance.remaining = c.remaining - 1 := by
  unfold advance remaining
  split <;> simp_all

theorem remaining_advance_le (c : Cursor) : c.advance.remaining ≤ c.remaining := by
  rw [remaining_advance]
  omega

theorem remaining_advanceIf_le (condition : Bool) (c : Cursor) :
    (c.advanceIf condition).remaining ≤ c.remaining := by
  unfold advanceIf
  split
  · exact remaining_advance_le c
  · exact Nat.le_refl _

/-- Only the end of the text is not passed. -/
theorem remaining_pos {c : Cursor} (h : c.kind ≠ .endOfInput) : 0 < c.remaining := by
  cases hc : c.ahead with
  | nil => simp [kind, current, peek, hc, Token.endOfInput] at h
  | cons t rest => simp [remaining, hc]

theorem remaining_advance_lt {c : Cursor} (h : c.kind ≠ .endOfInput) :
    c.advance.remaining < c.remaining := by
  rw [remaining_advance]
  have := remaining_pos h
  omega

theorem kind_of_atMark {c : Cursor} {m : Mark} (h : c.atMark m = true) : c.kind = .mark m := by
  simpa [atMark] using h

theorem kind_of_atWord {c : Cursor} {w : Keyword} (h : c.atWord w = true) :
    c.kind = .keyword w := by
  simpa [atWord] using h

theorem kind_of_atString {c : Cursor} (h : c.atString = true) : c.kind = .string := by
  simpa [atString] using h

theorem kind_ne_of_atName {c : Cursor} (h : c.atName = true) : c.kind ≠ .endOfInput := by
  intro hk
  simp [atName, hk, TokenKind.isName] at h

theorem remaining_lt_of_atMark {c : Cursor} {m : Mark} (h : c.atMark m = true) :
    c.advance.remaining < c.remaining :=
  remaining_advance_lt (by simp [kind_of_atMark h])

theorem remaining_lt_of_expect {kind : TokenKind} {c next : Cursor} {t : Token}
    (hkind : kind ≠ .endOfInput) (h : c.expect kind = .ok (t, next)) :
    next.remaining < c.remaining := by
  unfold expect at h
  split at h
  · next hk =>
    cases h
    exact remaining_advance_lt (hk ▸ hkind)
  · cases h

theorem remaining_lt_of_expectName {c next : Cursor} {t : Token}
    (h : c.expectName = .ok (t, next)) : next.remaining < c.remaining := by
  unfold expectName at h
  split at h
  · next hk =>
    cases h
    exact remaining_advance_lt (kind_ne_of_atName hk)
  · cases h

theorem remaining_lt_of_expectModuleName {c next : Cursor} {t : Token}
    (h : c.expectModuleName = .ok (t, next)) : next.remaining < c.remaining := by
  unfold expectModuleName at h
  split at h
  · next hk =>
    cases h
    exact remaining_advance_lt (by simp [kind_of_atString hk])
  · exact remaining_lt_of_expectName h

theorem remaining_takeSemicolon_le (c : Cursor) : c.takeSemicolon.2.remaining ≤ c.remaining := by
  unfold takeSemicolon
  split
  · exact remaining_advance_le c
  · exact Nat.le_refl _

/-- Move past one more name for every dot. -/
def dottedNames (c : Cursor) : Except Fault Cursor :=
  if _dot : c.atMark .dot then
    match _name : c.advance.expectName with
    | .error fault => .error fault
    | .ok (_, next) => dottedNames next
  else .ok c
termination_by c.remaining
decreasing_by
  have := remaining_lt_of_atMark _dot
  have := remaining_lt_of_expectName _name
  omega

theorem remaining_le_of_dottedNames {c next : Cursor} (h : c.dottedNames = .ok next) :
    next.remaining ≤ c.remaining := by
  fun_induction dottedNames c with
  | case1 => cases h
  | case2 c hdot t c' hname ih =>
    have := ih h
    have := remaining_lt_of_atMark hdot
    have := remaining_lt_of_expectName hname
    omega
  | case3 =>
    cases h
    exact Nat.le_refl _

end Cursor

end ComponentRegistry
