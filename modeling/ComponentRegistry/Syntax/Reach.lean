import ComponentRegistry.Syntax.Cursor

/-! # How far things reach

How far an expression, a type annotation or a bracketed group reaches. Nothing inside is
interpreted: brackets are counted, and a line break ends a statement where no operator asks for
more.
-/

namespace ComponentRegistry.Reach

/-- Whether a line break between two tokens ends the statement: the token before it may end an
expression, and the token after it is a name or begins a decorator. -/
def endsStatement (previous : Option Token) (token : Token) : Bool :=
  match previous with
  | none => false
  | some p =>
    p.line < token.line && p.kind.endsExpression &&
      (token.kind.isName || (token.kind == .operator && token.value == "@"))

/-- Whether `<` directly after a name opens a list of type arguments. After a space it compares. -/
def opensTypeArguments (previous : Option Token) (token : Token) : Bool :=
  match previous with
  | none => false
  | some p => p.kind.isName && p.stop == token.start.offset

/-- Number of open lists of type arguments after one more token. -/
def anglesAfter (angles : Nat) (previous : Option Token) (token : Token) : Nat :=
  if token.kind = .mark .less ∧ opensTypeArguments previous token then angles + 1
  else if token.kind = .mark .greater then angles - 1
  else angles

/-- Number of open brackets after one more token. -/
def depthAfter (depth : Nat) (token : Token) : Nat :=
  if token.kind.isOpener then depth + 1 else if token.kind.isCloser then depth - 1 else depth

/-- Whether an expression stops before a token outside of all brackets. A comma inside a list of
type arguments does not stop it. -/
def stopsExpression (angles : Nat) (previous : Option Token) (token : Token) : Bool :=
  token.kind == .mark .semicolon || (token.kind == .mark .comma && angles == 0) ||
    token.kind.isCloser || endsStatement previous token

/-- The place where an expression stops, from inside `depth` brackets and `angles` lists of type
arguments on. -/
def expressionFrom (finish : Position) (depth angles : Nat) (previous : Option Token) :
    List Token → Cursor
  | [] => ⟨previous, [], finish⟩
  | token :: rest =>
    let angles := anglesAfter angles previous token
    if depth = 0 ∧ stopsExpression angles previous token then ⟨previous, token :: rest, finish⟩
    else expressionFrom finish (depthAfter depth token) angles (some token) rest

/-- Number of open brackets after one more token of a type, where angle brackets count too. It falls
below zero at a `>` that closes nothing. -/
def typeDepthAfter (depth : Int) (token : Token) : Int :=
  if token.kind.isOpener || token.kind == .mark .less then depth + 1
  else if token.kind.isCloser || token.kind == .mark .greater then depth - 1
  else depth

/-- Whether a type annotation stops before a token outside of all brackets. -/
def stopsType (previous : Option Token) (token : Token) : Bool :=
  token.kind == .mark .equals || token.kind == .mark .comma || token.kind == .mark .semicolon ||
    token.kind.isCloser || endsStatement previous token

/-- The place where a type annotation stops, from inside `depth` brackets on. -/
def typeFrom (finish : Position) (depth : Int) (previous : Option Token) : List Token → Cursor
  | [] => ⟨previous, [], finish⟩
  | token :: rest =>
    if depth = 0 ∧ stopsType previous token then ⟨previous, token :: rest, finish⟩
    else typeFrom finish (typeDepthAfter depth token) (some token) rest

/-- The place after the bracket that closes the outermost open one, or the end of the text. -/
def groupFrom (finish : Position) (depth : Nat) (previous : Option Token) : List Token → Cursor
  | [] => ⟨previous, [], finish⟩
  | token :: rest =>
    if token.kind.isCloser ∧ depth ≤ 1 then ⟨some token, rest, finish⟩
    else groupFrom finish (depthAfter depth token) (some token) rest

/-- The place after the first token of a kind, or the end of the text: the place before it. -/
def upToKind (kind : TokenKind) (finish : Position) (previous : Option Token) :
    List Token → Cursor
  | [] => ⟨previous, [], finish⟩
  | token :: rest =>
    if token.kind = kind then ⟨previous, token :: rest, finish⟩
    else upToKind kind finish (some token) rest

theorem remaining_expressionFrom_le (finish : Position) (depth angles : Nat)
    (previous : Option Token) (tokens : List Token) :
    (expressionFrom finish depth angles previous tokens).remaining ≤ tokens.length := by
  induction tokens generalizing depth angles previous with
  | nil => simp [expressionFrom, Cursor.remaining]
  | cons token rest ih =>
    simp only [expressionFrom]
    split
    · simp [Cursor.remaining]
    · exact Nat.le_succ_of_le (ih ..)

theorem remaining_typeFrom_le (finish : Position) (depth : Int) (previous : Option Token)
    (tokens : List Token) : (typeFrom finish depth previous tokens).remaining ≤ tokens.length := by
  induction tokens generalizing depth previous with
  | nil => simp [typeFrom, Cursor.remaining]
  | cons token rest ih =>
    simp only [typeFrom]
    split
    · simp [Cursor.remaining]
    · exact Nat.le_succ_of_le (ih ..)

theorem remaining_groupFrom_le (finish : Position) (depth : Nat) (previous : Option Token)
    (tokens : List Token) : (groupFrom finish depth previous tokens).remaining ≤ tokens.length := by
  induction tokens generalizing depth previous with
  | nil => simp [groupFrom, Cursor.remaining]
  | cons token rest ih =>
    simp only [groupFrom]
    split
    · simp [Cursor.remaining]
    · exact Nat.le_succ_of_le (ih ..)

theorem remaining_upToKind_le (kind : TokenKind) (finish : Position) (previous : Option Token)
    (tokens : List Token) : (upToKind kind finish previous tokens).remaining ≤ tokens.length := by
  induction tokens generalizing previous with
  | nil => simp [upToKind, Cursor.remaining]
  | cons token rest ih =>
    simp only [upToKind]
    split
    · simp [Cursor.remaining]
    · exact Nat.le_succ_of_le (ih ..)

end Reach

namespace Cursor

/-- Move past an expression: up to a comma, a semicolon or a closing bracket outside of all
brackets, or up to a line break that ends the statement. -/
def skipExpression (c : Cursor) : Cursor := Reach.expressionFrom c.finish 0 0 c.previous c.ahead

/-- Move past a type annotation: up to an equals sign, a comma, a semicolon or a closing bracket
outside of all brackets, or up to a line break that ends the statement. -/
def skipType (c : Cursor) : Cursor := Reach.typeFrom c.finish 0 c.previous c.ahead

/-- Move past a bracketed group, from its opening bracket on. -/
def skipGroup (c : Cursor) : Cursor := Reach.groupFrom c.finish 0 c.previous c.ahead

/-- Move up to the next token of a kind. -/
def skipTo (kind : TokenKind) (c : Cursor) : Cursor :=
  Reach.upToKind kind c.finish c.previous c.ahead

theorem remaining_skipExpression_le (c : Cursor) : c.skipExpression.remaining ≤ c.remaining :=
  Reach.remaining_expressionFrom_le ..

theorem remaining_skipType_le (c : Cursor) : c.skipType.remaining ≤ c.remaining :=
  Reach.remaining_typeFrom_le ..

theorem remaining_skipTo_le (kind : TokenKind) (c : Cursor) :
    (c.skipTo kind).remaining ≤ c.remaining := Reach.remaining_upToKind_le ..

/-- A group that begins at an opening bracket is not empty. -/
theorem remaining_skipGroup_lt {c : Cursor} (h : c.kind.isOpener = true) :
    c.skipGroup.remaining < c.remaining := by
  unfold skipGroup remaining
  cases hc : c.ahead with
  | nil => simp [kind, current, peek, hc, Token.endOfInput, TokenKind.isOpener] at h
  | cons token rest =>
    have hk : token.kind.isOpener = true := by simpa [kind, current, peek, hc] using h
    have hn : token.kind.isCloser = false := by
      revert hk
      cases token.kind <;> simp [TokenKind.isOpener, TokenKind.isCloser]
      next m => cases m <;> simp
    simp only [Reach.groupFrom, hn, Bool.false_eq_true, false_and, ↓reduceIte, List.length_cons]
    exact Nat.lt_succ_of_le (Reach.remaining_groupFrom_le ..)

end Cursor

end ComponentRegistry
