import ComponentRegistry.Proofs.Syntax.LineBreak
import ComponentRegistry.Proofs.Syntax.Spans
import ComponentRegistry.Rewrite.DefaultExport

/-! # Names as default exports

A name behind `export default` is taken for the whole expression as soon as the line ends behind it.
Elsewhere a line ends an expression only in front of a name or a decorator. The two agree exactly
where nothing goes on with the expression on the next line; where something does, the statement ends
inside of its expression, and so does the edit that names it.
-/

namespace ComponentRegistry

/-- A token that goes on with no expression, at least where it begins a line. -/
def Token.LeavesExpression (t : Token) : Prop :=
  t.kind ∈ ([.endOfInput, .mark .comma, .mark .semicolon] : List TokenKind) ∨
    t.kind.isCloser = true ∨ t.kind.isName = true ∨ t.kind = .operator ∧ t.value = "@"

theorem TokenKind.endsExpression_of_isName {kind : TokenKind} (h : kind.isName = true) :
    kind.endsExpression = true := by
  cases kind <;> simp_all [isName, endsExpression]

namespace Cursor

variable {c : Cursor}

/-- An expression goes on behind a name that it begins with, unless it ends in front of it. -/
theorem skipExpression_of_name (hname : c.atName = true)
    (hends : Reach.endsStatement c.previous c.current = false) :
    c.skipExpression = c.advance.skipExpression := by
  obtain ⟨rest, hrest⟩ := exists_cons_of_kind (kind_ne_of_atName hname)
  have hdepth : Reach.depthAfter 0 c.current = 0 := by
    rw [atName, kind] at hname
    cases hk : c.current.kind <;>
      simp_all [Reach.depthAfter, TokenKind.isName, TokenKind.isOpener, TokenKind.isCloser]
  rw [skipExpression, hrest, Seam.expressionFrom_cons (.inr (.inr hname)) hends, hdepth,
    skipExpression, advance, hrest]

theorem atLoneName_iff : c.atLoneName = true ↔ c.atName = true ∧
    (c.followingKind ∈ ([.endOfInput, .mark .semicolon] : List TokenKind) ∨
      c.current.line < (c.peek 1).line) := by
  simp only [atLoneName, followingKind, Bool.and_eq_true, Bool.or_eq_true, beq_iff_eq,
    decide_eq_true_eq, List.mem_cons, List.not_mem_nil, or_false]
  rw [or_comm (a := (c.peek 1).kind = .endOfInput)]

/-- When a name is the whole expression. -/
theorem skipExpression_eq_advance_iff (hname : c.atName = true) :
    c.skipExpression = c.advance ↔ Reach.endsStatement c.previous c.current = false ∧
      c.advance.skipExpression = c.advance := by
  cases hends : Reach.endsStatement c.previous c.current with
  | false => simp [skipExpression_of_name hname hends]
  | true =>
    have hself := skipExpression_eq_self_iff.2 (.inr (.inr (.inr hends)))
    have hlt := remaining_advance_lt (kind_ne_of_atName hname)
    refine ⟨fun h => ?_, fun h => absurd h.1 (by simp)⟩
    rw [hself] at h
    rw [← h] at hlt
    exact absurd hlt (Nat.lt_irrefl _)

end Cursor

/-- A name that is taken for the whole default export, and the place in front of it. -/
structure ExportStatement.LoneName (s : TokenStream) (e : ExportStatement) (default : Token)
    (name : String) (c : Cursor) : Prop where
  reached : Cursor.Reaches (.ofStream s) c
  previous : c.previous = some default
  isName : c.atName = true ∧ c.current.value = name
  /-- What tells that the name is all: the next token and its line. -/
  behind : c.followingKind ∈ ([.endOfInput, .mark .semicolon] : List TokenKind) ∨
    c.current.line < (c.peek 1).line
  /-- Where the expression is that name and nothing more. -/
  alone : c.skipExpression = c.advance ↔
    default.line = c.current.line ∧ (c.peek 1).LeavesExpression
  stop : e.span.stop = c.advance.takeSemicolon.2.passedOffset
  /-- Where the expression goes on, the statement ends inside of it. -/
  inside : default.line = c.current.line → ¬ (c.peek 1).LeavesExpression →
    e.span.stop < c.skipExpression.passedOffset
  /-- What is replaced when the default export is named. -/
  replaced : e.defaultChange name =
    some (.edit ⟨e.span.start.offset, e.span.stop, bothNamesClause name⟩)

section Outline

variable {text : List Char} {s : TokenStream} {o : Outline} {e : ExportStatement} {default : Token}
  {name : String} {c n : Cursor}

/-- The words of a name as the default export, and what tells that the name is all of it. -/
theorem Cursor.reads_defaultName (h : c.exportStatement = .ok (e, n))
    (hform : e.form = .defaultName default name) :
    (c.kind = .keyword .exportWord ∧ c.advance.kind = .keyword .defaultWord ∧
      c.advance.current = default) ∧
    (c.advance.advance.atLoneName = true ∧ c.advance.advance.current.value = name) ∧
    c.advance.advance.advance.takeSemicolon = (e.terminated, n) := by
  obtain ⟨hkind', m, hread, hending, -⟩ := exportStatement_eq_ok.1 h
  rw [hform] at hread hending
  rcases Seam.exportForm_cases hread with hkind | ⟨hnone, -⟩ | hdeclaration
  · obtain ⟨rest, hrest⟩ := exists_cons_of_kind (c := c.advance) (by simp [hkind])
    obtain ⟨heq, -, -⟩ := Seam.exportForm_of_default hkind hrest
    rw [heq] at hread
    cases readsDefault_of_defaultExported hread with
    | asyncFunction _ reads | plainFunction _ reads => cases (Prod.mk.inj reads).1
    | ofClass _ reads => cases (Prod.mk.inj reads).1
    | interface _ _ unnamed => cases unnamed
    | expression _ _ reads => cases (Prod.mk.inj reads).1
    | name _ lone reads =>
      cases reads
      exact ⟨⟨hkind', hkind, rfl⟩, ⟨lone, rfl⟩, hending⟩
  · cases hnone
  · cases readsDeclared_of_declared hdeclaration

/-- How a name is read as the default export. -/
theorem Cursor.exists_defaultName (h : c.exportStatement = .ok (e, n))
    (hform : e.form = .defaultName default name) : ∃ m, Reaches c m ∧ m.previous = some default ∧
      default.kind = .keyword .defaultWord ∧ m.atLoneName = true ∧ m.current.value = name ∧
      e.span.stop = m.advance.takeSemicolon.2.passedOffset := by
  obtain ⟨⟨-, hkind, rfl⟩, ⟨hlone, hvalue⟩, htake⟩ := reads_defaultName h hform
  refine ⟨c.advance.advance, (reaches_advance c).trans (reaches_advance _), ?_, hkind, hlone, hvalue,
    ?_⟩
  · exact (passes_advance (by simp [hkind])).previous
  · rw [htake, (reaches_of_exportStatement h).2]

/-- Only the end of the text is of its kind. -/
theorem Cursor.Reaches.kind_eq_iff (hs : tokenize text = .ok s) (h : Reaches (ofStream s) c) :
    c.kind = .endOfInput ↔ c.ahead = [] := by
  refine ⟨fun hkind => ?_, kind_of_nil⟩
  obtain ⟨front, hpass⟩ := h
  obtain ⟨⟨q, reads⟩, -⟩ := Lexer.reads_of_tokenize hs
  cases hahead : c.ahead with
  | nil => rfl
  | cons t rest =>
    rw [kind, current_eq_of_cons hahead] at hkind
    have hmem : t ∈ (ofStream s).ahead := by simp [hpass.ahead, hahead]
    exact absurd hkind (reads.kind_ne hmem)

/-- What stops an expression behind a name that the line or the statement ends behind. -/
theorem Cursor.skipExpression_behind (hs : tokenize text = .ok s) (h : Reaches (ofStream s) c)
    (hname : c.atName = true) (hbehind : c.followingKind ∈
      ([.endOfInput, .mark .semicolon] : List TokenKind) ∨ c.current.line < (c.peek 1).line) :
    c.advance.skipExpression = c.advance ↔ (c.peek 1).LeavesExpression := by
  have hprevious : c.advance.previous = some c.current :=
    (passes_advance (kind_ne_of_atName hname)).previous
  have hnext : c.advance.current = c.peek 1 := (Cursor.peek_succ c 0).symm
  have hkind : c.advance.kind = (c.peek 1).kind := (followingKind_eq c).symm
  rw [skipExpression_eq_self_iff, ← (h.trans (reaches_advance c)).kind_eq_iff hs, hprevious, hnext,
    hkind, Token.LeavesExpression]
  have hends : Reach.endsStatement (some c.current) (c.peek 1) = true ↔
      (c.peek 1).kind.isName = true ∨ (c.peek 1).kind = .operator ∧ (c.peek 1).value = "@" := by
    have hname : c.current.kind.endsExpression = true :=
      TokenKind.endsExpression_of_isName hname
    simp only [Reach.endsStatement, Bool.and_eq_true, Bool.or_eq_true, decide_eq_true_eq,
      beq_iff_eq, hname, and_true]
    refine ⟨fun h => h.2, fun h => ⟨hbehind.resolve_left fun hmem => ?_, h⟩⟩
    rw [followingKind] at hmem
    simp only [List.mem_cons, List.not_mem_nil, or_false] at hmem
    rcases hmem with hmem | hmem <;> simp [hmem, TokenKind.isName] at h
  rw [hends]
  simp only [List.mem_cons, List.not_mem_nil, or_false, or_assoc]

/-- An expression that goes on behind a name ends behind it. -/
theorem Cursor.stop_lt_skipExpression (hs : tokenize text = .ok s) (h : Reaches (ofStream s) c)
    (hname : c.atName = true) (hsemicolon : c.advance.atMark .semicolon = false)
    (hmore : c.advance.skipExpression ≠ c.advance) :
    c.advance.takeSemicolon.2.passedOffset < c.advance.skipExpression.passedOffset := by
  obtain ⟨front, hpass⟩ := h
  have hplace := (placeIn_ofStream s).passes hpass
  have hnext := passes_advance (kind_ne_of_atName hname)
  have hordered := TokenStream.ordered_of_tokenize hs
  rw [takeSemicolon, if_neg (by simp [hsemicolon])]
  obtain ⟨passed, hpassed⟩ := reaches_skipExpression c.advance
  cases passed with
  | nil => exact absurd hpassed.eq_of_nil hmore
  | cons t rest =>
    obtain rfl := hpassed.head.1
    have hmem : c.advance.current ∈ c.advance.ahead := by simp [hpassed.ahead]
    have hbehind := hordered.stop_le_of_passes hplace hnext hmem
    have hlong := hordered.nonempty c.advance.current (by
      rw [(hplace.passes hnext).tokens]
      exact List.mem_append_right _ hmem)
    have hinside := (hordered.inside_of_passes (hplace.passes hnext) hpassed List.mem_cons_self).2
    exact (hbehind.trans_lt hlong).trans_le hinside

/-- A name that the outline takes for the whole default export may be only its beginning. It is all
of it just where nothing goes on with the expression on the next line. -/
theorem loneName_of_defaultName (hs : tokenize text = .ok s) (ho : outline text = .ok o)
    (he : e ∈ o.exports) (hform : e.form = .defaultName default name) :
    ∃ c, e.LoneName s default name c := by
  obtain ⟨d, m, hrun, -⟩ := exists_surveys hs ho
  obtain ⟨front, c, n, hplace, -, hreads⟩ := hrun.exists_export (Cursor.placeIn_ofStream s) he
  obtain ⟨c, hreach, hprevious, hkind, hlone, hvalue, hstop⟩ :=
    Cursor.exists_defaultName hreads hform
  have hreached := hplace.reaches.trans hreach
  obtain ⟨hname, hbehind⟩ := Cursor.atLoneName_iff.1 hlone
  have hle : default.line ≤ c.current.line := by
    rw [Lexer.line_eq hs (hreached.adjacent hprevious), Nat.add_assoc]
    exact Nat.le_add_right _ _
  have hends : Reach.endsStatement c.previous c.current = false ↔
      default.line = c.current.line := by
    have hdefault : default.kind.endsExpression = true := by
      rw [hkind]
      rfl
    have hfollows : c.current.kind.isName = true := hname
    simp only [Reach.endsStatement, hprevious, hdefault, hfollows, Bool.and_true, Bool.true_or,
      decide_eq_false_iff_not]
    omega
  have halone := Cursor.skipExpression_behind hs hreached hname hbehind
  refine ⟨c, hreached, hprevious, ⟨hname, hvalue⟩, hbehind, ?_, hstop, fun hline hnot => ?_, ?_⟩
  · rw [Cursor.skipExpression_eq_advance_iff hname, hends, halone]
  · rw [Cursor.skipExpression_of_name hname (hends.2 hline), hstop]
    refine Cursor.stop_lt_skipExpression hs hreached hname ?_ fun h => hnot (halone.1 h)
    rw [Cursor.atMark, beq_eq_false_iff_ne, ← Cursor.followingKind_eq]
    exact fun hsemicolon => hnot (.inl (by simp [← hsemicolon, Cursor.followingKind]))
  · rw [ExportStatement.defaultChange, hform]

/-- A name without a semicolon, above a statement of its own. -/
theorem loneName_above_statement :
    let text := "import Card from './card'\nexport default Card\nconst more = 1".toList
    ∃ s o e default c, tokenize text = .ok s ∧ outline text = .ok o ∧ e ∈ o.exports ∧
      e.form = .defaultName default "Card" ∧ e.LoneName s default "Card" c := by
  intro text
  let s := (tokenize text).toOption.getD ⟨[], .start⟩
  let o := (outline text).toOption.getD ⟨[], []⟩
  let default : Token := ⟨.keyword .defaultWord, "default", "default", ⟨33, 2, 8⟩⟩
  let e : ExportStatement := ⟨.defaultName default "Card", false, ⟨⟨26, 2, 1⟩, 45⟩⟩
  obtain ⟨hs, ho, he⟩ : (tokenize text).toOption.isSome = true ∧
      (outline text).toOption.isSome = true ∧ e ∈ o.exports := by
    decide +kernel
  have hs := eq_ok_getD hs ⟨[], .start⟩
  have ho := eq_ok_getD ho ⟨[], []⟩
  obtain ⟨c, hlone⟩ := loneName_of_defaultName hs ho he rfl
  exact ⟨s, o, e, default, c, hs, ho, he, rfl, hlone⟩

/-- A name with a member access on the next line. The expression goes on with it, and what the name
stands for is exported without it. -/
theorem defaultName_of_memberAccess :
    let text := "export default Card\n  .lazy()\n".toList
    let left := "export \x7b Card, Card as default \x7d;\n  .lazy()\n".toList
    ∃ s e default c, tokenize text = .ok s ∧ outline text = .ok ⟨[], [e]⟩ ∧
      e.form = .defaultName default "Card" ∧ Cursor.Reaches (.ofStream s) c ∧
      c.previous = some default ∧ c.skipExpression ≠ c.advance ∧
      Reach.endsStatement (some c.current) (c.peek 1) = false ∧
      nameDefaultExport text = .ok left := by
  intro text left
  let s := (tokenize text).toOption.getD ⟨[], .start⟩
  let default : Token := ⟨.keyword .defaultWord, "default", "default", ⟨7, 1, 8⟩⟩
  let e : ExportStatement := ⟨.defaultName default "Card", false, ⟨⟨0, 1, 1⟩, 19⟩⟩
  let c := (Cursor.ofStream s).advance.advance
  obtain ⟨hs, ho, hprevious, hmore, hends, hleft⟩ : (tokenize text).toOption.isSome = true ∧
      outline text = .ok ⟨[], [e]⟩ ∧ c.previous = some default ∧ c.skipExpression ≠ c.advance ∧
      Reach.endsStatement (some c.current) (c.peek 1) = false ∧
      nameDefaultExport text = .ok left := by
    decide +kernel
  exact ⟨s, e, default, c, eq_ok_getD hs _, ho, rfl,
    (Cursor.reaches_advance _).trans (Cursor.reaches_advance _), hprevious, hmore, hends, hleft⟩

end Outline

end ComponentRegistry
