import ComponentRegistry.Syntax.Reach
import ComponentRegistry.Syntax.Statement

/-! # Reading imports

Import statements, and the clauses in braces that imports and exports share. Every reader here
takes at least one token when it succeeds.
-/

namespace ComponentRegistry.Cursor

/-- Whether `type` is a modifier of the clause entry it begins, and not the entry's name. -/
def typeModifiesEntry (c : Cursor) : Bool :=
  c.atWord .typeWord &&
    (c.followingKind == .string ||
      (c.followingKind.isName && c.followingKind != .keyword .asWord))

/-- One entry of a clause: a name, possibly renamed, possibly as a type only. -/
def specifier (typeOnly : Bool) (c : Cursor) : Except Fault (Specifier × Cursor) := do
  let modified := c.typeModifiesEntry
  let (imported, c) ← (c.advanceIf modified).expectModuleName
  if c.atWord .asWord then
    let (bound, c) ← c.advance.expectModuleName
    .ok (⟨imported.value, bound.value, typeOnly || modified⟩, c)
  else .ok (⟨imported.value, imported.value, typeOnly || modified⟩, c)

theorem remaining_lt_of_specifier {typeOnly : Bool} {c next : Cursor} {s : Specifier}
    (h : c.specifier typeOnly = .ok (s, next)) : next.remaining < c.remaining := by
  obtain ⟨⟨imported, c₁⟩, himported, h⟩ := bind_eq_ok.1 h
  have := remaining_advanceIf_le c.typeModifiesEntry c
  have h₁ := remaining_lt_of_expectModuleName himported
  simp only at h
  split at h
  · obtain ⟨⟨bound, c₂⟩, hbound, hok⟩ := bind_eq_ok.1 h
    have h₂ := remaining_lt_of_expectModuleName hbound
    have := remaining_advance_le c₁
    cases hok
    simp only
    omega
  · cases h
    omega

/-- The entries of a clause up to and with its closing brace. A comma may follow the last one. -/
def clauseEntries (typeOnly : Bool) (c : Cursor) : Except Fault (List Specifier × Cursor) :=
  if c.atMark .closeBrace then .ok ([], c.advance)
  else
    match _entry : c.specifier typeOnly with
    | .error fault => .error fault
    | .ok (entry, next) =>
      if next.atMark .comma then
        (clauseEntries typeOnly next.advance).map fun (entries, c) => (entry :: entries, c)
      else if next.atMark .closeBrace then .ok ([entry], next.advance)
      else .error (next.fault .expectedClauseSeparator)
termination_by c.remaining
decreasing_by
  have := remaining_lt_of_specifier _entry
  have := remaining_advance_le next
  omega

theorem remaining_le_of_clauseEntries {typeOnly : Bool} {c next : Cursor} {entries : List Specifier}
    (h : c.clauseEntries typeOnly = .ok (entries, next)) : next.remaining ≤ c.remaining := by
  fun_induction clauseEntries typeOnly c generalizing entries with
  | case1 =>
    cases h
    exact remaining_advance_le _
  | case2 => cases h
  | case3 c _ entry c₁ hentry _ ih =>
    cases hrest : clauseEntries typeOnly c₁.advance with
    | error fault =>
      rw [hrest] at h
      cases h
    | ok result =>
      rw [hrest] at h
      cases h
      have := ih hrest
      have := remaining_lt_of_specifier hentry
      have := remaining_advance_le c₁
      omega
  | case4 c _ entry c₁ hentry _ _ =>
    cases h
    have := remaining_lt_of_specifier hentry
    have := remaining_advance_le c₁
    omega
  | case5 => cases h

/-- A clause in braces. -/
def clause (typeOnly : Bool) (c : Cursor) : Except Fault (List Specifier × Cursor) := do
  let (_, c) ← c.expect (.mark .openBrace)
  c.clauseEntries typeOnly

theorem remaining_lt_of_clause {typeOnly : Bool} {c next : Cursor} {entries : List Specifier}
    (h : c.clause typeOnly = .ok (entries, next)) : next.remaining < c.remaining := by
  obtain ⟨⟨brace, c₁⟩, hbrace, h⟩ := bind_eq_ok.1 h
  have := remaining_lt_of_expect (by simp) hbrace
  have := remaining_le_of_clauseEntries h
  omega

/-- Move past the attributes of an import: `with` or `assert` on the line of the module name,
followed by braces. -/
def skipAttributes (source : Token) (c : Cursor) : Except Fault Cursor :=
  let introduces := c.current.value == "with" || c.current.value == "assert"
  if introduces && c.current.line == source.line && c.followingKind == .mark .openBrace then do
    let (_, c) ← (c.advance.advance.skipTo (.mark .closeBrace)).expect (.mark .closeBrace)
    .ok c
  else .ok c

theorem remaining_le_of_skipAttributes {source : Token} {c next : Cursor}
    (h : c.skipAttributes source = .ok next) : next.remaining ≤ c.remaining := by
  unfold skipAttributes at h
  simp only at h
  split at h
  · obtain ⟨⟨brace, c₁⟩, hbrace, hok⟩ := bind_eq_ok.1 h
    have := remaining_lt_of_expect (by simp) hbrace
    have := remaining_skipTo_le (.mark .closeBrace) c.advance.advance
    have := remaining_advance_le c.advance
    have := remaining_advance_le c
    cases hok
    simp only at *
    omega
  · cases h
    exact Nat.le_refl _

/-- The end of an import: the module name, its attributes and a semicolon. -/
def importSource (start : Token) (specifiers : List Specifier) (typeOnly : Bool) (c : Cursor) :
    Except Fault (ImportStatement × Cursor) := do
  let (source, c) ← c.expect .string
  let c ← c.skipAttributes source
  let ending := c.takeSemicolon
  .ok (⟨.ofToken source, specifiers, typeOnly, ending.1, ⟨start.start, ending.2.passedOffset⟩⟩,
    ending.2)

theorem remaining_lt_of_importSource {start : Token} {specifiers : List Specifier}
    {typeOnly : Bool} {c next : Cursor} {s : ImportStatement}
    (h : c.importSource start specifiers typeOnly = .ok (s, next)) :
    next.remaining < c.remaining := by
  obtain ⟨⟨source, c₁⟩, hsource, h⟩ := bind_eq_ok.1 h
  obtain ⟨c₂, hattributes, h⟩ := bind_eq_ok.1 h
  have := remaining_lt_of_expect (by simp) hsource
  have := remaining_le_of_skipAttributes hattributes
  have := remaining_takeSemicolon_le c₂
  cases h
  simp only at *
  omega

/-- What an import binds besides its default: a namespace or a clause. Without a default there has
to be one of them. -/
def importBindings (bound : List Specifier) (typeOnly : Bool) (c : Cursor) :
    Except Fault (List Specifier × Cursor) :=
  if c.atMark .star then do
    let (_, c) ← c.advance.expect (.keyword .asWord)
    let (name, c) ← c.expectName
    .ok (bound ++ [⟨"*", name.value, typeOnly⟩], c)
  else if c.atMark .openBrace then do
    let (entries, c) ← c.clause typeOnly
    .ok (bound ++ entries, c)
  else if bound.isEmpty then .error (c.fault fun _ => .malformedImport)
  else .ok (bound, c)

theorem remaining_le_of_importBindings {bound specifiers : List Specifier} {typeOnly : Bool}
    {c next : Cursor} (h : c.importBindings bound typeOnly = .ok (specifiers, next)) :
    next.remaining ≤ c.remaining := by
  unfold importBindings at h
  split at h
  · obtain ⟨⟨word, c₁⟩, hword, h⟩ := bind_eq_ok.1 h
    obtain ⟨⟨name, c₂⟩, hname, h⟩ := bind_eq_ok.1 h
    have := remaining_lt_of_expect (by simp) hword
    have := remaining_lt_of_expectName hname
    have := remaining_advance_le c
    cases h
    simp only at *
    omega
  · split at h
    · obtain ⟨⟨entries, c₁⟩, hentries, h⟩ := bind_eq_ok.1 h
      have := remaining_lt_of_clause hentries
      cases h
      simp only at *
      omega
    · split at h
      · cases h
      · cases h
        exact Nat.le_refl _

/-- An import from its bindings on. -/
def importFrom (start : Token) (bound : List Specifier) (typeOnly : Bool) (c : Cursor) :
    Except Fault (ImportStatement × Cursor) := do
  let (specifiers, c) ← c.importBindings bound typeOnly
  let (_, c) ← c.expect (.keyword .fromWord)
  c.importSource start specifiers typeOnly

theorem remaining_lt_of_importFrom {start : Token} {bound : List Specifier} {typeOnly : Bool}
    {c next : Cursor} {s : ImportStatement}
    (h : c.importFrom start bound typeOnly = .ok (s, next)) : next.remaining < c.remaining := by
  obtain ⟨⟨specifiers, c₁⟩, hspecifiers, h⟩ := bind_eq_ok.1 h
  obtain ⟨⟨word, c₂⟩, hword, h⟩ := bind_eq_ok.1 h
  have := remaining_le_of_importBindings hspecifiers
  have := remaining_lt_of_expect (by simp) hword
  have := remaining_lt_of_importSource h
  omega

/-- A name, an equals sign and what it stands for: a module in a call of `require`, or another name,
which refers to no module. -/
def importAlias (start name : Token) (typeOnly : Bool) (c : Cursor) :
    Except Fault (Option ImportStatement × Cursor) := do
  let (_, c) ← c.expect (.mark .equals)
  if c.current.value == "require" && c.followingKind == .mark .openParen then
    let (_, c) ← c.advance.expect (.mark .openParen)
    let (source, c) ← c.expect .string
    let (_, c) ← c.expect (.mark .closeParen)
    let c ← c.skipAttributes source
    let ending := c.takeSemicolon
    .ok (some ⟨.ofToken source, [⟨"default", name.value, typeOnly⟩], typeOnly, ending.1,
      ⟨start.start, ending.2.passedOffset⟩⟩, ending.2)
  else
    let (_, c) ← c.expectName
    let c ← c.dottedNames
    .ok (none, c.takeSemicolon.2)

theorem remaining_lt_of_importAlias {start name : Token} {typeOnly : Bool} {c next : Cursor}
    {s : Option ImportStatement} (h : c.importAlias start name typeOnly = .ok (s, next)) :
    next.remaining < c.remaining := by
  obtain ⟨⟨sign, c₁⟩, hsign, h⟩ := bind_eq_ok.1 h
  have := remaining_lt_of_expect (by simp) hsign
  simp only at h
  split at h
  · obtain ⟨⟨paren, c₂⟩, hparen, h⟩ := bind_eq_ok.1 h
    obtain ⟨⟨source, c₃⟩, hsource, h⟩ := bind_eq_ok.1 h
    obtain ⟨⟨paren', c₄⟩, hparen', h⟩ := bind_eq_ok.1 h
    obtain ⟨c₅, hattributes, h⟩ := bind_eq_ok.1 h
    have := remaining_lt_of_expect (by simp) hparen
    have := remaining_lt_of_expect (by simp) hsource
    have := remaining_lt_of_expect (by simp) hparen'
    have := remaining_le_of_skipAttributes hattributes
    have := remaining_takeSemicolon_le c₅
    have := remaining_advance_le c₁
    cases h
    simp only at *
    omega
  · obtain ⟨⟨name', c₂⟩, hname, h⟩ := bind_eq_ok.1 h
    obtain ⟨c₃, hdots, h⟩ := bind_eq_ok.1 h
    have := remaining_lt_of_expectName hname
    have := remaining_le_of_dottedNames hdots
    have := remaining_takeSemicolon_le c₃
    cases h
    simp only at *
    omega

/-- Whether `type` after `import` is a modifier, and not the name of the default import. -/
def typeModifiesImport (c : Cursor) : Bool :=
  c.atWord .typeWord &&
    (c.followingKind == .mark .openBrace || c.followingKind == .mark .star ||
      (c.followingKind.isName && c.followingKind != .keyword .fromWord) ||
      (c.followingKind == .keyword .fromWord && (c.peek 2).kind == .keyword .fromWord))

/-- An import from its default name on. After the name and a comma there has to be a clause or a
namespace. -/
def importDefault (start : Token) (typeOnly : Bool) (c : Cursor) :
    Except Fault (Option ImportStatement × Cursor) := do
  let (name, c) ← c.expectName
  let bound := [⟨"default", name.value, typeOnly⟩]
  if c.atMark .equals then c.importAlias start name typeOnly
  else if c.atMark .comma then
    let c := c.advance
    if c.atMark .openBrace || c.atMark .star then
      let (statement, c) ← c.importFrom start bound typeOnly
      .ok (some statement, c)
    else .error (c.fault fun _ => .expectedClause)
  else
    let (statement, c) ← c.importFrom start bound typeOnly
    .ok (some statement, c)

theorem remaining_lt_of_importDefault {start : Token} {typeOnly : Bool} {c next : Cursor}
    {s : Option ImportStatement} (h : c.importDefault start typeOnly = .ok (s, next)) :
    next.remaining < c.remaining := by
  obtain ⟨⟨name, c₁⟩, hname, h⟩ := bind_eq_ok.1 h
  have := remaining_lt_of_expectName hname
  simp only at h
  split at h
  · have := remaining_lt_of_importAlias h
    omega
  · split at h
    · split at h
      · obtain ⟨⟨statement, c₂⟩, hstatement, h⟩ := bind_eq_ok.1 h
        have := remaining_lt_of_importFrom hstatement
        have := remaining_advance_le c₁
        cases h
        simp only at *
        omega
      · cases h
    · obtain ⟨⟨statement, c₂⟩, hstatement, h⟩ := bind_eq_ok.1 h
      have := remaining_lt_of_importFrom hstatement
      cases h
      simp only at *
      omega

/-- A whole import statement. Nothing comes of one that refers to no module. -/
def importStatement (c : Cursor) : Except Fault (Option ImportStatement × Cursor) := do
  let (start, c) ← c.expect (.keyword .importWord)
  let typeOnly := c.typeModifiesImport
  let c := c.advanceIf typeOnly
  if c.atString then
    let (statement, c) ← c.importSource start [] typeOnly
    .ok (some statement, c)
  else if c.atName then c.importDefault start typeOnly
  else
    let (statement, c) ← c.importFrom start [] typeOnly
    .ok (some statement, c)

theorem remaining_lt_of_importStatement {c next : Cursor} {s : Option ImportStatement}
    (h : c.importStatement = .ok (s, next)) : next.remaining < c.remaining := by
  obtain ⟨⟨start, c₁⟩, hstart, h⟩ := bind_eq_ok.1 h
  have := remaining_lt_of_expect (by simp) hstart
  have := remaining_advanceIf_le c₁.typeModifiesImport c₁
  simp only at h
  split at h
  · obtain ⟨⟨statement, c₂⟩, hstatement, h⟩ := bind_eq_ok.1 h
    have := remaining_lt_of_importSource hstatement
    cases h
    simp only at *
    omega
  · split at h
    · have := remaining_lt_of_importDefault h
      omega
    · obtain ⟨⟨statement, c₂⟩, hstatement, h⟩ := bind_eq_ok.1 h
      have := remaining_lt_of_importFrom hstatement
      cases h
      simp only at *
      omega

end ComponentRegistry.Cursor
