import ComponentRegistry.Syntax.Declaration
import ComponentRegistry.Syntax.Import

/-! # Reading exports

Export statements. A default export is a declaration, a plain name, or an expression that is passed
over; everything else is a clause, a whole module or a declaration.
-/

namespace ComponentRegistry

/-- Whether a semicolon after a statement belongs to it. The end of a declaration with a body is not
looked for. -/
def ExportForm.takesSemicolon : ExportForm → Bool
  | .declaration declared .. =>
    match declared with
    | .constBinding | .letBinding | .varBinding | .importAlias => true
    | _ => false
  | .defaultInterface | .defaultDeclaration .. => false
  | .globalName | .defaultName .. | .defaultExpression .. | .list .. | .everything .. => true

namespace Cursor

/-- A star, possibly renamed, and the module whose exports it stands for. -/
def exportEverything (typeOnly : Bool) (c : Cursor) : Except Fault (ExportForm × Cursor) := do
  let (_, c) ← c.expect (.mark .star)
  if c.atWord .asWord then
    let (name, c) ← c.advance.expectModuleName
    let (_, c) ← c.expect (.keyword .fromWord)
    let (source, c) ← c.expect .string
    .ok (.everything (some name.value) (.ofToken source) typeOnly, c)
  else
    let (_, c) ← c.expect (.keyword .fromWord)
    let (source, c) ← c.expect .string
    .ok (.everything none (.ofToken source) typeOnly, c)

theorem remaining_le_of_exportEverything {typeOnly : Bool} {c next : Cursor} {form : ExportForm}
    (h : c.exportEverything typeOnly = .ok (form, next)) : next.remaining ≤ c.remaining := by
  obtain ⟨⟨star, c₁⟩, hstar, h⟩ := bind_eq_ok.1 h
  have := remaining_lt_of_expect (by simp) hstar
  simp only at h
  split at h
  · obtain ⟨⟨name, c₂⟩, hname, h⟩ := bind_eq_ok.1 h
    obtain ⟨⟨word, c₃⟩, hword, h⟩ := bind_eq_ok.1 h
    obtain ⟨⟨source, c₄⟩, hsource, h⟩ := bind_eq_ok.1 h
    have := remaining_advance_le c₁
    have := remaining_lt_of_expectModuleName hname
    have := remaining_lt_of_expect (by simp) hword
    have := remaining_lt_of_expect (by simp) hsource
    cases h
    simp only at *
    omega
  · obtain ⟨⟨word, c₃⟩, hword, h⟩ := bind_eq_ok.1 h
    obtain ⟨⟨source, c₄⟩, hsource, h⟩ := bind_eq_ok.1 h
    have := remaining_lt_of_expect (by simp) hword
    have := remaining_lt_of_expect (by simp) hsource
    cases h
    simp only at *
    omega

/-- A clause, and the module it comes from if it names one. -/
def exportList (typeOnly : Bool) (c : Cursor) : Except Fault (ExportForm × Cursor) := do
  let (specifiers, c) ← c.clause typeOnly
  if c.atWord .fromWord then
    let (source, c) ← c.advance.expect .string
    .ok (.list specifiers (some (.ofToken source)) typeOnly, c)
  else .ok (.list specifiers none typeOnly, c)

theorem remaining_le_of_exportList {typeOnly : Bool} {c next : Cursor} {form : ExportForm}
    (h : c.exportList typeOnly = .ok (form, next)) : next.remaining ≤ c.remaining := by
  obtain ⟨⟨specifiers, c₁⟩, hspecifiers, h⟩ := bind_eq_ok.1 h
  have := remaining_lt_of_clause hspecifiers
  simp only at h
  split at h
  · obtain ⟨⟨source, c₂⟩, hsource, h⟩ := bind_eq_ok.1 h
    have := remaining_lt_of_expect (by simp) hsource
    have := remaining_advance_le c₁
    cases h
    simp only at *
    omega
  · cases h
    omega

/-- A function as the default export, from the word `function` on. Its name may be missing. -/
def defaultFunction (default : Token) (async : Option Token) (c : Cursor) : ExportForm × Cursor :=
  let keyword := c.current
  let c := c.advance.advanceIf (c.advance.atMark .star)
  let name := if c.atName then some c.current.value else none
  (.defaultDeclaration .function default async keyword name, c.advanceIf c.atName)

/-- Whether the next token is the name of a class and not the beginning of its heritage. -/
def atClassName (c : Cursor) : Bool :=
  c.atName && c.current.value != "extends" && c.current.value != "implements"

/-- A class as the default export, from the word `class` on. Its name may be missing. -/
def defaultClass (default : Token) (c : Cursor) : ExportForm × Cursor :=
  let keyword := c.current
  let c := c.advance
  let name := if c.atClassName then some c.current.value else none
  (.defaultDeclaration .classType default none keyword name, c.advanceIf c.atClassName)

/-- Whether a class begins here, abstract or not. -/
def atClass (c : Cursor) : Bool :=
  c.atWord .classWord || (c.atWord .abstractWord && c.followingKind == .keyword .classWord)

/-- Whether a name here is the whole expression: a semicolon, the end of the text or a line break
follows it. -/
def atLoneName (c : Cursor) : Bool :=
  let following := c.peek 1
  c.atName &&
    (following.kind == .mark .semicolon || following.kind == .endOfInput ||
      c.current.line < following.line)

/-- What the default export is. -/
def defaultExported (default : Token) (c : Cursor) : Except Fault (ExportForm × Cursor) :=
  if c.asyncModifiesFunction then .ok (defaultFunction default (some c.current) c.advance)
  else if c.atWord .functionWord then .ok (defaultFunction default none c)
  else if c.atClass then .ok (defaultClass default (c.advanceIf (c.atWord .abstractWord)))
  else if c.atWord .interfaceWord then do
    let (_, c) ← c.advance.expectName
    .ok (.defaultInterface, c)
  else if c.atLoneName then .ok (.defaultName default c.current.value, c.advance)
  else
    let async := if c.atWord .asyncWord then some c.current else none
    .ok (.defaultExpression (some default) async, c.skipExpression)

/-- How the default export is read, told by the words that it begins with. -/
inductive ReadsDefault (default : Token) (c : Cursor) (form : ExportForm) (next : Cursor) :
    Prop where
  | asyncFunction (modifies : c.asyncModifiesFunction = true)
      (reads : defaultFunction default (some c.current) c.advance = (form, next))
  | plainFunction (word : c.atWord .functionWord = true)
      (reads : defaultFunction default none c = (form, next))
  | ofClass (begins : c.atClass = true)
      (reads : defaultClass default (c.advanceIf (c.atWord .abstractWord)) = (form, next))
  | interface {name : Token} (word : c.atWord .interfaceWord = true)
      (reads : c.advance.expectName = .ok (name, next)) (unnamed : form = .defaultInterface)
  | name (plain : c.asyncModifiesFunction = false) (lone : c.atLoneName = true)
      (reads : (.defaultName default c.current.value, c.advance) = (form, next))
  | expression (plain : c.asyncModifiesFunction = false) (more : c.atLoneName = false)
      (reads : (.defaultExpression (some default)
        (if c.atWord .asyncWord then some c.current else none), c.skipExpression) = (form, next))

theorem readsDefault_of_defaultExported {default : Token} {c next : Cursor} {form : ExportForm}
    (h : c.defaultExported default = .ok (form, next)) : ReadsDefault default c form next := by
  unfold defaultExported at h
  split at h
  · next modifies => exact .asyncFunction modifies (Except.ok.inj h)
  next plain =>
  rw [Bool.not_eq_true] at plain
  split at h
  · next word => exact .plainFunction word (Except.ok.inj h)
  split at h
  · next begins => exact .ofClass begins (Except.ok.inj h)
  split at h
  · next word =>
    obtain ⟨⟨name, c₁⟩, reads, h⟩ := bind_eq_ok.1 h
    cases h
    exact .interface word reads rfl
  split at h
  · next lone => exact .name plain lone (Except.ok.inj h)
  · next more => exact .expression plain (Bool.not_eq_true _ ▸ more) (Except.ok.inj h)

theorem remaining_defaultFunction_le (default : Token) (async : Option Token) (c : Cursor) :
    (defaultFunction default async c).2.remaining ≤ c.remaining := by
  have := remaining_advance_le c
  have := remaining_advanceIf_le (c.advance.atMark .star) c.advance
  exact Nat.le_trans (remaining_advanceIf_le _ _) (by omega)

theorem remaining_defaultClass_le (default : Token) (c : Cursor) :
    (defaultClass default c).2.remaining ≤ c.remaining :=
  Nat.le_trans (remaining_advanceIf_le _ _) (remaining_advance_le c)

theorem remaining_le_of_defaultExported {default : Token} {c next : Cursor} {form : ExportForm}
    (h : c.defaultExported default = .ok (form, next)) : next.remaining ≤ c.remaining := by
  have hadvance := remaining_advance_le c
  cases readsDefault_of_defaultExported h with
  | asyncFunction _ reads =>
    have := remaining_defaultFunction_le default (some c.current) c.advance
    rw [reads] at this
    exact Nat.le_trans this hadvance
  | plainFunction _ reads =>
    have := remaining_defaultFunction_le default none c
    rwa [reads] at this
  | ofClass _ reads =>
    have := remaining_defaultClass_le default (c.advanceIf (c.atWord .abstractWord))
    rw [reads] at this
    exact Nat.le_trans this (remaining_advanceIf_le ..)
  | interface _ reads =>
    have := remaining_lt_of_expectName reads
    omega
  | name _ _ reads =>
    cases reads
    exact hadvance
  | expression _ _ reads =>
    cases reads
    exact remaining_skipExpression_le c

/-- A default export, from the word `default` on. -/
def exportDefault (c : Cursor) : Except Fault (ExportForm × Cursor) := do
  let (default, c) ← c.expect (.keyword .defaultWord)
  c.defaultExported default

theorem remaining_le_of_exportDefault {c next : Cursor} {form : ExportForm}
    (h : c.exportDefault = .ok (form, next)) : next.remaining ≤ c.remaining := by
  obtain ⟨⟨default, c₁⟩, hdefault, h⟩ := bind_eq_ok.1 h
  have := remaining_lt_of_expect (by simp) hdefault
  have := remaining_le_of_defaultExported h
  omega

/-- What stands after the word `export`. -/
def exportForm (c : Cursor) : Except Fault (ExportForm × Cursor) :=
  if c.atWord .defaultWord then c.exportDefault
  else if c.atMark .star then c.exportEverything false
  else if c.atMark .openBrace then c.exportList false
  else if c.atWord .typeWord && c.followingKind == .mark .openBrace then c.advance.exportList true
  else if c.atWord .typeWord && c.followingKind == .mark .star then
    c.advance.exportEverything true
  else if c.atMark .equals then .ok (.defaultExpression none none, c.advance.skipExpression)
  else if c.atWord .asWord then do
    let (_, c) ← c.advance.expectName
    let (_, c) ← c.expectName
    .ok (.globalName, c)
  else c.exportDeclaration

theorem remaining_le_of_exportForm {c next : Cursor} {form : ExportForm}
    (h : c.exportForm = .ok (form, next)) : next.remaining ≤ c.remaining := by
  have hadvance := remaining_advance_le c
  unfold exportForm at h
  split at h
  · exact remaining_le_of_exportDefault h
  split at h
  · exact remaining_le_of_exportEverything h
  split at h
  · exact remaining_le_of_exportList h
  split at h
  · exact Nat.le_trans (remaining_le_of_exportList h) hadvance
  split at h
  · exact Nat.le_trans (remaining_le_of_exportEverything h) hadvance
  split at h
  · cases h
    exact Nat.le_trans (remaining_skipExpression_le _) hadvance
  split at h
  · obtain ⟨⟨word, c₁⟩, hword, h⟩ := bind_eq_ok.1 h
    obtain ⟨⟨name, c₂⟩, hname, h⟩ := bind_eq_ok.1 h
    have := remaining_lt_of_expectName hword
    have := remaining_lt_of_expectName hname
    cases h
    simp only at *
    omega
  · exact remaining_le_of_exportDeclaration h

/-- A semicolon that ends a statement of a certain form, if it takes one. -/
def exportEnding (form : ExportForm) (c : Cursor) : Bool × Cursor :=
  if form.takesSemicolon then c.takeSemicolon else (false, c)

theorem remaining_exportEnding_le (form : ExportForm) (c : Cursor) :
    (c.exportEnding form).2.remaining ≤ c.remaining := by
  unfold exportEnding
  split
  · exact remaining_takeSemicolon_le c
  · exact Nat.le_refl _

/-- A whole export statement. -/
def exportStatement (c : Cursor) : Except Fault (ExportStatement × Cursor) := do
  let (start, c) ← c.expect (.keyword .exportWord)
  let (form, c) ← c.exportForm
  let ending := c.exportEnding form
  .ok (⟨form, ending.1, ⟨start.start, ending.2.passedOffset⟩⟩, ending.2)

theorem remaining_lt_of_exportStatement {c next : Cursor} {s : ExportStatement}
    (h : c.exportStatement = .ok (s, next)) : next.remaining < c.remaining := by
  obtain ⟨⟨start, c₁⟩, hstart, h⟩ := bind_eq_ok.1 h
  obtain ⟨⟨form, c₂⟩, hform, h⟩ := bind_eq_ok.1 h
  have := remaining_lt_of_expect (by simp) hstart
  have := remaining_le_of_exportForm hform
  have := remaining_exportEnding_le form c₂
  cases h
  simp only at *
  omega

end Cursor

end ComponentRegistry
