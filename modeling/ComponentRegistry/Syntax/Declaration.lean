import ComponentRegistry.Syntax.Pattern
import ComponentRegistry.Syntax.Statement

/-! # Reading exported declarations

What stands after `export` when a declaration is exported: modifiers, the word for what is declared,
and the names it declares. Bodies are left for the search for the next statement.
-/

namespace ComponentRegistry.Cursor

/-- Whether `async` here modifies a function declaration. -/
def asyncModifiesFunction (c : Cursor) : Bool :=
  c.atWord .asyncWord && c.followingKind == .keyword .functionWord

/-- Whether `async` here begins an arrow function: a parameter list, type parameters, or a name with
an arrow follows. -/
def asyncBeginsArrow (c : Cursor) : Bool :=
  c.atWord .asyncWord &&
    (c.followingKind == .mark .openParen || c.followingKind == .mark .less ||
      (c.followingKind.isName && (c.peek 2).kind == .mark .arrow))

/-- Move past a type annotation if there is one. -/
def skipAnnotation (c : Cursor) : Cursor := if c.atMark .colon then c.advance.skipType else c

/-- The `async` word of an initializer that is an asynchronous arrow function. -/
def asyncInitializer (c : Cursor) : Option Token :=
  if c.atMark .equals && c.advance.asyncBeginsArrow then some c.advance.current else none

theorem remaining_skipAnnotation_le (c : Cursor) : c.skipAnnotation.remaining ≤ c.remaining := by
  unfold skipAnnotation
  split
  · exact Nat.le_trans (remaining_skipType_le _) (remaining_advance_le _)
  · exact Nat.le_refl _

/-- Move past what follows the names of a declarator: its type and its initializer. -/
def skipDeclaratorRest (c : Cursor) : Cursor := PatternState.skipInitializer c.skipAnnotation

theorem remaining_skipDeclaratorRest_le (c : Cursor) :
    c.skipDeclaratorRest.remaining ≤ c.remaining :=
  Nat.le_trans (PatternState.remaining_skipInitializer_le _) (remaining_skipAnnotation_le c)

/-- The names that a list of declarators binds, and the `async` word of the first one's initializer,
if that is an asynchronous arrow function. -/
def declarators (c : Cursor) : Except Fault ((List String × Option Token) × Cursor) :=
  match _names : c.bindingNames with
  | .error fault => .error fault
  | .ok (names, next) =>
    if next.skipDeclaratorRest.atMark .comma then
      (declarators next.skipDeclaratorRest.advance).map fun ((more, _), c) =>
        ((names ++ more, next.skipAnnotation.asyncInitializer), c)
    else .ok ((names, next.skipAnnotation.asyncInitializer), next.skipDeclaratorRest)
termination_by c.remaining
decreasing_by
  have := remaining_lt_of_bindingNames _names
  have := remaining_skipDeclaratorRest_le next
  have := remaining_advance_le next.skipDeclaratorRest
  omega

theorem remaining_lt_of_declarators {c next : Cursor} {found : List String × Option Token}
    (h : c.declarators = .ok (found, next)) : next.remaining < c.remaining := by
  fun_induction declarators c generalizing found with
  | case1 => cases h
  | case2 c names c₁ hnames _ ih =>
    have := remaining_lt_of_bindingNames hnames
    have := remaining_skipDeclaratorRest_le c₁
    have := remaining_advance_le c₁.skipDeclaratorRest
    cases hrest : c₁.skipDeclaratorRest.advance.declarators with
    | error fault =>
      rw [hrest] at h
      cases h
    | ok result =>
      rw [hrest] at h
      cases h
      have := ih hrest
      omega
  | case3 c names c₁ hnames _ =>
    have := remaining_lt_of_bindingNames hnames
    have := remaining_skipDeclaratorRest_le c₁
    cases h
    omega

/-- The modifiers of a declaration. -/
structure Modifiers where
  /-- Whether it declares something that exists elsewhere. -/
  ambient : Bool
  /-- The `async` word, directly before `function`. -/
  async : Option Token
  deriving Repr, DecidableEq

/-- Move past the modifiers of a declaration. -/
def modifiersFrom (found : Modifiers) (c : Cursor) : Modifiers × Cursor :=
  if _ambient : c.atWord .declareWord then modifiersFrom { found with ambient := true } c.advance
  else if _abstract : c.atWord .abstractWord then modifiersFrom found c.advance
  else if _async : c.asyncModifiesFunction then
    modifiersFrom { found with async := some c.current } c.advance
  else (found, c)
termination_by c.remaining
decreasing_by
  · exact remaining_advance_lt (by simp [kind_of_atWord _ambient])
  · exact remaining_advance_lt (by simp [kind_of_atWord _abstract])
  · simp only [asyncModifiesFunction, Bool.and_eq_true] at _async
    exact remaining_advance_lt (by simp [kind_of_atWord _async.1])

/-- The modifiers of a declaration and the place after them. -/
def modifiers (c : Cursor) : Modifiers × Cursor := modifiersFrom ⟨false, none⟩ c

theorem remaining_modifiersFrom_le (found : Modifiers) (c : Cursor) :
    (modifiersFrom found c).2.remaining ≤ c.remaining := by
  fun_induction modifiersFrom found c with
  | case1 _ c _ ih => exact Nat.le_trans ih (remaining_advance_le c)
  | case2 _ c _ _ ih => exact Nat.le_trans ih (remaining_advance_le c)
  | case3 _ c _ _ _ ih => exact Nat.le_trans ih (remaining_advance_le c)
  | case4 => exact Nat.le_refl _

/-- The kind of variable that a keyword declares. -/
def variableKind? : TokenKind → Option DeclarationKind
  | .keyword .constWord => some .constBinding
  | .keyword .letWord => some .letBinding
  | .keyword .varWord => some .varBinding
  | _ => none

/-- The kind of type that a keyword declares. -/
def erasedKind? : TokenKind → Option DeclarationKind
  | .keyword .interfaceWord => some .interface
  | .keyword .typeWord => some .typeAlias
  | _ => none

/-- Whether the next token begins a namespace. -/
def atNamespace (c : Cursor) : Bool :=
  c.kind == .identifier && (c.current.value == "namespace" || c.current.value == "module")

/-- Whether an enumeration begins here, constant or not. -/
def atEnumeration (c : Cursor) : Bool :=
  c.atWord .enumWord || (c.atWord .constWord && c.followingKind == .keyword .enumWord)

/-- The declaration after the modifiers: what it declares, and under which names. -/
def declared (m : Modifiers) (c : Cursor) : Except Fault (ExportForm × Cursor) :=
  let keyword := c.current
  if c.atWord .functionWord then do
    let (name, c) ← (c.advance.advanceIf (c.advance.atMark .star)).expectName
    .ok (.declaration .function keyword m.async [name.value] m.ambient, c)
  else if c.atWord .classWord then do
    let (name, c) ← c.advance.expectName
    .ok (.declaration .classType keyword m.async [name.value] m.ambient, c)
  else if c.atEnumeration then do
    let (name, c) ← (c.advanceIf (c.atWord .constWord)).advance.expectName
    .ok (.declaration .enumeration keyword m.async [name.value] m.ambient, c)
  else if let some kind := variableKind? c.kind then do
    let (found, c) ← c.advance.declarators
    .ok (.declaration kind keyword (m.async <|> found.2) found.1 m.ambient, c)
  else if let some kind := erasedKind? c.kind then do
    let (_, c) ← c.advance.expectName
    .ok (.declaration kind keyword m.async [] m.ambient, c)
  else if c.atNamespace then do
    let (name, c) ← c.advance.expectModuleName
    .ok (.declaration .namespaceBlock keyword m.async [name.value] m.ambient, c)
  else if c.atWord .importWord then do
    let (name, c) ← c.advance.expectName
    let (_, c) ← c.expect (.mark .equals)
    let (_, c) ← c.expectName
    let c ← c.dottedNames
    .ok (.declaration .importAlias keyword m.async [name.value] m.ambient, c)
  else .error (c.fault .unsupportedExport)

/-- How a declaration is read, told by the words that it begins with. -/
inductive ReadsDeclared (m : Modifiers) (c : Cursor) : ExportForm → Cursor → Prop where
  | ofFunction {name : Token} {next : Cursor} (word : c.atWord .functionWord = true)
      (reads : (c.advance.advanceIf (c.advance.atMark .star)).expectName = .ok (name, next)) :
      ReadsDeclared m c (.declaration .function c.current m.async [name.value] m.ambient) next
  | ofClass {name : Token} {next : Cursor} (word : c.atWord .classWord = true)
      (reads : c.advance.expectName = .ok (name, next)) :
      ReadsDeclared m c (.declaration .classType c.current m.async [name.value] m.ambient) next
  | enumeration {name : Token} {next : Cursor} (begins : c.atEnumeration = true)
      (reads : (c.advanceIf (c.atWord .constWord)).advance.expectName = .ok (name, next)) :
      ReadsDeclared m c (.declaration .enumeration c.current m.async [name.value] m.ambient) next
  | bindings {kind : DeclarationKind} {found : List String × Option Token} {next : Cursor}
      (plain : c.atEnumeration = false) (word : variableKind? c.kind = some kind)
      (reads : c.advance.declarators = .ok (found, next)) :
      ReadsDeclared m c (.declaration kind c.current (m.async <|> found.2) found.1 m.ambient) next
  | erased {kind : DeclarationKind} {name : Token} {next : Cursor}
      (word : erasedKind? c.kind = some kind) (reads : c.advance.expectName = .ok (name, next)) :
      ReadsDeclared m c (.declaration kind c.current m.async [] m.ambient) next
  | ofNamespace {name : Token} {next : Cursor} (begins : c.atNamespace = true)
      (reads : c.advance.expectModuleName = .ok (name, next)) :
      ReadsDeclared m c (.declaration .namespaceBlock c.current m.async [name.value] m.ambient) next
  | importAlias {name sign target : Token} {c₁ c₂ c₃ next : Cursor}
      (word : c.atWord .importWord = true) (reads : c.advance.expectName = .ok (name, c₁))
      (equals : c₁.expect (.mark .equals) = .ok (sign, c₂))
      (names : c₂.expectName = .ok (target, c₃)) (dots : c₃.dottedNames = .ok next) :
      ReadsDeclared m c (.declaration .importAlias c.current m.async [name.value] m.ambient) next

theorem readsDeclared_of_declared {m : Modifiers} {c next : Cursor} {form : ExportForm}
    (h : c.declared m = .ok (form, next)) : ReadsDeclared m c form next := by
  unfold declared at h
  simp only at h
  split at h
  · next word =>
    obtain ⟨⟨name, c₁⟩, reads, h⟩ := bind_eq_ok.1 h
    cases h
    exact .ofFunction word reads
  split at h
  · next word =>
    obtain ⟨⟨name, c₁⟩, reads, h⟩ := bind_eq_ok.1 h
    cases h
    exact .ofClass word reads
  split at h
  · next begins =>
    obtain ⟨⟨name, c₁⟩, reads, h⟩ := bind_eq_ok.1 h
    cases h
    exact .enumeration begins reads
  next plain =>
  rw [Bool.not_eq_true] at plain
  split at h
  · next word =>
    obtain ⟨⟨found, c₁⟩, reads, h⟩ := bind_eq_ok.1 h
    cases h
    exact .bindings plain word reads
  split at h
  · next word =>
    obtain ⟨⟨name, c₁⟩, reads, h⟩ := bind_eq_ok.1 h
    cases h
    exact .erased word reads
  split at h
  · next begins =>
    obtain ⟨⟨name, c₁⟩, reads, h⟩ := bind_eq_ok.1 h
    cases h
    exact .ofNamespace begins reads
  split at h
  · next word =>
    obtain ⟨⟨name, c₁⟩, reads, h⟩ := bind_eq_ok.1 h
    obtain ⟨⟨sign, c₂⟩, equals, h⟩ := bind_eq_ok.1 h
    obtain ⟨⟨target, c₃⟩, names, h⟩ := bind_eq_ok.1 h
    obtain ⟨c₄, dots, h⟩ := bind_eq_ok.1 h
    cases h
    exact .importAlias word reads equals names dots
  · cases h

/-- A declaration has a word and a name. -/
theorem remaining_of_declared {m : Modifiers} {c next : Cursor} {form : ExportForm}
    (h : c.declared m = .ok (form, next)) : next.remaining + 2 ≤ c.remaining := by
  have hadvance := remaining_advance c
  cases readsDeclared_of_declared h with
  | ofFunction _ reads =>
    have := remaining_lt_of_expectName reads
    have := remaining_advanceIf_le (c.advance.atMark .star) c.advance
    omega
  | ofClass _ reads =>
    have := remaining_lt_of_expectName reads
    omega
  | enumeration _ reads =>
    have := remaining_lt_of_expectName reads
    have := remaining_advance (c.advanceIf (c.atWord .constWord))
    have := remaining_advanceIf_le (c.atWord .constWord) c
    omega
  | bindings _ _ reads =>
    have := remaining_lt_of_declarators reads
    omega
  | erased _ reads =>
    have := remaining_lt_of_expectName reads
    omega
  | ofNamespace _ reads =>
    have := remaining_lt_of_expectModuleName reads
    omega
  | importAlias _ reads equals names dots =>
    have := remaining_lt_of_expectName reads
    have := remaining_lt_of_expect (by simp) equals
    have := remaining_lt_of_expectName names
    have := remaining_le_of_dottedNames dots
    omega

/-- An exported declaration. -/
def exportDeclaration (c : Cursor) : Except Fault (ExportForm × Cursor) :=
  let found := c.modifiers
  found.2.declared found.1

theorem remaining_le_of_exportDeclaration {c next : Cursor} {form : ExportForm}
    (h : c.exportDeclaration = .ok (form, next)) : next.remaining ≤ c.remaining :=
  Nat.le_trans (Nat.le_of_add_right_le (remaining_of_declared h)) (remaining_modifiersFrom_le _ c)

end ComponentRegistry.Cursor
