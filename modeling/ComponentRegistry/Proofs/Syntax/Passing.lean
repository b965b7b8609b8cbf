import ComponentRegistry.Syntax.Outline

/-! # What readers pass over

Every reader passes over a stretch of the tokens ahead and stops just after it. A statement takes up
exactly the tokens that its reader passed over.
-/

namespace ComponentRegistry

namespace Cursor

/-- From one place to another, passing over some tokens. -/
structure Passes (c n : Cursor) (passed : List Token) : Prop where
  ahead : c.ahead = passed ++ n.ahead
  previous : n.previous = passed.getLast?.or c.previous
  finish : n.finish = c.finish

/-- From one place to a later one. -/
def Reaches (c n : Cursor) : Prop := ∃ passed, Passes c n passed

theorem Passes.refl (c : Cursor) : Passes c c [] := ⟨rfl, rfl, rfl⟩

theorem Passes.trans {c n m : Cursor} {ts us : List Token} (h₁ : Passes c n ts)
    (h₂ : Passes n m us) : Passes c m (ts ++ us) where
  ahead := by rw [h₁.ahead, h₂.ahead, List.append_assoc]
  previous := by
    rw [h₂.previous, h₁.previous, List.getLast?_append]
    cases us.getLast? <;> rfl
  finish := h₂.finish.trans h₁.finish

theorem Passes.reaches {c n : Cursor} {ts : List Token} (h : Passes c n ts) : Reaches c n := ⟨ts, h⟩

theorem Reaches.refl (c : Cursor) : Reaches c c := (Passes.refl c).reaches

theorem Reaches.trans {c n m : Cursor} (h₁ : Reaches c n) (h₂ : Reaches n m) : Reaches c m :=
  let ⟨_, h₁⟩ := h₁
  let ⟨_, h₂⟩ := h₂
  (h₁.trans h₂).reaches

theorem Reaches.suffix {c n : Cursor} (h : Reaches c n) : n.ahead <:+ c.ahead :=
  let ⟨passed, h⟩ := h
  ⟨passed, h.ahead.symm⟩

theorem Reaches.finish_eq {c n : Cursor} (h : Reaches c n) : n.finish = c.finish :=
  let ⟨_, h⟩ := h
  h.finish

theorem passes_cons {c : Cursor} {t : Token} {rest : List Token} (h : c.ahead = t :: rest) :
    Passes c c.advance [t] := by
  constructor <;> simp [advance, h]

theorem ahead_advance {c : Cursor} {t : Token} {rest : List Token} (h : c.ahead = t :: rest) :
    c.advance.ahead = rest := by
  simp [advance, h]

theorem current_eq_of_cons {c : Cursor} {t : Token} {rest : List Token} (h : c.ahead = t :: rest) :
    c.current = t := by
  simp [current, peek, h]

theorem exists_cons_of_kind {c : Cursor} (h : c.kind ≠ .endOfInput) :
    ∃ rest, c.ahead = c.current :: rest := by
  cases hc : c.ahead with
  | nil => simp [kind, current, peek, hc, Token.endOfInput] at h
  | cons t rest => exact ⟨rest, by rw [current_eq_of_cons hc]⟩

theorem kind_of_nil {c : Cursor} (h : c.ahead = []) : c.kind = .endOfInput := by
  simp [kind, current, peek, h, Token.endOfInput]

theorem passes_advance {c : Cursor} (h : c.kind ≠ .endOfInput) :
    Passes c c.advance [c.current] :=
  let ⟨_, hrest⟩ := exists_cons_of_kind h
  passes_cons hrest

theorem peek_succ (c : Cursor) (n : Nat) : c.peek (n + 1) = c.advance.peek n := by
  obtain ⟨previous, ahead, finish⟩ := c
  cases ahead <;> simp [peek, advance]

theorem followingKind_eq (c : Cursor) : c.followingKind = c.advance.kind := by
  obtain ⟨previous, ahead, finish⟩ := c
  cases ahead <;> rfl

theorem asyncModifiesFunction_iff {c : Cursor} : c.asyncModifiesFunction = true ↔
    c.kind = .keyword .asyncWord ∧ c.advance.kind = .keyword .functionWord := by
  simp [asyncModifiesFunction, atWord, followingKind_eq]

/-- The word `class` comes first, or behind `abstract`. -/
theorem kind_of_atClass {c : Cursor} (h : c.atClass = true) :
    (c.advanceIf (c.atWord .abstractWord)).kind = .keyword .classWord := by
  rcases hword : c.atWord .abstractWord with _ | _
  · rw [atClass, hword, Bool.false_and, Bool.or_false] at h
    exact kind_of_atWord h
  · simpa [atClass, hword, kind_of_atWord hword, atWord, followingKind_eq, advanceIf] using h

/-- A place is told by how many tokens are ahead of it. -/
theorem Reaches.eq_of_remaining {c n m : Cursor} (hn : Reaches c n) (hm : Reaches c m)
    (heq : n.remaining = m.remaining) : n = m := by
  obtain ⟨ts, hts⟩ := hn
  obtain ⟨us, hus⟩ := hm
  obtain ⟨rfl, hahead⟩ := List.append_inj' (hts.ahead.symm.trans hus.ahead) heq
  obtain ⟨previous, ahead, finish⟩ := n
  obtain ⟨previous', ahead', finish'⟩ := m
  simp only [Cursor.mk.injEq]
  exact ⟨hts.previous.trans hus.previous.symm, hahead, hts.finish.trans hus.finish.symm⟩

theorem Passes.eq_of_nil {c n : Cursor} (h : Passes c n []) : n = c := by
  refine Reaches.eq_of_remaining h.reaches (Reaches.refl c) ?_
  rw [remaining, remaining, h.ahead, List.nil_append]

theorem Passes.head {c n : Cursor} {t : Token} {ts : List Token} (h : Passes c n (t :: ts)) :
    c.current = t ∧ Passes c.advance n ts := by
  have hfirst := passes_cons (c := c) h.ahead
  refine ⟨current_eq_of_cons h.ahead, ahead_advance h.ahead, ?_, h.finish.trans hfirst.finish.symm⟩
  rw [h.previous, hfirst.previous]
  cases ts <;> simp [List.getLast?_cons]

theorem Passes.split {c n : Cursor} {ts us : List Token} (h : Passes c n (ts ++ us)) :
    ∃ m, Passes c m ts ∧ Passes m n us := by
  refine ⟨⟨ts.getLast?.or c.previous, us ++ n.ahead, c.finish⟩, ⟨?_, rfl, rfl⟩, rfl, ?_, h.finish⟩
  · rw [h.ahead, List.append_assoc]
  · rw [h.previous, List.getLast?_append]
    cases us.getLast? <;> rfl

theorem Passes.kind_eq {c n : Cursor} {t : Token} {ts : List Token} (h : Passes c n (t :: ts)) :
    c.kind = t.kind := by
  rw [kind, h.head.1]

theorem Reaches.remaining_le {c n : Cursor} (h : Reaches c n) : n.remaining ≤ c.remaining :=
  h.suffix.length_le

theorem reaches_advance (c : Cursor) : Reaches c c.advance := by
  cases hc : c.ahead with
  | nil => simpa [advance, hc] using Reaches.refl c
  | cons t rest => exact (passes_cons hc).reaches

theorem reaches_advanceIf (condition : Bool) (c : Cursor) : Reaches c (c.advanceIf condition) := by
  unfold advanceIf
  split
  · exact reaches_advance c
  · exact Reaches.refl c

theorem passes_of_expect {kind : TokenKind} {c n : Cursor} {t : Token} (hkind : kind ≠ .endOfInput)
    (h : c.expect kind = .ok (t, n)) : Passes c n [t] ∧ t = c.current ∧ t.kind = kind := by
  unfold expect at h
  split at h
  · next hk =>
    cases h
    exact ⟨passes_advance (hk ▸ hkind), rfl, hk⟩
  · cases h

theorem passes_of_expectName {c n : Cursor} {t : Token} (h : c.expectName = .ok (t, n)) :
    Passes c n [t] ∧ t = c.current ∧ t.kind.isName := by
  unfold expectName at h
  split at h
  · next hk =>
    cases h
    exact ⟨passes_advance (kind_ne_of_atName hk), rfl, hk⟩
  · cases h

theorem passes_of_expectModuleName {c n : Cursor} {t : Token}
    (h : c.expectModuleName = .ok (t, n)) : Passes c n [t] := by
  unfold expectModuleName at h
  split at h
  · next hk =>
    cases h
    exact passes_advance (by simp [kind_of_atString hk])
  · exact (passes_of_expectName h).1

theorem reaches_takeSemicolon (c : Cursor) : Reaches c c.takeSemicolon.2 := by
  unfold takeSemicolon
  split
  · exact reaches_advance c
  · exact Reaches.refl c

theorem reaches_of_dottedNames {c n : Cursor} (h : c.dottedNames = .ok n) : Reaches c n := by
  fun_induction dottedNames c with
  | case1 => cases h
  | case2 c hdot t c' hname ih =>
    exact (reaches_advance c).trans ((passes_of_expectName hname).1.reaches.trans (ih h))
  | case3 =>
    cases h
    exact Reaches.refl _

end Cursor

namespace Reach

theorem passes_expressionFrom (finish : Position) (depth angles : Nat) (previous : Option Token)
    (tokens : List Token) :
    Cursor.Reaches ⟨previous, tokens, finish⟩
      (expressionFrom finish depth angles previous tokens) := by
  induction tokens generalizing depth angles previous with
  | nil => exact Cursor.Reaches.refl _
  | cons token rest ih =>
    simp only [expressionFrom]
    split
    · exact Cursor.Reaches.refl _
    · exact (Cursor.passes_cons rfl).reaches.trans (ih ..)

theorem passes_typeFrom (finish : Position) (depth : Int) (previous : Option Token)
    (tokens : List Token) :
    Cursor.Reaches ⟨previous, tokens, finish⟩ (typeFrom finish depth previous tokens) := by
  induction tokens generalizing depth previous with
  | nil => exact Cursor.Reaches.refl _
  | cons token rest ih =>
    simp only [typeFrom]
    split
    · exact Cursor.Reaches.refl _
    · exact (Cursor.passes_cons rfl).reaches.trans (ih ..)

theorem passes_groupFrom (finish : Position) (depth : Nat) (previous : Option Token)
    (tokens : List Token) :
    Cursor.Reaches ⟨previous, tokens, finish⟩ (groupFrom finish depth previous tokens) := by
  induction tokens generalizing depth previous with
  | nil => exact Cursor.Reaches.refl _
  | cons token rest ih =>
    simp only [groupFrom]
    split
    · exact (Cursor.passes_cons rfl).reaches
    · exact (Cursor.passes_cons rfl).reaches.trans (ih ..)

theorem passes_upToKind (kind : TokenKind) (finish : Position) (previous : Option Token)
    (tokens : List Token) :
    Cursor.Reaches ⟨previous, tokens, finish⟩ (upToKind kind finish previous tokens) := by
  induction tokens generalizing previous with
  | nil => exact Cursor.Reaches.refl _
  | cons token rest ih =>
    simp only [upToKind]
    split
    · exact Cursor.Reaches.refl _
    · exact (Cursor.passes_cons rfl).reaches.trans (ih ..)

end Reach

namespace Cursor

theorem reaches_skipExpression (c : Cursor) : Reaches c c.skipExpression :=
  Reach.passes_expressionFrom ..

theorem reaches_skipType (c : Cursor) : Reaches c c.skipType := Reach.passes_typeFrom ..

theorem reaches_skipGroup (c : Cursor) : Reaches c c.skipGroup := Reach.passes_groupFrom ..

theorem reaches_skipTo (kind : TokenKind) (c : Cursor) : Reaches c (c.skipTo kind) :=
  Reach.passes_upToKind ..

section Import

variable {c n : Cursor}

theorem reaches_of_specifier {typeOnly : Bool} {s : Specifier}
    (h : c.specifier typeOnly = .ok (s, n)) : Reaches c n := by
  obtain ⟨⟨imported, c₁⟩, himported, h⟩ := bind_eq_ok.1 h
  have h₁ := (reaches_advanceIf c.typeModifiesEntry c).trans
    (passes_of_expectModuleName himported).reaches
  simp only at h
  split at h
  · obtain ⟨⟨bound, c₂⟩, hbound, hok⟩ := bind_eq_ok.1 h
    cases hok
    exact h₁.trans ((reaches_advance c₁).trans (passes_of_expectModuleName hbound).reaches)
  · cases h
    exact h₁

theorem reaches_of_clauseEntries {typeOnly : Bool} {entries : List Specifier}
    (h : c.clauseEntries typeOnly = .ok (entries, n)) : Reaches c n := by
  fun_induction clauseEntries typeOnly c generalizing entries with
  | case1 =>
    cases h
    exact reaches_advance _
  | case2 => cases h
  | case3 c _ entry c₁ hentry _ ih =>
    obtain ⟨⟨others, c₂⟩, hothers, heq⟩ := map_eq_ok.1 h
    cases heq
    exact (reaches_of_specifier hentry).trans ((reaches_advance c₁).trans (ih hothers))
  | case4 c _ entry c₁ hentry _ _ =>
    cases h
    exact (reaches_of_specifier hentry).trans (reaches_advance c₁)
  | case5 => cases h

theorem reaches_of_clause {typeOnly : Bool} {entries : List Specifier}
    (h : c.clause typeOnly = .ok (entries, n)) : Reaches c n := by
  obtain ⟨⟨brace, c₁⟩, hbrace, h⟩ := bind_eq_ok.1 h
  exact (passes_of_expect (by simp) hbrace).1.reaches.trans (reaches_of_clauseEntries h)

theorem reaches_of_skipAttributes {source : Token} (h : c.skipAttributes source = .ok n) :
    Reaches c n := by
  unfold skipAttributes at h
  simp only at h
  split at h
  · obtain ⟨⟨brace, c₁⟩, hbrace, hok⟩ := bind_eq_ok.1 h
    cases hok
    exact (reaches_advance c).trans ((reaches_advance _).trans
      ((reaches_skipTo _ _).trans (passes_of_expect (by simp) hbrace).1.reaches))
  · cases h
    exact Reaches.refl _

theorem reaches_of_importSource {start : Token} {specifiers : List Specifier} {typeOnly : Bool}
    {s : ImportStatement} (h : c.importSource start specifiers typeOnly = .ok (s, n)) :
    Reaches c n ∧ s.span = ⟨start.start, n.passedOffset⟩ := by
  obtain ⟨⟨source, c₁⟩, hsource, h⟩ := bind_eq_ok.1 h
  obtain ⟨c₂, hattributes, h⟩ := bind_eq_ok.1 h
  cases h
  exact ⟨(passes_of_expect (by simp) hsource).1.reaches.trans
    ((reaches_of_skipAttributes hattributes).trans (reaches_takeSemicolon c₂)), rfl⟩

theorem reaches_of_importBindings {bound specifiers : List Specifier} {typeOnly : Bool}
    (h : c.importBindings bound typeOnly = .ok (specifiers, n)) : Reaches c n := by
  unfold importBindings at h
  split at h
  · obtain ⟨⟨word, c₁⟩, hword, h⟩ := bind_eq_ok.1 h
    obtain ⟨⟨name, c₂⟩, hname, h⟩ := bind_eq_ok.1 h
    cases h
    exact (reaches_advance c).trans ((passes_of_expect (by simp) hword).1.reaches.trans
      (passes_of_expectName hname).1.reaches)
  split at h
  · obtain ⟨⟨entries, c₁⟩, hentries, h⟩ := bind_eq_ok.1 h
    cases h
    exact reaches_of_clause hentries
  split at h
  · cases h
  · cases h
    exact Reaches.refl _

theorem reaches_of_importFrom {start : Token} {bound : List Specifier} {typeOnly : Bool}
    {s : ImportStatement} (h : c.importFrom start bound typeOnly = .ok (s, n)) :
    Reaches c n ∧ s.span = ⟨start.start, n.passedOffset⟩ := by
  obtain ⟨⟨specifiers, c₁⟩, hspecifiers, h⟩ := bind_eq_ok.1 h
  obtain ⟨⟨word, c₂⟩, hword, h⟩ := bind_eq_ok.1 h
  obtain ⟨hreach, hspan⟩ := reaches_of_importSource h
  exact ⟨(reaches_of_importBindings hspecifiers).trans
    ((passes_of_expect (by simp) hword).1.reaches.trans hreach), hspan⟩

theorem reaches_of_importAlias {start name : Token} {typeOnly : Bool}
    {s : Option ImportStatement} (h : c.importAlias start name typeOnly = .ok (s, n)) :
    Reaches c n ∧ ∀ s' ∈ s, s'.span = ⟨start.start, n.passedOffset⟩ := by
  obtain ⟨⟨sign, c₁⟩, hsign, h⟩ := bind_eq_ok.1 h
  have h₁ := (passes_of_expect (by simp) hsign).1.reaches
  simp only at h
  split at h
  · obtain ⟨⟨paren, c₂⟩, hparen, h⟩ := bind_eq_ok.1 h
    obtain ⟨⟨source, c₃⟩, hsource, h⟩ := bind_eq_ok.1 h
    obtain ⟨⟨paren', c₄⟩, hparen', h⟩ := bind_eq_ok.1 h
    obtain ⟨c₅, hattributes, h⟩ := bind_eq_ok.1 h
    cases h
    refine ⟨h₁.trans ((reaches_advance c₁).trans ?_), by simp⟩
    exact (passes_of_expect (by simp) hparen).1.reaches.trans
      ((passes_of_expect (by simp) hsource).1.reaches.trans
        ((passes_of_expect (by simp) hparen').1.reaches.trans
          ((reaches_of_skipAttributes hattributes).trans (reaches_takeSemicolon c₅))))
  · obtain ⟨⟨target, c₂⟩, htarget, h⟩ := bind_eq_ok.1 h
    obtain ⟨c₃, hdots, h⟩ := bind_eq_ok.1 h
    cases h
    exact ⟨h₁.trans ((passes_of_expectName htarget).1.reaches.trans
      ((reaches_of_dottedNames hdots).trans (reaches_takeSemicolon c₃))), by simp⟩

theorem reaches_of_importDefault {start : Token} {typeOnly : Bool} {s : Option ImportStatement}
    (h : c.importDefault start typeOnly = .ok (s, n)) :
    Reaches c n ∧ ∀ s' ∈ s, s'.span = ⟨start.start, n.passedOffset⟩ := by
  obtain ⟨⟨name, c₁⟩, hname, h⟩ := bind_eq_ok.1 h
  have h₁ := (passes_of_expectName hname).1.reaches
  simp only at h
  split at h
  · obtain ⟨hreach, hspan⟩ := reaches_of_importAlias h
    exact ⟨h₁.trans hreach, hspan⟩
  split at h
  · split at h
    · obtain ⟨⟨statement, c₂⟩, hstatement, h⟩ := bind_eq_ok.1 h
      obtain ⟨hreach, hspan⟩ := reaches_of_importFrom hstatement
      cases h
      exact ⟨h₁.trans ((reaches_advance c₁).trans hreach), by simpa using hspan⟩
    · cases h
  · obtain ⟨⟨statement, c₂⟩, hstatement, h⟩ := bind_eq_ok.1 h
    obtain ⟨hreach, hspan⟩ := reaches_of_importFrom hstatement
    cases h
    exact ⟨h₁.trans hreach, by simpa using hspan⟩

/-- An import takes up the tokens from the word `import` to where its reader stops. -/
theorem reaches_of_importStatement {s : Option ImportStatement}
    (h : c.importStatement = .ok (s, n)) :
    Reaches c n ∧ ∀ s' ∈ s, s'.span = ⟨c.current.start, n.passedOffset⟩ := by
  obtain ⟨⟨start, c₁⟩, hstart, h⟩ := bind_eq_ok.1 h
  obtain ⟨hpass, rfl, -⟩ := passes_of_expect (by simp) hstart
  have h₁ := hpass.reaches.trans (reaches_advanceIf c₁.typeModifiesImport c₁)
  simp only at h
  split at h
  · obtain ⟨⟨statement, c₂⟩, hstatement, h⟩ := bind_eq_ok.1 h
    obtain ⟨hreach, hspan⟩ := reaches_of_importSource hstatement
    cases h
    exact ⟨h₁.trans hreach, by simpa using hspan⟩
  split at h
  · obtain ⟨hreach, hspan⟩ := reaches_of_importDefault h
    exact ⟨h₁.trans hreach, hspan⟩
  · obtain ⟨⟨statement, c₂⟩, hstatement, h⟩ := bind_eq_ok.1 h
    obtain ⟨hreach, hspan⟩ := reaches_of_importFrom hstatement
    cases h
    exact ⟨h₁.trans hreach, by simpa using hspan⟩

end Import

end Cursor

namespace PatternState

open Cursor (Reaches reaches_advance reaches_skipExpression reaches_skipGroup
  passes_of_expectName passes_of_expectModuleName)

theorem reaches_skipInitializer (c : Cursor) : Reaches c (skipInitializer c) := by
  unfold skipInitializer
  split
  · exact (reaches_advance c).trans (reaches_skipExpression _)
  · exact Reaches.refl c

variable {frames : List PatternFrame} {names : List String} {c : Cursor} {t : PatternState}

theorem reaches_of_stepBind (h : stepBind frames names c = .ok t) : Reaches c t.cursor := by
  unfold stepBind at h
  split at h
  · cases h
    exact reaches_advance c
  split at h
  · cases h
    exact reaches_advance c
  · obtain ⟨⟨name, next⟩, hname, hok⟩ := bind_eq_ok.1 h
    cases hok
    exact (passes_of_expectName hname).1.reaches

theorem reaches_of_stepKey (h : stepKey frames names c = .ok t) : Reaches c t.cursor := by
  unfold stepKey at h
  split at h
  · simp only at h
    split at h
    · cases h
      exact (reaches_skipGroup c).trans (reaches_advance _)
    · cases h
  · obtain ⟨⟨key, next⟩, hkey, hok⟩ := bind_eq_ok.1 h
    have h₁ := (passes_of_expectModuleName hkey).reaches
    simp only at hok
    split at hok
    · cases hok
      exact h₁.trans (reaches_advance next)
    · cases hok
      exact h₁

theorem reaches_of_stepMember (h : stepMember frames names c = .ok t) : Reaches c t.cursor := by
  unfold stepMember at h
  split at h
  · cases h
    exact reaches_advance c
  split at h
  · cases h
    exact reaches_advance c
  · exact reaches_of_stepKey h

theorem reaches_of_stepElement (h : stepElement frames names c = .ok t) : Reaches c t.cursor := by
  unfold stepElement at h
  split at h
  · cases h
    exact reaches_advance c
  split at h
  · cases h
    exact reaches_advance c
  split at h
  · cases h
    exact reaches_advance c
  · cases h
    exact Reaches.refl c

theorem reaches_of_stepSeparator {closer : Mark} {cause : FaultCause}
    (h : stepSeparator closer cause frames names c = .ok t) : Reaches c t.cursor := by
  unfold stepSeparator at h
  split at h
  · cases h
    exact reaches_advance c
  split at h
  · cases h
    exact Reaches.refl c
  · cases h

theorem reaches_of_stepBound {frame : PatternFrame} (h : stepBound frame frames names c = .ok t) :
    Reaches c t.cursor := by
  unfold stepBound at h
  split at h
  · exact (reaches_skipInitializer c).trans (reaches_of_stepSeparator h)
  · exact reaches_of_stepSeparator h
  · exact (reaches_skipInitializer c).trans (reaches_of_stepSeparator h)

theorem reaches_of_step {s : PatternState} (h : s.step = .ok (some t)) :
    Reaches s.cursor t.cursor := by
  unfold step at h
  split at h
  · obtain ⟨t', ht, heq⟩ := map_eq_ok.1 h
    cases heq
    exact reaches_of_stepBind ht
  · obtain ⟨t', ht, heq⟩ := map_eq_ok.1 h
    cases heq
    exact reaches_of_stepElement ht
  · obtain ⟨t', ht, heq⟩ := map_eq_ok.1 h
    cases heq
    exact reaches_of_stepMember ht
  · cases h
  · obtain ⟨t', ht, heq⟩ := map_eq_ok.1 h
    cases heq
    exact reaches_of_stepBound ht
  · cases h

theorem reaches_of_run {s : PatternState} {n : Cursor} (h : s.run = .ok (names, n)) :
    Reaches s.cursor n := by
  fun_induction run s with
  | case1 => cases h
  | case2 =>
    cases h
    exact Reaches.refl _
  | case3 s t hstep ih => exact (reaches_of_step hstep).trans (ih h)

end PatternState

namespace Cursor

section Export

variable {c n : Cursor}

theorem reaches_of_bindingNames {names : List String} (h : c.bindingNames = .ok (names, n)) :
    Reaches c n := PatternState.reaches_of_run h

theorem reaches_skipAnnotation (c : Cursor) : Reaches c c.skipAnnotation := by
  unfold skipAnnotation
  split
  · exact (reaches_advance c).trans (reaches_skipType _)
  · exact Reaches.refl c

theorem reaches_skipDeclaratorRest (c : Cursor) : Reaches c c.skipDeclaratorRest :=
  Reaches.trans ( reaches_skipAnnotation c) (PatternState.reaches_skipInitializer _)

theorem reaches_of_declarators {found : List String × Option Token}
    (h : c.declarators = .ok (found, n)) : Reaches c n := by
  fun_induction declarators c generalizing found with
  | case1 => cases h
  | case2 c names c₁ hnames _ ih =>
    obtain ⟨⟨⟨more, async⟩, c₂⟩, hmore, heq⟩ := map_eq_ok.1 h
    cases heq
    exact (reaches_of_bindingNames hnames).trans ((reaches_skipDeclaratorRest c₁).trans
      ((reaches_advance _).trans (ih hmore)))
  | case3 c names c₁ hnames _ =>
    cases h
    exact (reaches_of_bindingNames hnames).trans (reaches_skipDeclaratorRest c₁)

theorem reaches_modifiersFrom (found : Modifiers) (c : Cursor) :
    Reaches c (modifiersFrom found c).2 := by
  fun_induction modifiersFrom found c with
  | case1 _ c _ ih => exact (reaches_advance c).trans ih
  | case2 _ c _ _ ih => exact (reaches_advance c).trans ih
  | case3 _ c _ _ _ ih => exact (reaches_advance c).trans ih
  | case4 => exact Reaches.refl _

theorem reaches_of_declared {m : Modifiers} {form : ExportForm}
    (h : c.declared m = .ok (form, n)) : Reaches c n := by
  cases readsDeclared_of_declared h with
  | ofFunction _ reads =>
    exact (reaches_advance c).trans ((reaches_advanceIf _ _).trans
      (passes_of_expectName reads).1.reaches)
  | ofClass _ reads => exact (reaches_advance c).trans (passes_of_expectName reads).1.reaches
  | enumeration _ reads =>
    exact (reaches_advanceIf _ c).trans ((reaches_advance _).trans
      (passes_of_expectName reads).1.reaches)
  | bindings _ _ reads => exact (reaches_advance c).trans (reaches_of_declarators reads)
  | erased _ reads => exact (reaches_advance c).trans (passes_of_expectName reads).1.reaches
  | ofNamespace _ reads =>
    exact (reaches_advance c).trans (passes_of_expectModuleName reads).reaches
  | importAlias _ reads equals names dots =>
    exact (reaches_advance c).trans ((passes_of_expectName reads).1.reaches.trans
      ((passes_of_expect (by simp) equals).1.reaches.trans
        ((passes_of_expectName names).1.reaches.trans (reaches_of_dottedNames dots))))

theorem reaches_of_exportDeclaration {form : ExportForm}
    (h : c.exportDeclaration = .ok (form, n)) : Reaches c n :=
  (reaches_modifiersFrom _ c).trans (reaches_of_declared h)

theorem reaches_of_exportEverything {typeOnly : Bool} {form : ExportForm}
    (h : c.exportEverything typeOnly = .ok (form, n)) : Reaches c n := by
  obtain ⟨⟨star, c₁⟩, hstar, h⟩ := bind_eq_ok.1 h
  have h₁ := (passes_of_expect (by simp) hstar).1.reaches
  simp only at h
  split at h
  · obtain ⟨⟨name, c₂⟩, hname, h⟩ := bind_eq_ok.1 h
    obtain ⟨⟨word, c₃⟩, hword, h⟩ := bind_eq_ok.1 h
    obtain ⟨⟨source, c₄⟩, hsource, h⟩ := bind_eq_ok.1 h
    cases h
    exact h₁.trans ((reaches_advance c₁).trans
      ((passes_of_expectModuleName hname).reaches.trans
        ((passes_of_expect (by simp) hword).1.reaches.trans
          (passes_of_expect (by simp) hsource).1.reaches)))
  · obtain ⟨⟨word, c₃⟩, hword, h⟩ := bind_eq_ok.1 h
    obtain ⟨⟨source, c₄⟩, hsource, h⟩ := bind_eq_ok.1 h
    cases h
    exact h₁.trans ((passes_of_expect (by simp) hword).1.reaches.trans
      (passes_of_expect (by simp) hsource).1.reaches)

theorem reaches_of_exportList {typeOnly : Bool} {form : ExportForm}
    (h : c.exportList typeOnly = .ok (form, n)) : Reaches c n := by
  obtain ⟨⟨specifiers, c₁⟩, hspecifiers, h⟩ := bind_eq_ok.1 h
  have h₁ := reaches_of_clause hspecifiers
  simp only at h
  split at h
  · obtain ⟨⟨source, c₂⟩, hsource, h⟩ := bind_eq_ok.1 h
    cases h
    exact h₁.trans ((reaches_advance c₁).trans (passes_of_expect (by simp) hsource).1.reaches)
  · cases h
    exact h₁

theorem reaches_defaultFunction (default : Token) (async : Option Token) (c : Cursor) :
    Reaches c (defaultFunction default async c).2 :=
  (reaches_advance c).trans ((reaches_advanceIf _ _).trans (reaches_advanceIf _ _))

theorem reaches_defaultClass (default : Token) (c : Cursor) :
    Reaches c (defaultClass default c).2 :=
  (reaches_advance c).trans (reaches_advanceIf _ _)

theorem reaches_of_defaultExported {default : Token} {form : ExportForm}
    (h : c.defaultExported default = .ok (form, n)) : Reaches c n := by
  cases readsDefault_of_defaultExported h with
  | asyncFunction _ reads =>
    have := (reaches_advance c).trans (reaches_defaultFunction default (some c.current) c.advance)
    rwa [reads] at this
  | plainFunction _ reads =>
    have := reaches_defaultFunction default none c
    rwa [reads] at this
  | ofClass _ reads =>
    have := (reaches_advanceIf (c.atWord .abstractWord) c).trans (reaches_defaultClass default _)
    rwa [reads] at this
  | interface _ reads =>
    exact (reaches_advance c).trans (passes_of_expectName reads).1.reaches
  | name _ _ reads =>
    cases reads
    exact reaches_advance c
  | expression _ _ reads =>
    cases reads
    exact reaches_skipExpression c

theorem reaches_of_exportForm {form : ExportForm} (h : c.exportForm = .ok (form, n)) :
    Reaches c n := by
  unfold exportForm at h
  split at h
  · obtain ⟨⟨default, c₁⟩, hdefault, h⟩ := bind_eq_ok.1 h
    exact (passes_of_expect (by simp) hdefault).1.reaches.trans (reaches_of_defaultExported h)
  split at h
  · exact reaches_of_exportEverything h
  split at h
  · exact reaches_of_exportList h
  split at h
  · exact (reaches_advance c).trans (reaches_of_exportList h)
  split at h
  · exact (reaches_advance c).trans (reaches_of_exportEverything h)
  split at h
  · cases h
    exact (reaches_advance c).trans (reaches_skipExpression _)
  split at h
  · obtain ⟨⟨word, c₁⟩, hword, h⟩ := bind_eq_ok.1 h
    obtain ⟨⟨name, c₂⟩, hname, h⟩ := bind_eq_ok.1 h
    cases h
    exact (reaches_advance c).trans ((passes_of_expectName hword).1.reaches.trans
      (passes_of_expectName hname).1.reaches)
  · exact reaches_of_exportDeclaration h

theorem reaches_exportEnding (form : ExportForm) (c : Cursor) :
    Reaches c (c.exportEnding form).2 := by
  unfold exportEnding
  split
  · exact reaches_takeSemicolon c
  · exact Reaches.refl c

/-- An export is the word `export`, what is exported, and possibly a semicolon. -/
theorem exportStatement_eq_ok {s : ExportStatement} : c.exportStatement = .ok (s, n) ↔
    c.kind = .keyword .exportWord ∧ ∃ m, c.advance.exportForm = .ok (s.form, m) ∧
      m.exportEnding s.form = (s.terminated, n) ∧ s.span = ⟨c.current.start, n.passedOffset⟩ := by
  constructor
  · intro h
    obtain ⟨⟨start, c₁⟩, hstart, hrest⟩ := bind_eq_ok.1 h
    obtain ⟨⟨form, m⟩, hform, hread⟩ := bind_eq_ok.1 hrest
    obtain ⟨-, rfl, hkind⟩ := passes_of_expect (by simp) hstart
    change c.kind = _ at hkind
    rw [expect, if_pos hkind] at hstart
    cases hstart
    cases hread
    exact ⟨hkind, m, hform, rfl, rfl⟩
  · rintro ⟨hkind, m, hform, hending, hspan⟩
    have hstart : c.expect (.keyword .exportWord) = .ok (c.current, c.advance) := by
      rw [expect, if_pos hkind]
    refine bind_eq_ok.2 ⟨_, hstart, bind_eq_ok.2 ⟨_, hform, ?_⟩⟩
    obtain ⟨form, terminated, span⟩ := s
    simp only at hending hspan ⊢
    rw [hending, hspan]

/-- An export takes up the tokens from the word `export` to where its reader stops. -/
theorem reaches_of_exportStatement {s : ExportStatement} (h : c.exportStatement = .ok (s, n)) :
    Reaches c n ∧ s.span = ⟨c.current.start, n.passedOffset⟩ := by
  obtain ⟨-, m, hform, hending, hspan⟩ := exportStatement_eq_ok.1 h
  have hlast := reaches_exportEnding s.form m
  rw [hending] at hlast
  exact ⟨(reaches_advance c).trans ((reaches_of_exportForm hform).trans hlast), hspan⟩

end Export

end Cursor

end ComponentRegistry
