import ComponentRegistry.Proofs.Lexing.Reading

/-! # Nesting of braces

How deep a place of a text lies inside of blocks and of expressions embedded in templates. The stack
of the lexer holds exactly the braces that its tokens have opened and not closed.
-/

namespace ComponentRegistry

namespace Token

/-- Whether a token leads into an expression embedded in a template. -/
def opensSubstitution (t : Token) : Bool :=
  t.kind == .template && ['$', '{'].isSuffixOf t.lexeme.toList

/-- Whether a token leads back from an embedded expression into the text of its template. -/
def closesSubstitution (t : Token) : Bool :=
  t.kind == .template && ['}'].isPrefixOf t.lexeme.toList

/-- Whether a token opens a block or an embedded expression. -/
def opensBrace (t : Token) : Bool := t.kind == .mark .openBrace || t.opensSubstitution

/-- Whether a token closes a block or an embedded expression. -/
def closesBrace (t : Token) : Bool := t.kind == .mark .closeBrace || t.closesSubstitution

/-- Whether a token is an opening parenthesis or square bracket. -/
def opensRound (t : Token) : Bool := t.kind == .mark .openParen || t.kind == .mark .openBracket

/-- Whether a token is a closing parenthesis or square bracket. -/
def closesRound (t : Token) : Bool := t.kind == .mark .closeParen || t.kind == .mark .closeBracket

/-- Where the template of a token begins. Text after an embedded expression goes on with the
template that the expression stands in. -/
def templateStart (t : Token) (e : List Lexer.Enclosure) : Position :=
  if t.closesSubstitution then (e.head?.map Lexer.Enclosure.opened).getD t.start else t.start

/-- The braces that a token leaves open of those before it: it may close the innermost one. -/
def leave (e : List Lexer.Enclosure) (t : Token) : List Lexer.Enclosure :=
  if t.closesBrace then e.tail else e

/-- The braces that are open after a token: it may open another one. -/
def enclose (e : List Lexer.Enclosure) (t : Token) : List Lexer.Enclosure :=
  if t.kind = .mark .openBrace then ⟨.block, t.start⟩ :: t.leave e
  else if t.opensSubstitution then ⟨.substitution, t.templateStart e⟩ :: t.leave e
  else t.leave e

/-- A token closes a brace of its own sort, if it closes one. -/
structure Fits (t : Token) (e : List Lexer.Enclosure) : Prop where
  block : t.kind = .mark .closeBrace → e.head?.map Lexer.Enclosure.bracket = some .block
  substitution :
    t.closesSubstitution = true → e.head?.map Lexer.Enclosure.bracket = some .substitution

end Token

/-- The braces that some tokens open and leave open, the innermost one first. -/
def openBraces (ts : List Token) : List Lexer.Enclosure := ts.foldl Token.enclose []

/-- How many more tokens of a list open than close. -/
def depthBy (opens closes : Token → Bool) (ts : List Token) : Int :=
  (ts.countP opens : Int) - ts.countP closes

/-- Depth of blocks. -/
abbrev blockDepth : List Token → Int :=
  depthBy (fun t => t.kind == .mark .openBrace) fun t => t.kind == .mark .closeBrace

/-- Depth of expressions embedded in templates. -/
abbrev substitutionDepth : List Token → Int :=
  depthBy Token.opensSubstitution Token.closesSubstitution

/-- Depth of parentheses and square brackets. -/
abbrev roundDepth : List Token → Int := depthBy Token.opensRound Token.closesRound

/-- Depth of brackets of all three kinds, as the search for statements counts them. -/
abbrev bracketDepth : List Token → Int :=
  depthBy (fun t => t.kind.isOpener) fun t => t.kind.isCloser

section Depth

variable (opens closes : Token → Bool)

@[simp] theorem depthBy_nil : depthBy opens closes [] = 0 := rfl

theorem depthBy_append (ts us : List Token) :
    depthBy opens closes (ts ++ us) = depthBy opens closes ts + depthBy opens closes us := by
  simp only [depthBy, List.countP_append]
  omega

theorem depthBy_cons (t : Token) (ts : List Token) :
    depthBy opens closes (t :: ts) = depthBy opens closes [t] + depthBy opens closes ts :=
  depthBy_append opens closes [t] ts

theorem depthBy_singleton (t : Token) :
    depthBy opens closes [t] = (if opens t then 1 else 0) - (if closes t then 1 else 0) := by
  simp only [depthBy, List.countP_singleton]
  split <;> split <;> simp

end Depth

/-- Brackets are braces or round ones. -/
theorem bracketDepth_eq (ts : List Token) : bracketDepth ts = blockDepth ts + roundDepth ts := by
  induction ts with
  | nil => rfl
  | cons t ts ih =>
    have hsplit : bracketDepth [t] = blockDepth [t] + roundDepth [t] := by
      obtain ⟨kind, value, lexeme, start⟩ := t
      simp only [bracketDepth, blockDepth, roundDepth, depthBy_singleton, TokenKind.isOpener,
        TokenKind.isCloser, Token.opensRound, Token.closesRound]
      cases kind with
      | mark m => cases m <;> simp
      | _ => simp
    simp only [bracketDepth, blockDepth, roundDepth] at ih hsplit ⊢
    rw [depthBy_cons, depthBy_cons _ _ t ts, depthBy_cons _ _ t ts]
    omega

namespace Lexer

/-- Number of open braces of one sort. -/
def openCount (b : Bracket) (e : List Enclosure) : Int := e.countP fun x => x.bracket = b

/-- Kinds that say nothing about braces. -/
def isFlat : TokenKind → Bool
  | .template | .mark .openBrace | .mark .closeBrace => false
  | _ => true

/-- The stack that a step leaves is that of the token it read, if it read one. -/
def Step.Encloses (s : Step) (h : Position) (e : List Enclosure) : Prop :=
  s.enclosures = (s.token? h).toList.foldl Token.enclose e ∧ ∀ t ∈ s.token? h, t.Fits e

theorem encloses_skipped (lexeme rest : List Char) (h : Position) (e : List Enclosure) :
    (skipped lexeme rest e).Encloses h e := ⟨rfl, nofun⟩

theorem encloses_of_found {s : Step} {h : Position} {e : List Enclosure} {kind : TokenKind}
    {value : List Char} (hfound : s.found = some (kind, value))
    (henclosures : s.enclosures =
      Token.enclose e ⟨kind, String.ofList value, String.ofList s.lexeme, h⟩)
    (hfits : Token.Fits ⟨kind, String.ofList value, String.ofList s.lexeme, h⟩ e) :
    s.Encloses h e := by
  rw [Step.Encloses, Step.token?, hfound]
  refine ⟨henclosures, fun t ht => ?_⟩
  obtain rfl := Option.some.inj ht
  exact hfits

theorem enclose_of_isFlat {t : Token} (hflat : isFlat t.kind = true) (e : List Enclosure) :
    t.enclose e = e ∧ t.Fits e := by
  have hkinds : t.kind ≠ .template ∧ t.kind ≠ .mark .openBrace ∧ t.kind ≠ .mark .closeBrace := by
    refine ⟨?_, ?_, ?_⟩ <;> intro hkind <;> rw [hkind] at hflat <;> cases hflat
  refine ⟨?_, fun hkind => absurd hkind hkinds.2.2, fun hcloses => ?_⟩
  · simp [Token.enclose, Token.leave, Token.closesBrace, Token.opensSubstitution,
      Token.closesSubstitution, hkinds]
  · simp [Token.closesSubstitution, hkinds] at hcloses

theorem encloses_of_isFlat {s : Step} {h : Position} {e : List Enclosure} {kind : TokenKind}
    {value : List Char} (hfound : s.found = some (kind, value)) (hflat : isFlat kind = true)
    (henclosures : s.enclosures = e) : s.Encloses h e := by
  obtain ⟨henclose, hfits⟩ := enclose_of_isFlat
    (t := ⟨kind, String.ofList value, String.ofList s.lexeme, h⟩) hflat e
  exact encloses_of_found hfound (henclosures.trans henclose.symm) hfits

theorem isFlat_of_isName {kind : TokenKind} (h : kind.isName = true) : isFlat kind = true := by
  cases kind with
  | identifier | keyword => rfl
  | _ => cases h

theorem isFlat_wordKind (word : List Char) : isFlat (wordKind word) = true := by
  unfold wordKind
  split <;> rfl

theorem isFlat_of_ofChar {c : Char} {m : Mark} (h : Mark.ofChar? c = some m) :
    isFlat (.mark m) = true := by
  unfold Mark.ofChar? at h
  split at h <;> simp at h <;> subst h <;> rfl

theorem encloses_singleStep (c : Char) (after : List Char) (h : Position) (e : List Enclosure) :
    (singleStep c after e).Encloses h e := by
  unfold singleStep
  split
  · next m hm => exact encloses_of_isFlat rfl (isFlat_of_ofChar hm) rfl
  · exact encloses_of_isFlat rfl rfl rfl

theorem encloses_quoteStep (quote : Char) (after : List Char) (h : Position)
    (e : List Enclosure) : (quoteStep quote after e).Encloses h e := by
  unfold quoteStep
  split <;> exact encloses_of_isFlat rfl rfl rfl

theorem encloses_slashStep (p : Option Token) (after : List Char) (h : Position)
    (e : List Enclosure) : (slashStep p after e).Encloses h e := by
  unfold slashStep
  split <;> exact encloses_of_isFlat rfl rfl rfl

/-- The characters around a stretch of template text tell what it leads from and into. -/
theorem template_substitution (value : String) (lead : Char) (body : List Char)
    (ending : Lexeme.TemplateEnd) (h : Position) :
    let t : Token := ⟨.template, value, String.ofList (lead :: body ++ ending.delimiter), h⟩
    t.closesSubstitution = decide (lead = '}') ∧
      t.opensSubstitution = decide (ending = .substitution) := by
  simp only [Token.closesSubstitution, Token.opensSubstitution, String.toList_ofList,
    beq_self_eq_true, Bool.true_and]
  constructor
  · simp only [List.cons_append, List.isPrefixOf, Bool.and_true]
    exact (Bool.beq_eq_decide_eq _ _).trans (by simp only [eq_comm])
  · cases ending <;> simp [List.isSuffixOf, Lexeme.TemplateEnd.delimiter, List.isPrefixOf]

theorem encloses_templateStep {opened h : Position} {lead : Char} {after : List Char}
    {outer e : List Enclosure} {s : Step} (hstep : templateStep opened lead after outer = .ok s)
    (hlead : if lead = '}' then e = ⟨.substitution, opened⟩ :: outer else e = outer ∧ opened = h) :
    s.Encloses h e := by
  unfold templateStep at hstep
  split at hstep
  · cases hstep
  · next body ending rest hbody =>
    cases hstep
    obtain ⟨hcloses, hopens⟩ :=
      template_substitution (String.ofList body) lead body ending h
    refine encloses_of_found rfl ?_ ⟨nofun, fun hclosing => ?_⟩
    · simp only [Token.enclose, Token.leave, Token.closesBrace, Token.templateStart, hcloses,
        hopens]
      by_cases hl : lead = '}' <;> cases ending <;> simp_all
    · simp_all

/-- Every step keeps the stack of what it has read. -/
theorem encloses_step {p : Option Token} {e : List Enclosure} {here : Position} {c : Char}
    {after : List Char} {s : Step} (h : Lexer.step p e here c after = .ok s) :
    s.Encloses here e := by
  cases takes_step h with
  | blank | lineComment | blockComment => exact encloses_skipped _ _ _ _
  | quote => exact encloses_quoteStep _ _ _ _
  | template read => exact encloses_templateStep read (by simp)
  | slash => exact encloses_slashStep _ _ _ _
  | openBrace => exact encloses_of_found rfl rfl ⟨nofun, nofun⟩
  | closeBrace => exact encloses_of_found rfl rfl ⟨fun _ => rfl, nofun⟩
  | resume read => exact encloses_templateStep read (by simp)
  | arrow | equals | number | ellipsis | dot => exact encloses_of_isFlat rfl rfl rfl
  | name => exact encloses_of_isFlat rfl (isFlat_wordKind _) rfl
  | single => exact encloses_singleStep _ _ _ _

/-- The stack of the lexer is that of the tokens it has read. -/
theorem Reads.enclosures_eq {s t : Scan} {ts : List Token} (h : Reads s ts t) :
    t.enclosures = ts.foldl Token.enclose s.enclosures := by
  induction h with
  | done => rfl
  | @step p e h c after s ts t first _ ih =>
    rw [ih, List.foldl_append, Step.next, (encloses_step first).1]

/-- The stack that a step leaves accounts for what the step read. -/
def Step.Accounts (s : Step) (e : List Enclosure) : Prop :=
  ∀ h, openCount .block s.enclosures = openCount .block e + blockDepth (s.token? h).toList ∧
    openCount .substitution s.enclosures =
      openCount .substitution e + substitutionDepth (s.token? h).toList

theorem openCount_cons (b : Bracket) (x : Enclosure) (e : List Enclosure) :
    openCount b (x :: e) = openCount b e + if x.bracket = b then 1 else 0 := by
  simp only [openCount, List.countP_cons, decide_eq_true_iff]
  split <;> simp

theorem openCount_tail {b x : Bracket} {e : List Enclosure}
    (h : e.head?.map Enclosure.bracket = some x) :
    openCount b e.tail = openCount b e - if x = b then 1 else 0 := by
  obtain ⟨top, htop, rfl⟩ := Option.map_eq_some_iff.1 h
  obtain ⟨outer, rfl⟩ := List.head?_eq_some_iff.1 htop
  rw [openCount_cons, List.tail_cons]
  omega

theorem openCount_leave {t : Token} {e : List Enclosure} (h : t.Fits e) :
    openCount .block (t.leave e) =
        openCount .block e - (if t.kind == .mark .closeBrace then 1 else 0) ∧
      openCount .substitution (t.leave e) =
        openCount .substitution e - (if t.closesSubstitution then 1 else 0) := by
  rw [Token.leave, Token.closesBrace]
  by_cases hkind : t.kind = .mark .closeBrace
  · have hcloses : t.closesSubstitution = false := by simp [Token.closesSubstitution, hkind]
    simp [hkind, hcloses, openCount_tail (h.block hkind)]
  · by_cases hcloses : t.closesSubstitution = true
    · simp [hkind, hcloses, openCount_tail (h.substitution hcloses)]
    · simp [hkind, hcloses]

/-- What a token opens and closes is what it adds to the counts. -/
theorem openCount_enclose {t : Token} {e : List Enclosure} (h : t.Fits e) :
    openCount .block (t.enclose e) = openCount .block e + blockDepth [t] ∧
      openCount .substitution (t.enclose e) =
        openCount .substitution e + substitutionDepth [t] := by
  obtain ⟨hblock, hsubstitution⟩ := openCount_leave h
  simp only [Token.enclose, blockDepth, substitutionDepth, depthBy_singleton]
  by_cases hkind : t.kind = .mark .openBrace
  · have hopens : t.opensSubstitution = false := by simp [Token.opensSubstitution, hkind]
    simp only [if_pos hkind, beq_iff_eq, hopens, openCount_cons, hblock, hsubstitution,
      reduceCtorEq, if_true, if_false, Bool.false_eq_true]
    omega
  · by_cases hopens : t.opensSubstitution = true
    · simp only [if_neg hkind, beq_iff_eq, hopens, openCount_cons, hblock, hsubstitution,
        reduceCtorEq, if_true, if_false]
      omega
    · simp only [if_neg hkind, beq_iff_eq, hopens, hblock, hsubstitution, if_false,
        Bool.false_eq_true]
      omega

/-- Every step keeps account of the open braces. -/
theorem accounts_step {p : Option Token} {e : List Enclosure} {here : Position} {c : Char}
    {after : List Char} {s : Step} (hstep : Lexer.step p e here c after = .ok s) :
    s.Accounts e := by
  intro h
  have hdepths : blockDepth (s.token? h).toList = blockDepth (s.token? here).toList ∧
      substitutionDepth (s.token? h).toList = substitutionDepth (s.token? here).toList := by
    cases hfound : s.found <;> simp only [Step.token?, hfound] <;> exact ⟨rfl, rfl⟩
  obtain ⟨henclosures, hfits⟩ := encloses_step hstep
  rw [hdepths.1, hdepths.2, henclosures]
  cases htoken : s.token? here with
  | none => simp
  | some t => exact openCount_enclose (hfits t htoken)

/-- The stack of the lexer holds what its tokens have opened and not closed. -/
theorem Reads.openCount_eq {s t : Scan} {ts : List Token} (h : Reads s ts t) :
    openCount .block t.enclosures = openCount .block s.enclosures + blockDepth ts ∧
      openCount .substitution t.enclosures =
        openCount .substitution s.enclosures + substitutionDepth ts := by
  induction h with
  | done => simp
  | @step p e h c after s ts t first _ ih =>
    have hstep := accounts_step first h
    simp only [Step.next, blockDepth, substitutionDepth] at ih hstep ⊢
    rw [depthBy_append, depthBy_append]
    omega

/-- No brace is closed that was not opened before. -/
theorem Reads.depth_nonneg {s t : Scan} {ts : List Token} (h : Reads s ts t)
    (hs : s.enclosures = []) : 0 ≤ blockDepth ts ∧ 0 ≤ substitutionDepth ts := by
  have heq := h.openCount_eq
  have hblock : openCount .block s.enclosures = 0 := by simp [hs, openCount]
  have hsubstitution : openCount .substitution s.enclosures = 0 := by simp [hs, openCount]
  have : 0 ≤ openCount .block t.enclosures := Int.natCast_nonneg _
  have : 0 ≤ openCount .substitution t.enclosures := Int.natCast_nonneg _
  omega

end Lexer

end ComponentRegistry
