import ComponentRegistry.Proofs.Rewrite.Exchange
import ComponentRegistry.Proofs.Syntax.Concatenation

/-! # Exports without their async word

An export is read from a text in which its `async` word is left out. It is the same export, without
that word, when what follows the word can follow an export without it: a function, or the parameters
of an arrow function.
-/

namespace ComponentRegistry

/-- What may follow an `async` word that is to be left out: a function, a parameter list, type
parameters that do not touch the word, or a parameter with its arrow on the same line. -/
def Token.YieldsTo (async : Token) : List Token → Prop
  | [] => False
  | next :: rest =>
    next.kind = .mark .openParen ∨
      (next.kind = .keyword .functionWord ∧ ∀ t ∈ rest.head?, t.kind ≠ .mark .arrow) ∨
      (next.kind = .mark .less ∧ async.stop ≠ next.start.offset) ∨
      (next.kind.isName = true ∧ next.line = async.line ∧
        next.kind ∉ ([.keyword .asyncWord, .keyword .functionWord, .keyword .classWord,
          .keyword .interfaceWord, .keyword .exportWord] : List TokenKind) ∧
        ∃ arrow ∈ rest.head?, arrow.kind = .mark .arrow ∧ arrow.line = next.line)

instance (async : Token) : (behind : List Token) → Decidable (async.YieldsTo behind)
  | [] => isFalse id
  | _ :: _ => inferInstanceAs (Decidable (_ ∨ _ ∨ _ ∨ _))

/-- The word itself does not follow. -/
theorem Token.YieldsTo.kind_ne {async t : Token} {ts : List Token} (h : async.YieldsTo (t :: ts)) :
    t.kind ≠ .keyword .asyncWord := by
  rcases h with hk | ⟨hk, -⟩ | ⟨hk, -⟩ | ⟨-, -, hk, -⟩
  · simp [hk]
  · simp [hk]
  · simp [hk]
  · exact fun heq => hk (by rw [heq]; decide)

/-- Nothing follows that reads differently behind another token. -/
theorem Token.YieldsTo.plain {async t : Token} {ts : List Token} (h : async.YieldsTo (t :: ts)) :
    t.kind ∉ ([.mark .slash, .regex, .mark .greater, .mark .arrow] : List TokenKind) := by
  rcases h with hk | ⟨hk, -⟩ | ⟨hk, -⟩ | ⟨hk, -⟩
  · simp [hk]
  · simp [hk]
  · simp [hk]
  · simp only [List.mem_cons, List.not_mem_nil, or_false]
    rintro (heq | heq | heq | heq) <;> simp [heq, TokenKind.isName] at hk

namespace ExportForm

/-- The same form without its `async` word. -/
structure Freed (form form' : ExportForm) : Prop where
  kindName : form'.kindName = form.kindName
  names : form'.names = form.names
  defaultExportName : form'.defaultExportName = form.defaultExportName
  takesSemicolon : form'.takesSemicolon = form.takesSemicolon
  async : form'.asyncToken = none

end ExportForm

namespace Seam

variable {here here' : Position} {c c' n : Cursor} {t t' : Token}

section AtBack

/-- At the end of both texts nothing is left to tell them apart. -/
theorem Matches.advance_atBack (h : (atBack here here').Matches c c') :
    (atBack here here').Matches c.advance c'.advance := by
  rcases Nat.eq_zero_or_pos c.remaining with hend | hinside
  · obtain ⟨hold, hnew⟩ := h.outside (Nat.le_of_eq hend)
    have hc : c.advance = c := by
      rw [Cursor.advance, hold]
      rfl
    have hc' : c'.advance = c' := by
      rw [Cursor.advance, hnew]
      rfl
    rwa [hc, hc']
  · exact h.advance hinside

theorem Matches.kind_atBack (h : (atBack here here').Matches c c') : c'.kind = c.kind := by
  rcases Nat.eq_zero_or_pos c.remaining with hend | hinside
  · obtain ⟨hold, hnew⟩ := h.outside (Nat.le_of_eq hend)
    simp only [Cursor.kind, Cursor.current, Cursor.peek, hold, hnew]
    rfl
  · exact h.kind_eq hinside

theorem Matches.value_atBack (h : (atBack here here').Matches c c') :
    c'.current.value = c.current.value := by
  rcases Nat.eq_zero_or_pos c.remaining with hend | hinside
  · obtain ⟨hold, hnew⟩ := h.outside (Nat.le_of_eq hend)
    simp only [Cursor.current, Cursor.peek, hold, hnew]
    rfl
  · exact h.value_eq hinside

theorem Matches.advanceIf_atBack (h : (atBack here here').Matches c c') (condition : Bool) :
    (atBack here here').Matches (c.advanceIf condition) (c'.advanceIf condition) := by
  cases condition with
  | false => exact h
  | true => exact h.advance_atBack

/-- A function behind the word is the default export without it as well. -/
theorem Tied.defaultFunction_atBack (async : Option Token) (default : Token)
    (h : (atBack here here').Tied c.ahead c'.ahead) (hc : c.kind = .keyword .functionWord) :
    (Cursor.defaultFunction default async c).1.Freed
        (Cursor.defaultFunction default none c').1 ∧
      (atBack here here').Matches (Cursor.defaultFunction default async c).2
        (Cursor.defaultFunction default none c').2 := by
  have hinside : (atBack here here').old.length < c.remaining :=
    Cursor.remaining_pos (by simp [hc])
  have hnext := (h.inside hinside).2
  have hstar : c'.advance.atMark .star = c.advance.atMark .star := by
    rw [Cursor.atMark, hnext.kind_atBack, Cursor.atMark]
  have h₁ := hnext.advanceIf_atBack (c.advance.atMark .star)
  simp only [Cursor.defaultFunction, hstar]
  generalize c.advance.advanceIf (c.advance.atMark .star) = d,
    c'.advance.advanceIf (c.advance.atMark .star) = d' at h₁ ⊢
  have hname : d'.atName = d.atName := by
    rw [Cursor.atName, h₁.kind_atBack, Cursor.atName]
  rw [hname, h₁.value_atBack]
  exact ⟨⟨rfl, rfl, rfl, rfl, rfl⟩, h₁.advanceIf_atBack d.atName⟩

end AtBack

section Expression

variable {p p' : Option Token} {f f' : Position} {ts ts' : List Token} {async : Token}

/-- A name, a parenthesis or a `<` that compares does not stop an expression and opens no type
arguments. -/
theorem expressionFrom_cons (hkind : t.kind = .mark .openParen ∨
    (t.kind = .mark .less ∧ Reach.opensTypeArguments p t = false) ∨ t.kind.isName = true)
    (hline : Reach.endsStatement p t = false) :
    Reach.expressionFrom f 0 0 p (t :: ts) =
      Reach.expressionFrom f (Reach.depthAfter 0 t) 0 (some t) ts := by
  have hangles : Reach.anglesAfter 0 p t = 0 := by
    rcases hkind with hk | ⟨hk, hopens⟩ | hk
    · simp [Reach.anglesAfter, hk]
    · simp [Reach.anglesAfter, hk, hopens]
    · cases hkind : t.kind <;> simp_all [Reach.anglesAfter, TokenKind.isName]
  have hstops : Reach.stopsExpression 0 p t = false := by
    rcases hkind with hk | ⟨hk, -⟩ | hk
    · simp [Reach.stopsExpression, hline, hk, TokenKind.isCloser]
    · simp [Reach.stopsExpression, hline, hk, TokenKind.isCloser]
    · cases hkind : t.kind <;>
        simp_all [Reach.stopsExpression, TokenKind.isName, TokenKind.isCloser]
  rw [Reach.expressionFrom, hangles, if_neg (by simp [hstops])]

theorem endsStatement_of_not_isName (hkind : t.kind = .mark .openParen ∨ t.kind = .mark .less) :
    Reach.endsStatement p t = false := by
  cases p with
  | none => rfl
  | some u => rcases hkind with hk | hk <;> simp [Reach.endsStatement, hk, TokenKind.isName]

/-- Tokens are not moved to other lines when the line of their place stays the same. -/
theorem Same.line_atBack (h : (atBack here here').Same t t') (hline : here'.line = here.line) :
    t'.line = t.line := by
  have := h.start.2
  simp only [Token.line]
  omega

/-- What comes behind a word that is left out: the same tokens, moved up within their lines, which
do not touch the last token in front of the word. -/
structure Resumes (here here' : Position) (async : Token) (lead rest rest' : List Token) :
    Prop where
  tied : (atBack here here').Tied rest rest'
  line : here'.line = here.line
  yields : async.YieldsTo rest
  apart : ∀ u ∈ lead.getLast?, u.kind.isName = true → ∀ t ∈ rest'.head?, u.stop < t.start.offset
  semicolon : ∀ u ∈ lead, u.kind = .mark .semicolon → u.value = ";"

theorem Resumes.exists_cons {lead rest rest' : List Token}
    (h : Resumes here here' async lead rest rest') : ∃ t ts t' ts', rest = t :: ts ∧
      rest' = t' :: ts' ∧ (atBack here here').Same t t' ∧ (atBack here here').Tied ts ts' := by
  obtain ⟨tied, -, yields, -, -⟩ := h
  cases tied with
  | seam => exact yields.elim
  | cons first others => exact ⟨_, _, _, _, rfl, rfl, first, others⟩

/-- An arrow function without its `async` word reaches as far as with it. -/
theorem Resumes.skipExpression {lead rest rest' : List Token}
    (h : Resumes here here' async lead rest rest') (hasync : async.kind = .keyword .asyncWord)
    (hc : c.ahead = async :: rest) (hc' : c'.ahead = rest') (hp : c.previous = lead.getLast?)
    (hp' : c'.previous = lead.getLast?)
    (hline : ∀ u ∈ lead.getLast?, u.kind.endsExpression = true → u.line = async.line)
    (hfunction : ∀ t ∈ rest.head?, t.kind ≠ .keyword .functionWord) :
    (atBack here here').Matches c.skipExpression c'.skipExpression := by
  obtain ⟨t, ts, t', ts', rfl, rfl, first, others⟩ := h.exists_cons
  have hbreak : ∀ u : Token, u.line = async.line →
      Reach.endsStatement lead.getLast? u = false := by
    intro u hu
    cases hlast : lead.getLast? with
    | none => rfl
    | some v =>
      cases hends : v.kind.endsExpression with
      | false => simp [Reach.endsStatement, hends]
      | true => simp [Reach.endsStatement, hline v hlast hends, hu]
  have hopens : Reach.opensTypeArguments lead.getLast? t' = false := by
    cases hlast : lead.getLast? with
    | none => rfl
    | some v =>
      cases hname : v.kind.isName with
      | false => simp [Reach.opensTypeArguments, hname]
      | true =>
        have := h.apart v hlast hname t' rfl
        simp only [Reach.opensTypeArguments, hname, Bool.true_and, beq_eq_false_iff_ne]
        omega
  obtain ⟨hkind, hkind', hends, hends'⟩ : (t.kind = .mark .openParen ∨ (t.kind = .mark .less ∧
      Reach.opensTypeArguments (some async) t = false) ∨ t.kind.isName = true) ∧
      (t'.kind = .mark .openParen ∨ (t'.kind = .mark .less ∧
        Reach.opensTypeArguments lead.getLast? t' = false) ∨ t'.kind.isName = true) ∧
      Reach.endsStatement (some async) t = false ∧
      Reach.endsStatement lead.getLast? t' = false := by
    rw [first.kind]
    rcases h.yields with hk | ⟨hk, -⟩ | ⟨hk, hapart⟩ | ⟨hk, hsame, -⟩
    · exact ⟨.inl hk, .inl hk, endsStatement_of_not_isName (.inl hk),
        endsStatement_of_not_isName (.inl (first.kind.trans hk))⟩
    · exact absurd hk (hfunction t rfl)
    · refine ⟨.inr (.inl ⟨hk, ?_⟩), .inr (.inl ⟨hk, hopens⟩), endsStatement_of_not_isName (.inr hk),
        endsStatement_of_not_isName (.inr (first.kind.trans hk))⟩
      simp [Reach.opensTypeArguments, hapart]
    · refine ⟨.inr (.inr hk), .inr (.inr hk), ?_, hbreak t' ?_⟩
      · simp [Reach.endsStatement, hsame]
      · rw [first.line_atBack h.line, hsame]
  have hstart : Reach.depthAfter 0 async = 0 := by
    simp [Reach.depthAfter, hasync, TokenKind.isOpener, TokenKind.isCloser]
  simp only [Cursor.skipExpression, hc, hc', hp, hp']
  rw [expressionFrom_cons (.inr (.inr (by rw [hasync]; rfl))) (hbreak async rfl), hstart,
    expressionFrom_cons hkind hends, expressionFrom_cons hkind' hends', depthAfter_eq first,
    expressionFrom_eq, expressionFrom_eq]
  have hplain : t.kind ≠ .mark .semicolon := by
    rcases hkind with hk | ⟨hk, -⟩ | hk
    · simp [hk]
    · simp [hk]
    · intro hsemicolon
      simp [hsemicolon, TokenKind.isName] at hk
  refine others.search (fair_expressionSearch _) (.some first) (Nat.zero_le _) ?_ ?_ ?_
  · intro _ _ _ _ _ u hu
    cases hu
  · rintro - u hu hsemicolon
    obtain rfl := Option.some.inj hu
    exact absurd hsemicolon hplain
  · intro hextends
    exact absurd rfl hextends.2

end Expression

/-- A form that is read with an `async` word, behind some tokens in front of it, and can be read
without it. -/
structure Frees (c : Cursor) (form : ExportForm) (n : Cursor) (async : Token)
    (lead rest : List Token) : Prop where
  ahead : c.ahead = lead ++ async :: rest
  kind : async.kind = .keyword .asyncWord
  last : ∀ u ∈ lead.getLast?, u.kind.isName = true ∨ u.kind = .mark .equals
  behind : n.ahead <:+ async :: rest
  reads : ∀ {here here' : Position} {c' : Cursor} {rest' : List Token},
    Resumes here here' async lead rest rest' → c'.ahead = lead ++ rest' →
    c'.previous = c.previous → (∀ u ∈ c.previous, u.kind ≠ .mark .semicolon) →
    ((∃ t ∈ rest.head?, t.kind = .keyword .functionWord) ∨
      ∀ d ∈ form.defaultToken, d.line = async.line) →
    ∃ form' n', c'.exportForm = .ok (form', n') ∧ form.Freed form' ∧
      (atBack here here').Matches n n'

section Default

variable {default async : Token} {lead rest rest' : List Token} {form : ExportForm}

/-- What follows an `async` word that is left out begins an expression, unless it is a function. -/
theorem Resumes.defaultExported (h : Resumes here here' async lead rest rest')
    (hc' : c'.ahead = rest') (hfunction : ∀ t ∈ rest.head?, t.kind ≠ .keyword .functionWord) :
    c'.defaultExported default = .ok (.defaultExpression (some default) none, c'.skipExpression) := by
  obtain ⟨t, ts, t', ts', rfl, rfl, first, others⟩ := h.exists_cons
  have hcurrent : c'.current = t' := Cursor.current_eq_of_cons hc'
  have hkind : c'.kind = t.kind := by
    rw [Cursor.kind, hcurrent, first.kind]
  rcases h.yields with hk | ⟨hk, -⟩ | ⟨hk, -⟩ |
    ⟨hk, hsame, hother, arrow, harrow, hkindArrow, hlineArrow⟩
  · simp [Cursor.defaultExported, Cursor.asyncModifiesFunction, Cursor.atClass, Cursor.atLoneName,
      Cursor.atName, Cursor.atWord, hkind, hk, TokenKind.isName]
  · exact absurd hk (hfunction t rfl)
  · simp [Cursor.defaultExported, Cursor.asyncModifiesFunction, Cursor.atClass, Cursor.atLoneName,
      Cursor.atName, Cursor.atWord, hkind, hk, TokenKind.isName]
  · simp only [List.mem_cons, List.not_mem_nil, or_false, not_or] at hother
    have hfollowing : (c'.peek 1).kind = .mark .arrow ∧ (c'.peek 1).line = t'.line := by
      cases others with
      | seam => cases harrow
      | @cons u u' us us' second _ =>
        obtain rfl : u = arrow := Option.some.inj harrow
        have hpeek : c'.peek 1 = u' := by simp [Cursor.peek, hc']
        rw [hpeek, second.kind, second.line_atBack h.line, first.line_atBack h.line]
        exact ⟨hkindArrow, hlineArrow⟩
    have hnext : c'.followingKind = .mark .arrow := hfollowing.1
    simp [Cursor.defaultExported, Cursor.asyncModifiesFunction, Cursor.atClass, Cursor.atLoneName,
      Cursor.atWord, hkind, hfunction t rfl, hother, hnext, hfollowing, hcurrent]

theorem exportForm_of_default (hdefault : default.kind = .keyword .defaultWord)
    (hc : c.ahead = default :: rest) : c.exportForm = c.advance.defaultExported default ∧
      c.advance.ahead = rest ∧ c.advance.previous = some default := by
  have hcurrent : c.current = default := Cursor.current_eq_of_cons hc
  refine ⟨?_, Cursor.ahead_advance hc, (Cursor.passes_cons hc).previous⟩
  have hkind : c.kind = .keyword .defaultWord := by rw [Cursor.kind, hcurrent, hdefault]
  rw [Cursor.exportForm, if_pos (by simp [Cursor.atWord, hkind]), Cursor.exportDefault,
    Cursor.expect, if_pos hkind, hcurrent]
  rfl

theorem name_of_defaultWord (hdefault : default.kind = .keyword .defaultWord) :
    ∀ u ∈ [default].getLast?, u.kind.isName = true ∨ u.kind = .mark .equals := by
  intro u hu
  obtain rfl : default = u := Option.some.inj hu
  exact .inl (by rw [hdefault]; rfl)

theorem frees_defaultFunction (hc : c.ahead = default :: async :: rest)
    (hdefault : default.kind = .keyword .defaultWord)
    (hasync : async.kind = .keyword .asyncWord)
    (hfunction : c.advance.advance.kind = .keyword .functionWord) :
    Frees c
      (Cursor.defaultFunction default (some async) c.advance.advance).1
      (Cursor.defaultFunction default (some async) c.advance.advance).2 async [default] rest := by
  obtain ⟨-, hahead, -⟩ := exportForm_of_default hdefault hc
  have hrest : c.advance.advance.ahead = rest := by
    have hahead' := (Cursor.passes_cons hahead).ahead
    rw [hahead] at hahead'
    exact (List.cons.inj hahead').2.symm
  refine ⟨hc, hasync, name_of_defaultWord hdefault, ?_, ?_⟩
  · have hreach := Cursor.reaches_defaultFunction default (some async) c.advance.advance
    rw [← hrest]
    exact hreach.suffix.trans (List.suffix_cons _ _)
  intro here here' c' rest' h hc' _ _ _
  obtain ⟨heq, hahead', -⟩ := exportForm_of_default hdefault hc'
  have htied : (atBack here here').Tied c.advance.advance.ahead c'.advance.ahead := by
    rw [hrest, hahead']
    exact h.tied
  have hkind : c'.advance.kind = .keyword .functionWord := by
    rw [Cursor.kind, (htied.inside (Cursor.remaining_pos (by simp [hfunction]))).1.kind]
    exact hfunction
  obtain ⟨hfreed, hmatches⟩ := htied.defaultFunction_atBack (some async) default hfunction
  refine ⟨_, _, ?_, hfreed, hmatches⟩
  rw [heq, Cursor.defaultExported,
    if_neg (by simp [Cursor.asyncModifiesFunction, Cursor.atWord, hkind]), if_pos (by simp [Cursor.atWord, hkind])]

theorem frees_defaultExpression (hc : c.ahead = default :: async :: rest)
    (hdefault : default.kind = .keyword .defaultWord)
    (hasync : async.kind = .keyword .asyncWord)
    (hfunction : ∀ t ∈ rest.head?, t.kind ≠ .keyword .functionWord) :
    Frees c (.defaultExpression (some default) (some async))
      c.advance.skipExpression async [default] rest := by
  obtain ⟨-, hahead, hprevious⟩ := exportForm_of_default hdefault hc
  refine ⟨hc, hasync, name_of_defaultWord hdefault, ?_, ?_⟩
  · rw [← hahead]
    exact (Cursor.reaches_skipExpression _).suffix
  intro here here' c' rest' h hc' _ _ hline
  obtain ⟨heq, hahead', hprevious'⟩ := exportForm_of_default hdefault hc'
  have hline : default.line = async.line := by
    rcases hline with ⟨t, ht, hk⟩ | hline
    · exact absurd hk (hfunction t ht)
    · exact hline default rfl
  refine ⟨_, _, heq.trans (h.defaultExported hahead' hfunction), ⟨rfl, rfl, rfl, rfl, rfl⟩,
    h.skipExpression hasync hahead hahead' hprevious hprevious' ?_ hfunction⟩
  intro u hu _
  obtain rfl : default = u := Option.some.inj hu
  exact hline

/-- A default export with an `async` word can be read without it. -/
theorem exists_frees_default (hdefault : c.kind = .keyword .defaultWord)
    (hok : c.exportForm = .ok (form, n)) (hform : form.asyncToken = some async) :
    ∃ lead rest, Frees c form n async lead rest := by
  obtain ⟨others, hc⟩ := Cursor.exists_cons_of_kind (c := c) (by simp [hdefault])
  obtain ⟨heq, hnext, -⟩ := exportForm_of_default hdefault hc
  rw [heq] at hok
  have hahead : c.advance.atWord .asyncWord = true →
      c.ahead = c.current :: c.advance.current :: c.advance.advance.ahead := by
    intro hat
    rw [hc, ← hnext]
    exact congrArg _ (Cursor.passes_advance (by simp [Cursor.kind_of_atWord hat])).ahead
  -- Any other default export has no such word.
  have hnone : ∀ {found : ExportForm × Cursor}, found = (form, n) →
      found.1.asyncToken = none → False := by
    rintro _ rfl hnone
    rw [hform] at hnone
    cases hnone
  cases Cursor.readsDefault_of_defaultExported hok with
  | asyncFunction modifies reads =>
    obtain ⟨hasync, hfunction⟩ := Cursor.asyncModifiesFunction_iff.1 modifies
    have hfirst : (Cursor.defaultFunction c.current (some c.advance.current)
      c.advance.advance).1.asyncToken = some async := by rw [reads, hform]
    obtain rfl : c.advance.current = async := Option.some.inj hfirst
    have hfrees := frees_defaultFunction (hahead (beq_iff_eq.2 hasync)) hdefault hasync hfunction
    rw [reads] at hfrees
    exact ⟨_, _, hfrees⟩
  | plainFunction _ reads => exact (hnone reads rfl).elim
  | ofClass _ reads => exact (hnone reads rfl).elim
  | interface _ _ unnamed =>
    rw [unnamed] at hform
    cases hform
  | name _ _ reads => exact (hnone reads rfl).elim
  | expression plain _ reads =>
    obtain ⟨rfl, rfl⟩ := Prod.mk.inj reads
    by_cases hat : c.advance.atWord .asyncWord = true
    · simp only [if_pos hat] at hform ⊢
      obtain rfl : c.advance.current = async := Option.some.inj hform
      refine ⟨_, _, frees_defaultExpression (hahead hat) hdefault (Cursor.kind_of_atWord hat) ?_⟩
      intro t ht hfunction
      obtain ⟨ts, hts⟩ := List.head?_eq_some_iff.1 ht
      refine Bool.eq_false_iff.1 plain (Cursor.asyncModifiesFunction_iff.2
        ⟨Cursor.kind_of_atWord hat, ?_⟩)
      rw [Cursor.kind, Cursor.current_eq_of_cons hts, hfunction]
    · rw [if_neg hat] at hform
      cases hform

end Default

section Function

variable {async : Token} {found : Cursor.Modifiers} {form : ExportForm}

theorem modifiersFrom_of_function (hc : c.kind = .keyword .functionWord) :
    Cursor.modifiersFrom found c = (found, c) := by
  rw [Cursor.modifiersFrom]
  simp [Cursor.asyncModifiesFunction, Cursor.atWord, hc]

/-- Modifiers with an `async` word, behind some others, and the same modifiers without it. -/
structure Modifies (found : Cursor.Modifiers) (c : Cursor) (async : Token) (lead : List Token) :
    Prop where
  ahead : c.ahead = lead ++ async :: (Cursor.modifiersFrom found c).2.ahead
  words : ∀ t ∈ lead, t.kind = .keyword .declareWord ∨ t.kind = .keyword .abstractWord
  kind : async.kind = .keyword .asyncWord
  function : (Cursor.modifiersFrom found c).2.kind = .keyword .functionWord
  without : ∀ {c' : Cursor} {rest' : List Token}, c'.ahead = lead ++ rest' →
    (∀ k' : Cursor, k'.ahead = rest' → k'.kind = .keyword .functionWord) →
    (Cursor.modifiersFrom found c').1 = ⟨(Cursor.modifiersFrom found c).1.ambient, none⟩ ∧
      (Cursor.modifiersFrom found c').2.ahead = rest' ∧
      c'.kind ∈ ([.keyword .declareWord, .keyword .abstractWord, .keyword .functionWord] :
        List TokenKind)

/-- One more modifier in front. -/
theorem Modifies.cons {found' : Cursor.Modifiers} {w : Keyword} {lead : List Token}
    (hw : w = .declareWord ∨ w = .abstractWord)
    (heq : ∀ {c : Cursor}, c.kind = .keyword w →
      Cursor.modifiersFrom found c = Cursor.modifiersFrom found' c.advance)
    (hc : c.kind = .keyword w) (h : Modifies found' c.advance async lead) :
    Modifies found c async (c.current :: lead) := by
  have hahead := (Cursor.passes_advance (c := c) (by simp [hc])).ahead
  refine ⟨?_, ?_, h.kind, ?_, ?_⟩
  · rw [heq hc, hahead, h.ahead]
    rfl
  · refine List.forall_mem_cons.2 ⟨?_, h.words⟩
    rw [← Cursor.kind, hc]
    rcases hw with rfl | rfl
    · exact .inl rfl
    · exact .inr rfl
  · rw [heq hc]
    exact h.function
  · intro c' rest' hc' hrest
    have hkind : c'.kind = .keyword w := by
      rw [Cursor.kind, Cursor.current_eq_of_cons hc']
      exact hc
    have hnext : c'.advance.ahead = lead ++ rest' := by
      have hahead' := (Cursor.passes_cons hc').ahead
      rw [hc'] at hahead'
      exact (List.cons.inj hahead').2.symm
    obtain ⟨hfirst, hsecond, -⟩ := h.without hnext hrest
    rw [heq hc, heq hkind, hkind]
    refine ⟨hfirst, hsecond, ?_⟩
    rcases hw with rfl | rfl <;> decide

theorem exists_modifies (hnone : found.async = none)
    (hasync : (Cursor.modifiersFrom found c).1.async = some async) :
    ∃ lead, Modifies found c async lead := by
  fun_induction Cursor.modifiersFrom found c with
  | case1 found c hambient ih =>
    obtain ⟨lead, h⟩ := ih hnone hasync
    refine ⟨_, h.cons (.inl rfl) (fun hc => ?_) (Cursor.kind_of_atWord hambient)⟩
    rw [Cursor.modifiersFrom, dif_pos (by simp [Cursor.atWord, hc])]
  | case2 found c hambient habstract ih =>
    obtain ⟨lead, h⟩ := ih hnone hasync
    refine ⟨_, h.cons (.inr rfl) (fun hc => ?_) (Cursor.kind_of_atWord habstract)⟩
    rw [Cursor.modifiersFrom, dif_neg (by simp [Cursor.atWord, hc]),
      dif_pos (by simp [Cursor.atWord, hc])]
  | case3 found c hambient habstract hmodifies ih =>
    have heq : Cursor.modifiersFrom found c =
        Cursor.modifiersFrom { found with async := some c.current } c.advance := by
      rw [Cursor.modifiersFrom, dif_neg hambient, dif_neg habstract, dif_pos hmodifies]
    obtain ⟨hkind, hfunction⟩ := Cursor.asyncModifiesFunction_iff.1 hmodifies
    rw [modifiersFrom_of_function hfunction] at hasync heq
    obtain rfl : c.current = async := Option.some.inj hasync
    refine ⟨[], ?_, by simp, hkind, ?_, ?_⟩
    · rw [heq]
      exact (Cursor.passes_advance (by simp [hkind])).ahead
    · rw [heq]
      exact hfunction
    · intro c' rest' hc' hrest
      have hkind' := hrest c' hc'
      rw [modifiersFrom_of_function hkind', heq, hkind', ← hnone]
      exact ⟨rfl, hc', by decide⟩
  | case4 found c hambient habstract hmodifies =>
    rw [hnone] at hasync
    cases hasync

/-- A word that begins a declaration begins nothing else. -/
theorem exportForm_of_kind (hc : c.kind ∈ ([.keyword .declareWord, .keyword .abstractWord,
    .keyword .functionWord, .keyword .constWord, .keyword .letWord, .keyword .varWord] :
      List TokenKind)) : c.exportForm = c.exportDeclaration := by
  simp only [List.mem_cons, List.not_mem_nil, or_false] at hc
  rcases hc with hk | hk | hk | hk | hk | hk <;>
    simp [Cursor.exportForm, Cursor.atWord, Cursor.atMark, hk]

theorem declared_of_function {m : Cursor.Modifiers} (hc : c.kind = .keyword .functionWord) :
    c.declared m = (do
      let (name, n) ← (c.advance.advanceIf (c.advance.atMark .star)).expectName
      .ok (.declaration .function c.current m.async [name.value] m.ambient, n)) := by
  rw [Cursor.declared, if_pos (by simp [Cursor.atWord, hc])]

/-- A function with an `async` word among its modifiers can be declared without it. -/
theorem Modifies.frees {lead : List Token} (h : Modifies ⟨false, none⟩ c async lead)
    (hok : c.exportDeclaration = .ok (form, n)) :
    Frees c form n async lead (Cursor.modifiersFrom ⟨false, none⟩ c).2.ahead := by
  have hbehind := (Cursor.reaches_of_declared hok).suffix
  have hlast : ∀ u ∈ lead.getLast?, u.kind.isName = true := by
    intro u hu
    rcases h.words u (List.mem_of_getLast? hu) with hk | hk <;> rw [hk] <;> rfl
  refine ⟨h.ahead, h.kind, fun u hu => .inl (hlast u hu), hbehind.trans (List.suffix_cons _ _), ?_⟩
  obtain ⟨⟨name, n₁⟩, hname, hok⟩ := bind_eq_ok.1 ((declared_of_function h.function).symm.trans hok)
  cases hok
  intro here here' c' rest' hr hc' _ _ _
  have hresume : ∀ k' : Cursor, k'.ahead = rest' →
      (atBack here here').Same (Cursor.modifiersFrom ⟨false, none⟩ c).2.current k'.current ∧
        (atBack here here').Matches (Cursor.modifiersFrom ⟨false, none⟩ c).2.advance k'.advance := by
    rintro k' rfl
    exact hr.tied.inside (Cursor.remaining_pos (by simp [h.function]))
  have hfunction : ∀ k' : Cursor, k'.ahead = rest' → k'.kind = .keyword .functionWord :=
    fun k' hk' => (hresume k' hk').1.kind.trans h.function
  obtain ⟨hmodifiers, hahead, hkind⟩ := h.without hc' hfunction
  obtain ⟨-, hnext⟩ := hresume _ hahead
  have hstar : (Cursor.modifiersFrom ⟨false, none⟩ c').2.advance.atMark .star =
      (Cursor.modifiersFrom ⟨false, none⟩ c).2.advance.atMark .star := by
    rw [Cursor.atMark, hnext.kind_atBack, Cursor.atMark]
  obtain ⟨name', n', hname', hsame, hn⟩ :=
    (hnext.advanceIf_atBack _).expectName hname (Nat.zero_le _)
  have hread : c'.exportForm = .ok (.declaration .function
      (Cursor.modifiersFrom ⟨false, none⟩ c').2.current none [name'.value]
      (Cursor.modifiersFrom ⟨false, none⟩ c).1.ambient, n') := by
    rw [exportForm_of_kind (by revert hkind; simp; tauto), Cursor.exportDeclaration,
      Cursor.modifiers, declared_of_function (hfunction _ hahead), hmodifiers, hstar]
    exact bind_eq_ok.2 ⟨_, hname', rfl⟩
  refine ⟨_, n', hread, ?_, hn⟩
  rw [hsame.value]
  exact ⟨rfl, rfl, rfl, rfl, rfl⟩

end Function

section Variable

variable {S : Seam} {async q : Token} {lead rest rest' : List Token} {form : ExportForm}
  {found : List String × Option Token} {names : List String} {b : Cursor}

/-- Variables whose first initializer loses its `async` word. -/
theorem Resumes.declarators (h : Resumes here here' async lead rest rest')
    (hasync : async.kind = .keyword .asyncWord)
    (hc : (inFront (async :: rest) rest').Matches c c') (hok : c.declarators = .ok (found, n))
    (hnames : c.bindingNames = .ok (names, b)) (hb : b.skipAnnotation.ahead = q :: async :: rest)
    (hlast : lead.getLast? = some q) (hq : q.kind = .mark .equals)
    (hfunction : ∀ t ∈ rest.head?, t.kind ≠ .keyword .functionWord) :
    ∃ n', c'.declarators = .ok ((found.1, none), n') ∧ (atBack here here').Matches n n' := by
  have hlt : (inFront (async :: rest) rest').old.length < b.skipAnnotation.remaining := by
    simp [inFront, Cursor.remaining, hb]
  have hle := Cursor.remaining_skipAnnotation_le b
  obtain ⟨b', hnames', hb'⟩ := hc.bindingNames hnames (by omega)
  have htyped := hb'.skipAnnotation_of_lt hlt
  have hcurrent : b.skipAnnotation.current = q := Cursor.current_eq_of_cons hb
  have hequals : b.skipAnnotation.atMark .equals = true := by
    simp [Cursor.atMark, Cursor.kind, hcurrent, hq]
  have hequals' : b'.skipAnnotation.atMark .equals = true := by
    rwa [htyped.atMark_eq hlt]
  obtain ⟨hsame, hnext⟩ := htyped.inside hlt
  have hprevious := (Cursor.passes_cons hb).previous
  have hahead : b.skipAnnotation.advance.ahead = async :: rest := Cursor.ahead_advance hb
  have hahead' : b'.skipAnnotation.advance.ahead = rest' :=
    (hnext.outside (by simp [inFront, Cursor.remaining, hahead])).2
  have hprevious' : b'.skipAnnotation.advance.previous = some q := by
    have hstays : (inFront (async :: rest) rest').Shifts [] := fun _ _ hplaced => hplaced
    have hq' : b'.skipAnnotation.current = b.skipAnnotation.current := hsame.eq_shift hstays
    rw [← hcurrent, ← hq']
    exact previous_advance (by simp [Cursor.kind_of_atMark hequals'])
  -- The initializer reaches as far as before, and it begins with no such word.
  have hskip : (atBack here here').Matches b.skipDeclaratorRest b'.skipDeclaratorRest := by
    simp only [Cursor.skipDeclaratorRest, PatternState.skipInitializer, hequals, hequals', if_true]
    refine h.skipExpression hasync hahead hahead' (hprevious.trans hlast.symm)
      (hprevious'.trans hlast.symm) ?_ hfunction
    intro u hu hends
    obtain rfl : q = u := Option.some.inj (hlast.symm.trans hu)
    rw [hq] at hends
    cases hends
  have hinitializer : b'.skipAnnotation.asyncInitializer = none := by
    obtain ⟨t, ts, t', ts', rfl, rfl, first, -⟩ := h.exists_cons
    have hne : t'.kind ≠ .keyword .asyncWord := by
      rw [first.kind]
      exact h.yields.kind_ne
    simp [Cursor.asyncInitializer, Cursor.asyncBeginsArrow, Cursor.atWord, Cursor.kind,
      Cursor.current_eq_of_cons hahead', hne]
  rw [Cursor.declarators] at hok ⊢
  split at hok
  · cases hok
  next names' b₁ hnames₁ =>
    rw [hnames, Except.ok.injEq, Prod.mk.injEq] at hnames₁
    obtain ⟨rfl, rfl⟩ := hnames₁
    split
    · next hfault => simp [hnames'] at hfault
    next names'' b₁' hnames'' =>
      rw [hnames', Except.ok.injEq, Prod.mk.injEq] at hnames''
      obtain ⟨rfl, rfl⟩ := hnames''
      have hcomma : b'.skipDeclaratorRest.atMark .comma = b.skipDeclaratorRest.atMark .comma := by
        rw [Cursor.atMark, hskip.kind_atBack, Cursor.atMark]
      rw [hcomma, hinitializer]
      split at hok
      · next hmark =>
        obtain ⟨⟨⟨more, others⟩, m⟩, hmore, heq⟩ := map_eq_ok.1 hok
        cases heq
        obtain ⟨others', n', hmore', -, hn⟩ := hskip.advance_atBack.declarators hmore
          (Nat.zero_le _) (fun _ => detached_of_nil rfl) (fun _ _ _ _ _ _ hu => by cases hu)
          (fun hextends => absurd rfl hextends.2) (fun hextends => absurd rfl hextends.2)
        refine ⟨n', ?_, hn⟩
        rw [if_pos hmark, hmore']
        rfl
      · next hmark =>
        cases hok
        exact ⟨_, by rw [if_neg hmark], hskip⟩

theorem declarators_cases (hok : c.declarators = .ok (found, n)) :
    ∃ names b, c.bindingNames = .ok (names, b) ∧ found.2 = b.skipAnnotation.asyncInitializer ∧
      Cursor.Reaches b.skipDeclaratorRest n := by
  rw [Cursor.declarators] at hok
  split at hok
  · cases hok
  next names b hnames =>
    split at hok
    · obtain ⟨⟨⟨more, others⟩, m⟩, hmore, heq⟩ := map_eq_ok.1 hok
      cases heq
      exact ⟨names, b, hnames, rfl,
        (Cursor.reaches_advance _).trans (Cursor.reaches_of_declarators hmore)⟩
    · cases hok
      exact ⟨names, b, hnames, rfl, .refl _⟩

/-- What an initializer with an `async` word looks like. -/
theorem exists_of_asyncInitializer (h : c.asyncInitializer = some async) :
    ∃ q rest, c.ahead = q :: async :: rest ∧ q.kind = .mark .equals ∧
      async.kind = .keyword .asyncWord ∧ c.advance.ahead = async :: rest ∧
      (async.YieldsTo rest → ∀ t ∈ rest.head?, t.kind ≠ .keyword .functionWord) := by
  unfold Cursor.asyncInitializer at h
  split at h
  swap
  · cases h
  next hbegins =>
  simp only [Bool.and_eq_true, Cursor.asyncBeginsArrow] at hbegins
  obtain ⟨hequals, hasync, harrow⟩ := hbegins
  obtain rfl : c.advance.current = async := Option.some.inj h
  have hequals := Cursor.kind_of_atMark hequals
  have hasync := Cursor.kind_of_atWord hasync
  have hahead := (Cursor.passes_advance (c := c) (by simp [hequals])).ahead
  have hnext := (Cursor.passes_advance (c := c.advance) (by simp [hasync])).ahead
  refine ⟨c.current, c.advance.advance.ahead, ?_, hequals, hasync, hnext, ?_⟩
  · rw [hahead, hnext]
    rfl
  intro hyields t ht hfunction
  obtain ⟨ts, hts⟩ := List.head?_eq_some_iff.1 ht
  rw [hts] at hyields
  have hlast : ∃ u ∈ ts.head?, u.kind = .mark .arrow := by
    simp only [Cursor.followingKind, Cursor.peek, hnext, hts] at harrow
    cases ts with
    | nil => simp [hfunction, Token.endOfInput, TokenKind.isName] at harrow
    | cons u ts => exact ⟨u, rfl, by simpa [hfunction, TokenKind.isName] using harrow⟩
  obtain ⟨u, hu, harrow⟩ := hlast
  rcases hyields with hk | ⟨-, hplain⟩ | ⟨hk, -⟩ | ⟨-, -, hk, -⟩
  · simp [hfunction] at hk
  · exact hplain u hu harrow
  · simp [hfunction] at hk
  · exact hk (by rw [hfunction]; decide)

/-- Only variables have an `async` word that is no modifier. -/
theorem exists_variable_of_async {m : Cursor.Modifiers} (hok : c.declared m = .ok (form, n))
    (hm : m.async = none) (hform : form.asyncToken = some async) :
    ∃ kind names, Cursor.variableKind? c.kind = some kind ∧ c.atEnumeration = false ∧
      c.advance.declarators = .ok ((names, some async), n) ∧
      form = .declaration kind c.current (some async) names m.ambient := by
  have hnone : m.async = some async → False := by
    rw [hm]
    exact nofun
  cases Cursor.readsDeclared_of_declared hok with
  | @bindings kind found _ plain word reads =>
    obtain ⟨names, others⟩ := found
    obtain rfl : others = some async := by simpa [ExportForm.asyncToken, hm] using hform
    exact ⟨kind, names, word, plain, reads, by rw [hm]; rfl⟩
  | _ => exact (hnone hform).elim

/-- Variables whose first initializer has an `async` word can be declared without it. -/
theorem exists_frees_variable (hok : c.exportDeclaration = .ok (form, n))
    (hm : c.modifiers.1.async = none) (hform : form.asyncToken = some async) :
    ∃ lead rest, Frees c form n async lead rest := by
  obtain ⟨kind, names, hkind, hlist, hdeclarators, rfl⟩ :=
    exists_variable_of_async hok hm hform
  obtain ⟨bound, b, hnames, hinitializer, hreach⟩ := declarators_cases hdeclarators
  obtain ⟨q, rest, hb, hq, hasync, hahead, hfunction⟩ :=
    exists_of_asyncInitializer hinitializer.symm
  have hne : c.modifiers.2.kind ≠ .endOfInput := by
    intro hend
    rw [hend] at hkind
    cases hkind
  obtain ⟨passed, hpassed⟩ : Cursor.Reaches c b.skipAnnotation :=
    (Cursor.reaches_modifiersFrom ⟨false, none⟩ c).trans ((Cursor.reaches_advance _).trans
      ((Cursor.reaches_of_bindingNames hnames).trans (Cursor.reaches_skipAnnotation b)))
  have hlast : (passed ++ [q]).getLast? = some q := List.getLast?_concat
  refine ⟨passed ++ [q], rest, ?_, hasync, ?_, ?_, ?_⟩
  · rw [hpassed.ahead, hb, List.append_assoc]
    rfl
  · intro u hu
    obtain rfl : q = u := Option.some.inj (hlast.symm.trans hu)
    exact .inr hq
  · have hequals : b.skipAnnotation.atMark .equals = true := by
      simp [Cursor.atMark, Cursor.kind, Cursor.current_eq_of_cons hb, hq]
    rw [Cursor.skipDeclaratorRest, PatternState.skipInitializer, if_pos hequals] at hreach
    rw [← hahead]
    exact ((Cursor.reaches_skipExpression _).trans hreach).suffix
  intro here here' c' rest' h hc' hprevious hplain _
  -- Up to the word the same tokens are read.
  have hsame : ∀ t : Token, (t.kind = .mark .semicolon → t.value = ";") →
      (inFront (async :: rest) rest').Same t t := fun t ht => ⟨rfl, rfl, rfl, ht, rfl⟩
  have hmatches : (inFront (async :: rest) rest').Matches c c' := by
    constructor
    · rw [hprevious]
      cases hp : c.previous with
      | none => exact .none
      | some p => exact .some (hsame p fun hk => absurd hk (hplain p (by simp [hp])))
    · rw [hpassed.ahead, hb, List.append_cons, hc']
      exact tied_append fun t ht => hsame t (h.semicolon t ht)
  have hlong : (inFront (async :: rest) rest').old.length + 1 < c.modifiers.2.remaining := by
    have := Cursor.remaining_advance_lt hne
    have := Cursor.remaining_lt_of_bindingNames hnames
    have := Cursor.remaining_skipAnnotation_le b
    have : b.skipAnnotation.remaining = rest.length + 2 := by simp [Cursor.remaining, hb]
    simp only [inFront, List.length_cons]
    omega
  obtain ⟨hambient, hnone, hk⟩ := hmatches.modifiersFrom ⟨false, none⟩ ⟨false, none⟩ rfl .none hlong
  rw [← Cursor.modifiers, ← Cursor.modifiers] at hambient hnone hk
  have hm' : c'.modifiers.1.async = none := by
    rw [hm] at hnone
    generalize c'.modifiers.1.async = other at hnone
    cases hnone
    rfl
  have hkind' : Cursor.variableKind? c'.modifiers.2.kind = some kind := by
    rwa [hk.kind_eq (by omega)]
  have hlist' : c'.modifiers.2.atEnumeration = false := by
    rw [Cursor.atEnumeration, hk.atWord_eq (by omega), hk.atWord_eq (by omega),
      hk.followingKind_eq hlong]
    exact hlist
  obtain ⟨n', hread, hn⟩ := h.declarators hasync (hk.advance (by omega)) hdeclarators hnames hb
    hlast hq (hfunction h.yields)
  have hread : c'.exportForm = .ok (.declaration kind c'.modifiers.2.current none names
      c.modifiers.1.ambient, n') := by
    rw [Cursor.exportForm_of_variable (by rw [hkind']; rfl), Cursor.exportDeclaration,
      Cursor.declared_of_variable hkind' hlist', hm', hambient]
    exact bind_eq_ok.2 ⟨_, hread, rfl⟩
  exact ⟨_, n', hread, ⟨rfl, rfl, rfl, rfl, rfl⟩, hn⟩

end Variable

section Statement

variable {async : Token} {form : ExportForm} {e : ExportStatement} {typeOnly : Bool}

theorem exists_of_exportEverything (hok : c.exportEverything typeOnly = .ok (form, n)) :
    ∃ name source, form = .everything name source typeOnly := by
  obtain ⟨_, -, hok⟩ := bind_eq_ok.1 hok
  simp only at hok
  split at hok
  · obtain ⟨_, -, hok⟩ := bind_eq_ok.1 hok
    obtain ⟨_, -, hok⟩ := bind_eq_ok.1 hok
    obtain ⟨_, -, hok⟩ := bind_eq_ok.1 hok
    cases hok
    exact ⟨_, _, rfl⟩
  · obtain ⟨_, -, hok⟩ := bind_eq_ok.1 hok
    obtain ⟨_, -, hok⟩ := bind_eq_ok.1 hok
    cases hok
    exact ⟨_, _, rfl⟩

theorem exists_of_exportList (hok : c.exportList typeOnly = .ok (form, n)) :
    ∃ specifiers source, form = .list specifiers source typeOnly := by
  obtain ⟨_, -, hok⟩ := bind_eq_ok.1 hok
  simp only at hok
  split at hok
  · obtain ⟨_, -, hok⟩ := bind_eq_ok.1 hok
    cases hok
    exact ⟨_, _, rfl⟩
  · cases hok
    exact ⟨_, _, rfl⟩

/-- What stands behind `export`: a default export, a form that records no words, or a declaration. -/
theorem exportForm_cases (hok : c.exportForm = .ok (form, n)) : c.kind = .keyword .defaultWord ∨
    (form.defaultToken = none ∧ form.asyncToken = none ∧ form.declarationToken = none) ∨
      c.exportDeclaration = .ok (form, n) := by
  by_cases hdefault : c.atWord .defaultWord = true
  · exact .inl (Cursor.kind_of_atWord hdefault)
  right
  rw [Cursor.exportForm, if_neg hdefault] at hok
  split at hok
  · obtain ⟨name, source, rfl⟩ := exists_of_exportEverything hok
    exact .inl ⟨rfl, rfl, rfl⟩
  split at hok
  · obtain ⟨specifiers, source, rfl⟩ := exists_of_exportList hok
    exact .inl ⟨rfl, rfl, rfl⟩
  split at hok
  · obtain ⟨specifiers, source, rfl⟩ := exists_of_exportList hok
    exact .inl ⟨rfl, rfl, rfl⟩
  split at hok
  · obtain ⟨name, source, rfl⟩ := exists_of_exportEverything hok
    exact .inl ⟨rfl, rfl, rfl⟩
  split at hok
  · cases hok
    exact .inl ⟨rfl, rfl, rfl⟩
  split at hok
  · obtain ⟨_, -, hok⟩ := bind_eq_ok.1 hok
    obtain ⟨_, -, hok⟩ := bind_eq_ok.1 hok
    cases hok
    exact .inl ⟨rfl, rfl, rfl⟩
  · exact .inr hok

theorem exists_frees_declaration (hok : c.exportDeclaration = .ok (form, n))
    (hform : form.asyncToken = some async) : ∃ lead rest, Frees c form n async lead rest := by
  cases hm : c.modifiers.1.async with
  | none => exact exists_frees_variable hok hm hform
  | some other =>
    obtain ⟨lead, h⟩ := exists_modifies rfl hm
    have hfrees := h.frees hok
    obtain ⟨_, -, hfound⟩ := bind_eq_ok.1 ((declared_of_function h.function).symm.trans hok)
    cases hfound
    obtain rfl : other = async := Option.some.inj (hm.symm.trans hform)
    exact ⟨lead, _, hfrees⟩

/-- Every form with an `async` word can be read without it. -/
theorem exists_frees (hok : c.exportForm = .ok (form, n))
    (hform : form.asyncToken = some async) : ∃ lead rest, Frees c form n async lead rest := by
  rcases exportForm_cases hok with hdefault | ⟨-, hnone, -⟩ | hdeclaration
  · exact exists_frees_default hdefault hok hform
  · rw [hform] at hnone
    cases hnone
  · exact exists_frees_declaration hdeclaration hform

/-- An export with an `async` word, from the word `export` on, and the same export without it. -/
structure FreesExport (c : Cursor) (e : ExportStatement) (n : Cursor) (async : Token)
    (lead rest : List Token) : Prop where
  ahead : c.ahead = c.current :: lead ++ async :: rest
  kind : async.kind = .keyword .asyncWord
  last : ∀ u ∈ (c.current :: lead).getLast?, u.kind.isName = true ∨ u.kind = .mark .equals
  behind : n.ahead <:+ async :: rest
  reads : ∀ {here here' : Position} {c' : Cursor} {rest' : List Token},
    Resumes here here' async (c.current :: lead) rest rest' →
    c'.ahead = c.current :: lead ++ rest' →
    ((∃ t ∈ rest.head?, t.kind = .keyword .functionWord) ∨
      ∀ d ∈ e.form.defaultToken, d.line = async.line) →
    ∃ e' n', c'.exportStatement = .ok (e', n') ∧ e.form.Freed e'.form ∧
      (atBack here here').Matches n n'

theorem Resumes.tail {t : Token} {lead rest rest' : List Token}
    (h : Resumes here here' async (t :: lead) rest rest') :
    Resumes here here' async lead rest rest' := by
  refine ⟨h.tied, h.line, h.yields, fun u hu => h.apart u ?_, fun u hu =>
    h.semicolon u (List.mem_cons_of_mem t hu)⟩
  obtain ⟨init, rfl⟩ := List.getLast?_eq_some_iff.1 hu
  exact List.getLast?_concat (l := t :: init)

theorem exists_freesExport (hok : c.exportStatement = .ok (e, n))
    (hform : e.form.asyncToken = some async) :
    ∃ lead rest, FreesExport c e n async lead rest := by
  obtain ⟨⟨start, c₁⟩, hstart, hok⟩ := bind_eq_ok.1 hok
  obtain ⟨⟨form, c₂⟩, hread, hok⟩ := bind_eq_ok.1 hok
  cases hok
  obtain ⟨hpass, rfl, hexport⟩ := Cursor.passes_of_expect (by simp) hstart
  obtain ⟨lead, rest, h⟩ := exists_frees hread hform
  refine ⟨lead, rest, ?_, h.kind, ?_, ?_, ?_⟩
  · rw [hpass.ahead, h.ahead]
    rfl
  · intro u hu
    cases lead with
    | nil =>
      obtain rfl : c.current = u := Option.some.inj hu
      exact .inl (by rw [hexport]; rfl)
    | cons t lead => exact h.last u (by rwa [List.getLast?_cons_cons] at hu)
  · exact (Cursor.reaches_exportEnding form c₂).suffix.trans h.behind
  intro here here' c' rest' hr hc' hline
  have hcurrent : c'.current = c.current := Cursor.current_eq_of_cons hc'
  obtain ⟨hahead, hprevious, -⟩ := Cursor.passes_cons hc'
  rw [hc'] at hahead
  have hstart' : c'.expect (.keyword .exportWord) = .ok (c.current, c'.advance) := by
    rw [Cursor.expect, Cursor.kind, hcurrent, if_pos hexport]
  have hprevious : c'.advance.previous = c₁.previous := by
    rw [hprevious, hpass.previous]
    rfl
  obtain ⟨form', c₂', hread', hfreed, hmatches⟩ := h.reads hr.tail (List.cons.inj hahead).2.symm
    hprevious (by simp [hpass.previous, hexport]) hline
  have hending : (atBack here here').Matches (c₂.exportEnding form).2
      (c₂'.exportEnding form').2 := by
    unfold Cursor.exportEnding
    rw [hfreed.takesSemicolon]
    split
    · exact (hmatches.takeSemicolon (Nat.zero_le _) fun _ _ =>
        (detached_of_nil rfl).kind _ (by decide)).2
    · exact hmatches
  exact ⟨_, _, bind_eq_ok.2 ⟨_, hstart', bind_eq_ok.2 ⟨_, hread', rfl⟩⟩, hfreed, hending⟩

end Statement

end Seam

end ComponentRegistry
