import ComponentRegistry.Proofs.Lexing.Rewording
import ComponentRegistry.Proofs.Rewrite.NamedDefault
import ComponentRegistry.Proofs.Syntax.ExportSpelling
import ComponentRegistry.Proofs.Syntax.LoneName

/-! # A name that is exported under itself as well

A name behind `export default` becomes a clause that lists it twice. The clause ends in a semicolon,
so that nothing behind it goes on with it. Only a slash behind it could mean something else.
-/

namespace ComponentRegistry

open Lexer
open ExportForm (defaultWord)

section Clause

variable {name : String}

theorem writable_bothNames (hname : Lexeme.isNameText name.toList = true) :
    ∀ entry ∈ bothNames name, entry.Writable false := by
  intro entry hentry
  simp only [bothNames, List.mem_cons, List.not_mem_nil, or_false] at hentry
  rcases hentry with rfl | rfl
  · exact ⟨hname, hname, by simp, by simp⟩
  · have hdefault : Lexeme.isNameText defaultWord.toList = true := by decide
    exact ⟨hname, hdefault, by simp, by simp⟩

/-- What stands behind `export` in a clause that exports a name under itself and as the default. -/
def bothNamesRest (name : String) : List Char :=
  ' ' :: ("\x7b ".toList ++ ", ".toList.intercalate
    ((bothNames name).map (Specifier.clauseText false)) ++ " \x7d".toList ++ [';'])

theorem apart_bothNamesRest (name : String) (back : List Char) :
    Apart (bothNamesRest name) back :=
  apart_of_last (a := ' ' :: ("\x7b ".toList ++ ", ".toList.intercalate
    ((bothNames name).map (Specifier.clauseText false)) ++ " \x7d".toList)) (by decide) back

theorem bothNamesClause_eq (hother : name ≠ defaultWord) :
    bothNamesClause name = "export".toList ++ bothNamesRest name := by
  have hentries : ", ".toList.intercalate ((bothNames name).map (Specifier.clauseText false)) =
      name.toList ++ ", ".toList ++ (name.toList ++ (" as ".toList ++ defaultWord.toList)) := by
    simp [bothNames, Specifier.clauseText, hother, List.intercalate]
  have hfront : "export \x7b ".toList = "export".toList ++ ' ' :: "\x7b ".toList := by decide
  have hend : " as default \x7d;".toList =
      " as ".toList ++ defaultWord.toList ++ (" \x7d".toList ++ [';']) := by
    decide
  have hcut : bothNamesClause name = ("export".toList ++ ' ' :: "\x7b ".toList) ++ name.toList ++
      ", ".toList ++ name.toList ++
      (" as ".toList ++ defaultWord.toList ++ (" \x7d".toList ++ [';'])) :=
    congrArg₂ (fun front back => front ++ name.toList ++ ", ".toList ++ name.toList ++ back)
      hfront hend
  rw [hcut, bothNamesRest, hentries]
  simp only [List.append_assoc, List.cons_append]

theorem says_bothNamesRest (hname : Lexeme.isNameText name.toList = true) :
    Says (bothNamesRest name) (.ofMark .openBrace :: (clauseWords false (bothNames name) ++
      [.ofMark .closeBrace, .ofMark .semicolon])) := by
  have hclause := says_clause (writable_bothNames hname) (List.cons_ne_nil _ _)
  have hall := (hclause.append says_semicolon (by simp)
    (apart_of_first (c := ';') (by decide) _ [])).after_blank (by simp)
  rw [List.cons_append, List.append_assoc (clauseWords _ _)] at hall
  exact hall

theorem inert_bothNamesClause (hname : Lexeme.isNameText name.toList = true) :
    ∀ c ∈ bothNamesClause name, Lexeme.Inert c := by
  have hplain : ∀ plain ∈ ["export \x7b ".toList, ", ".toList, " as default \x7d;".toList],
      ∀ c ∈ plain, Lexeme.Inert c := by
    simp [Lexeme.Inert]
  have happend : ∀ {a b : List Char}, (∀ c ∈ a, Lexeme.Inert c) → (∀ c ∈ b, Lexeme.Inert c) →
      ∀ c ∈ a ++ b, Lexeme.Inert c := fun ha hb c hc => (List.mem_append.1 hc).elim (ha c) (hb c)
  have hinert := (inert_of_isNameText hname).2
  exact happend (happend (happend (happend (hplain _ (by simp)) hinert) (hplain _ (by simp)))
    hinert) (hplain _ (by simp))

theorem inert_bothNamesRest (hname : Lexeme.isNameText name.toList = true)
    (hother : name ≠ defaultWord) : ∀ c ∈ bothNamesRest name, Lexeme.Inert c := by
  intro c hc
  refine inert_bothNamesClause hname c ?_
  rw [bothNamesClause_eq hother]
  exact List.mem_append_right _ hc

end Clause

/-- The tokens of a name as the default export. -/
theorem Cursor.passes_defaultName {c n : Cursor} {e : ExportStatement} {default : Token}
    {name : String} (h : c.exportStatement = .ok (e, n))
    (hform : e.form = .defaultName default name) :
    ∃ own last, Passes c n (c.current :: (own ++ [last])) ∧
      (∀ t ∈ own ++ [last], t.kind.isName = true ∨ t.kind = .mark .semicolon) ∧
      (∃ t ∈ own ++ [last], t.kind.isName = true ∧ t.value = name) ∧
      ((e.terminated = true ∧ last.kind = .mark .semicolon) ∨
        (e.terminated = false ∧ last.kind.isName = true ∧
          (n.kind ≠ .endOfInput → last.line < n.current.line))) := by
  obtain ⟨⟨hexport, hdefault, -⟩, ⟨hlone, hvalue⟩, htake⟩ := reads_defaultName h hform
  obtain ⟨hname, hbehind⟩ := atLoneName_iff.1 hlone
  have hfirst := passes_advance (c := c) (by simp [hexport])
  have hsecond := passes_advance (c := c.advance) (by simp [hdefault])
  have hthird := passes_advance (kind_ne_of_atName hname)
  have hpass := (hfirst.trans hsecond).trans hthird
  have hword : c.advance.current.kind.isName = true := by
    rw [show c.advance.current.kind = _ from hdefault]
    rfl
  rcases takeSemicolon_cases c.advance.advance.advance with ⟨hcase, hmark, -⟩ | ⟨hcase, hmark⟩
  · rw [hcase, Prod.mk.injEq] at htake
    obtain ⟨hterminated, rfl⟩ := htake
    have hkind := kind_of_atMark hmark
    have hfourth := passes_advance (c := c.advance.advance.advance) (by simp [hkind])
    refine ⟨[c.advance.current, c.advance.advance.current], _, hpass.trans hfourth, ?_,
      ⟨_, by simp, hname, hvalue⟩, .inl ⟨hterminated.symm, hkind⟩⟩
    intro t ht
    simp only [List.cons_append, List.nil_append, List.mem_cons, List.not_mem_nil, or_false] at ht
    rcases ht with rfl | rfl | rfl
    · exact .inl hword
    · exact .inl hname
    · exact .inr hkind
  · rw [hcase, Prod.mk.injEq] at htake
    obtain ⟨hterminated, rfl⟩ := htake
    refine ⟨[c.advance.current], _, hpass, ?_, ⟨_, by simp, hname, hvalue⟩,
      .inr ⟨hterminated.symm, hname, fun hmore => ?_⟩⟩
    · intro t ht
      simp only [List.cons_append, List.nil_append, List.mem_cons, List.not_mem_nil, or_false] at ht
      rcases ht with rfl | rfl
      · exact .inl hword
      · exact .inl hname
    · have hpeek : c.advance.advance.peek 1 = c.advance.advance.advance.current := peek_succ _ 0
      rw [followingKind_eq, hpeek] at hbehind
      refine hbehind.resolve_left fun hmem => ?_
      simp only [List.mem_cons, List.not_mem_nil, or_false] at hmem
      rcases hmem with hend | hsemicolon
      · exact hmore hend
      · simp [atMark, hsemicolon] at hmark

/-- A statement may begin behind a name as the default export. -/
theorem Cursor.atStatementStart_of_defaultName {c n : Cursor} {e : ExportStatement}
    {default : Token} {name : String} (h : c.exportStatement = .ok (e, n))
    (hform : e.form = .defaultName default name) (hmore : n.kind ≠ .endOfInput) :
    n.atStatementStart = true := by
  obtain ⟨own, last, hpass, -, -, hlast⟩ := passes_defaultName h hform
  have hprevious : n.previous = some last := by
    rw [hpass.previous, ← List.cons_append, List.getLast?_concat]
    rfl
  rw [atStatementStart, hprevious]
  rcases hlast with ⟨-, hmark⟩ | ⟨-, hname, hline⟩
  · simp [hmark]
  · have hdot : last.kind ≠ .mark .dot := by
      intro hdot
      rw [hdot] at hname
      cases hname
    simp [hline hmore, hdot]

namespace Lexer

variable {s m : Scan} {ts : List Token} {t : Token}

/-- Names and semicolons hide nothing. -/
theorem Reads.inert_of_plain (h : Reads s ts m) (ht : t ∈ ts)
    (hplain : t.kind.isName = true ∨ t.kind = .mark .semicolon) :
    isFlat t.kind = true ∧ t.lexeme.toList ≠ [] ∧ ∀ c ∈ t.lexeme.toList, Lexeme.Inert c := by
  rcases hplain with hname | hmark
  · exact ⟨isFlat_of_isName hname, inert_of_isNameText (h.isNameText ht hname)⟩
  · have hconveys := h.conveys ht
    rw [hmark] at hconveys
    have hvalue : t.value = ";" := h.value_eq ht (by rw [hmark]; rfl)
    have hlexeme : t.lexeme.toList = ";".toList := by rw [← hvalue]; exact hconveys
    rw [hmark, hlexeme]
    exact ⟨rfl, by decide, by simp [Lexeme.Inert]⟩

end Lexer

namespace ExportSite

variable {text : List Char} {s : TokenStream} {o : Outline} {e : ExportStatement}
  {front back : List ExportStatement} {default : Token} {name : String}

/-- The words of the clause come in the place of the name as the default. -/
theorem tokenize_bothNames (site : ExportSite s o e front back) (hs : tokenize text = .ok s)
    (hform : e.form = .defaultName default name) (hother : name ≠ defaultWord)
    (hline : (∀ t ∈ s.within e.span, t.line = e.span.start.line) ∨
      ∀ t ∈ s.before e.span.start.offset, t.isHalf = false)
    (hends : e.terminated = true ∨ ∀ t ∈ (s.onward e.span.stop).head?,
      t.kind ≠ .mark .slash ∧ t.kind ≠ .regex) :
    ∃ ts after' finish here here', Lexeme.isNameText name.toList = true ∧
      tokenize (Edit.apply text ⟨e.span.start.offset, e.span.stop, bothNamesClause name⟩) =
        .ok ⟨site.passed ++ site.c.current :: (ts ++ after'), finish⟩ ∧
      ts.map Token.bare = .ofMark .openBrace :: (clauseWords false (bothNames name) ++
        [.ofMark .closeBrace, .ofMark .semicolon]) ∧
      List.Forall₂ (Moved here here') site.n.ahead after' := by
  obtain ⟨own, last, hpass, hown, ⟨v, hv, hname, hvalue⟩, hlast⟩ :=
    Cursor.passes_defaultName site.reads hform
  obtain ⟨⟨q, hreads⟩, -⟩ := reads_of_tokenize hs
  have htokens : s.tokens = site.passed ++ site.c.current :: (own ++ last :: site.n.ahead) := by
    rw [site.place.tokens, hpass.ahead]
    simp
  have hmem : ∀ t ∈ own ++ [last], t ∈ s.tokens := by
    intro t ht
    rw [htokens]
    simp only [List.mem_append, List.mem_cons, List.not_mem_nil, or_false] at ht ⊢
    tauto
  have hnameText := hreads.isNameText_value (hmem v hv) hname
  rw [hvalue] at hnameText
  rw [site.before hs, site.within_eq hs hpass, site.start] at hline
  rw [site.onward_eq hs hpass] at hends
  have hblank : ∀ c ∈ (bothNamesRest name).head?, Lexeme.continuesName c = false := by
    intro c hc
    obtain rfl : ' ' = c := Option.some.inj hc
    decide
  obtain ⟨ts, after', finish, htokenize, hbare, hmoved⟩ := tokenize_reword hs htokens
    site.kind_current (fun t ht => hreads.inert_of_plain (hmem t ht) (hown t ht))
    (hline.imp_left fun hone => (hone last (by simp)).symm)
    (inert_bothNamesRest hnameText hother) hblank (says_bothNamesRest hnameText)
    (List.cons_ne_nil _ _) (apart_bothNamesRest name) (by
      rcases hlast with ⟨-, hmark⟩ | ⟨hopen, -⟩
      · refine .inl ⟨.ofMark .semicolon, ?_, ?_⟩
        · rw [← List.cons_append, List.getLast?_append]
          rfl
        · simp only [regexMayFollow, hmark]
          rfl
      · exact .inr (hends.resolve_left (by simp [hopen])))
  refine ⟨ts, after', finish, _, _, hnameText, ?_, hbare, hmoved⟩
  rw [Edit.apply, bothNamesClause_eq hother, site.span_eq hpass, ← htokenize]
  simp only [List.append_assoc]

/-- The module in which a name is exported under itself as well, in the place where it was the
default export. -/
theorem named_both (site : ExportSite s o e front back) (hs : tokenize text = .ok s)
    (hexports : o.exports = front ++ e :: back) (hform : e.form = .defaultName default name)
    (hother : name ≠ defaultWord) (hfront : ∀ x ∈ front, x.form.isDefault = false)
    (hline : (∀ t ∈ s.within e.span, t.line = e.span.start.line) ∨
      ∀ t ∈ s.before e.span.start.offset, t.isHalf = false)
    (hends : e.terminated = true ∨ ∀ t ∈ (s.onward e.span.stop).head?,
      t.kind ≠ .mark .slash ∧ t.kind ≠ .regex) :
    ∃ o', outline (Edit.apply text
        ⟨e.span.start.offset, e.span.stop, bothNamesClause name⟩) = .ok o' ∧
      o.Named name front back e o' := by
  obtain ⟨ts, after', finish, here, here', hname, hs', hbare, hmoved⟩ :=
    site.tokenize_bothNames hs hform hother hline hends
  obtain ⟨d, m, hbelow, hm⟩ := site.surveys_below
  obtain ⟨⟨q, hreads⟩, -⟩ := reads_of_tokenize hs
  have harrow : ∀ u ∈ (ts ++ after').head?, u.kind ≠ .mark .arrow := by
    intro u hu
    cases ts with
    | nil => cases hbare
    | cons w ts =>
      obtain rfl : w = u := Option.some.inj hu
      have hkind : w.bare.kind = .mark .openBrace := congrArg Token.kind (List.cons.inj hbare).1
      rw [show w.kind = _ from hkind]
      decide
  have htokens' : (⟨site.passed ++ site.c.current :: (ts ++ after'), finish⟩ : TokenStream).tokens =
      site.passed ++ site.c.current :: (ts ++ after') := rfl
  obtain ⟨c', habove, hplace, hahead, hstarts⟩ := site.exists_startsExport hs hfront harrow htokens'
  -- The clause is read up to its semicolon.
  generalize hn' : (⟨(site.c.current :: ts).getLast?.or c'.previous, after', c'.finish⟩ : Cursor) =
    n'
  have hspells : Cursor.Spells c' (.ofName "export" :: .ofMark .openBrace ::
      (clauseWords false (bothNames name) ++ [.ofMark .closeBrace, .ofMark .semicolon])) n' := by
    refine ⟨site.c.current :: ts, hn' ▸ ⟨hahead, rfl, rfl⟩, ?_⟩
    rw [List.map_cons, hbare, hreads.eq_exportAt (by rw [site.tokens]; simp) site.kind_current]
    rfl
  have hstatement := Cursor.exportStatement_of_clause (writable_bothNames hname) hspells
  have hends' : Cursor.Spells c' (.ofName "export" :: .ofMark .openBrace ::
      (clauseWords false (bothNames name) ++ [.ofMark .closeBrace]) ++ [.ofMark .semicolon]) n' := by
    simpa using hspells
  have hstart := Cursor.atStatementStart_of_spells hends'
  obtain ⟨below', m', hbelow', hm', hsame⟩ := hbelow.behind hm (by rwa [← hn'])
    (fun t ht => site.value_of_semicolon hs ht)
    fun hmore => hstart.trans (Cursor.atStatementStart_of_defaultName site.reads hform hmore).symm
  have hnone : below' ++ ⟨[], []⟩ = below' :=
    congrArg₂ Outline.mk (List.append_nil _) (List.append_nil _)
  exact site.named_of_surveys hs hexports hs' habove
    (.exporting hstarts hstatement) (hnone.symm ▸ hbelow') hm' hsame
    (.both hform rfl)

end ExportSite

end ComponentRegistry
