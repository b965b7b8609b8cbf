import ComponentRegistry.Proofs.Rewrite.Exchange

/-! # Where an export stands

An export that changes behind its first word changes nothing in front of it: what is found there
goes up to the word `export`, and no further. Only a default export in front could still wait for a
name.
-/

namespace ComponentRegistry

open Lexer

/-- Where an export stands among the tokens of a text, and what is found around it. -/
structure ExportSite (s : TokenStream) (o : Outline) (e : ExportStatement)
    (front back : List ExportStatement) where
  /-- What is found in front of it. -/
  above : Outline
  /-- What is found behind it. -/
  below : Outline
  /-- The place in front of it. -/
  c : Cursor
  /-- The place behind it. -/
  n : Cursor
  /-- The tokens in front of it. -/
  passed : List Token
  place : Cursor.PlaceIn s passed c
  starts : c.startsExport = true
  reads : c.exportStatement = .ok (e, n)
  surveys_above : Cursor.Surveys 0 (.ofStream s) above 0 c
  surveys_below : ∃ d m, Cursor.Surveys 0 n below d m ∧ m.kind = .endOfInput
  exports_above : above.exports = front
  exports_below : below.exports = back
  imports : o.imports = above.imports ++ below.imports

namespace Seam

/-- The same word `export` behind a seam in both streams goes on with no statement in front of it. -/
theorem meets_inFront_export {old new : List Token} {t : Token} {c n : Cursor} {found : Outline}
    (hkind : t.kind = .keyword .exportWord) (hvalue : t.value = "export")
    (harrow : ∀ u ∈ new.head?, u.kind ≠ .mark .arrow)
    (hname : n.remaining = old.length + 2 → n.atName = true → n.current.line < t.line)
    (hcomplete : ∀ e ∈ found.exports, e.form.isDefault = true → n.remaining = old.length + 1 →
      n.previous ≠ e.form.defaultToken ∧ n.previous ≠ e.form.declarationToken ∧
        ∀ p ∈ n.previous, p.kind ≠ .mark .star) :
    (inFront (t :: old) (t :: new)).Meets c found n := by
  have hsame : (inFront (t :: old) (t :: new)).Same t t :=
    ⟨rfl, rfl, rfl, fun hk => by simp [hkind] at hk, rfl⟩
  have hdetached : (inFront (t :: old) (t :: new)).Detached := by
    refine ⟨fun k hk heq => ?_, ?_, ?_⟩
    · have heq : t.kind = k := heq
      rw [hkind] at heq
      subst heq
      revert hk
      decide
    · show t.value ≠ "with" ∧ t.value ≠ "assert" ∧ t.value ≠ "require"
      rw [hvalue]
      decide
    · intro v u rest hnew
      obtain ⟨-, rfl⟩ := List.cons.inj (hnew : t :: new = v :: u :: rest)
      exact harrow u rfl
  have hcarries : ∀ p, (inFront (t :: old) (t :: new)).Carries p := by
    intro p hends _ p' hp u hu
    obtain rfl : t = u := Option.some.inj hu
    rw [endsStatement_eq hp hsame]
    exact hends t rfl
  refine ⟨fun _ _ _ => hdetached.closes, fun e he => ⟨fun _ _ => hdetached, fun _ _ => hcarries _,
    fun hremaining hat u hu => ?_, fun hdefault _ hremaining _ => hcomplete e he hdefault hremaining⟩,
    fun hextends => absurd hextends.1 (List.cons_ne_nil _ _)⟩
  obtain rfl : t = u := Option.some.inj hu
  exact hname hremaining hat

end Seam

variable {text : List Char} {s s' : TokenStream} {o : Outline} {e : ExportStatement}
  {front back : List ExportStatement} {own new : List Token} {last : Token}

theorem exists_exportSite (hs : tokenize text = .ok s) (ho : outline text = .ok o)
    (hexports : o.exports = front ++ e :: back) : Nonempty (ExportSite s o e front back) := by
  obtain ⟨d, m, hrun, hm⟩ := exists_surveys hs ho
  obtain ⟨above, below, c, n, habove, hstarts, hreads, hbelow, hfirst, hlast, himports⟩ :=
    hrun.cut_export hexports
  obtain ⟨passed, hpassed⟩ := habove.reaches
  have hplace := (Cursor.placeIn_ofStream s).passes hpassed
  rw [List.nil_append] at hplace
  exact ⟨⟨above, below, c, n, passed, hplace, hstarts, hreads, habove, ⟨d, m, hbelow, hm⟩, hfirst,
    hlast, himports⟩⟩

namespace ExportSite

variable (site : ExportSite s o e front back)

theorem at_statement : Cursor.StatementAt site.c ⟨[], [e]⟩ site.n :=
  .exporting site.starts site.reads

theorem kind_current : site.c.kind = .keyword .exportWord := by
  have hstarts := site.starts
  rw [Cursor.startsExport, Bool.and_eq_true] at hstarts
  exact Cursor.kind_of_atWord hstarts.2

theorem atStatementStart : site.c.atStatementStart = true := by
  have hstarts := site.starts
  rw [Cursor.startsExport, Bool.and_eq_true] at hstarts
  exact hstarts.1

theorem ahead : site.c.ahead = site.c.current :: site.c.advance.ahead := by
  obtain ⟨rest, hrest⟩ := Cursor.exists_cons_of_kind (c := site.c) (by simp [site.kind_current])
  rw [Cursor.ahead_advance hrest]
  exact hrest

theorem tokens : s.tokens = site.passed ++ site.c.current :: site.c.advance.ahead := by
  rw [site.place.tokens, site.ahead]

theorem start : e.span.start = site.c.current.start := by
  have hspan := site.at_statement.span_eq (x := e.span) (by simp [Outline.spans])
  rw [hspan]

theorem before (hs : tokenize text = .ok s) : s.before e.span.start.offset = site.passed := by
  rw [site.start]
  exact (TokenStream.ordered_of_tokenize hs).before_eq site.tokens

theorem getLast?_own (t : Token) : (t :: (own ++ [last])).getLast? = some last := by
  rw [← List.cons_append, List.getLast?_concat]

/-- It ends with the last token that it is read over. -/
theorem span_eq (hpass : Cursor.Passes site.c site.n (site.c.current :: (own ++ [last]))) :
    e.span = ⟨site.c.current.start, last.stop⟩ := by
  rw [site.at_statement.span_eq (x := e.span) (by simp [Outline.spans]), Cursor.passedOffset,
    hpass.previous, getLast?_own]
  rfl

theorem within_eq (hs : tokenize text = .ok s)
    (hpass : Cursor.Passes site.c site.n (site.c.current :: (own ++ [last]))) :
    s.within e.span = site.c.current :: (own ++ [last]) := by
  have hcut : s.tokens = site.passed ++ site.c.current :: (own ++ [last]) ++ site.n.ahead := by
    rw [site.place.tokens, hpass.ahead, List.append_assoc]
  rw [site.span_eq hpass]
  exact (TokenStream.ordered_of_tokenize hs).within_eq hcut (getLast?_own _)

theorem onward_eq (hs : tokenize text = .ok s)
    (hpass : Cursor.Passes site.c site.n (site.c.current :: (own ++ [last]))) :
    s.onward e.span.stop = site.n.ahead := by
  have hcut : s.tokens = (site.passed ++ site.c.current :: own) ++ last :: site.n.ahead := by
    rw [site.place.tokens, hpass.ahead]
    simp
  rw [site.span_eq hpass]
  exact (TokenStream.ordered_of_tokenize hs).onward_eq hcut

/-- A semicolon behind it is written as one. -/
theorem value_of_semicolon (hs : tokenize text = .ok s) {t : Token} (ht : t ∈ site.n.ahead)
    (hmark : t.kind = .mark .semicolon) : t.value = ";" := by
  obtain ⟨⟨q, hreads⟩, -⟩ := reads_of_tokenize hs
  obtain ⟨own, hown⟩ := site.at_statement.passes
  refine hreads.value_eq ?_ (by rw [hmark]; rfl)
  rw [site.place.tokens, hown.ahead]
  exact List.mem_append_right _ (List.mem_append_right _ ht)

/-- The statements that are found in front of it begin there. -/
theorem start_lt (hs : tokenize text = .ok s) {x : Span} (hx : x ∈ site.above.spans) :
    x.start.offset < site.c.current.start.offset := by
  obtain ⟨hlong, hle⟩ := site.surveys_above.stop_le (TokenStream.ordered_of_tokenize hs)
    (Cursor.placeIn_ofStream s) hx site.c.current (by rw [site.ahead]; exact List.mem_cons_self)
  omega

/-- What the search finds in front of an export does not depend on what stands behind its first
word. -/
theorem surveys_inFront (hs : tokenize text = .ok s)
    (harrow : ∀ u ∈ new.head?, u.kind ≠ .mark .arrow)
    (hfresh : ∀ x ∈ front, x.form.isDefault = true → ∀ p ∈ site.passed.getLast?,
      p.kind ≠ .mark .star ∧ p ∉ x.form.defaultToken ∧ p ∉ x.form.declarationToken)
    (htokens : s'.tokens = site.passed ++ site.c.current :: new) :
    ∃ c', Cursor.Surveys 0 (.ofStream s') site.above 0 c' ∧ Cursor.PlaceIn s' site.passed c' := by
  obtain ⟨⟨q, hreads⟩, -⟩ := reads_of_tokenize hs
  have hkind : site.c.current.kind = .keyword .exportWord := site.kind_current
  have : (Seam.inFront site.c.ahead (site.c.current :: new)).AtStatement := by
    refine ⟨?_, ?_, ?_⟩
    · intro t ht
      obtain rfl : site.c.current = t :=
        Option.some.inj ((congrArg List.head? site.ahead).symm.trans ht)
      exact .inr hkind
    · intro t u rest hold
      have hnext := site.at_statement.followingKind_ne
      rwa [Cursor.followingKind, Cursor.peek,
        show site.c.ahead = t :: u :: rest from hold] at hnext
    · intro t ht
      obtain rfl : site.c.current = t := Option.some.inj ht
      simp [hkind]
  have hmem_tokens : site.c.current ∈ s.tokens := by
    rw [site.tokens]
    simp
  have hremaining : site.c.remaining = site.c.advance.ahead.length + 1 := by
    rw [Cursor.remaining, site.ahead, List.length_cons]
  refine site.surveys_above.inFront hs site.place (by simp [site.ahead]) htokens
    fun {c₁ found n₁} hreach hat hend hmem => ?_
  rw [site.ahead]
  refine Seam.meets_inFront_export hkind (hreads.value_eq hmem_tokens (by rw [hkind]; rfl)) harrow
    (fun hlength hname => ?_) fun x hx hdefault hlength => ?_
  · exact Cursor.line_lt_of_atStatementStart hend (by omega) hname site.atStatementStart
  · obtain rfl : site.c = n₁ := hend.eq_of_remaining (.refl n₁) (by omega)
    obtain ⟨own, hown⟩ := hat.passes
    obtain ⟨p, hp⟩ : ∃ p, site.c.previous = some p := by
      rw [hown.previous, List.getLast?_eq_some_getLast (List.cons_ne_nil _ _)]
      exact ⟨_, rfl⟩
    have hx := hmem x hx
    rw [site.exports_above] at hx
    obtain ⟨hstar, hnone, hword⟩ := hfresh x hx hdefault p (site.place.previous ▸ hp)
    rw [hp]
    refine ⟨fun heq => hnone heq.symm, fun heq => hword heq.symm, fun q hq => ?_⟩
    obtain rfl : p = q := Option.some.inj hq
    exact hstar

/-- An export may begin at the same word behind the same tokens. -/
theorem startsExport {c' : Cursor} (hplace : Cursor.PlaceIn s' site.passed c')
    (hahead : c'.ahead = site.c.current :: new) : c'.startsExport = true := by
  have hcurrent : c'.current = site.c.current := Cursor.current_eq_of_cons hahead
  rw [Cursor.startsExport, Bool.and_eq_true]
  refine ⟨Cursor.atStatementStart_of_line site.atStatementStart
    (hplace.previous.trans site.place.previous.symm) (by rw [hcurrent]), ?_⟩
  rw [Cursor.atWord, Cursor.kind, hcurrent]
  exact beq_iff_eq.2 site.kind_current

/-- What is found in front of the first default export is found again, and an export may begin where
that one did. -/
theorem exists_startsExport (hs : tokenize text = .ok s)
    (hfront : ∀ x ∈ front, x.form.isDefault = false)
    (harrow : ∀ u ∈ new.head?, u.kind ≠ .mark .arrow)
    (htokens : s'.tokens = site.passed ++ site.c.current :: new) :
    ∃ c', Cursor.Surveys 0 (.ofStream s') site.above 0 c' ∧ Cursor.PlaceIn s' site.passed c' ∧
      c'.ahead = site.c.current :: new ∧ c'.startsExport = true := by
  obtain ⟨c', habove, hplace⟩ := site.surveys_inFront hs harrow
    (fun x hx hdefault => by simp [hfront x hx] at hdefault) htokens
  have hahead : c'.ahead = site.c.current :: new :=
    (List.append_cancel_left (htokens.symm.trans hplace.tokens)).symm
  exact ⟨c', habove, hplace, hahead, site.startsExport hplace hahead⟩

end ExportSite

end ComponentRegistry
