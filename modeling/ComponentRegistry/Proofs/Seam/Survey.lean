import ComponentRegistry.Proofs.Seam.Export
import ComponentRegistry.Proofs.Syntax.Survey

/-! # The search for statements in front of a seam

What the search finds up to the seam of one stream it finds up to the seam of the other, when every
statement on its way is settled there.
-/

namespace ComponentRegistry

namespace Cursor

/-- No arrow follows the first word of a statement. -/
theorem StatementAt.followingKind_ne {c n : Cursor} {found : Outline} (h : StatementAt c found n) :
    c.followingKind ≠ .mark .arrow := by
  intro harrow
  have hkind : c.advance.kind = .mark .arrow := (followingKind_eq c).symm.trans harrow
  cases h with
  | importing _ reads =>
    obtain ⟨⟨start, c₁⟩, hstart, reads⟩ := bind_eq_ok.1 reads
    obtain rfl : c₁ = c.advance := by
      unfold expect at hstart
      split at hstart <;> cases hstart
      rfl
    simp [typeModifiesImport, atWord, advanceIf, atString, atName, hkind, TokenKind.isName,
      importFrom, importBindings, atMark, bind, Except.bind] at reads
  | exporting _ reads =>
    obtain ⟨-, m, hform, -⟩ := exportStatement_eq_ok.1 reads
    have hmodifiers : c.advance.modifiers = (⟨false, none⟩, c.advance) := by
      rw [modifiers, modifiersFrom]
      simp [atWord, asyncModifiesFunction, hkind]
    simp [exportForm, atWord, atMark, hkind, exportDeclaration, hmodifiers, declared,
      atEnumeration, variableKind?, erasedKind?, atNamespace] at hform

end Cursor

namespace Seam

variable {S : Seam} {c c' n m : Cursor} {d d' : Nat} {o found : Outline}

/-- The same statements, found in both streams. -/
structure SameOutline (S : Seam) (o o' : Outline) : Prop where
  imports : List.Forall₂ S.SameImport o.imports o'.imports
  exports : List.Forall₂ S.SameExport o.exports o'.exports

theorem SameOutline.nil : S.SameOutline ⟨[], []⟩ ⟨[], []⟩ := ⟨.nil, .nil⟩

theorem SameOutline.append {a a' b b' : Outline} (ha : S.SameOutline a a')
    (hb : S.SameOutline b b') : S.SameOutline (a ++ b) (a' ++ b') :=
  ⟨List.rel_append ha.imports hb.imports, List.rel_append ha.exports hb.exports⟩

/-- What a statement asks of a seam after it. -/
structure Meets (S : Seam) (c : Cursor) (found : Outline) (n : Cursor) : Prop where
  closes : found.exports = [] → n.afterSemicolon = false → n.remaining ≤ S.old.length + 1 →
    S.Closes
  concluded : ∀ s ∈ found.exports, S.Concluded s n
  closed : S.Extends → found.exports ≠ [] → ¬ c.advance.LeavesTypeOpen

/-- The end of a text goes on with nothing. -/
theorem detached_of_nil (hnew : S.new = []) : S.Detached := by
  refine ⟨?_, ?_, by simp [hnew]⟩
  · rw [nextKind, hnew]
    decide
  · rw [nextValue, hnew]
    decide

/-- Where both streams end, nothing is asked of statements. -/
theorem meets_of_nil (hold : S.old = []) (hnew : S.new = []) : S.Meets c found n := by
  have hdetached : S.Detached := detached_of_nil hnew
  have hconcluded : ∀ s ∈ found.exports, S.Concluded s n := by
    intro s _
    refine ⟨fun _ _ => hdetached, fun _ _ _ _ _ _ => ?_, fun _ _ => ?_, fun _ _ _ hne => ?_⟩
    · simp [hnew]
    · simp [hold]
    · exact absurd hnew hne
  exact ⟨fun _ _ _ => hdetached.closes, hconcluded, fun hextends => absurd hnew hextends.2⟩

theorem Matches.atStatementStart_eq (h : S.Matches c c') (hinside : S.old.length < c.remaining) :
    c'.atStatementStart = c.atStatementStart := by
  have hprevious := h.previous
  have hcurrent := h.same hinside
  unfold Cursor.atStatementStart
  generalize c.previous = p, c'.previous = p' at hprevious
  cases hprevious with
  | none => rfl
  | some hsame => simp only [hsame.kind, hsame.line_lt hcurrent]

theorem remaining_of_importStatement {s : Option ImportStatement}
    (hok : c.importStatement = .ok (s, n)) : n.remaining + 2 ≤ c.remaining := by
  obtain ⟨⟨start, c₁⟩, hstart, hok⟩ := bind_eq_ok.1 hok
  have hlt := Cursor.remaining_lt_of_expect (by simp) hstart
  have hle := Cursor.remaining_advanceIf_le c₁.typeModifiesImport c₁
  simp only at hok
  split at hok
  · obtain ⟨⟨statement, c₂⟩, hstatement, hok⟩ := bind_eq_ok.1 hok
    cases hok
    have := Cursor.remaining_lt_of_importSource hstatement
    simp only at *
    omega
  split at hok
  · have := remaining_of_importDefault hok
    omega
  · obtain ⟨⟨statement, c₂⟩, hstatement, hok⟩ := bind_eq_ok.1 hok
    cases hok
    have := (remaining_of_importFrom hstatement).1
    simp only at *
    omega

/-- A statement in front of the seam is found in both streams. What is before it does not matter,
as long as it may begin there. -/
theorem Tied.statementAt [S.AtStatement] (h : S.Tied c.ahead c'.ahead)
    (hfirst : Cursor.StatementAt c found n)
    (hstart : c'.startsImport = c.startsImport ∧ c'.startsExport = c.startsExport)
    (hle : S.old.length ≤ n.remaining) (hmeets : S.Meets c found n) (hbalanced : S.Balanced c) :
    ∃ found' n', Cursor.StatementAt c' found' n' ∧ S.SameOutline found found' ∧
      S.Matches n n' := by
  cases hfirst with
  | importing starts reads =>
    obtain ⟨s', n', reads', hs, hn⟩ := h.importStatement reads hle (hmeets.closes rfl)
    refine ⟨_, n', .importing (hstart.1.trans starts) reads', ⟨?_, .nil⟩, hn⟩
    cases hs with
    | none => exact .nil
    | some hsame => exact .cons hsame .nil
  | exporting starts reads =>
    obtain ⟨s', n', reads', hs, hn⟩ := h.exportStatement reads hle
      (hmeets.concluded _ List.mem_cons_self) hbalanced fun hextends =>
        hmeets.closed hextends (List.cons_ne_nil _ _)
    exact ⟨_, n', .exporting (hstart.2.trans starts) reads', ⟨.nil, .cons hs .nil⟩, hn⟩

/-- A statement is more than its first word. -/
theorem remaining_of_statementAt (hfirst : Cursor.StatementAt c found n) :
    n.remaining + 2 ≤ c.remaining := by
  cases hfirst with
  | importing _ reads => exact remaining_of_importStatement reads
  | @exporting e _ _ reads =>
    obtain ⟨hkind, m, hform, hending, -⟩ := Cursor.exportStatement_eq_ok.1 reads
    have := Cursor.remaining_advance_lt (c := c) (by simp [hkind])
    have := (remaining_of_exportForm hform).1
    have hle := Cursor.remaining_exportEnding_le e.form m
    rw [hending] at hle
    simp only at hle
    omega

/-- The first words of a statement in front of a seam begin one in both streams, where it may
begin. -/
theorem Tied.startsStatement_eq (h : S.Tied c.ahead c'.ahead)
    (hinside : S.old.length + 1 < c.remaining)
    (hstart : c'.atStatementStart = c.atStatementStart) :
    c'.startsImport = c.startsImport ∧ c'.startsExport = c.startsExport := by
  obtain ⟨hcurrent, hnext⟩ := h.inside (by omega)
  have hadvance := Cursor.remaining_advance c
  have hkind : ∀ w, c'.atWord w = c.atWord w := fun w => by
    rw [Cursor.atWord, Cursor.atWord, Cursor.kind, Cursor.kind, hcurrent.kind]
  have hfollowing : c'.followingKind = c.followingKind := by
    rw [Cursor.followingKind, Cursor.followingKind, Cursor.peek_succ, Cursor.peek_succ]
    exact hnext.kind_eq (by omega)
  constructor
  · rw [Cursor.startsImport, Cursor.startsImport, hstart, hkind, hfollowing]
  · rw [Cursor.startsExport, Cursor.startsExport, hstart, hkind]

/-- Where no statement begins in front of the seam, none begins in the other stream. -/
theorem Tied.not_startsStatement [S.AtStatement] (h : S.Tied c.ahead c'.ahead)
    (hinside : S.old.length < c.remaining) (hstart : c'.atStatementStart = c.atStatementStart)
    (hnot : ¬ c.startsStatement = true) : ¬ c'.startsStatement = true := by
  rcases Nat.lt_or_eq_of_le (Nat.succ_le_of_lt hinside) with hlt | hlast
  · obtain ⟨himport, hexport⟩ := h.startsStatement_eq hlt hstart
    rwa [Cursor.startsStatement, himport, hexport]
  · -- What follows the last word is no bracket and no dot, so the word is not at a start.
    have hadvance := Cursor.remaining_advance c
    obtain ⟨hcurrent, hnext⟩ := h.inside hinside
    have hword : ∀ w, c'.atWord w = c.atWord w := fun w => by
      rw [Cursor.atWord, Cursor.atWord, Cursor.kind, Cursor.kind, hcurrent.kind]
    have hparen := hnext.kind_ne_of_outside (by omega)
      (by decide : TokenKind.mark .openParen ∈ continuations)
    have hdot := hnext.kind_ne_of_outside (by omega)
      (by decide : TokenKind.mark .dot ∈ continuations)
    have hkind : c.followingKind = c.advance.kind := by
      rw [Cursor.followingKind, Cursor.peek_succ]
      rfl
    simp only [Cursor.startsStatement, Cursor.startsImport, Cursor.startsExport, hkind,
      bne_iff_ne.2 hparen, bne_iff_ne.2 hdot, Bool.and_true] at hnot
    intro hstarts
    refine hnot ?_
    simp only [Cursor.startsStatement, Cursor.startsImport, Cursor.startsExport, hstart,
      hword, Bool.or_eq_true, Bool.and_eq_true] at hstarts ⊢
    rcases hstarts with himport | hexport
    · exact .inl himport.1.1
    · exact .inr hexport

/-- A run of the search that stays in front of the seam leads through both streams. -/
theorem Matches.surveys [S.AtStatement] (h : S.Matches c c') (hrun : Cursor.Surveys d c o d' m)
    (hle : S.old.length ≤ m.remaining) (hbalanced : S.Balanced c)
    (hmeets : ∀ {c₁ found n}, Cursor.Reaches c c₁ → Cursor.StatementAt c₁ found n →
      Cursor.Reaches n m → (∀ s ∈ found.exports, s ∈ o.exports) → S.Meets c₁ found n) :
    ∃ o' m', Cursor.Surveys d c' o' d' m' ∧ S.SameOutline o o' ∧ S.Matches m m' := by
  induction hrun generalizing c' with
  | done d c => exact ⟨_, c', .done d c', .nil, h⟩
  | @statement c n m found o d first others ih =>
    have hle₁ := others.reaches.remaining_le
    have hinside := remaining_of_statementAt first
    obtain ⟨found', n', first', hfound, hn⟩ := h.ahead.statementAt first
      (h.ahead.startsStatement_eq (by omega) (h.atStatementStart_eq (by omega))) (by omega)
      (hmeets (.refl c) first others.reaches fun s hs => List.mem_append_left _ hs) hbalanced
    obtain ⟨o', m', others', ho, hm⟩ := ih hn hle (hbalanced.reaches first.reaches)
      fun hreach hat hend hmem => hmeets (first.reaches.trans hreach) hat hend fun s hs =>
        List.mem_append_right _ (hmem s hs)
    exact ⟨_, m', .statement first' others', hfound.append ho, hm⟩
  | @pass d d' c m o more nothing others ih =>
    have hle₁ := others.reaches.remaining_le
    have hlt := Cursor.remaining_advance_lt more
    have hinside : S.old.length < c.remaining := by omega
    obtain ⟨o', m', others', ho, hm⟩ := ih (h.advance hinside) hle
      (hbalanced.reaches (Cursor.reaches_advance c))
      fun hreach hat hend hmem => hmeets ((Cursor.reaches_advance c).trans hreach) hat hend hmem
    refine ⟨o', m', .pass ?_ ?_ ?_, ho, hm⟩
    · rwa [h.kind_eq hinside]
    · rintro ⟨rfl, hstart⟩
      exact h.ahead.not_startsStatement hinside (h.atStatementStart_eq hinside)
        (fun hstart => nothing ⟨rfl, hstart⟩) hstart
    · rwa [depthAfter_eq (h.same hinside)]

/-- The search finds the same from two places with the same tokens ahead, whatever is before them, as
long as a statement may begin at both or at none. -/
theorem Tied.surveys [S.AtStatement] (h : S.Tied c.ahead c'.ahead)
    (hstart : c.kind ≠ .endOfInput → c'.atStatementStart = c.atStatementStart)
    (hrun : Cursor.Surveys d c o d' m) (hle : S.old.length ≤ m.remaining)
    (hbalanced : S.Balanced c)
    (hmeets : ∀ {c₁ found n}, Cursor.Reaches c c₁ → Cursor.StatementAt c₁ found n →
      Cursor.Reaches n m → (∀ s ∈ found.exports, s ∈ o.exports) → S.Meets c₁ found n) :
    ∃ o' m', Cursor.Surveys d c' o' d' m' ∧ S.SameOutline o o' ∧ S.Tied m.ahead m'.ahead := by
  cases hrun with
  | done => exact ⟨_, c', .done d c', .nil, h⟩
  | statement first others =>
    have hle₁ := others.reaches.remaining_le
    have hinside := remaining_of_statementAt first
    have hword : c.kind ≠ .endOfInput := by
      rcases first.kind_ne with hk | hk <;> simp [hk]
    obtain ⟨found', n', first', hfound, hn⟩ := h.statementAt first
      (h.startsStatement_eq (by omega) (hstart hword)) (by omega)
      (hmeets (.refl c) first others.reaches fun s hs => List.mem_append_left _ hs) hbalanced
    obtain ⟨o', m', others', ho, hm⟩ := hn.surveys others hle (hbalanced.reaches first.reaches)
      fun hreach hat hend hmem => hmeets (first.reaches.trans hreach) hat hend fun s hs =>
        List.mem_append_right _ (hmem s hs)
    exact ⟨_, m', .statement first' others', hfound.append ho, hm.ahead⟩
  | pass more nothing others =>
    have hle₁ := others.reaches.remaining_le
    have hlt := Cursor.remaining_advance_lt more
    have hinside : S.old.length < c.remaining := by omega
    obtain ⟨hcurrent, hnext⟩ := h.inside hinside
    obtain ⟨o', m', others', ho, hm⟩ := hnext.surveys others hle
      (hbalanced.reaches (Cursor.reaches_advance c))
      fun hreach hat hend hmem => hmeets ((Cursor.reaches_advance c).trans hreach) hat hend hmem
    refine ⟨o', m', .pass ?_ ?_ ?_, ho, hm.ahead⟩
    · rwa [Cursor.kind, hcurrent.kind]
    · rintro ⟨rfl, hstarts⟩
      exact h.not_startsStatement hinside (hstart more) (fun hstart => nothing ⟨rfl, hstart⟩) hstarts
    · rwa [depthAfter_eq hcurrent]

end Seam

end ComponentRegistry
