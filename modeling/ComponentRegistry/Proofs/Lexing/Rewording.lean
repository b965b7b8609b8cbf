import ComponentRegistry.Proofs.Lexing.Dropping
import ComponentRegistry.Proofs.Rewrite.Rendering

/-! # Other words behind a word

The words behind `export`, up to the end of a statement, can be exchanged for others. The tokens in
front stay where they are: a quote or a slash that is left over there finds no partner in the words
that come, and on one line none beyond them that it had not found before. The tokens behind move
with the text.
-/

namespace ComponentRegistry

open Lexer

/-- The word `export` at a place. -/
def Token.exportAt (p : Position) : Token := ⟨.keyword .exportWord, "export", "export", p⟩

namespace Lexer

variable {p : Option Token} {e : List Enclosure} {here : Position} {more : List Char}

theorem reads_export (p : Option Token) (e : List Enclosure) (here : Position)
    (hmore : ∀ c ∈ more.head?, Lexeme.continuesName c = false) :
    Reads ⟨p, e, here, "export".toList ++ more⟩ [.exportAt here]
      ⟨some (.exportAt here), e, here.advance "export".toList, more⟩ := by
  have hword : "export".toList = 'e' :: "xport".toList := by decide
  have hapart : Apart ('e' :: "xport".toList) more := fun _ _ d hd _ => hmore d hd
  have hstep := step_nameText (c := 'e') (a := "xport".toList) (by decide) p e here hapart
  rw [hword]
  exact .step hstep (.done _)

/-- A token that is the word `export` is the word at its place. -/
theorem Reads.eq_exportAt {s m : Scan} {ts : List Token} {t : Token} (h : Reads s ts m)
    (ht : t ∈ ts) (hkind : t.kind = .keyword .exportWord) : t = .exportAt t.start := by
  have hvalue : t.value = "export" := h.value_eq ht (by rw [hkind]; rfl)
  have hconveys := h.conveys ht
  rw [hkind] at hconveys
  have hlexeme : t.lexeme.toList = t.value.toList := hconveys
  obtain ⟨kind, value, lexeme, start⟩ := t
  simp only at hkind hvalue hlexeme
  rw [String.toList_inj.1 hlexeme, hkind, hvalue]
  rfl

/-- A run up to the word `export` does not depend on what stands behind the word, as long as that
hides no end of a quotation. -/
theorem Reads.onto_export {text w back : List Char} {m : Scan} {before : List Token}
    (hfront : Reads (Scan.ofText text) before m)
    (hrest : m.rest = "export".toList ++ (w ++ back))
    (hw : Lexeme.Unseen w ∨ ∀ u ∈ before, u.isHalf = false)
    (hinert : ∀ c ∈ more, Lexeme.Inert c)
    (hmore : ∀ c ∈ (more ++ back).head?, Lexeme.continuesName c = false) :
    Reads (Scan.ofText (text.take (m.here.offset + 6) ++ (more ++ back)))
      (before ++ [.exportAt m.here])
      ⟨some (.exportAt m.here), m.enclosures, m.here.advance "export".toList, more ++ back⟩ := by
  have hword : "export".toList = 'e' :: "xport".toList := by decide
  have hjoint : Joint m.rest ("export".toList ++ (more ++ back)) := by
    rw [hrest, hword]
    exact ⟨fun _ _ => rfl, by simp⟩
  have halone : ∀ a, KeepsAlone (Scan.ofText text) before a m.rest
      ("export".toList ++ (more ++ back)) := by
    intro a us u vs b hsplit _ _ halone
    rcases hw with hw | hw
    swap
    · exact standsAlone_of_not_isHalf (hw u (by simp [hsplit])) _ _
    rw [hrest, ← List.append_assoc] at halone
    rw [← List.append_assoc]
    refine halone.exchange ((hw back).trans (Lexeme.hides_inert hinert back)) ?_
    have hlast : "export".toList.getLast? = some 't' := by decide
    rw [List.getLast?_append, hlast]
    simp
  -- The word stands behind the interpreter line, so that this stays what it is.
  obtain ⟨hplace, -, hle⟩ := hfront.place
  have hcut : m.rest = "export".toList ++ text.drop (m.here.offset + 6) := by
    rw [hrest, ← List.drop_drop, ← hplace, hrest]
    rfl
  have hlong : m.here.offset + 6 ≤ text.length := by
    have hlength := congrArg List.length (hplace.symm.trans hcut)
    simp only [List.length_drop, List.length_append] at hlength
    have : "export".toList.length = 6 := by decide
    omega
  have htake : text.take (m.here.offset + 6) = text.take m.here.offset ++ "export".toList := by
    rw [List.take_add, ← hplace, hrest]
    rfl
  obtain ⟨a, hpassed, -⟩ := hfront.passes
  have ha : a = (text.take m.here.offset).drop (interpreterLine text).length := by
    refine List.append_cancel_right (?_ : a ++ m.rest = _ ++ m.rest)
    rw [← hpassed, ← List.drop_append_of_le_length (by simp; omega), hplace,
      List.take_append_drop]
    rfl
  have hrun := hfront.onto hpassed hjoint (halone a)
  have hscan : (Scan.ofText text).onto (a ++ ("export".toList ++ (more ++ back))) =
      Scan.ofText (text.take (m.here.offset + 6) ++ (more ++ back)) := by
    rw [Scan.ofText, Scan.ofText, Scan.onto, interpreterLine_take hlong (by omega), ha,
      List.drop_append_of_le_length (by simp; omega), htake,
      List.drop_append_of_le_length (by simp; omega), List.append_assoc]
  rw [hscan] at hrun
  exact hrun.append (reads_export m.previous m.enclosures m.here hmore)

/-- Whether a slash may begin a pattern depends on the last of the words in front of it. -/
theorem Reads.regexMayFollow_eq {s m : Scan} {ts words : List Token} {w : Token}
    (h : Reads s ts m) (hbare : ts.map Token.bare = words) (hw : w ∈ words.getLast?) :
    regexMayFollow m.previous = regexMayFollow (some w) := by
  rw [← hbare, List.getLast?_map] at hw
  obtain ⟨v, hv, rfl⟩ := Option.map_eq_some_iff.1 hw
  rw [h.previous_eq, hv]
  rfl

end Lexer

variable {text more : List Char} {s : TokenStream} {before own after words : List Token}
  {t u : Token}

/-- Words behind `export`, up to the end of a statement, are exchanged for others. If that joins two
lines, no quote and no slash in front may find a partner on the other one, and a slash behind has to
mean what it did. -/
theorem tokenize_reword (hs : tokenize text = .ok s)
    (htokens : s.tokens = before ++ t :: (own ++ u :: after)) (ht : t.kind = .keyword .exportWord)
    (hown : ∀ v ∈ own ++ [u], isFlat v.kind = true ∧ v.lexeme.toList ≠ [] ∧
      ∀ c ∈ v.lexeme.toList, Lexeme.Inert c)
    (hline : t.line = u.line ∨ ∀ v ∈ before, v.isHalf = false)
    (hinert : ∀ c ∈ more, Lexeme.Inert c)
    (hmore : ∀ c ∈ more.head?, Lexeme.continuesName c = false) (hwords : Says more words)
    (hne : more ≠ []) (hapart : ∀ back, Apart more back)
    (hfollow : (∃ w ∈ words.getLast?, regexMayFollow (some w) = regexMayFollow (some u)) ∨
      ∀ v ∈ after.head?, v.kind ≠ .mark .slash ∧ v.kind ≠ .regex) :
    ∃ ts after' finish,
      tokenize (text.take t.start.offset ++ ("export".toList ++ (more ++ text.drop u.stop))) =
          .ok ⟨before ++ t :: (ts ++ after'), finish⟩ ∧ ts.map Token.bare = words ∧
        List.Forall₂ (Moved (Position.start.advance (text.take u.stop))
          ((Position.start.advance (text.take t.stop)).advance more)) after after' := by
  have hrun : ∃ q, Reads (Scan.ofText text) s.tokens ⟨q, [], s.finish, []⟩ := tokensFrom_eq_ok.1 hs
  obtain ⟨q₀, hrun⟩ := hrun
  have hcut : s.tokens = (before ++ t :: own) ++ u :: after := by simp [htokens]
  obtain ⟨m, hfront, hhere, -⟩ := (htokens ▸ hrun).cut_before
  obtain ⟨n, hall, hstop, hbehind⟩ := (hcut ▸ hrun).cut_after
  obtain ⟨hrest, hplace, -⟩ := hfront.place
  obtain ⟨hrest', hplace', -⟩ := hall.place
  rw [hhere] at hrest hplace
  rw [hstop] at hrest' hplace'
  -- The word itself, and the stretch that goes.
  have hmem : t ∈ s.tokens ∧ u ∈ s.tokens := by simp [htokens]
  have hlexemes : ∀ v ∈ s.tokens, slice text v.start.offset v.stop = v.lexeme.toList := fun v hv =>
    (tiles_of_tokenize hs).lexemes v (List.mem_append_left _ hv)
  have hword := hrun.eq_exportAt hmem.1 ht
  have hspelled : t.lexeme = "export" := congrArg Token.lexeme hword
  have hlexeme : slice text t.start.offset t.stop = "export".toList := by
    rw [hlexemes t hmem.1, hspelled]
  have hlength : t.stop = t.start.offset + 6 := by
    rw [Token.stop, hspelled]
    rfl
  obtain ⟨hle, hunseen⟩ := unseen_of_line hs htokens fun v hv => (hown v hv).2
  have hlong : u.start.offset ≤ u.stop := Nat.le_add_right _ _
  have hshort : t.start.offset ≤ t.stop := Nat.le_add_right _ _
  have hw : Lexeme.Unseen (slice text t.stop u.stop) ∨ ∀ v ∈ before, v.isHalf = false := by
    refine hline.imp_left fun hline => ?_
    rw [← slice_append_slice text hle hlong, hlexemes u hmem.2]
    exact (hunseen hline).append (Lexeme.unseen_of_inert (hown u (by simp)).2.2)
  have hnext : ∀ c ∈ (more ++ text.drop u.stop).head?, Lexeme.continuesName c = false := by
    intro c hc
    obtain ⟨d, rest, rfl⟩ := List.exists_cons_of_ne_nil hne
    exact hmore c hc
  have hmid : m.rest = "export".toList ++ (slice text t.stop u.stop ++ text.drop u.stop) := by
    rw [hrest, slice_append_drop text (hle.trans hlong), ← hlexeme, slice_append_drop text hshort]
  have hnew := hfront.onto_export hmid hw hinert hnext
  rw [hhere, ← hword, ← hlength] at hnew
  -- The new words come next, and behind them the text reads on from the same braces.
  obtain ⟨ts, q, hread, hbare⟩ := hwords (some t) m.enclosures
    (t.start.advance "export".toList) (text.drop u.stop) (hapart (text.drop u.stop))
  have hbraces : n.enclosures = m.enclosures := by
    rw [List.append_assoc, List.cons_append] at hall
    refine hfront.enclosures_eq_of_isFlat hall fun v hv => ?_
    rcases List.mem_cons.1 hv with rfl | hv
    · rw [ht]
      rfl
    · exact (hown v hv).1
  obtain ⟨after', ⟨q', e, here, rest⟩, hmove, hmoved, hend, hbrackets, -⟩ :=
    hbehind.moved ⟨q, m.enclosures, (t.start.advance "export".toList).advance more,
      text.drop u.stop⟩ hrest'.symm (by rw [hbraces]) (by
      refine hfollow.imp_left fun hfollow => ?_
      obtain ⟨w, hw, hsame⟩ := hfollow
      have hlast : n.previous = some u := by
        rw [hall.previous_eq, List.getLast?_concat]
        rfl
      exact (hread.regexMayFollow_eq hbare hw).trans (hlast ▸ hsame))
  simp only at hend hbrackets hmoved
  obtain rfl : e = [] := by simpa using hbrackets
  subst hend
  refine ⟨ts, after', here, ?_, hbare, ?_⟩
  · have hwhole := (hnew.append hread).append hmove
    rw [← take_append_slice text hshort, hlexeme, List.append_assoc, List.append_assoc,
      List.append_assoc] at hwhole
    exact tokenize_of_reads hwhole
  · have hadvance : t.start.advance "export".toList = Position.start.advance (text.take t.stop) := by
      rw [hplace, ← Position.advance_append, ← hlexeme, take_append_slice text hshort]
    rwa [hplace', hadvance] at hmoved

end ComponentRegistry
