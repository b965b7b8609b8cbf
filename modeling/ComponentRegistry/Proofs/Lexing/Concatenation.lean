import ComponentRegistry.Proofs.Lexing.Moving

/-! # Tokens of texts put together

Two texts on lines of their own have the tokens of the one and then those of the other, further down.
A backslash at the end of the first would carry a quote that is not closed on to the next line, and
an interpreter line is one at the very beginning only.
-/

namespace ComponentRegistry

namespace Position

/-- The same place in a text that has another text in front. -/
def shift (front : List Char) (p : Position) : Position :=
  ⟨p.offset + front.length, p.line + front.count '\n', p.column⟩

theorem shift_nil (p : Position) : p.shift [] = p := rfl

theorem advance_shift (front passed : List Char) (p : Position) :
    (p.shift front).advance passed = (p.advance passed).shift front := by
  induction passed generalizing p with
  | nil => rfl
  | cons c passed ih =>
    have hafter : (p.shift front).after c = (p.after c).shift front := by
      unfold after
      split <;> simp only [shift, mk.injEq, and_true] <;> omega
    rw [advance_cons, advance_cons, hafter, ih]

theorem line_advance (p : Position) (passed : List Char) :
    (p.advance passed).line = p.line + passed.count '\n' := by
  induction passed generalizing p with
  | nil => rfl
  | cons c passed ih =>
    rw [advance_cons, ih, List.count_cons]
    unfold after
    split
    · next hc =>
      subst hc
      simp only [beq_self_eq_true, ↓reduceIte]
      omega
    · next hc =>
      simp [hc]

/-- A text begins on a new line after a line feed. -/
theorem start_advance_newline (text : List Char) :
    start.advance (text ++ ['\n']) = start.shift (text ++ ['\n']) := by
  have hoffset := offset_advance start (text ++ ['\n'])
  have hline := line_advance start (text ++ ['\n'])
  have hcolumn : (start.advance (text ++ ['\n'])).column = 1 := by
    rw [advance_append]
    rfl
  rw [shift, ← hoffset, ← hline, start]
  exact congrArg (mk _ _) hcolumn

end Position

namespace Token

/-- The same token in a text that has another text in front. -/
def shift (front : List Char) (t : Token) : Token := { t with start := t.start.shift front }

theorem shift_nil (t : Token) : t.shift [] = t := rfl

/-- Whether a token is a quote that no other quote closes. -/
def isLoneQuote (t : Token) : Bool :=
  t.kind == .operator && (t.lexeme == String.ofList ['"'] || t.lexeme == String.ofList ['\x27'])

end Token

namespace TokenStream

/-- The same tokens in a text that has another text in front. -/
def shift (front : List Char) (s : TokenStream) : TokenStream :=
  ⟨s.tokens.map (Token.shift front), s.finish.shift front⟩

end TokenStream

namespace Lexer

theorem moved_shift {front : List Char} {p : Position} {t t' : Token}
    (h : Moved p (p.shift front) t t') : t' = t.shift front := by
  obtain ⟨passed, hstart, rfl⟩ := h
  rw [Token.shift, hstart, Position.advance_shift]

theorem map_shift_of_moved {front : List Char} {p : Position} {ts ts' : List Token}
    (h : List.Forall₂ (Moved p (p.shift front)) ts ts') : ts' = ts.map (Token.shift front) := by
  have hmap : List.Forall₂ Eq (ts.map (Token.shift front)) ts' :=
    List.forall₂_map_left_iff.2 (h.imp fun _ _ hmoved => (moved_shift hmoved).symm)
  rw [List.forall₂_eq_eq_eq] at hmap
  exact hmap.symm

/-- The interpreter line is at the beginning. -/
theorem append_of_interpreterLine (text : List Char) :
    interpreterLine text ++ text.drop (interpreterLine text).length = text := by
  unfold interpreterLine
  split
  · rw [← List.prefix_iff_eq_append]
    exact List.takeWhile_prefix _
  · rfl

theorem interpreterLine_append (text more : List Char) :
    interpreterLine (text ++ '\n' :: more) = interpreterLine text := by
  have hline : (text ++ '\n' :: more).takeWhile Lexeme.staysOnLine =
      text.takeWhile Lexeme.staysOnLine := by
    rw [List.takeWhile_append]
    split
    · next hall =>
      have hsame := (List.takeWhile_prefix Lexeme.staysOnLine (l := text)).eq_of_length hall
      simp [hsame, Lexeme.staysOnLine]
    · rfl
  unfold interpreterLine
  match text, hline with
  | [], _ => rfl
  | [c], _ =>
    split
    · next heq => simp at heq
    · split
      · next heq => simp at heq
      · rfl
  | c :: d :: rest, hline =>
    by_cases hc : c = '#' ∧ d = '!'
    · obtain ⟨rfl, rfl⟩ := hc
      exact hline
    · split
      · next heq =>
        obtain ⟨rfl, rfl, -⟩ : c = '#' ∧ d = '!' ∧ _ := by simpa using heq
        exact absurd ⟨rfl, rfl⟩ hc
      · split
        · next heq =>
          obtain ⟨rfl, rfl, -⟩ : c = '#' ∧ d = '!' ∧ _ := by simpa using heq
          exact absurd ⟨rfl, rfl⟩ hc
        · rfl

theorem interpreterLine_eq_nil {text : List Char} (h : ¬ ['#', '!'] <+: text) :
    interpreterLine text = [] := by
  unfold interpreterLine
  split
  · next rest => exact absurd ⟨rest, rfl⟩ h
  · rfl

/-- A run through a whole text. -/
theorem reads_of_tokenize {text : List Char} {s : TokenStream} (h : tokenize text = .ok s) :
    (∃ q, Reads ⟨none, [], Position.start.advance (interpreterLine text),
      text.drop (interpreterLine text).length⟩ s.tokens ⟨q, [], s.finish, []⟩) ∧
      s.finish = Position.start.advance text := by
  obtain ⟨q, hrun⟩ := tokensFrom_eq_ok.1 h
  obtain ⟨passed, hrest, hfinish⟩ := hrun.passes
  refine ⟨⟨q, hrun⟩, ?_⟩
  simp only [List.append_nil] at hrest
  simp only at hfinish
  rw [hfinish, ← Position.advance_append, ← hrest, append_of_interpreterLine]

/-- The tokens of a run lie on the lines between its ends. -/
theorem Reads.line_le {s t : Scan} {ts : List Token} (h : Reads s ts t) :
    ∀ u ∈ ts, s.here.line ≤ u.line ∧ u.line ≤ t.here.line := by
  induction h with
  | done => simp
  | @step p e h c after st ts t first others ih =>
    have hle : h.line ≤ (st.next p h).here.line := by
      simp only [Step.next, Position.line_advance]
      omega
    obtain ⟨passed, -, hend⟩ := others.passes
    intro u hu
    rcases List.mem_append.1 hu with hu | hu
    · have hstart := (Step.stop_token first (Option.mem_toList.1 hu)).1
      rw [Token.line, hstart, hend, Position.line_advance]
      exact ⟨Nat.le_refl _, by omega⟩
    · have := ih u hu
      exact ⟨by simp only at *; omega, this.2⟩

/-- The end of a text and the end of a line look the same from the lexeme before them. -/
theorem joint_newline (more : List Char) : Joint [] ('\n' :: more) where
  head P hP := by
    have hnot : P '\n' = false := by
      revert P
      decide
    simp [hnot]
  dots := by simp

theorem keepsAlone_newline {s : Scan} {ts : List Token} {a : List Char} (more : List Char)
    (hlast : a.getLast? = some '\\' → ∀ t ∈ ts, t.isLoneQuote = false) :
    KeepsAlone s ts a [] ('\n' :: more) := by
  intro us t vs b hts hsuffix _ halone
  simp only [List.append_nil] at halone
  refine ⟨fun hkind q hq hlexeme => ?_,
    fun hkind hfollow => Lexeme.regexBody_newline (halone.slash hkind hfollow) _⟩
  have hlone : t.isLoneQuote = true := by
    rcases hq with rfl | rfl <;> simp [Token.isLoneQuote, hkind, hlexeme]
  have hb : b.getLast? ≠ some '\\' := by
    intro heq
    obtain ⟨front, rfl⟩ := hsuffix
    have hnot := hlast (by rw [List.getLast?_append, heq]; rfl) t (by simp [hts])
    simp [hlone] at hnot
  exact Lexeme.quotedBody_newline (halone.quote hkind q hq hlexeme) hb _

end Lexer

/-- The tokens of two texts on lines of their own. -/
theorem tokenize_append {front back : List Char} {s s' : TokenStream}
    (hs : tokenize front = .ok s) (hs' : tokenize back = .ok s')
    (hlast : front.getLast? = some '\\' → ∀ t ∈ s.tokens, t.isLoneQuote = false)
    (hinterpreter : ¬ ['#', '!'] <+: back)
    (hfirst : ∀ t ∈ s'.tokens.head?, t.kind ≠ .mark .slash ∧ t.kind ≠ .regex) :
    tokenize (front ++ '\n' :: back) =
      .ok ⟨s.tokens ++ (s'.shift (front ++ ['\n'])).tokens, (s'.shift (front ++ ['\n'])).finish⟩ := by
  obtain ⟨⟨q, hrun⟩, hfinish⟩ := Lexer.reads_of_tokenize hs
  obtain ⟨⟨q', hrun'⟩, hfinish'⟩ := Lexer.reads_of_tokenize hs'
  rw [Lexer.interpreterLine_eq_nil hinterpreter] at hrun'
  have hcut := Lexer.append_of_interpreterLine front
  have hdrop : (front.drop (Lexer.interpreterLine front).length).getLast? = some '\\' →
      ∀ t ∈ s.tokens, t.isLoneQuote = false := by
    intro heq
    refine hlast ?_
    rw [← hcut, List.getLast?_append, heq]
    rfl
  -- The first text reads as it does alone, and the line feed is passed over.
  have hfront := hrun.onto (a := front.drop (Lexer.interpreterLine front).length)
    (by simp) (Lexer.joint_newline back)
    (Lexer.keepsAlone_newline back hdrop)
  have hnewline : Lexer.Reads ⟨q, [], s.finish, '\n' :: back⟩ []
      ⟨q, [], s.finish.advance ['\n'], back⟩ := by
    have hstep : Lexer.step q [] s.finish '\n' back = .ok (Lexer.skipped ['\n'] back []) := rfl
    exact .step hstep (.done _)
  have hhere : s.finish.advance ['\n'] = Position.start.shift (front ++ ['\n']) := by
    rw [hfinish, ← Position.advance_append, Position.start_advance_newline]
  -- The second text reads as it does alone, further down.
  obtain ⟨ts, ⟨q'', e, here, rest⟩, hback, hmoved, hrest, hbrackets, passed, hend, hend'⟩ :=
    hrun'.moved ⟨q, [], s.finish.advance ['\n'], back⟩ rfl rfl (.inr hfirst)
  simp only at hmoved hrest hbrackets hend hend'
  obtain rfl : e = [] := by simpa using hbrackets
  subst hrest
  have hts : ts = (s'.shift (front ++ ['\n'])).tokens :=
    Lexer.map_shift_of_moved (hhere ▸ hmoved)
  have hherefinish : here = (s'.shift (front ++ ['\n'])).finish := by
    rw [hend', hhere, Position.advance_shift, TokenStream.shift, hend]
    rfl
  subst hts hherefinish
  have hle : (Lexer.interpreterLine front).length ≤ front.length := by
    have hlength := congrArg List.length hcut
    rw [List.length_append] at hlength
    omega
  unfold tokenize
  simp only
  rw [Lexer.interpreterLine_append, List.drop_append_of_le_length hle]
  refine Lexer.tokensFrom_eq_ok.2 ⟨q'', ?_⟩
  exact hfront.append (hnewline.append hback)

end ComponentRegistry
