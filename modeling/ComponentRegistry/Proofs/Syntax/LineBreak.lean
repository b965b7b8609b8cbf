import ComponentRegistry.Proofs.Lexing.Places
import ComponentRegistry.Proofs.Seam.Export
import ComponentRegistry.Proofs.Syntax.TopLevel

/-! # What ends a line

A token knows the line on which it begins and no other. Strings and templates may go on over several
lines, so that the token after one stands on a later line than the one on which it begins, also
where the two are next to each other. The rules on line breaks cannot tell that from a line break
between them, and nothing else misleads them.
-/

namespace ComponentRegistry

/-- A token that goes on over a line break. -/
def Token.SpansLines (t : Token) : Prop := '\n' ∈ t.lexeme.toList

instance (t : Token) : Decidable t.SpansLines := inferInstanceAs (Decidable (_ ∈ _))

/-- A line break between two tokens. -/
def LineBetween (text : List Char) (p t : Token) : Prop :=
  '\n' ∈ Lexer.slice text p.stop t.start.offset

instance (text : List Char) (p t : Token) : Decidable (LineBetween text p t) :=
  inferInstanceAs (Decidable (_ ∈ _))

/-- What the rules take for a line break between two tokens. -/
def BreaksLine (text : List Char) (p t : Token) : Prop := LineBetween text p t ∨ p.SpansLines

namespace Lexeme

theorem not_mem_of_regexBody {inClass : Bool} {text body rest : List Char}
    (h : regexBody inClass text = some (body, rest)) : '\n' ∉ body := by
  fun_induction regexBody inClass text generalizing body with
  | case1 => cases h
  | case2 => cases h
  | case3 => cases h
  | case4 => cases h
  | case5 inClass c text line ih =>
    obtain ⟨⟨inside, after⟩, hinside, same⟩ := Option.map_eq_some_iff.1 h
    cases same
    simp [ih hinside, Ne.symm line]
  | case6 =>
    cases h
    simp
  | case7 inClass c text line _ _ _ _ ih =>
    obtain ⟨⟨inside, after⟩, hinside, same⟩ := Option.map_eq_some_iff.1 h
    cases same
    simp [ih hinside, Ne.symm line]

theorem not_mem_takeWhile {P : Char → Bool} (hP : ∀ c, P c = true → isSpace c = false)
    (text : List Char) : '\n' ∉ text.takeWhile P := by
  intro mem
  have solid := hP _ (List.all_eq_true.1 List.all_takeWhile _ mem)
  cases solid

end Lexeme

namespace Lexer

/-- Only strings and templates are read over a line break. -/
theorem kind_of_mem_lexeme {p : Option Token} {e : List Enclosure} {h : Position} {c : Char}
    {after : List Char} {s : Step} {kind : TokenKind} {value : List Char}
    (hstep : step p e h c after = .ok s) (hfound : s.found = some (kind, value))
    (hline : '\n' ∈ s.lexeme) : kind = .string ∨ kind = .template := by
  have hc : '\n' ≠ c := by
    rintro rfl
    rw [step_eq, if_pos (by decide)] at hstep
    cases hstep
    cases hfound
  cases takes_step hstep with
  | blank | lineComment | blockComment => cases hfound
  | quote =>
    unfold quoteStep at hfound hline
    split at hfound <;> cases hfound
    · exact .inl rfl
    · next hbody =>
      rw [hbody] at hline
      exact absurd (List.mem_singleton.1 hline) hc
  | template read | resume read =>
    unfold templateStep at read
    split at read <;> cases read
    cases hfound
    exact .inr rfl
  | slash =>
    unfold slashStep at hline
    split at hline
    · next body rest hbody =>
      split at hbody
      · have flags := Lexeme.not_mem_takeWhile (fun _ => Lexeme.not_isSpace_of_isAlphanumeric) rest
        simp [verbatim, flags, Lexeme.not_mem_of_regexBody hbody] at hline
      · cases hbody
    · simp [verbatim] at hline
  | number =>
    have more := Lexeme.not_mem_takeWhile (fun _ => Lexeme.not_isSpace_of_continuesNumeral) after
    simp [verbatim, hc, more] at hline
  | name =>
    have more := Lexeme.not_mem_takeWhile (fun _ => Lexeme.not_isSpace_of_continuesName) after
    simp [nameStep, verbatim, hc, more] at hline
  | single =>
    unfold singleStep at hline
    split at hline <;> exact absurd (List.mem_singleton.1 hline) hc
  | openBrace | closeBrace | arrow | equals | ellipsis | dot => simp [verbatim] at hline

variable {text : List Char} {s : TokenStream} {p t : Token}

theorem kind_of_spansLines (hs : tokenize text = .ok s) (ht : t ∈ s.tokens) (h : t.SpansLines) :
    t.kind = .string ∨ t.kind = .template := by
  obtain ⟨⟨q, reads⟩, -⟩ := reads_of_tokenize hs
  obtain ⟨m, c, after, st, kind, value, hstep, hfound, rfl⟩ := reads.exists_step ht
  exact kind_of_mem_lexeme hstep hfound (by simpa [Token.SpansLines] using h)

theorem exact_of_tokenize (hs : tokenize text = .ok s) (ht : t ∈ s.toList) :
    t.start.Exact text := by
  obtain ⟨⟨q, reads⟩, -⟩ := reads_of_tokenize hs
  have run : Reads (Scan.ofText text) s.tokens ⟨q, [], s.finish, []⟩ := reads
  rcases List.mem_append.1 ht with ht | ht
  · exact (run.start_exact ht).1
  · obtain rfl := List.mem_singleton.1 ht
    exact run.exact

/-- From one token to the next, the line rises by the line feeds in the first one and behind it. -/
theorem line_eq (hs : tokenize text = .ok s) (h : [p, t] <:+: s.toList) :
    t.line = p.line + p.lexeme.toList.count '\n' +
      (slice text p.stop t.start.offset).count '\n' := by
  have hp : p ∈ s.toList := h.subset List.mem_cons_self
  have ht : t ∈ s.toList := h.subset (List.mem_cons_of_mem _ List.mem_cons_self)
  have tiles := tiles_of_tokenize hs
  have le : p.start.offset ≤ p.stop := Nat.le_add_right _ _
  have pair := List.IsChain.infix tiles.apart h
  obtain ⟨-, gap⟩ := List.isChain_pair.1 pair
  have whole : text.take t.start.offset = text.take p.start.offset ++ p.lexeme.toList ++
      slice text p.stop t.start.offset := by
    rw [← tiles.lexemes p hp, take_append_slice text le, take_append_slice text gap.le]
  rw [Token.line, (exact_of_tokenize hs ht).line, whole, List.count_append, List.count_append,
    ← Nat.add_assoc, ← Nat.add_assoc, ← (exact_of_tokenize hs hp).line, Token.line]

theorem line_lt_iff (hs : tokenize text = .ok s) (h : [p, t] <:+: s.toList) :
    p.line < t.line ↔ BreaksLine text p t := by
  rw [line_eq hs h, BreaksLine, LineBetween, Token.SpansLines, ← List.count_pos_iff,
    ← List.count_pos_iff]
  omega

end Lexer

theorem Reach.stopsType_of_typeFrom {f : Position} {d : Int} {p : Option Token}
    {ts rest : List Token} {t : Token} (h : (Reach.typeFrom f d p ts).ahead = t :: rest) :
    Reach.stopsType (Reach.typeFrom f d p ts).previous t = true := by
  induction ts generalizing d p with
  | nil => cases h
  | cons u us ih =>
    simp only [Reach.typeFrom] at h ⊢
    split
    · next hstops =>
      rw [if_pos hstops] at h
      obtain ⟨rfl, rfl⟩ := List.cons.inj h
      exact hstops.2
    · next hstops =>
      rw [if_neg hstops] at h
      exact ih h

namespace Cursor

variable {text : List Char} {s : TokenStream} {c : Cursor} {p : Token}

/-- The tokens on both sides of a place stand next to each other. -/
theorem Reaches.adjacent (h : Reaches (ofStream s) c) (hp : p ∈ c.previous) :
    [p, c.current] <:+: s.toList := by
  obtain ⟨front, hpass⟩ := h
  have hplace := (placeIn_ofStream s).passes hpass
  rw [List.nil_append] at hplace
  have hlast : front.getLast? = some p := hplace.previous ▸ hp
  obtain ⟨before, rfl⟩ := List.getLast?_eq_some_iff.1 hlast
  rw [TokenStream.toList, hplace.tokens]
  cases hahead : c.ahead with
  | nil =>
    refine ⟨before, [], ?_⟩
    simp [current, peek, hahead, hplace.finish]
  | cons t rest =>
    refine ⟨before, rest ++ [Token.endOfInput s.finish], ?_⟩
    simp [current, peek, hahead]

/-- An expression that stops before the end of the text stops for a reason. -/
theorem stops_skipExpression (hc : c.skipExpression.ahead ≠ []) :
    c.skipExpression.kind ∈ ([.mark .comma, .mark .semicolon] : List TokenKind) ∨
      c.skipExpression.kind.isCloser = true ∨
      Reach.endsStatement c.skipExpression.previous c.skipExpression.current = true := by
  obtain ⟨t, rest, hrest⟩ := List.exists_cons_of_ne_nil hc
  obtain ⟨angles, hstops⟩ := Seam.stopsExpression_of_expressionFrom hrest
  rw [kind, current_eq_of_cons hrest]
  simp only [Reach.stopsExpression, Bool.or_eq_true, Bool.and_eq_true, beq_iff_eq] at hstops
  obtain ((hmark | ⟨hmark, -⟩) | hcloser) | hends := hstops
  · exact .inl (by simp [hmark])
  · exact .inl (by simp [hmark])
  · exact .inr (.inl hcloser)
  · exact .inr (.inr hends)

/-- Where there is no expression to pass over. -/
theorem skipExpression_eq_self_iff : c.skipExpression = c ↔ c.ahead = [] ∨
    c.kind ∈ ([.mark .comma, .mark .semicolon] : List TokenKind) ∨ c.kind.isCloser = true ∨
      Reach.endsStatement c.previous c.current = true := by
  cases hc : c.ahead with
  | nil =>
    obtain ⟨previous, ahead, finish⟩ := c
    cases hc
    simp [skipExpression, Reach.expressionFrom]
  | cons t rest =>
    refine ⟨fun h => .inr ?_, fun h => ?_⟩
    · have hstops := stops_skipExpression (c := c) (by simp [h, hc])
      rwa [h] at hstops
    · replace h := h.resolve_left (List.cons_ne_nil _ _)
      rw [kind, current_eq_of_cons hc] at h
      rw [skipExpression, hc, Reach.expressionFrom, if_pos, ← hc]
      refine ⟨rfl, ?_⟩
      obtain hmark | hcloser | hends := h
      · simp only [List.mem_cons, List.not_mem_nil, or_false] at hmark
        rcases hmark with hmark | hmark <;> simp [Reach.stopsExpression, Reach.anglesAfter, hmark]
      · simp [Reach.stopsExpression, hcloser]
      · simp [Reach.stopsExpression, hends]

theorem stops_skipType (hc : c.skipType.ahead ≠ []) :
    c.skipType.kind ∈ ([.mark .equals, .mark .comma, .mark .semicolon] : List TokenKind) ∨
      c.skipType.kind.isCloser = true ∨
      Reach.endsStatement c.skipType.previous c.skipType.current = true := by
  obtain ⟨t, rest, hrest⟩ := List.exists_cons_of_ne_nil hc
  have hstops := Reach.stopsType_of_typeFrom hrest
  rw [kind, current_eq_of_cons hrest]
  simp only [Reach.stopsType, Bool.or_eq_true, beq_iff_eq] at hstops
  obtain (((hmark | hmark) | hmark) | hcloser) | hends := hstops
  · exact .inl (by simp [hmark])
  · exact .inl (by simp [hmark])
  · exact .inl (by simp [hmark])
  · exact .inr (.inl hcloser)
  · exact .inr (.inr hends)

end Cursor

open Cursor (Reaches ofStream)

/-- What the rules on line breaks go by. -/
structure GoesByLines (text : List Char) (s : TokenStream) : Prop where
  /-- Only strings and templates go on over a line break. -/
  spans : ∀ t ∈ s.tokens, t.SpansLines → t.kind = .string ∨ t.kind = .template
  /-- The end of a statement between two tokens. -/
  ends : ∀ p t, [p, t] <:+: s.toList → (Reach.endsStatement (some p) t = true ↔
    BreaksLine text p t ∧ p.kind.endsExpression = true ∧
      (t.kind.isName = true ∨ t.kind = .operator ∧ t.value = "@"))
  /-- The beginning of a statement behind a token. -/
  starts : ∀ c, Reaches (ofStream s) c → ∀ p ∈ c.previous, (c.atStatementStart = true ↔
    p.kind = .mark .semicolon ∨ p.kind = .mark .closeBrace ∨
      BreaksLine text p c.current ∧ p.kind ≠ .mark .dot)
  /-- The end of an expression. -/
  expression : ∀ c n, Reaches (ofStream s) c → n = c.skipExpression →
    n.kind ∈ ([.endOfInput, .mark .comma, .mark .semicolon] : List TokenKind) ∨
      n.kind.isCloser = true ∨ ∃ p ∈ n.previous, BreaksLine text p n.current
  /-- The end of a type. -/
  type : ∀ c n, Reaches (ofStream s) c → n = c.skipType →
    n.kind ∈ ([.endOfInput, .mark .equals, .mark .comma, .mark .semicolon] : List TokenKind) ∨
      n.kind.isCloser = true ∨ ∃ p ∈ n.previous, BreaksLine text p n.current

section

variable {text : List Char} {s : TokenStream}

theorem endsStatement_iff {p t : Token} (hs : tokenize text = .ok s) (h : [p, t] <:+: s.toList) :
    Reach.endsStatement (some p) t = true ↔ BreaksLine text p t ∧ p.kind.endsExpression = true ∧
      (t.kind.isName = true ∨ t.kind = .operator ∧ t.value = "@") := by
  simp only [Reach.endsStatement, Bool.and_eq_true, Bool.or_eq_true, decide_eq_true_eq,
    beq_iff_eq, Lexer.line_lt_iff hs h, and_assoc]

theorem exists_breaksLine {n : Cursor} (hs : tokenize text = .ok s) (hn : Reaches (ofStream s) n)
    (hends : Reach.endsStatement n.previous n.current = true) :
    ∃ p ∈ n.previous, BreaksLine text p n.current := by
  cases hp : n.previous with
  | none =>
    rw [hp] at hends
    cases hends
  | some p =>
    rw [hp] at hends
    exact ⟨p, rfl, ((endsStatement_iff hs (hn.adjacent hp)).1 hends).1⟩

/-- The rules on line breaks go by the line feeds between two tokens and in the first one. -/
theorem goesByLines_of_tokenize (hs : tokenize text = .ok s) : GoesByLines text s where
  spans _ ht := Lexer.kind_of_spansLines hs ht
  ends _ _ := endsStatement_iff hs
  starts c hc p hp := by
    have hline := Lexer.line_lt_iff hs (hc.adjacent hp)
    rw [Option.mem_def] at hp
    simp only [Cursor.atStatementStart, hp, Bool.or_eq_true, beq_iff_eq, Bool.and_eq_true,
      decide_eq_true_eq, bne_iff_ne, hline, or_assoc]
  expression c n hc hn := by
    subst hn
    by_cases hend : c.skipExpression.ahead = []
    · exact .inl (by simp [Cursor.kind_of_nil hend])
    · have hreach := hc.trans (Cursor.reaches_skipExpression c)
      rcases Cursor.stops_skipExpression hend with hmark | hcloser | hends
      · exact .inl (List.mem_cons_of_mem _ hmark)
      · exact .inr (.inl hcloser)
      · exact .inr (.inr (exists_breaksLine hs hreach hends))
  type c n hc hn := by
    subst hn
    by_cases hend : c.skipType.ahead = []
    · exact .inl (by simp [Cursor.kind_of_nil hend])
    · have hreach := hc.trans (Cursor.reaches_skipType c)
      rcases Cursor.stops_skipType hend with hmark | hcloser | hends
      · exact .inl (List.mem_cons_of_mem _ hmark)
      · exact .inr (.inl hcloser)
      · exact .inr (.inr (exists_breaksLine hs hreach hends))

/-- A template that goes on behind an embedded expression, and a string over two lines. -/
theorem goesByLines_of_joined_lines :
    let text := "\x60a$\x7bb\x7d\nc\x60 d\n'x\\\ny' e".toList
    ∃ s, tokenize text = .ok s ∧ GoesByLines text s ∧
      (s.tokens.filter fun t => t.SpansLines).map Token.lexeme = ["\x7d\nc\x60", "'x\\\ny'"] := by
  intro text
  have spanning : (tokenize text).toOption.map
      (fun s => (s.tokens.filter fun t => t.SpansLines).map Token.lexeme) =
        some ["\x7d\nc\x60", "'x\\\ny'"] := by
    decide +kernel
  obtain ⟨s, hs, hspanning⟩ := exists_of_toOption_map spanning
  exact ⟨s, hs, goesByLines_of_tokenize hs, hspanning⟩

/-- Behind a template over two lines, a statement ends where no line does, and what is declared
further on is not exported. -/
theorem endsStatement_on_one_line :
    let text := "export const a = \x60x\ny\x60 as string, b = 2".toList
    ∃ s o p t, tokenize text = .ok s ∧ outline text = .ok o ∧ [p, t] <:+: s.toList ∧
      Reach.endsStatement (some p) t = true ∧ ¬ LineBetween text p t ∧
      o.exports.map ExportStatement.names = [["a"]] := by
  intro text
  let s := (tokenize text).toOption.getD ⟨[], .start⟩
  let o := (outline text).toOption.getD ⟨[], []⟩
  let p : Token := ⟨.template, "x\ny", "\x60x\ny\x60", ⟨17, 1, 18⟩⟩
  let t : Token := ⟨.keyword .asWord, "as", "as", ⟨23, 2, 4⟩⟩
  obtain ⟨hs, ho, hnext, hends, hbetween, hnames⟩ : (tokenize text).toOption.isSome = true ∧
      (outline text).toOption.isSome = true ∧ [p, t] <:+: s.toList ∧
      Reach.endsStatement (some p) t = true ∧ ¬ LineBetween text p t ∧
      o.exports.map ExportStatement.names = [["a"]] := by
    decide +kernel
  exact ⟨s, o, p, t, eq_ok_getD hs _, eq_ok_getD ho _, hnext, hends, hbetween, hnames⟩

end

end ComponentRegistry
