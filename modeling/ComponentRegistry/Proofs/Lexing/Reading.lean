import ComponentRegistry.Outcome
import ComponentRegistry.Syntax.Lexer

/-! # Runs of the lexer

What the lexer reads between two places of a text. A text has tokens exactly when a run leads from
its beginning to its end and leaves no brace open, so that facts about tokens are proved step by
step along a run.
-/

namespace ComponentRegistry.Lexer

/-- A place that the lexer has come to. -/
structure Scan where
  /-- The last token that was read. -/
  previous : Option Token
  /-- The braces that are open. -/
  enclosures : List Enclosure
  /-- The place in the text. -/
  here : Position
  /-- The characters that follow. -/
  rest : List Char

/-- The token that a step reads from a place, if it reads one. -/
def Step.token? (s : Step) (here : Position) : Option Token :=
  s.found.map fun (kind, value) => ⟨kind, String.ofList value, String.ofList s.lexeme, here⟩

/-- The place that a step leads to. -/
def Step.next (s : Step) (previous : Option Token) (here : Position) : Scan :=
  ⟨(s.token? here).or previous, s.enclosures, here.advance s.lexeme, s.rest⟩

/-- The lexer reads some tokens on its way from one place to another. -/
inductive Reads : Scan → List Token → Scan → Prop where
  /-- Standing still. -/
  | done (s : Scan) : Reads s [] s
  /-- One step and what comes after it. -/
  | step {p : Option Token} {e : List Enclosure} {h : Position} {c : Char} {after : List Char}
      {s : Step} {ts : List Token} {t : Scan} (first : Lexer.step p e h c after = .ok s)
      (others : Reads (s.next p h) ts t) :
      Reads ⟨p, e, h, c :: after⟩ ((s.token? h).toList ++ ts) t

theorem Reads.append {s t u : Scan} {ts us : List Token} (h₁ : Reads s ts t) (h₂ : Reads t us u) :
    Reads s (ts ++ us) u := by
  induction h₁ with
  | done => exact h₂
  | step first _ ih =>
    rw [List.append_assoc]
    exact .step first (ih h₂)

theorem tokensFrom_cons {p : Option Token} {e : List Enclosure} {h : Position} {c : Char}
    {after : List Char} {s : Step} (hstep : step p e h c after = .ok s) :
    tokensFrom p e h (c :: after) =
      (tokensFrom (s.next p h).previous s.enclosures (s.next p h).here s.rest).map fun stream =>
        ⟨(s.token? h).toList ++ stream.tokens, stream.finish⟩ := by
  rw [tokensFrom]
  split
  · next hfault => simp [hstep] at hfault
  · next s' hs' =>
    obtain rfl : s = s' := by simpa [hstep] using hs'
    cases hfound : s.found with
    | none =>
      simp only [Step.next, Step.token?, hfound, Option.map_none, Option.none_or]
      cases tokensFrom p s.enclosures (h.advance s.lexeme) s.rest <;> rfl
    | some found =>
      obtain ⟨kind, value⟩ := found
      simp only [Step.next, Step.token?, hfound, Option.map_some, Option.some_or]
      rfl

theorem Step.next_of_none {s : Step} (hfound : s.found = none) (p : Option Token) (h : Position) :
    s.next p h = ⟨p, s.enclosures, h.advance s.lexeme, s.rest⟩ := by
  simp [Step.next, Step.token?, hfound]

theorem Step.next_of_some {s : Step} {kind : TokenKind} {value : List Char}
    (hfound : s.found = some (kind, value)) (p : Option Token) (h : Position) :
    s.next p h = ⟨some ⟨kind, String.ofList value, String.ofList s.lexeme, h⟩,
      s.enclosures, h.advance s.lexeme, s.rest⟩ := by
  simp [Step.next, Step.token?, hfound]

/-- The tokens of a text are those of a run to its end. -/
theorem reads_of_tokensFrom {p : Option Token} {e : List Enclosure} {h : Position}
    {text : List Char} {stream : TokenStream} (hok : tokensFrom p e h text = .ok stream) :
    ∃ q, Reads ⟨p, e, h, text⟩ stream.tokens ⟨q, [], stream.finish, []⟩ := by
  fun_induction tokensFrom p e h text generalizing stream with
  | case1 p h =>
    cases hok
    exact ⟨p, .done _⟩
  | case2 => cases hok
  | case3 => cases hok
  | case4 =>
    rename_i p e h c after s hstep _ hfound ih
    obtain ⟨q, hq⟩ := ih hok
    have hrun := Reads.step hstep (Step.next_of_none hfound p h ▸ hq)
    rw [show s.token? h = none by simp [Step.token?, hfound]] at hrun
    exact ⟨q, hrun⟩
  | case5 =>
    rename_i p e h c after s hstep _ kind value hfound _ ih
    obtain ⟨others, hothers, rfl⟩ := map_eq_ok.1 hok
    obtain ⟨q, hq⟩ := ih hothers
    have hrun := Reads.step hstep (Step.next_of_some hfound p h ▸ hq)
    rw [Step.token?, hfound] at hrun
    exact ⟨q, hrun⟩

/-- A run leads the lexer from place to place. -/
theorem tokensFrom_of_reads {s t : Scan} {ts : List Token} (hrun : Reads s ts t) :
    tokensFrom s.previous s.enclosures s.here s.rest =
      (tokensFrom t.previous t.enclosures t.here t.rest).map fun stream =>
        ⟨ts ++ stream.tokens, stream.finish⟩ := by
  induction hrun with
  | done s => cases tokensFrom s.previous s.enclosures s.here s.rest <;> rfl
  | step first _ ih =>
    rw [tokensFrom_cons first]
    simp only [Step.next] at ih ⊢
    rw [ih]
    cases tokensFrom _ _ _ _ <;> simp [Except.map]

/-- A text has certain tokens exactly when a run to its end reads them. -/
theorem tokensFrom_eq_ok {p : Option Token} {e : List Enclosure} {h : Position}
    {text : List Char} {stream : TokenStream} :
    tokensFrom p e h text = .ok stream ↔
      ∃ q, Reads ⟨p, e, h, text⟩ stream.tokens ⟨q, [], stream.finish, []⟩ := by
  constructor
  · exact reads_of_tokensFrom
  · rintro ⟨q, hrun⟩
    rw [tokensFrom_of_reads hrun]
    simp [tokensFrom, Except.map]

/-- A run passes over a stretch of the text. -/
theorem Reads.passes {s t : Scan} {ts : List Token} (h : Reads s ts t) :
    ∃ passed, s.rest = passed ++ t.rest ∧ t.here = s.here.advance passed := by
  induction h with
  | done => exact ⟨[], rfl, rfl⟩
  | @step p e h c after s ts t first _ ih =>
    obtain ⟨passed, hrest, hhere⟩ := ih
    refine ⟨s.lexeme ++ passed, ?_, ?_⟩
    · rw [List.append_assoc, ← hrest]
      exact (cuts_step first).2.symm
    · rw [Position.advance_append]
      exact hhere

theorem getLast?_toList_append (u : Option Token) (us : List Token) (p : Option Token) :
    (u.toList ++ us).getLast?.or p = us.getLast?.or (u.or p) := by
  cases u with
  | none => rfl
  | some u => cases hlast : us.getLast? <;> simp [List.getLast?_cons, hlast]

/-- After a run the last of its tokens is the one that was read last. -/
theorem Reads.previous_eq {s t : Scan} {ts : List Token} (h : Reads s ts t) :
    t.previous = ts.getLast?.or s.previous := by
  induction h with
  | done => rfl
  | step first others ih => rw [ih, Step.next, getLast?_toList_append]

theorem Reads.offset_le {s t : Scan} {ts : List Token} (h : Reads s ts t) :
    s.here.offset ≤ t.here.offset := by
  obtain ⟨passed, -, hhere⟩ := h.passes
  rw [hhere, Position.offset_advance]
  omega

/-- What a step reads is not empty and ends where the step ends. -/
theorem Step.stop_token {p : Option Token} {e : List Enclosure} {h : Position} {c : Char}
    {after : List Char} {s : Step} (hstep : Lexer.step p e h c after = .ok s) {token : Token}
    (htoken : s.token? h = some token) :
    token.start = h ∧ token.stop = (s.next p h).here.offset ∧ token.start.offset < token.stop := by
  obtain ⟨⟨kind, value⟩, -, rfl⟩ := Option.map_eq_some_iff.1 htoken
  have hpos := List.length_pos_iff.2 (cuts_step hstep).1
  refine ⟨rfl, ?_, ?_⟩ <;> simp only [Token.stop, Step.next, Position.offset_advance,
    String.length_ofList]
  omega

/-- The tokens of a run lie between its ends, one after the other. -/
theorem Reads.ordered {s t : Scan} {ts : List Token} (h : Reads s ts t) :
    ts.Pairwise (fun u v => u.stop ≤ v.start.offset) ∧
      ∀ u ∈ ts, s.here.offset ≤ u.start.offset ∧ u.start.offset < u.stop ∧
        u.stop ≤ t.here.offset := by
  induction h with
  | done => simp
  | @step p e h c after s ts t first others ih =>
    have hle : h.offset ≤ (s.next p h).here.offset := by
      simp only [Step.next, Position.offset_advance]
      omega
    have hlater : ∀ u ∈ ts, h.offset ≤ u.start.offset ∧ u.start.offset < u.stop ∧
        u.stop ≤ t.here.offset := fun u hu => by
      have := ih.2 u hu
      omega
    cases htoken : s.token? h with
    | none => exact ⟨ih.1, hlater⟩
    | some token =>
      obtain ⟨hstart, hstop, hlt⟩ := Step.stop_token first htoken
      have hend := others.offset_le
      refine ⟨List.pairwise_cons.2 ⟨fun u hu => ?_, ih.1⟩, fun u hu => ?_⟩
      · have := (ih.2 u hu).1
        omega
      · rcases List.mem_cons.1 hu with rfl | hu
        · rw [hstart]
          exact ⟨Nat.le_refl _, hstart ▸ hlt, by omega⟩
        · exact hlater u hu

/-- A run can be cut before any of its tokens. -/
theorem Reads.cut {s t : Scan} {ts us : List Token} {u : Token} (h : Reads s (ts ++ u :: us) t) :
    ∃ (m : Scan) (c : Char) (after : List Char) (st : Step), Reads s ts m ∧ m.rest = c :: after ∧
      Lexer.step m.previous m.enclosures m.here c after = .ok st ∧ st.token? m.here = some u ∧
      Reads (st.next m.previous m.here) us t := by
  generalize hall : ts ++ u :: us = all at h
  induction h generalizing ts with
  | done => simp at hall
  | @step p e h c after s rest t first others ih =>
    cases htoken : s.token? h with
    | none =>
      have hrest : ts ++ u :: us = rest := by simpa [htoken] using hall
      obtain ⟨m, c', after', st, hreads, hm⟩ := ih hrest
      have := Reads.step first hreads
      rw [htoken] at this
      exact ⟨m, c', after', st, this, hm⟩
    | some token =>
      simp only [htoken, Option.toList_some, List.singleton_append] at hall
      cases ts with
      | nil =>
        obtain ⟨rfl, rfl⟩ := List.cons.inj hall
        exact ⟨_, c, after, s, .done _, rfl, first, htoken, others⟩
      | cons w ws =>
        obtain ⟨rfl, hws⟩ := List.cons.inj hall
        obtain ⟨m, c', after', st, hreads, hm⟩ := ih hws
        have := Reads.step first hreads
        rw [htoken] at this
        exact ⟨m, c', after', st, this, hm⟩

/-- Every token of a run was read by one step. -/
theorem Reads.exists_step {s t : Scan} {ts : List Token} (h : Reads s ts t) {u : Token}
    (hu : u ∈ ts) : ∃ (m : Scan) (c : Char) (after : List Char) (st : Step) (kind : TokenKind)
      (value : List Char), Lexer.step m.previous m.enclosures m.here c after = .ok st ∧
        st.found = some (kind, value) ∧
        u = ⟨kind, String.ofList value, String.ofList st.lexeme, m.here⟩ := by
  obtain ⟨before, behind, rfl⟩ := List.append_of_mem hu
  obtain ⟨m, c, after, st, -, -, hstep, htoken, -⟩ := h.cut
  obtain ⟨⟨kind, value⟩, hfound, rfl⟩ := Option.map_eq_some_iff.1 htoken
  exact ⟨m, c, after, st, kind, value, hstep, hfound, rfl⟩

/-- The ways in which a step takes a lexeme off the front of a text. -/
inductive Takes (p : Option Token) (h : Position) :
    List Enclosure → Char → List Char → Step → Prop where
  | blank (hc : Lexeme.isSpace c = true) : Takes p h e c after (skipped [c] after e)
  | lineComment : Takes p h e '/' ('/' :: after)
      (skipped ('/' :: ('/' :: after).takeWhile Lexeme.staysOnLine)
        (('/' :: after).dropWhile Lexeme.staysOnLine) e)
  | blockComment (closed : Lexeme.blockComment inside = some (body, rest)) :
      Takes p h e '/' ('*' :: inside) (skipped ('/' :: '*' :: body ++ ['*', '/']) rest e)
  | quote (hc : c = '"' ∨ c = '\x27') : Takes p h e c after (quoteStep c after e)
  | template (read : templateStep h '\x60' after e = .ok s) : Takes p h e '\x60' after s
  | slash : Takes p h e '/' after (slashStep p after e)
  | openBrace :
      Takes p h e '{' after (verbatim (.mark .openBrace) ['{'] after (⟨.block, h⟩ :: e))
  | closeBrace : Takes p h (⟨.block, opened⟩ :: e) '}' after
      (verbatim (.mark .closeBrace) ['}'] after e)
  | resume (read : templateStep opened '}' after e = .ok s) :
      Takes p h (⟨.substitution, opened⟩ :: e) '}' after s
  | arrow : Takes p h e '=' ('>' :: rest) (verbatim (.mark .arrow) ['=', '>'] rest e)
  | equals : Takes p h e '=' after (verbatim (.mark .equals) ['='] after e)
  | number : Takes p h e c after
      (verbatim .number (c :: after.takeWhile Lexeme.continuesNumeral)
        (after.dropWhile Lexeme.continuesNumeral) e)
  | name (digit : CharacterClass.isDigit c = false) (starts : Lexeme.startsName c = true) :
      Takes p h e c after (nameStep c after e)
  | ellipsis : Takes p h e '.' ('.' :: '.' :: rest)
      (verbatim (.mark .ellipsis) ['.', '.', '.'] rest e)
  | dot : Takes p h e '.' after (verbatim (.mark .dot) ['.'] after e)
  | single : Takes p h e c after (singleStep c after e)

theorem takes_of_closeBraceStep {p : Option Token} {e : List Enclosure} {h : Position}
    {after : List Char} {s : Step} (hstep : closeBraceStep h after e = .ok s) :
    Takes p h e '}' after s := by
  match e with
  | [] => cases hstep
  | ⟨.block, _⟩ :: _ =>
    cases hstep
    exact .closeBrace
  | ⟨.substitution, _⟩ :: _ => exact .resume hstep

/-- Facts about steps are proved way by way. -/
theorem takes_step {p : Option Token} {e : List Enclosure} {h : Position} {c : Char}
    {after : List Char} {s : Step} (hstep : step p e h c after = .ok s) :
    Takes p h e c after s := by
  unfold step at hstep
  split at hstep
  · next hc =>
    cases hstep
    exact .blank hc
  · split at hstep
    · cases hstep
      exact .lineComment
    · split at hstep
      · next closed =>
        cases hstep
        exact .blockComment closed
      · cases hstep
    · cases hstep
      exact .quote (.inl rfl)
    · cases hstep
      exact .quote (.inr rfl)
    · exact .template hstep
    · cases hstep
      exact .slash
    · cases hstep
      exact .openBrace
    · exact takes_of_closeBraceStep hstep
    · cases hstep
      exact .arrow
    · cases hstep
      exact .equals
    · split at hstep
      · cases hstep
        exact .number
      · next hnumeral =>
        split at hstep
        · next starts =>
          cases hstep
          refine .name ?_ starts
          simp only [startsNumeral, Bool.or_eq_true, not_or, Bool.not_eq_true] at hnumeral
          exact hnumeral.1
        · split at hstep
          · cases hstep
            exact .ellipsis
          · cases hstep
            exact .dot
          · cases hstep
            exact .single

/-- What a token of a kind says, where that is always the same. -/
def spelling? : TokenKind → Option String
  | .keyword word => some word.spelling
  | .mark m => some m.spelling
  | _ => none

/-- A step reads no end, and where it reads a mark or a keyword it reads its spelling. -/
def Step.Spells (s : Step) : Prop :=
  ∀ kind value, s.found = some (kind, value) →
    kind ≠ .endOfInput ∧ ∀ word ∈ spelling? kind, String.ofList value = word

theorem spells_of_found {s : Step} {kind : TokenKind} {value : List Char}
    (hfound : s.found = some (kind, value))
    (hkind : kind ≠ .endOfInput ∧ ∀ word ∈ spelling? kind, String.ofList value = word) :
    s.Spells := by
  intro kind' value' h
  rw [hfound, Option.some.injEq, Prod.mk.injEq] at h
  obtain ⟨rfl, rfl⟩ := h
  exact hkind

theorem spells_skipped (lexeme rest : List Char) (e : List Enclosure) :
    (skipped lexeme rest e).Spells := by
  intro kind value hfound
  cases hfound

theorem spells_templateStep {opened : Position} {lead : Char} {after : List Char}
    {e : List Enclosure} {s : Step} (h : templateStep opened lead after e = .ok s) :
    s.Spells := by
  unfold templateStep at h
  split at h
  · cases h
  · cases h
    exact spells_of_found rfl (by simp [spelling?])

theorem spells_quoteStep (quote : Char) (after : List Char) (e : List Enclosure) :
    (quoteStep quote after e).Spells := by
  unfold quoteStep
  split <;> exact spells_of_found rfl (by simp [spelling?])

theorem spells_slashStep (p : Option Token) (after : List Char) (e : List Enclosure) :
    (slashStep p after e).Spells := by
  unfold slashStep
  split
  · exact spells_of_found rfl (by simp [spelling?])
  · exact spells_of_found rfl (by decide)

theorem spells_nameStep (c : Char) (after : List Char) (e : List Enclosure) :
    (nameStep c after e).Spells := by
  refine spells_of_found rfl ⟨?_, fun word hword => ?_⟩
  · unfold wordKind
    split <;> simp
  unfold wordKind at hword
  split at hword
  · next keyword hkeyword =>
    obtain rfl : keyword.spelling = word := by simpa [spelling?] using hword
    exact (by simpa using List.find?_some hkeyword : keyword.spelling = _).symm
  · cases hword

theorem spells_singleStep (c : Char) (after : List Char) (e : List Enclosure) :
    (singleStep c after e).Spells := by
  unfold singleStep
  split
  · next m hm =>
    refine spells_of_found rfl ?_
    unfold Mark.ofChar? at hm
    split at hm <;> cases hm <;> decide
  · exact spells_of_found rfl (by simp [spelling?])

theorem spells_step {p : Option Token} {e : List Enclosure} {here : Position} {c : Char}
    {after : List Char} {s : Step} (h : Lexer.step p e here c after = .ok s) : s.Spells := by
  cases takes_step h with
  | blank | lineComment | blockComment => exact spells_skipped _ _ _
  | quote => exact spells_quoteStep _ _ _
  | template read | resume read => exact spells_templateStep read
  | slash => exact spells_slashStep _ _ _
  | openBrace | closeBrace | arrow | equals | ellipsis | dot => exact spells_of_found rfl (by decide)
  | number => exact spells_of_found rfl (by simp [spelling?])
  | name => exact spells_nameStep _ _ _
  | single => exact spells_singleStep _ _ _

theorem Reads.spells {s t : Scan} {ts : List Token} (h : Reads s ts t) {u : Token} (hu : u ∈ ts) :
    u.kind ≠ .endOfInput ∧ ∀ word ∈ spelling? u.kind, u.value = word := by
  obtain ⟨m, c, after, st, kind, value, hstep, hfound, rfl⟩ := h.exists_step hu
  exact spells_step hstep kind value hfound

/-- The end of the text is no token. -/
theorem Reads.kind_ne {s t : Scan} {ts : List Token} (h : Reads s ts t) {u : Token}
    (hu : u ∈ ts) : u.kind ≠ .endOfInput := (h.spells hu).1

/-- A mark or a keyword says nothing but its spelling. -/
theorem Reads.value_eq {s t : Scan} {ts : List Token} (h : Reads s ts t) {u : Token} (hu : u ∈ ts)
    {word : String} (hword : word ∈ spelling? u.kind) : u.value = word :=
  (h.spells hu).2 word hword

end ComponentRegistry.Lexer
