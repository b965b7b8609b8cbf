import Mathlib.Data.List.Infix
import ComponentRegistry.Proofs.Seam.Shifting
import ComponentRegistry.Proofs.Syntax.TopLevel

/-! # Outlines of texts put together

No statement is swallowed by an earlier one: a text on a new line after another has its own
statements, as far as the first text is complete where it ends.
-/

namespace ComponentRegistry

namespace Seam

variable {front : List Char} {new : List Token} {t : Token}

/-- The seam at the end of a text, with other tokens after it and another text in front. -/
def atEnd (front : List Char) (new : List Token) : Seam where
  placed p p' := p' = p.shift front
  line_lt := line_lt_of_shift
  offset_eq := offset_eq_of_shift
  old := []
  new := new

theorem atStatement_atEnd (hnew : ∀ t ∈ new.head?, t.kind ≠ .mark .arrow) :
    (atEnd front new).AtStatement := atStatement_of_nil rfl hnew

instance : (atEnd front []).AtStatement := atStatement_atEnd (by simp)

theorem shifts_atEnd : (atEnd front new).Shifts front := fun _ _ h => h

theorem same_shift (hvalue : t.kind = .mark .semicolon → t.value = ";") :
    (atEnd front new).Same t (t.shift front) := ⟨rfl, rfl, rfl, hvalue, rfl⟩

/-- The tokens of a text, and the same tokens further down with others after them. -/
theorem tied_atEnd (front : List Char) (new : List Token) {ts : List Token}
    (hvalue : ∀ t ∈ ts, t.kind = .mark .semicolon → t.value = ";") :
    (atEnd front new).Tied ts (ts.map (Token.shift front) ++ new) := by
  induction ts with
  | nil => exact .seam
  | cons t ts ih =>
    exact .cons (same_shift (hvalue t List.mem_cons_self))
      (ih fun u hu => hvalue u (List.mem_cons_of_mem t hu))

end Seam

namespace Cursor

variable {c n m : Cursor} {o found : Outline} {d d' : Nat}

/-- A search that begins at a statement finds it first. -/
theorem Surveys.of_startsStatement (h : Surveys 0 c o d' m) (hm : m.kind = .endOfInput)
    (hstart : c.startsStatement = true) :
    ∃ found n o', StatementAt c found n ∧ Surveys 0 n o' d' m ∧ o = found ++ o' := by
  cases h with
  | done =>
    simp [Cursor.startsStatement, startsImport, startsExport, atWord, hm] at hstart
  | statement first others => exact ⟨_, _, _, first, others, rfl⟩
  | pass _ nothing _ => exact absurd ⟨rfl, hstart⟩ nothing

/-- The count of open brackets is nothing at the end of a text that closes its brackets. -/
theorem Surveys.depth_eq_zero (h : Surveys d c o d' m) (hm : m.ahead = [])
    (hsuffix : ∀ us, us <:+ c.ahead → bracketDepth us ≤ 0) (hd : d + bracketDepth c.ahead ≤ 0) :
    d' = 0 := by
  induction h with
  | done d c =>
    rw [hm] at hd
    simp only [bracketDepth, depthBy_nil, Int.add_zero] at hd
    omega
  | @statement c n m found o d first others ih =>
    have hreach := first.reaches
    refine ih hm (fun us hus => hsuffix us (hus.trans hreach.suffix)) ?_
    have := hsuffix n.ahead hreach.suffix
    omega
  | @pass d d' c m o more _ others ih =>
    obtain ⟨rest, hrest⟩ := exists_cons_of_kind more
    have hahead : c.advance.ahead = rest := by simp [advance, hrest]
    have hlater : ∀ us, us <:+ c.advance.ahead → bracketDepth us ≤ 0 := fun us hus =>
      hsuffix us (hus.trans (reaches_advance c).suffix)
    refine ih hm hlater (depthAfter_add_le (hlater _ (List.suffix_refl _)) ?_)
    rwa [hahead, ← hrest]

theorem modifiers_eq {c : Cursor} (hc : c.kind ∉
    [.keyword .declareWord, .keyword .abstractWord, .keyword .asyncWord]) :
    c.modifiers = (⟨false, none⟩, c) := by
  simp only [List.mem_cons, List.not_mem_nil, or_false, not_or] at hc
  rw [modifiers, modifiersFrom]
  simp [atWord, asyncModifiesFunction, hc]

theorem not_endsInsideType {names : List String} (hbinds : c.bindingNames = .ok (names, n))
    (hinside : n.advance.ahead.foldl Reach.typeDepthAfter 0 = 0)
    (hcomma : n.skipDeclaratorRest.atMark .comma = false) : ¬ c.EndsInsideType := by
  intro hends
  cases hends with
  | here binds _ _ inside =>
    rw [hbinds, Except.ok.injEq, Prod.mk.injEq] at binds
    exact inside (binds.2 ▸ hinside)
  | later binds comma _ =>
    rw [hbinds, Except.ok.injEq, Prod.mk.injEq] at binds
    rw [← binds.2, hcomma] at comma
    cases comma

/-- Variables are exported by a declaration only. -/
theorem exportForm_of_variable {c : Cursor}
    (hvariable : (variableKind? c.modifiers.2.kind).isSome = true) :
    c.exportForm = c.exportDeclaration := by
  have hne : ∀ kind ∈ ([.keyword .defaultWord, .mark .star, .mark .openBrace, .keyword .typeWord,
      .mark .equals, .keyword .asWord] : List TokenKind), c.kind ≠ kind := by
    intro kind hkind hc
    have hplain : kind ∉
        [.keyword .declareWord, .keyword .abstractWord, .keyword .asyncWord] ∧
        variableKind? kind = none := by
      clear hc
      revert kind
      decide
    rw [modifiers_eq (hc ▸ hplain.1), hc, hplain.2] at hvariable
    cases hvariable
  simp only [List.mem_cons, List.not_mem_nil, or_false, forall_eq_or_imp, forall_eq] at hne
  simp [exportForm, atWord, atMark, hne]

end Cursor

/-- The word that declares exported variables. -/
def ExportForm.variableToken : ExportForm → Option Token
  | .declaration .constBinding keyword _ _ _ => some keyword
  | .declaration .letBinding keyword _ _ _ => some keyword
  | .declaration .varBinding keyword _ _ _ => some keyword
  | _ => none

namespace Cursor

theorem variableToken_of_declared {c n : Cursor} {m : Modifiers} {form : ExportForm}
    (hok : c.declared m = .ok (form, n)) (hvariable : (variableKind? c.kind).isSome = true)
    (hlist : c.atEnumeration = false) : c.current ∈ form.variableToken := by
  obtain ⟨kind, hkind⟩ := Option.isSome_iff_exists.1 hvariable
  rw [declared_of_variable hkind hlist] at hok
  obtain ⟨⟨found, c₁⟩, -, hok⟩ := bind_eq_ok.1 hok
  cases hok
  rcases (variableKind?_eq_some hkind).2 with rfl | rfl | rfl <;> rfl

/-- An export that leaves a type open is one of variables, and the type is open after their word. -/
theorem LeavesTypeOpen.variableToken {c n : Cursor} {s : ExportStatement}
    (h : c.advance.LeavesTypeOpen) (hok : c.exportStatement = .ok (s, n)) :
    ∃ k rest, k ∈ s.form.variableToken ∧ k :: rest <:+ c.ahead ∧
      EndsInsideType ⟨some k, rest, c.finish⟩ := by
  obtain ⟨-, m, hform, -⟩ := exportStatement_eq_ok.1 hok
  obtain ⟨hvariable, hlist, hinside⟩ := h
  rw [exportForm_of_variable hvariable] at hform
  have hne : c.advance.modifiers.2.kind ≠ .endOfInput := by
    intro hkind
    rw [hkind] at hvariable
    cases hvariable
  obtain ⟨rest, hrest⟩ := exists_cons_of_kind hne
  obtain ⟨passed, hpass⟩ := (reaches_advance c).trans (reaches_modifiersFrom ⟨false, none⟩ c.advance)
  refine ⟨_, rest, variableToken_of_declared hform hvariable hlist, ?_, ?_⟩
  · rw [← hrest]
    exact ⟨passed, hpass.ahead.symm⟩
  · have hadvance : c.advance.modifiers.2.advance =
        ⟨some c.advance.modifiers.2.current, rest, c.finish⟩ := by
      rw [advance, hrest, ← hpass.finish]
      rfl
    rwa [hadvance] at hinside

end Cursor

namespace TokenStream

/-- The place after a token. -/
def after (s : TokenStream) (t : Token) : Cursor :=
  ⟨some t, s.tokens.dropWhile fun u => u.start.offset ≤ t.start.offset, s.finish⟩

theorem Ordered.after_eq {s : TokenStream} {front back : List Token} {t : Token} (h : s.Ordered)
    (hs : s.tokens = front ++ t :: back) : s.after t = ⟨some t, back, s.finish⟩ := by
  have hfront : ∀ u ∈ front, decide (u.start.offset ≤ t.start.offset) = true := by
    intro u hu
    simpa using Nat.le_of_lt (h.start_lt hs hu)
  have hback : back.dropWhile (fun u => u.start.offset ≤ t.start.offset) = back := by
    cases back with
    | nil => rfl
    | cons u back =>
      have hcut : s.tokens = front ++ [t] ++ u :: back := by simp [hs]
      have hlt := h.start_lt hcut (List.mem_append_right front List.mem_cons_self)
      rw [List.dropWhile_cons_of_neg]
      simpa using hlt
  rw [after, hs, List.dropWhile_append_of_pos hfront]
  simp [hback]

end TokenStream

/-- The exports of a text are complete where it ends: one that reaches to the end could not go on
there with an expression or a type, none waits for a name, and none has the type of a variable
open. -/
structure TokenStream.Completes (s : TokenStream) (o : Outline) : Prop where
  closed : ∀ e ∈ o.exports, ∀ t ∈ s.tokens.getLast?, e.span.stop = t.stop → e.terminated = false →
    t.kind.endsExpression = true ∨ t.kind = .mark .semicolon
  named : ∀ e ∈ o.exports, ∀ t ∈ s.tokens.getLast?,
    t ∉ e.form.defaultToken ∧ t ∉ e.form.declarationToken
  typed : ∀ e ∈ o.exports, ∀ k ∈ e.form.variableToken, ¬ (s.after k).EndsInsideType

/-- A seam at the end of a text, where the other stream goes on with a statement on a line below, or
with nothing. -/
structure TokenStream.BeginsBelow (s : TokenStream) (S : Seam) : Prop where
  old : S.old = []
  kind : ∀ t ∈ S.new.head?, t.kind = .keyword .importWord ∨ t.kind = .keyword .exportWord
  value : ∀ t ∈ S.new.head?, t.value = "import" ∨ t.value = "export"
  arrow : ∀ t u rest, S.new = t :: u :: rest → u.kind ≠ .mark .arrow
  below : ∀ t ∈ s.tokens.getLast?, ∀ t', S.Same t t' → ∀ u ∈ S.new.head?, t'.line < u.line

namespace TokenStream

variable {s : TokenStream} {o found below : Outline} {S : Seam} {passed : List Token}
  {c c' n m : Cursor} {d : Nat}

theorem BeginsBelow.atStatement (h : s.BeginsBelow S) : S.AtStatement := by
  refine Seam.atStatement_of_nil h.old fun t ht => ?_
  rcases h.kind t ht with hk | hk <;> simp [hk]

theorem BeginsBelow.detached (h : s.BeginsBelow S) : S.Detached where
  kind := by
    intro k hk
    have hkind := h.kind
    rw [Seam.nextKind]
    cases hnew : S.new with
    | nil =>
      rintro rfl
      revert hk
      decide
    | cons t rest =>
      intro heq
      simp only [List.head?_cons, Option.map_some, Option.getD_some] at heq
      rcases hkind t (by rw [hnew]; rfl) with hword | hword <;> rw [hword] at heq <;> subst heq <;>
        revert hk <;> decide
  word := by
    have hvalue := h.value
    rw [Seam.nextValue]
    cases hnew : S.new with
    | nil => decide
    | cons t rest =>
      simp only [List.head?_cons, Option.map_some, Option.getD_some]
      rcases hvalue t (by rw [hnew]; rfl) with hword | hword <;> rw [hword] <;> decide
  arrow := h.arrow

/-- What a statement asks of the end of a text where others follow. -/
theorem Completes.meets (h : s.Completes o) (hs : s.Ordered) (hbelow : s.BeginsBelow S)
    (hplace : Cursor.PlaceIn s passed c) (hat : Cursor.StatementAt c found n)
    (hmem : ∀ e ∈ found.exports, e ∈ o.exports) : S.Meets c found n := by
  obtain ⟨rest, hpass⟩ := hat.passes
  have hn := hplace.passes hpass
  obtain ⟨last, hprevious⟩ : ∃ last, n.previous = some last := by
    rw [hn.previous]
    exact ⟨_, List.getLast?_eq_some_getLast (by simp)⟩
  -- At the end of the text the last token that was read is the last one.
  have hend : n.remaining = S.old.length → last ∈ s.tokens.getLast? := by
    intro hremaining
    rw [hbelow.old] at hremaining
    have hnil : n.ahead = [] := List.eq_nil_of_length_eq_zero hremaining
    rw [hn.tokens, hnil, List.append_nil, ← hn.previous]
    exact hprevious
  refine ⟨fun _ _ _ => hbelow.detached.closes, fun e he => ?_, fun hextends hne hopen => ?_⟩
  · have hspan : e.span = ⟨c.current.start, n.passedOffset⟩ :=
      hat.span_eq (List.mem_append_right _ (List.mem_map_of_mem he))
    have hstop : e.span.stop = last.stop := by
      rw [hspan]
      simp [Cursor.passedOffset, hprevious]
    refine ⟨fun _ _ => hbelow.detached, fun hopen hremaining => ?_,
      fun _ _ => by simp [hbelow.old], fun _ hopen hremaining _ => ?_⟩
    · rw [hprevious]
      intro _ hplain p' hp' u hu
      cases hp' with
      | @some _ last' hsame =>
        have hmember := hend hremaining
        have hline := hbelow.below last hmember last' hsame u hu
        have hname : u.kind.isName = true := by
          rcases hbelow.kind u hu with hk | hk <;> simp [hk, TokenKind.isName]
        have hkind := (h.closed e (hmem e he) last hmember hstop hopen).resolve_right
          (hplain last rfl)
        simp [Reach.endsStatement, hline, hsame.kind, hkind, hname]
    · obtain ⟨hdefault, hkeyword⟩ := h.named e (hmem e he) last (hend hremaining)
      rw [hprevious]
      refine ⟨fun heq => hdefault heq.symm, fun heq => hkeyword heq.symm, fun p hp hstar => ?_⟩
      obtain rfl : last = p := by simpa using hp
      rcases h.closed e (hmem e he) last (hend hremaining) hstop hopen with hk | hk
      · simp [hstar, TokenKind.endsExpression, TokenKind.isName, TokenKind.isCloser] at hk
      · simp [hstar] at hk
  · cases hat with
    | importing => exact hne rfl
    | @exporting e _ starts reads =>
      obtain ⟨k, rest', hk, hsuffix, hinside⟩ := hopen.variableToken reads
      obtain ⟨between, hbetween⟩ := hsuffix
      refine h.typed e (hmem e List.mem_cons_self) k hk ?_
      have hcut : s.tokens = passed ++ between ++ k :: rest' := by
        rw [hplace.tokens, List.append_assoc, hbetween]
      rwa [hs.after_eq hcut, ← hplace.finish]

/-- The search comes to the end of a text with nothing open, when every bracket is closed there. -/
theorem eq_nil_of_surveys {front : List Char} (hs : tokenize front = .ok s)
    (hsuffix : ∀ us, us <:+ s.tokens → bracketDepth us ≤ 0) (hc : c.ahead <:+ s.tokens)
    (hrun : Cursor.Surveys 0 c below d m) (hm : m.kind = .endOfInput) : m.ahead = [] ∧ d = 0 := by
  obtain ⟨⟨q, hreads⟩, -⟩ := Lexer.reads_of_tokenize hs
  have hnil : m.ahead = [] := by
    cases hahead : m.ahead with
    | nil => rfl
    | cons t rest =>
      have hmem : t ∈ s.tokens := hc.subset (hrun.reaches.suffix.subset (by simp [hahead]))
      refine absurd ?_ (hreads.kind_ne hmem)
      rwa [Cursor.kind, Cursor.current_eq_of_cons hahead] at hm
  refine ⟨hnil, hrun.depth_eq_zero hnil (fun us hus => hsuffix us (hus.trans hc)) ?_⟩
  simpa using hsuffix c.ahead hc

/-- What is found up to the end of a text that is complete there is found in front of a statement
below it as well, and nothing is left open. -/
theorem Completes.surveys {front : List Char} (h : s.Completes o) (hs : tokenize front = .ok s)
    (hsuffix : ∀ us, us <:+ s.tokens → bracketDepth us ≤ 0) (hbelow : s.BeginsBelow S)
    (hplace : Cursor.PlaceIn s passed c) (hrun : Cursor.Surveys 0 c below d m)
    (hm : m.kind = .endOfInput) (hmem : ∀ e ∈ below.exports, e ∈ o.exports)
    (htied : S.Tied c.ahead c'.ahead)
    (hstart : c.kind ≠ .endOfInput → c'.atStatementStart = c.atStatementStart) :
    ∃ below' m', Cursor.Surveys 0 c' below' 0 m' ∧ S.SameOutline below below' ∧
      m'.ahead = S.new := by
  have hc : c.ahead <:+ s.tokens := ⟨passed, hplace.tokens.symm⟩
  have := hbelow.atStatement
  obtain ⟨hend, rfl⟩ := eq_nil_of_surveys hs hsuffix hc hrun hm
  obtain ⟨below', m', hrun', hsame, hm'⟩ := htied.surveys hstart hrun
    (by rw [hbelow.old]; exact Nat.zero_le _) (fun _ us hus => hsuffix us (hus.trans hc))
    fun hreach hat _ hfound => by
      obtain ⟨own, hown⟩ := hreach
      exact h.meets (ordered_of_tokenize hs) hbelow (hplace.passes hown) hat
        fun e he => hmem e (hfound e he)
  refine ⟨below', m', hrun', hsame, ?_⟩
  exact (hm'.outside (by simp [hend])).2

/-- A statement may begin below all that stands in front of it. -/
theorem atStatementStart_below (hplace : Cursor.PlaceIn s passed c) {t : Token}
    (ht : t ∈ c.ahead.head?) (hline : ∀ u ∈ passed.getLast?, u.line < t.line)
    (hdot : ∀ u ∈ passed.getLast?, u.kind ≠ .mark .dot) : c.atStatementStart = true := by
  obtain ⟨rest, hrest⟩ := List.head?_eq_some_iff.1 ht
  rw [Cursor.atStatementStart, Cursor.current_eq_of_cons hrest, hplace.previous]
  cases hlast : passed.getLast? with
  | none => rfl
  | some u => simp [hline u hlast, hdot u hlast]

/-- A text that begins with a statement does so below the text before it. -/
theorem beginsBelow_of_tokenize {front back : List Char} {s s' : TokenStream}
    (hs : tokenize front = .ok s) (hs' : tokenize back = .ok s')
    (hat : Cursor.StatementAt (Cursor.ofStream s') found n) :
    s.BeginsBelow (.atEnd [] (s'.shift (front ++ ['\n'])).tokens) := by
  obtain ⟨⟨q, hrun⟩, hfinish⟩ := Lexer.reads_of_tokenize hs
  obtain ⟨⟨q', hrun'⟩, -⟩ := Lexer.reads_of_tokenize hs'
  obtain ⟨rest, hrest⟩ := Cursor.exists_cons_of_kind (c := Cursor.ofStream s')
    (by rcases hat.kind_ne with hk | hk <;> simp [hk])
  generalize hfirst : (Cursor.ofStream s').current = first at hrest
  have htokens : s'.tokens = first :: rest := hrest
  have hhead : ∀ t ∈ (Seam.atEnd [] (s'.shift (front ++ ['\n'])).tokens).new.head?,
      t = first.shift (front ++ ['\n']) := by
    simp [Seam.atEnd, shift, htokens]
  have hkind : first.kind = .keyword .importWord ∨ first.kind = .keyword .exportWord :=
    hfirst ▸ hat.kind_ne
  have hmem : first ∈ s'.tokens := by simp [htokens]
  refine ⟨rfl, fun t ht => hhead t ht ▸ hkind, fun t ht => ?_, fun t u us htu => ?_,
    fun t ht t' hsame u hu => ?_⟩
  · rw [hhead t ht]
    rcases hkind with hk | hk
    · exact .inl (hrun'.value_eq hmem (by rw [hk]; rfl))
    · exact .inr (hrun'.value_eq hmem (by rw [hk]; rfl))
  · have hfollowing := hat.followingKind_ne
    cases rest with
    | nil => simp [Seam.atEnd, shift, htokens] at htu
    | cons v rest =>
      obtain ⟨-, rfl, -⟩ : _ ∧ v.shift (front ++ ['\n']) = u ∧ _ := by
        simpa [Seam.atEnd, shift, htokens] using htu
      have harrow : v.kind ≠ .mark .arrow := by
        simpa [Cursor.followingKind, Cursor.peek, Cursor.ofStream, htokens] using hfollowing
      exact harrow
  · obtain rfl : t' = t := (hsame.eq_shift Seam.shifts_atEnd).trans (Token.shift_nil t)
    rw [hhead u hu]
    have hle := (hrun.line_le t' (List.mem_of_getLast? ht)).2
    have hle' := (hrun'.line_le first hmem).1
    simp only at hle hle'
    rw [hfinish, Position.line_advance] at hle
    rw [Position.line_advance] at hle'
    have hcount : (front ++ ['\n']).count '\n' = front.count '\n' + 1 := by simp
    simp only [Token.line, Token.shift, Position.shift, hcount] at hle hle' ⊢
    omega

end TokenStream

namespace Cursor

variable {c c' n m : Cursor} {o found : Outline} {d d' : Nat}

/-- A run through the whole of a text from a statement on is one below another text as well. -/
theorem Surveys.shift {front : List Char} (h : Surveys 0 c o d' m)
    (hstarts : c.startsStatement = true) (hm : m.kind = .endOfInput)
    (hvalue : ∀ t ∈ c.ahead, t.kind = .mark .semicolon → t.value = ";")
    (hahead : c'.ahead = c.ahead.map (Token.shift front))
    (hstart : c'.atStatementStart = true) :
    ∃ m', Surveys 0 c' (o.shift front) d' m' ∧ m'.kind = .endOfInput := by
  obtain ⟨found, n, o', first, others, rfl⟩ := h.of_startsStatement hm hstarts
  have htied : (Seam.atEnd front []).Tied c.ahead c'.ahead := by
    have htied := Seam.tied_atEnd front [] hvalue
    rwa [List.append_nil, ← hahead] at htied
  have hbalanced : ∀ c, (Seam.atEnd front []).Balanced c := fun _ hextends =>
    absurd rfl hextends.2
  have hinside := Seam.remaining_of_statementAt first
  have hsame : c'.atStatementStart = c.atStatementStart := by
    have hbegins := first.startsStatement
    rw [hstart]
    simp only [startsStatement, startsImport, startsExport, Bool.or_eq_true,
      Bool.and_eq_true] at hbegins
    grind
  obtain ⟨found', n', first', hfound, hn⟩ := htied.statementAt first
    (htied.startsStatement_eq (by simp only [Seam.atEnd, List.length_nil]; omega) hsame)
    (Nat.zero_le _) (Seam.meets_of_nil rfl rfl) (hbalanced c)
  obtain ⟨o'', m', others', ho, hm'⟩ := hn.surveys others (Nat.zero_le _) (hbalanced n)
    fun _ _ _ _ => Seam.meets_of_nil rfl rfl
  refine ⟨m', ?_, ?_⟩
  · rw [← (hfound.append ho).eq_shift Seam.shifts_atEnd]
    exact .statement first' others'
  · rcases Nat.eq_zero_or_pos m.remaining with hzero | hpos
    · rw [hm'.kind_eq_nextKind (Nat.le_of_eq hzero)]
      rfl
    · rw [hm'.kind_eq hpos, hm]

end Cursor

section Below

variable {front back : List Char} {s s' : TokenStream} {o o' : Outline}

/-- The statements of two texts on lines of their own, when the first is complete and the second
begins with a statement. -/
theorem outline_concat (hs : tokenize front = .ok s) (ho : outline front = .ok o)
    (hs' : tokenize back = .ok s') (ho' : outline back = .ok o')
    (hquote : front.getLast? = some '\\' → ∀ t ∈ s.tokens, t.isLoneQuote = false)
    (hinterpreter : ¬ ['#', '!'] <+: back)
    (hsuffix : ∀ us, us <:+ s.tokens → bracketDepth us ≤ 0)
    (hdot : ∀ t ∈ s.tokens.getLast?, t.kind ≠ .mark .dot) (hcomplete : s.Completes o)
    (hstarts : (Cursor.ofStream s').startsStatement = true) :
    outline (front ++ '\n' :: back) = .ok (o ++ o'.shift (front ++ ['\n'])) := by
  rw [outline, hs] at ho
  rw [outline, hs'] at ho'
  obtain ⟨d, m, hrun, hm⟩ := Cursor.outlineFrom_eq_ok.1 ho
  obtain ⟨d', m', hrun', hm'⟩ := Cursor.outlineFrom_eq_ok.1 ho'
  obtain ⟨found, n, _, first, -, -⟩ := hrun'.of_startsStatement hm' hstarts
  obtain ⟨⟨q, hreads⟩, -⟩ := Lexer.reads_of_tokenize hs
  obtain ⟨⟨q', hreads'⟩, -⟩ := Lexer.reads_of_tokenize hs'
  have hbelow := TokenStream.beginsBelow_of_tokenize hs hs' first
  generalize hnew : (s'.shift (front ++ ['\n'])).tokens = new at hbelow
  obtain ⟨t, rest, hfirst⟩ : ∃ t rest, s'.tokens = t :: rest :=
    ⟨_, Cursor.exists_cons_of_kind (c := Cursor.ofStream s')
      (by rcases first.kind_ne with hk | hk <;> simp [hk])⟩
  have hhead : t.shift (front ++ ['\n']) ∈ new.head? := by
    rw [← hnew, TokenStream.shift, hfirst]
    rfl
  -- The first text is searched as it is alone, up to where the second begins.
  let both : TokenStream := ⟨s.tokens ++ new, (s'.shift (front ++ ['\n'])).finish⟩
  have htied : (Seam.atEnd [] new).Tied (Cursor.ofStream s).ahead (Cursor.ofStream both).ahead := by
    have htied := Seam.tied_atEnd [] new fun t ht hk => hreads.value_eq ht (by rw [hk]; rfl)
    have hshift : Token.shift [] = id := rfl
    rwa [hshift, List.map_id] at htied
  obtain ⟨o₁, m₁, hrun₁, ho₁, hm₁⟩ := hcomplete.surveys hs hsuffix hbelow
    (Cursor.placeIn_ofStream s) hrun hm (fun e he => he) htied fun _ => rfl
  obtain rfl : o₁ = o := (ho₁.eq_shift Seam.shifts_atEnd).trans (Outline.shift_nil o)
  -- The second text is searched as it is alone, further down.
  have hstart : m₁.atStatementStart = true := by
    obtain ⟨passed, hpass⟩ := hrun₁.reaches
    have hplace := (Cursor.placeIn_ofStream _).passes hpass
    obtain rfl : s.tokens = passed := List.append_cancel_right (hm₁ ▸ hplace.tokens)
    refine TokenStream.atStatementStart_below hplace (by rw [hm₁]; exact hhead) (fun u hu => ?_) hdot
    refine hbelow.below u hu u ?_ _ hhead
    exact Seam.same_shift fun hk =>
      hreads.value_eq (List.mem_of_getLast? hu) (by rw [hk]; rfl)
  obtain ⟨m₂, hrun₂, hm₂⟩ := hrun'.shift hstarts hm'
    (fun t ht hk => hreads'.value_eq ht (by rw [hk]; rfl)) (hm₁.trans hnew.symm) hstart
  rw [outline, tokenize_append hs hs' hquote hinterpreter fun u hu => ?_, hnew]
  · exact Cursor.outlineFrom_of_surveys (hrun₁.append hrun₂) hm₂
  · obtain rfl : t = u := by
      rw [hfirst] at hu
      exact Option.some.inj hu
    have hkind : t.kind = .keyword .importWord ∨ t.kind = .keyword .exportWord :=
      hbelow.kind (t.shift (front ++ ['\n'])) hhead
    rcases hkind with hk | hk <;> simp [hk]

/-- No statement is swallowed by an earlier one: two texts on lines of their own have the statements
of the one and then those of the other, further down. The first text has its brackets in order and
is complete where it ends, the second begins with a statement. -/
theorem outline_append (hs : tokenize front = .ok s) (ho : outline front = .ok o)
    (hs' : tokenize back = .ok s') (ho' : outline back = .ok o')
    (hnever : ∀ us, us <+: s.tokens → 0 ≤ bracketDepth us) (hzero : bracketDepth s.tokens = 0)
    (hlast : ∀ t ∈ s.tokens.getLast?, t.kind.endsExpression = true ∨ t.kind = .mark .semicolon ∨
      t.kind = .mark .greater)
    (hstarts : (Cursor.ofStream s').startsStatement = true) (hcomplete : s.Completes o)
    (hquote : front.getLast? = some '\\' → ∀ t ∈ s.tokens, t.isLoneQuote = false)
    (hinterpreter : ¬ ['#', '!'] <+: back) :
    outline (front ++ '\n' :: back) = .ok (o ++ o'.shift (front ++ ['\n'])) := by
  have hsuffix : ∀ us, us <:+ s.tokens → bracketDepth us ≤ 0 := by
    intro us hus
    obtain ⟨ts, hts⟩ := hus
    have hdepth := hnever ts ⟨us, hts⟩
    rw [bracketDepth, ← hts, depthBy_append] at hzero
    simp only [bracketDepth] at hdepth ⊢
    omega
  have hdot : ∀ t ∈ s.tokens.getLast?, t.kind ≠ .mark .dot := by
    intro t ht hkind
    have hends := hlast t ht
    simp [hkind, TokenKind.endsExpression, TokenKind.isName, TokenKind.isCloser] at hends
  exact outline_concat hs ho hs' ho' hquote hinterpreter hsuffix hdot hcomplete hstarts

/-- A default export below an import and a variable with a type and no semicolon. -/
theorem outline_append_below_variable :
    let front := "import a from 'x'\nexport const b: A<B> = f(a)".toList
    let back := "export default b".toList
    ∃ s o s' o', tokenize front = .ok s ∧ outline front = .ok o ∧ tokenize back = .ok s' ∧
      outline back = .ok o' ∧ (∀ us, us <+: s.tokens → 0 ≤ bracketDepth us) ∧
      bracketDepth s.tokens = 0 ∧
      (∀ t ∈ s.tokens.getLast?, t.kind.endsExpression = true ∨ t.kind = .mark .semicolon ∨
        t.kind = .mark .greater) ∧
      (Cursor.ofStream s').startsStatement = true ∧ s.Completes o ∧
      (front.getLast? = some '\\' → ∀ t ∈ s.tokens, t.isLoneQuote = false) ∧
      ¬ ['#', '!'] <+: back ∧
      outline (front ++ '\n' :: back) = .ok (o ++ o'.shift (front ++ ['\n'])) := by
  intro front back
  let s := (tokenize front).toOption.getD ⟨[], .start⟩
  let o := (outline front).toOption.getD ⟨[], []⟩
  let s' := (tokenize back).toOption.getD ⟨[], .start⟩
  let o' := (outline back).toOption.getD ⟨[], []⟩
  let word : Token := ⟨.keyword .constWord, "const", "const", ⟨25, 2, 8⟩⟩
  let bound := ((s.after word).bindingNames.toOption.getD ([], s.after word)).2
  obtain ⟨hs, ho, hs', ho', hnever, hzero, hlast, hstarts, hclosed, hnamed, hword⟩ :
      (tokenize front).toOption.isSome = true ∧ (outline front).toOption.isSome = true ∧
        (tokenize back).toOption.isSome = true ∧ (outline back).toOption.isSome = true ∧
        (∀ us ∈ s.tokens.inits, 0 ≤ bracketDepth us) ∧ bracketDepth s.tokens = 0 ∧
        (∀ t ∈ s.tokens.getLast?, t.kind.endsExpression = true ∨ t.kind = .mark .semicolon ∨
          t.kind = .mark .greater) ∧
        (Cursor.ofStream s').startsStatement = true ∧
        (∀ e ∈ o.exports, ∀ t ∈ s.tokens.getLast?, e.span.stop = t.stop → e.terminated = false →
          t.kind.endsExpression = true ∨ t.kind = .mark .semicolon) ∧
        (∀ e ∈ o.exports, ∀ t ∈ s.tokens.getLast?,
          t ∉ e.form.defaultToken ∧ t ∉ e.form.declarationToken) ∧
        ∀ e ∈ o.exports, ∀ k ∈ e.form.variableToken, k = word := by
    decide +kernel
  obtain ⟨hbound, hinside, hcomma⟩ : (s.after word).bindingNames.toOption.isSome = true ∧
      bound.advance.ahead.foldl Reach.typeDepthAfter 0 = 0 ∧
      bound.skipDeclaratorRest.atMark .comma = false := by
    decide +kernel
  have hcomplete : s.Completes o := by
    refine ⟨hclosed, hnamed, fun e he k hk => ?_⟩
    rw [hword e he k hk]
    exact Cursor.not_endsInsideType (eq_ok_getD hbound ([], s.after word)) hinside hcomma
  have hquote : front.getLast? = some '\\' → ∀ t ∈ s.tokens, t.isLoneQuote = false :=
    fun hbackslash => absurd hbackslash (by decide)
  have hprefix : ∀ us, us <+: s.tokens → 0 ≤ bracketDepth us := fun us hus =>
    hnever us ((List.mem_inits us s.tokens).2 hus)
  exact ⟨s, o, s', o', eq_ok_getD hs _, eq_ok_getD ho _, eq_ok_getD hs' _, eq_ok_getD ho' _,
    hprefix, hzero, hlast, hstarts, hcomplete, hquote, by decide,
    outline_append (eq_ok_getD hs _) (eq_ok_getD ho _) (eq_ok_getD hs' _) (eq_ok_getD ho' _)
      hprefix hzero hlast hstarts hcomplete hquote (by decide)⟩

/-- Two texts with an outline each, of which the first has brackets that match and an end that may
end an expression or a type, and the second begins with a statement. Put below each other they have
another outline. -/
def Clash (front back : List Char) : Prop :=
  ∃ s o s' o', tokenize front = .ok s ∧ outline front = .ok o ∧ tokenize back = .ok s' ∧
    outline back = .ok o' ∧ (∀ us, us <+: s.tokens → 0 ≤ bracketDepth us) ∧
    bracketDepth s.tokens = 0 ∧
    (∀ t ∈ s.tokens.getLast?, t.kind.endsExpression = true ∨ t.kind = .mark .semicolon ∨
      t.kind = .mark .greater) ∧
    (Cursor.ofStream s').startsStatement = true ∧
    outline (front ++ '\n' :: back) ≠ .ok (o ++ o'.shift (front ++ ['\n']))

theorem clash_of_outlines {front back : List Char}
    (h : let s := (tokenize front).toOption.getD ⟨[], .start⟩
      let o := (outline front).toOption.getD ⟨[], []⟩
      let s' := (tokenize back).toOption.getD ⟨[], .start⟩
      let o' := (outline back).toOption.getD ⟨[], []⟩
      (tokenize front).toOption.isSome = true ∧ (outline front).toOption.isSome = true ∧
        (tokenize back).toOption.isSome = true ∧ (outline back).toOption.isSome = true ∧
        (∀ us ∈ s.tokens.inits, 0 ≤ bracketDepth us) ∧ bracketDepth s.tokens = 0 ∧
        (∀ t ∈ s.tokens.getLast?, t.kind.endsExpression = true ∨ t.kind = .mark .semicolon ∨
          t.kind = .mark .greater) ∧
        (Cursor.ofStream s').startsStatement = true ∧
        (outline (front ++ '\n' :: back)).toOption ≠ some (o ++ o'.shift (front ++ ['\n']))) :
    Clash front back := by
  obtain ⟨hs, ho, hs', ho', hnever, hzero, hlast, hstarts, hne⟩ := h
  exact ⟨_, _, _, _, eq_ok_getD hs _, eq_ok_getD ho _, eq_ok_getD hs' _, eq_ok_getD ho' _,
    fun us hus => hnever us ((List.mem_inits us _).2 hus), hzero, hlast, hstarts,
    fun heq => hne (by rw [heq]; rfl)⟩

/-- Statements that are swallowed. An expression or a type that ends in `>` goes on over the line
break, an open list of type arguments does so too, and a `function` takes its name from there. A
backslash at the end of a comment carries a lone quote on to a quote of the next line. Below another
text an interpreter line is none. -/
theorem outline_append_swallowed :
    Clash "export const icon = <Icon />".toList "import c from 'c'".toList ∧
    Clash "export let list: A<B>".toList "import c from 'c'".toList ∧
    Clash "export let list: A<B".toList "import c from 'c'".toList ∧
    Clash "export default function".toList "import c from 'c'".toList ∧
    Clash "export const a = <p>it's</p>; // \\".toList "import c from 'c'".toList ∧
    Clash "export const a = 1".toList "#!/usr/bin/env node\nimport x from 'y'".toList :=
  ⟨clash_of_outlines (by decide +kernel), clash_of_outlines (by decide +kernel),
    clash_of_outlines (by decide +kernel), clash_of_outlines (by decide +kernel),
    clash_of_outlines (by decide +kernel), clash_of_outlines (by decide +kernel)⟩

end Below

end ComponentRegistry
