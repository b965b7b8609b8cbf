import Mathlib.Algebra.Ring.Int.Defs
import ComponentRegistry.Proofs.Lexing.Nesting
import ComponentRegistry.Proofs.Syntax.Survey

/-! # Statements at the top level

How deep the statements of an outline lie inside of blocks and templates. The search counts brackets
of all kinds with one number, which starts again at each statement, and it does not count template
expressions at all. So the braces around a statement are bounded by what earlier statements leave
open and by the round brackets that were closed too often; where neither happens, a statement lies
outside of every block.
-/

namespace ComponentRegistry

namespace TokenStream

/-- The tokens that begin before an offset. -/
def before (s : TokenStream) (offset : Nat) : List Token :=
  s.tokens.takeWhile fun t => t.start.offset < offset

/-- The tokens of a stretch of the text. -/
def within (s : TokenStream) (x : Span) : List Token :=
  s.tokens.filter fun t => x.start.offset ≤ t.start.offset && t.start.offset < x.stop

/-- The tokens stand one after the other and none is empty. -/
structure Ordered (s : TokenStream) : Prop where
  apart : s.tokens.Pairwise fun t u => t.stop ≤ u.start.offset
  nonempty : ∀ t ∈ s.tokens, t.start.offset < t.stop

theorem ordered_of_tokenize {text : List Char} {s : TokenStream} (h : tokenize text = .ok s) :
    s.Ordered := by
  obtain ⟨q, hrun⟩ := Lexer.tokensFrom_eq_ok.1 h
  exact ⟨hrun.ordered.1, fun t ht => (hrun.ordered.2 t ht).2.1⟩

variable {s : TokenStream} {front back passed : List Token} {t : Token}

theorem Ordered.start_lt (h : s.Ordered) (hs : s.tokens = front ++ t :: back) {u : Token}
    (hu : u ∈ front) : u.start.offset < t.start.offset := by
  have hlt := h.nonempty u (by simp [hs, hu])
  have hle := (List.pairwise_append.1 (hs ▸ h.apart)).2.2 u hu t List.mem_cons_self
  omega

theorem Ordered.start_le (h : s.Ordered) (hs : s.tokens = front ++ t :: back) {u : Token}
    (hu : u ∈ t :: back) : t.start.offset ≤ u.start.offset := by
  rcases List.mem_cons.1 hu with rfl | hu
  · exact Nat.le_refl _
  · have hlt := h.nonempty t (by simp [hs])
    have hpair := (List.pairwise_append.1 (hs ▸ h.apart)).2.1
    have := (List.pairwise_cons.1 hpair).1 u hu
    omega

/-- The tokens before the beginning of a token are those in front of it. -/
theorem Ordered.before_eq (h : s.Ordered) (hs : s.tokens = front ++ t :: back) :
    s.before t.start.offset = front := by
  unfold before
  rw [hs, List.takeWhile_append_of_pos fun u hu => by simpa using h.start_lt hs hu]
  simp

/-- The tokens of a stretch are those from its first to its last. -/
theorem Ordered.within_eq {last : Token} (h : s.Ordered)
    (hs : s.tokens = front ++ t :: passed ++ back) (hlast : (t :: passed).getLast? = some last) :
    s.within ⟨t.start, last.stop⟩ = t :: passed := by
  have hcut : s.tokens = front ++ t :: (passed ++ back) := by simp [hs]
  have hfront : ∀ u ∈ front, u.start.offset < t.start.offset := fun u hu => h.start_lt hcut hu
  have hmid : ∀ u ∈ t :: passed, t.start.offset ≤ u.start.offset ∧ u.start.offset < last.stop := by
    intro u hu
    refine ⟨h.start_le hcut (List.mem_append_left back hu), ?_⟩
    obtain ⟨init, hinit⟩ := List.getLast?_eq_some_iff.1 hlast
    have hmem : last ∈ s.tokens := by
      rw [hs, hinit]
      simp
    rcases List.mem_append.1 (hinit ▸ hu) with hu | hu
    · have hlast' : s.tokens = front ++ init ++ last :: back := by
        rw [hs, List.append_assoc, hinit]
        simp
      have := h.start_lt hlast' (List.mem_append_right front hu)
      have := h.nonempty last hmem
      omega
    · rw [List.mem_singleton.1 hu]
      exact h.nonempty last hmem
  have hback : ∀ u ∈ back, last.stop ≤ u.start.offset := by
    intro u hu
    have hpair := (List.pairwise_append.1 (hs ▸ h.apart)).2.2
    exact hpair last (List.mem_append_right front (List.mem_of_getLast? hlast)) u hu
  unfold within
  rw [hs, List.filter_append, List.filter_append]
  rw [List.filter_eq_nil_iff.2 fun u hu => by have := hfront u hu; simp; omega,
    List.filter_eq_self.2 fun u hu => by simpa using hmid u hu,
    List.filter_eq_nil_iff.2 fun u hu => by have := hback u hu; simp; omega]
  simp

/-- How many more brackets the statements before an offset open than they close. -/
def leftOpen (s : TokenStream) (o : Outline) (offset : Nat) : Int :=
  ((o.spans.filter fun x => x.start.offset < offset).map fun x => bracketDepth (s.within x)).sum

theorem leftOpen_append (a b : Outline) (offset : Nat) :
    s.leftOpen (a ++ b) offset = s.leftOpen a offset + s.leftOpen b offset := by
  simp only [leftOpen, Outline.spans, Outline.imports_append, Outline.exports_append,
    List.map_append, List.filter_append, List.sum_append]
  omega

theorem leftOpen_eq_zero {o : Outline} {offset : Nat}
    (h : ∀ x ∈ o.spans, offset ≤ x.start.offset) : s.leftOpen o offset = 0 := by
  unfold leftOpen
  rw [List.filter_eq_nil_iff.2 fun x hx => by simpa using h x hx]
  rfl

/-- No statement may begin directly inside of an expression embedded in a template. The search does
not look for the ends of templates, so it would find such a statement. -/
def EmbedsNoStatement (s : TokenStream) : Prop :=
  ∀ i < s.tokens.length,
    (Cursor.mk (s.tokens.take i).getLast? (s.tokens.drop i) s.finish).startsStatement = true →
    blockDepth (s.tokens.take i) = 0 → substitutionDepth (s.tokens.take i) = 0

instance (s : TokenStream) : Decidable s.EmbedsNoStatement :=
  inferInstanceAs (Decidable (∀ i < s.tokens.length, _))

theorem EmbedsNoStatement.substitutionDepth_eq (h : s.EmbedsNoStatement)
    (hs : s.tokens = front ++ t :: back)
    (hstarts : (Cursor.mk front.getLast? (t :: back) s.finish).startsStatement = true)
    (hblock : blockDepth front = 0) : substitutionDepth front = 0 := by
  have hfront : s.tokens.take front.length = front := by simp [hs]
  have hback : s.tokens.drop front.length = t :: back := by simp [hs]
  have := h front.length (by simp [hs])
  rw [hfront, hback] at this
  exact this hstarts hblock

end TokenStream

theorem bracketDepth_singleton_of_not {t : Token} (hopen : t.kind.isOpener = false)
    (hclose : t.kind.isCloser = false) : bracketDepth [t] = 0 := by
  simp [bracketDepth, depthBy_singleton, hopen, hclose]

/-- The number that the search keeps never falls behind the brackets it has passed. -/
theorem add_bracketDepth_le (d : Nat) (t : Token) :
    (d : Int) + bracketDepth [t] ≤ Reach.depthAfter d t := by
  simp only [bracketDepth, depthBy_singleton, Reach.depthAfter]
  split
  · split <;> omega
  · split <;> omega

/-- The braces of a text are those of blocks and those of embedded expressions. -/
theorem depthBy_brace_eq (ts : List Token) :
    depthBy Token.opensBrace Token.closesBrace ts = blockDepth ts + substitutionDepth ts := by
  induction ts with
  | nil => rfl
  | cons t ts ih =>
    have hsplit : depthBy Token.opensBrace Token.closesBrace [t] =
        blockDepth [t] + substitutionDepth [t] := by
      obtain ⟨kind, value, lexeme, start⟩ := t
      simp only [blockDepth, substitutionDepth, depthBy_singleton, Token.opensBrace,
        Token.closesBrace, Token.opensSubstitution, Token.closesSubstitution]
      cases kind <;> simp
    simp only [blockDepth, substitutionDepth] at ih hsplit ⊢
    rw [depthBy_cons, depthBy_cons _ _ t ts, depthBy_cons _ _ t ts]
    omega

namespace Cursor

/-- From one place to a later one, past no brackets. -/
def Plainly (c n : Cursor) : Prop := ∃ passed, Passes c n passed ∧ bracketDepth passed = 0

theorem Plainly.refl (c : Cursor) : Plainly c c := ⟨[], .refl c, rfl⟩

theorem Plainly.trans {c n m : Cursor} (h₁ : Plainly c n) (h₂ : Plainly n m) : Plainly c m := by
  obtain ⟨ts, hts, hd₁⟩ := h₁
  obtain ⟨us, hus, hd₂⟩ := h₂
  refine ⟨ts ++ us, hts.trans hus, ?_⟩
  simp only [bracketDepth] at hd₁ hd₂ ⊢
  rw [depthBy_append, hd₁, hd₂]
  rfl

theorem plainly_of_passes {c n : Cursor} {t : Token} (h : Passes c n [t])
    (hopen : t.kind.isOpener = false) (hclose : t.kind.isCloser = false) : Plainly c n :=
  ⟨[t], h, bracketDepth_singleton_of_not hopen hclose⟩

theorem plainly_of_expectName {c n : Cursor} {t : Token} (h : c.expectName = .ok (t, n)) :
    Plainly c n := by
  obtain ⟨hpass, -, hname⟩ := passes_of_expectName h
  refine plainly_of_passes hpass ?_ ?_ <;> cases hk : t.kind <;>
    simp_all [TokenKind.isName, TokenKind.isOpener, TokenKind.isCloser]

theorem plainly_of_expect {c n : Cursor} {t : Token} {kind : TokenKind}
    (hkind : kind ≠ .endOfInput) (hopen : kind.isOpener = false) (hclose : kind.isCloser = false)
    (h : c.expect kind = .ok (t, n)) : Plainly c n := by
  obtain ⟨hpass, -, rfl⟩ := passes_of_expect hkind h
  exact plainly_of_passes hpass hopen hclose

theorem plainly_takeSemicolon (c : Cursor) : Plainly c c.takeSemicolon.2 := by
  unfold takeSemicolon
  split
  · next hmark =>
    have hk : c.current.kind = .mark .semicolon := kind_of_atMark hmark
    exact plainly_of_passes (passes_advance (by simp [kind, hk])) (by simp [hk, TokenKind.isOpener])
      (by simp [hk, TokenKind.isCloser])
  · exact Plainly.refl c

theorem plainly_of_dottedNames {c n : Cursor} (h : c.dottedNames = .ok n) : Plainly c n := by
  fun_induction dottedNames c with
  | case1 => cases h
  | case2 c hdot t c' hname ih =>
    have hk : c.current.kind = .mark .dot := kind_of_atMark hdot
    have hfirst : Plainly c c.advance :=
      plainly_of_passes (passes_advance (by simp [kind, hk])) (by simp [hk, TokenKind.isOpener])
        (by simp [hk, TokenKind.isCloser])
    exact hfirst.trans ((plainly_of_expectName hname).trans (ih h))
  | case3 =>
    cases h
    exact Plainly.refl _

theorem plainly_of_importAlias {c n : Cursor} {start name : Token} {typeOnly : Bool}
    (h : c.importAlias start name typeOnly = .ok (none, n)) : Plainly c n := by
  obtain ⟨⟨sign, c₁⟩, hsign, h⟩ := bind_eq_ok.1 h
  simp only at h
  split at h
  · obtain ⟨⟨paren, c₂⟩, -, h⟩ := bind_eq_ok.1 h
    obtain ⟨⟨source, c₃⟩, -, h⟩ := bind_eq_ok.1 h
    obtain ⟨⟨paren', c₄⟩, -, h⟩ := bind_eq_ok.1 h
    obtain ⟨c₅, -, h⟩ := bind_eq_ok.1 h
    cases h
  · obtain ⟨⟨target, c₂⟩, htarget, h⟩ := bind_eq_ok.1 h
    obtain ⟨c₃, hdots, h⟩ := bind_eq_ok.1 h
    cases h
    exact (plainly_of_expect (by simp) rfl rfl hsign).trans
      ((plainly_of_expectName htarget).trans
        ((plainly_of_dottedNames hdots).trans (plainly_takeSemicolon c₃)))

/-- An import that is not reported has no brackets. -/
theorem plainly_of_importStatement {c n : Cursor} (h : c.importStatement = .ok (none, n)) :
    Plainly c n := by
  obtain ⟨⟨start, c₁⟩, hstart, h⟩ := bind_eq_ok.1 h
  have hfirst : Plainly c (c₁.advanceIf c₁.typeModifiesImport) := by
    refine (plainly_of_expect (by simp) rfl rfl hstart).trans ?_
    unfold advanceIf
    split
    · next htype =>
      have hk : c₁.current.kind = .keyword .typeWord :=
        kind_of_atWord (Bool.and_eq_true_iff.1 htype).1
      exact plainly_of_passes (passes_advance (by simp [kind, hk]))
        (by simp [hk, TokenKind.isOpener]) (by simp [hk, TokenKind.isCloser])
    · exact Plainly.refl c₁
  simp only at h
  split at h
  · obtain ⟨⟨statement, c₂⟩, -, h⟩ := bind_eq_ok.1 h
    cases h
  split at h
  · obtain ⟨⟨name, c₂⟩, hname, h⟩ := bind_eq_ok.1 h
    simp only at h
    split at h
    · exact hfirst.trans ((plainly_of_expectName hname).trans (plainly_of_importAlias h))
    split at h
    · split at h
      · obtain ⟨⟨statement, c₃⟩, -, h⟩ := bind_eq_ok.1 h
        cases h
      · cases h
    · obtain ⟨⟨statement, c₃⟩, -, h⟩ := bind_eq_ok.1 h
      cases h
  · obtain ⟨⟨statement, c₂⟩, -, h⟩ := bind_eq_ok.1 h
    cases h

/-- A place in a token stream, with the tokens in front of it. -/
structure PlaceIn (s : TokenStream) (front : List Token) (c : Cursor) : Prop where
  tokens : s.tokens = front ++ c.ahead
  previous : c.previous = front.getLast?
  finish : c.finish = s.finish

variable {s : TokenStream} {front passed : List Token} {c n : Cursor}

theorem placeIn_ofStream (s : TokenStream) : PlaceIn s [] (ofStream s) := ⟨rfl, rfl, rfl⟩

theorem PlaceIn.reaches (h : PlaceIn s front c) : Reaches (ofStream s) c :=
  ⟨front, h.tokens, h.previous.trans (Option.or_none).symm, h.finish⟩

theorem PlaceIn.passes (h : PlaceIn s front c) (hpass : Passes c n passed) :
    PlaceIn s (front ++ passed) n where
  tokens := by rw [h.tokens, hpass.ahead, List.append_assoc]
  previous := by
    rw [hpass.previous, h.previous, List.getLast?_append]
  finish := hpass.finish.trans h.finish

theorem PlaceIn.cons {t : Token} {rest : List Token} (h : PlaceIn s front c)
    (hc : c.ahead = t :: rest) : c = ⟨front.getLast?, t :: rest, s.finish⟩ := by
  obtain ⟨previous, ahead, finish⟩ := c
  simp only at hc
  simp only [hc, mk.injEq, true_and]
  exact ⟨h.previous, h.finish⟩

/-- A statement takes up at least its first word. -/
theorem StatementAt.passes {o : Outline} (h : StatementAt c o n) :
    ∃ rest, Passes c n (c.current :: rest) := by
  obtain ⟨passed, hpass⟩ := h.reaches
  obtain ⟨rest, hrest⟩ := exists_cons_of_kind (c := c)
    (by rcases h.kind_ne with hk | hk <;> simp [hk])
  have hlt := h.remaining_lt
  have hcut := hpass.ahead
  cases passed with
  | nil => simp [remaining, hcut] at hlt
  | cons t passed =>
    obtain ⟨rfl, -⟩ := List.cons.inj (hrest.symm.trans hcut)
    exact ⟨passed, hpass⟩

/-- What a statement leaves open is counted where it is reported, and one that is not reported
leaves nothing open. -/
theorem StatementAt.bracketDepth_eq {o : Outline} (h : StatementAt c o n) (hs : s.Ordered)
    (hplace : PlaceIn s front c) (hpass : Passes c n passed) {offset : Nat}
    (hoffset : c.current.start.offset < offset) : s.leftOpen o offset = bracketDepth passed := by
  obtain ⟨rest, hrest⟩ := h.passes
  have hpassed : passed = c.current :: rest :=
    List.append_cancel_right (hpass.ahead.symm.trans hrest.ahead)
  have hwithin : ∀ x ∈ o.spans, s.within x = passed := by
    intro x hx
    obtain ⟨last, hlast⟩ : ∃ last, (c.current :: rest).getLast? = some last :=
      ⟨_, List.getLast?_eq_some_getLast (List.cons_ne_nil _ _)⟩
    have hstop : n.passedOffset = last.stop := by
      simp [passedOffset, hrest.previous, hlast]
    rw [h.span_eq hx, hstop, hpassed]
    exact hs.within_eq (by rw [hplace.tokens, hrest.ahead, List.append_assoc]) hlast
  have hstart : ∀ x ∈ o.spans, x.start.offset < offset := fun x hx => by
    rw [h.span_eq hx]
    exact hoffset
  unfold TokenStream.leftOpen
  rw [List.filter_eq_self.2 fun x hx => by simpa using hstart x hx]
  cases h with
  | @importing found n starts reads =>
    cases found with
    | some found => simp [Outline.spans, hwithin found.span (by simp [Outline.spans])]
    | none =>
      obtain ⟨passed', hpass', hzero⟩ := plainly_of_importStatement reads
      have : passed = passed' := List.append_cancel_right (hpass.ahead.symm.trans hpass'.ahead)
      simp [Outline.spans, this, hzero]
  | @exporting found n starts reads =>
    simp [Outline.spans, hwithin found.span (by simp [Outline.spans])]

/-- A statement is found at a token ahead. -/
theorem Surveys.start_mem {d d' : Nat} {m : Cursor} {o : Outline} (h : Surveys d c o d' m)
    {x : Span} (hx : x ∈ o.spans) : ∃ t ∈ c.ahead, x.start = t.start := by
  induction h with
  | done => simp [Outline.spans] at hx
  | @statement c n m found o d first _ ih =>
    obtain ⟨rest, hrest⟩ := first.passes
    rcases Outline.mem_spans_append.1 hx with hx | hx
    · exact ⟨c.current, by simp [hrest.ahead], by rw [first.span_eq hx]⟩
    · obtain ⟨t, ht, hstart⟩ := ih hx
      exact ⟨t, by simp [hrest.ahead, ht], hstart⟩
  | pass _ _ _ ih =>
    obtain ⟨t, ht, hstart⟩ := ih hx
    exact ⟨t, (reaches_advance _).suffix.mem ht, hstart⟩

/-- A statement that the search finds begins where one may begin, and no deeper inside of brackets
than the statements before it leave open. -/
theorem Surveys.bracketDepth_le {d d' : Nat} {m : Cursor} {o : Outline} (h : Surveys d c o d' m)
    (hs : s.Ordered) (hplace : PlaceIn s front c) {k : Int} (hk : bracketDepth front ≤ d + k)
    {x : Span} (hx : x ∈ o.spans) :
    ∃ front' t rest, s.tokens = front' ++ t :: rest ∧ x.start = t.start ∧
      (Cursor.mk front'.getLast? (t :: rest) s.finish).startsStatement = true ∧
      bracketDepth front' ≤ k + s.leftOpen o x.start.offset := by
  induction h generalizing front k with
  | done => simp [Outline.spans] at hx
  | @statement c n m found o d first others ih =>
    obtain ⟨rest, hrest⟩ := first.passes
    have hahead : c.ahead = c.current :: (rest ++ n.ahead) := hrest.ahead
    have hlater : ∀ y ∈ o.spans, c.current.start.offset < y.start.offset := by
      intro y hy
      obtain ⟨t, ht, hstart⟩ := others.start_mem hy
      have hpair := (List.pairwise_append.1 (hplace.tokens ▸ hs.apart)).2.1
      rw [hahead, List.pairwise_cons] at hpair
      have := hpair.1 t (List.mem_append_right rest ht)
      have := hs.nonempty c.current (by simp [hplace.tokens, hahead])
      rw [hstart]
      omega
    rcases Outline.mem_spans_append.1 hx with hx | hx
    · refine ⟨front, c.current, rest ++ n.ahead, hahead ▸ hplace.tokens, by rw [first.span_eq hx],
        (hplace.cons hahead) ▸ first.startsStatement, ?_⟩
      have hfound : ∀ y ∈ (found ++ o).spans, x.start.offset ≤ y.start.offset := by
        intro y hy
        rw [first.span_eq hx]
        rcases Outline.mem_spans_append.1 hy with hy | hy
        · exact Nat.le_of_eq (by rw [first.span_eq hy])
        · exact Nat.le_of_lt (hlater y hy)
      rw [TokenStream.leftOpen_eq_zero hfound]
      simpa using hk
    · have hdepth := first.bracketDepth_eq hs hplace hrest (hlater x hx)
      have hk' : bracketDepth (front ++ c.current :: rest) ≤
          ((0 : Nat) : Int) + (k + s.leftOpen found x.start.offset) := by
        rw [hdepth]
        simp only [bracketDepth] at hk ⊢
        rw [depthBy_append]
        omega
      obtain ⟨front', t, rest', htokens, hstart, hstarts, hle⟩ :=
        ih (hplace.passes hrest) hk' hx
      refine ⟨front', t, rest', htokens, hstart, hstarts, ?_⟩
      rw [TokenStream.leftOpen_append]
      omega
  | @pass d d' c m o more _ others ih =>
    have hk' : bracketDepth (front ++ [c.current]) ≤
        (Reach.depthAfter d c.current : Int) + k := by
      have := add_bracketDepth_le d c.current
      simp only [bracketDepth] at hk this ⊢
      rw [depthBy_append]
      omega
    exact ih (hplace.passes (passes_advance more)) hk' hx

end Cursor

/-- Nested code is not taken for a statement: the statements of an outline stand outside of all
blocks and embedded expressions, as far as brackets match. The two ways in which they may not are
that earlier statements leave more brackets open than there are round brackets open at the place,
and that a statement begins directly inside of an embedded expression. Of the first, the excess is
a bound in any case. -/
theorem outside_braces_of_mem_spans {text : List Char} {s : TokenStream} {o : Outline}
    (hs : tokenize text = .ok s) (ho : outline text = .ok o) {x : Span} (hx : x ∈ o.spans) :
    blockDepth (s.before x.start.offset) ≤
        s.leftOpen o x.start.offset - roundDepth (s.before x.start.offset) ∧
      (s.leftOpen o x.start.offset ≤ roundDepth (s.before x.start.offset) →
        s.EmbedsNoStatement →
        (s.before x.start.offset).countP Token.opensBrace =
          (s.before x.start.offset).countP Token.closesBrace) := by
  have hordered := TokenStream.ordered_of_tokenize hs
  obtain ⟨s', hs', houtline⟩ := bind_eq_ok.1 ho
  obtain rfl : s = s' := by simpa [hs] using hs'
  obtain ⟨d', m, hrun, -⟩ := Cursor.outlineFrom_eq_ok.1 houtline
  obtain ⟨front, t, rest, htokens, hstart, hstarts, hle⟩ :=
    hrun.bracketDepth_le hordered (Cursor.placeIn_ofStream s) (k := 0) (by simp) hx
  rw [Int.zero_add, bracketDepth_eq] at hle
  have hbefore : s.before x.start.offset = front := hstart ▸ hordered.before_eq htokens
  rw [hbefore]
  refine ⟨by omega, fun hround htemplates => ?_⟩
  obtain ⟨q, hreads⟩ := Lexer.tokensFrom_eq_ok.1 hs
  obtain ⟨_, _, _, _, hfront, -⟩ := (htokens ▸ hreads).cut
  have hnonneg := hfront.depth_nonneg rfl
  have hblock : blockDepth front = 0 := by omega
  have hsubstitution := htemplates.substitutionDepth_eq htokens hstarts hblock
  have hbrace := depthBy_brace_eq front
  rw [hblock, hsubstitution] at hbrace
  simp only [depthBy] at hbrace
  omega

/-- A statement after a template and a block, with an export inside of the block. -/
theorem outside_braces_after_template :
    let text := ("export const a = \x60$\x7b \x7b b: 1 \x7d \x7d\x60\n" ++
      "if (a) \x7b\n  export const c = 1\n\x7d\nexport \x7b a \x7d").toList
    ∃ s o x, tokenize text = .ok s ∧ outline text = .ok o ∧ x ∈ o.spans ∧
      (s.before x.start.offset).countP Token.opensBrace = 3 ∧
      s.leftOpen o x.start.offset ≤ roundDepth (s.before x.start.offset) ∧ s.EmbedsNoStatement ∧
      (s.before x.start.offset).countP Token.opensBrace =
        (s.before x.start.offset).countP Token.closesBrace := by
  intro text
  let s := (tokenize text).toOption.getD ⟨[], .start⟩
  let o := (outline text).toOption.getD ⟨[], []⟩
  obtain ⟨htokens, houtline, hx, hcount, hround, htemplates⟩ :
      (tokenize text).toOption.isSome = true ∧ (outline text).toOption.isSome = true ∧
        ⟨⟨65, 5, 1⟩, 77⟩ ∈ o.spans ∧ (s.before 65).countP Token.opensBrace = 3 ∧
        s.leftOpen o 65 ≤ roundDepth (s.before 65) ∧ s.EmbedsNoStatement := by
    decide +kernel
  have hs : tokenize text = .ok s := eq_ok_getD htokens _
  have ho : outline text = .ok o := eq_ok_getD houtline _
  exact ⟨s, o, _, hs, ho, hx, hcount, hround, htemplates,
    (outside_braces_of_mem_spans hs ho hx).2 hround htemplates⟩

/-- A parenthesis in the text of an element closes the block around it for the search. -/
theorem inside_braces_after_markup :
    let text := "namespace N \x7b const s = (<p> :) </p>)\nexport const b = 1 \x7d".toList
    ∃ s o x, tokenize text = .ok s ∧ outline text = .ok o ∧ x ∈ o.spans ∧
      (s.before x.start.offset).countP Token.opensBrace ≠
        (s.before x.start.offset).countP Token.closesBrace := by
  intro text
  let s := (tokenize text).toOption.getD ⟨[], .start⟩
  let o := (outline text).toOption.getD ⟨[], []⟩
  obtain ⟨htokens, houtline, hx, hcount⟩ :
      (tokenize text).toOption.isSome = true ∧ (outline text).toOption.isSome = true ∧
        ⟨⟨38, 2, 1⟩, 56⟩ ∈ o.spans ∧
        (s.before 38).countP Token.opensBrace ≠ (s.before 38).countP Token.closesBrace := by
    decide +kernel
  exact ⟨s, o, _, eq_ok_getD htokens _, eq_ok_getD houtline _, hx, hcount⟩

end ComponentRegistry
