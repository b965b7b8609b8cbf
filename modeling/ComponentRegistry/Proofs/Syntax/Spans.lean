import ComponentRegistry.Proofs.Rewrite.AsyncWord
import ComponentRegistry.Proofs.Rewrite.Edit

/-! # Where statements stand

The statements of a module share out stretches of its text that do not overlap, from an `import` or
`export` to the end of a token. The words that an export records are among the tokens its reader
passed over, except for an `async` on a line of its own behind `default`: the expression is taken to
end in front of it.
-/

namespace ComponentRegistry

namespace Cursor

variable {c n m : Cursor} {t : Token} {m' : Modifiers} {form : ExportForm}

/-- From one place to another, past a certain token. -/
def PassesBy (c n : Cursor) (t : Token) : Prop := ∃ passed, Passes c n passed ∧ t ∈ passed

theorem PassesBy.before (h : PassesBy c n t) (h' : Reaches n m) : PassesBy c m t := by
  obtain ⟨passed, hpass, hmem⟩ := h
  obtain ⟨others, hothers⟩ := h'
  exact ⟨_, hpass.trans hothers, List.mem_append_left _ hmem⟩

theorem Reaches.passesBy (h : Reaches c n) (h' : PassesBy n m t) : PassesBy c m t := by
  obtain ⟨others, hothers⟩ := h
  obtain ⟨passed, hpass, hmem⟩ := h'
  exact ⟨_, hothers.trans hpass, List.mem_append_right _ hmem⟩

theorem passesBy_advance (h : c.kind ≠ .endOfInput) : PassesBy c c.advance c.current :=
  ⟨_, passes_advance h, List.mem_singleton_self _⟩

theorem passesBy_current (h : c.kind ≠ .endOfInput) (h' : Reaches c.advance n) :
    PassesBy c n c.current :=
  (passesBy_advance h).before h'

/-- An expression takes up a name it begins with, unless it ends in front of it. -/
theorem passesBy_skipExpression (hname : c.kind.isName = true)
    (hline : Reach.endsStatement c.previous c.current = false) :
    PassesBy c c.skipExpression c.current := by
  have hne : c.kind ≠ .endOfInput := fun hk => by simp [hk, TokenKind.isName] at hname
  obtain ⟨rest, hrest⟩ := exists_cons_of_kind hne
  refine passesBy_current hne ?_
  have hnext : c.advance = ⟨some c.current, rest, c.finish⟩ := by
    rw [advance, hrest]
  rw [skipExpression, hrest, Seam.expressionFrom_cons (.inr (.inr hname)) hline, hnext]
  exact Reach.passes_expressionFrom ..

theorem passesBy_of_asyncInitializer (h : c.asyncInitializer = some t) :
    PassesBy c (PatternState.skipInitializer c) t := by
  obtain ⟨q, rest, hahead, hq, hasync, hnext, -⟩ := Seam.exists_of_asyncInitializer h
  have hcurrent : c.advance.current = t := current_eq_of_cons hnext
  have hequals : c.atMark .equals = true := by
    simp [atMark, kind, current_eq_of_cons hahead, hq]
  rw [PatternState.skipInitializer, if_pos hequals, ← hcurrent]
  refine (reaches_advance c).passesBy (passesBy_skipExpression ?_ ?_)
  · rw [kind, hcurrent, hasync]
    rfl
  · -- An expression does not end behind an equals sign.
    rw [(passes_cons hahead).previous]
    simp [Reach.endsStatement, hq, TokenKind.endsExpression, TokenKind.isName, TokenKind.isCloser]

theorem passesBy_of_declarators {found : List String × Option Token}
    (h : c.declarators = .ok (found, n)) : ∀ a ∈ found.2, PassesBy c n a := by
  intro a ha
  obtain ⟨names, b, hnames, hasync, hreach⟩ := Seam.declarators_cases h
  have hpass := passesBy_of_asyncInitializer (hasync.symm.trans ha)
  exact (reaches_of_bindingNames hnames).passesBy
    (Reaches.passesBy ( reaches_skipAnnotation b) (hpass.before hreach))

theorem passesBy_modifiersFrom (c : Cursor) :
    ∀ a ∈ (modifiersFrom m' c).1.async,
      m'.async = some a ∨ PassesBy c (modifiersFrom m' c).2 a := by
  intro a ha
  fun_induction modifiersFrom m' c with
  | case1 found c _ ih => exact (ih ha).imp_right (reaches_advance c).passesBy
  | case2 found c _ _ ih => exact (ih ha).imp_right (reaches_advance c).passesBy
  | case3 found c _ _ hmodifies ih =>
    right
    rcases ih ha with heq | hpass
    · obtain rfl : c.current = a := Option.some.inj heq
      exact passesBy_current (by simp [(asyncModifiesFunction_iff.1 hmodifies).1])
        (reaches_modifiersFrom _ _)
    · exact (reaches_advance c).passesBy hpass
  | case4 found c => exact .inl ha

/-- What a declaration records: the word it begins with, and an `async` word of its modifiers or of
its first initializer. -/
theorem exists_of_declared (h : c.declared m' = .ok (form, n)) :
    ∃ kind async names, form = .declaration kind c.current async names m'.ambient ∧
      PassesBy c n c.current ∧ ∀ a ∈ async, m'.async = some a ∨ PassesBy c n a := by
  have of_modifiers : ∀ a ∈ m'.async, m'.async = some a ∨ PassesBy c n a := fun a ha => .inl ha
  cases readsDeclared_of_declared h with
  | ofFunction word reads =>
    exact ⟨_, _, _, rfl, passesBy_current (by simp [kind_of_atWord word])
      ((reaches_advanceIf _ _).trans (passes_of_expectName reads).1.reaches), of_modifiers⟩
  | ofClass word reads =>
    exact ⟨_, _, _, rfl, passesBy_current (by simp [kind_of_atWord word])
      (passes_of_expectName reads).1.reaches, of_modifiers⟩
  | enumeration begins reads =>
    refine ⟨_, _, _, rfl, ?_, of_modifiers⟩
    rcases hconst : c.atWord .constWord with _ | _
    · rw [hconst] at reads
      have hword : c.atWord .enumWord = true := by simpa [atEnumeration, hconst] using begins
      exact passesBy_current (by simp [kind_of_atWord hword])
        (passes_of_expectName reads).1.reaches
    · rw [hconst] at reads
      exact passesBy_current (by simp [kind_of_atWord hconst])
        ((reaches_advance _).trans (passes_of_expectName reads).1.reaches)
  | bindings _ word reads =>
    refine ⟨_, _, _, rfl, passesBy_current (fun hk => by simp [hk, variableKind?] at word)
      (reaches_of_declarators reads), fun a ha => ?_⟩
    cases hm : m'.async with
    | some b =>
      rw [hm] at ha
      exact .inl ha
    | none =>
      rw [hm] at ha
      exact .inr ((reaches_advance c).passesBy (passesBy_of_declarators reads a ha))
  | erased word reads =>
    exact ⟨_, _, _, rfl, passesBy_current (fun hk => by simp [hk, erasedKind?] at word)
      (passes_of_expectName reads).1.reaches, of_modifiers⟩
  | ofNamespace begins reads =>
    exact ⟨_, _, _, rfl, passesBy_current (fun hk => by simp [atNamespace, hk] at begins)
      (passes_of_expectModuleName reads).reaches, of_modifiers⟩
  | importAlias word reads equals names dots =>
    exact ⟨_, _, _, rfl, passesBy_current (by simp [kind_of_atWord word])
      ((passes_of_expectName reads).1.reaches.trans
        ((passes_of_expect (by simp) equals).1.reaches.trans
          ((passes_of_expectName names).1.reaches.trans (reaches_of_dottedNames dots)))),
      of_modifiers⟩

end Cursor

/-- Whether an `async` word stands on a line of its own behind `default`. -/
def ExportForm.LeavesAsync : ExportForm → Prop
  | .defaultExpression (some default) (some async) => default.line < async.line
  | _ => False

namespace Cursor

variable {c n : Cursor} {default : Token} {form : ExportForm} {typeOnly : Bool}

/-- The words that a form records are passed over, but for an `async` that is left. -/
structure Records (c : Cursor) (form : ExportForm) (n : Cursor) : Prop where
  reaches : Reaches c n
  declaration : ∀ k ∈ form.declarationToken, PassesBy c n k
  async : ¬ form.LeavesAsync → ∀ a ∈ form.asyncToken, PassesBy c n a
  left : form.LeavesAsync → n.kind ≠ .mark .semicolon ∧ ∀ a ∈ form.asyncToken, a ∈ n.ahead

theorem Records.of_reaches {c₁ : Cursor} (h : Records c₁ form n) (h' : Reaches c c₁) :
    Records c form n :=
  ⟨h'.trans h.reaches, fun k hk => h'.passesBy (h.declaration k hk),
    fun hnot a ha => h'.passesBy (h.async hnot a ha), h.left⟩

theorem records_of_none (h : Reaches c n) (hdeclaration : form.declarationToken = none)
    (hasync : form.asyncToken = none) : Records c form n := by
  refine ⟨h, by simp [hdeclaration], by simp [hasync], fun hleaves => ?_⟩
  unfold ExportForm.LeavesAsync at hleaves
  split at hleaves
  · cases hasync
  · cases hleaves

theorem passesBy_defaultFunction (default : Token) (async : Option Token) (hc : c.kind ≠ .endOfInput) :
    PassesBy c (defaultFunction default async c).2 c.current :=
  passesBy_current hc ((reaches_advanceIf _ _).trans (reaches_advanceIf _ _))

theorem passesBy_defaultClass (default : Token) (hc : c.kind ≠ .endOfInput) :
    PassesBy c (defaultClass default c).2 c.current :=
  passesBy_current hc (reaches_advanceIf _ _)

/-- An `async` word that an expression begins with is passed over, unless the expression ends in
front of it. -/
theorem records_of_asyncExpression (hkind : c.kind = .keyword .asyncWord)
    (hprevious : c.previous = some default) (hdefault : default.kind.endsExpression = true) :
    Records c (.defaultExpression (some default) (some c.current)) c.skipExpression := by
  have hends : Reach.endsStatement c.previous c.current =
      decide (default.line < c.current.line) := by
    have hname : c.current.kind.isName = true := by rw [← kind, hkind]; rfl
    simp [Reach.endsStatement, hprevious, hdefault, hname]
  refine ⟨reaches_skipExpression c, by simp [ExportForm.declarationToken], fun hnot => ?_,
    fun hleaves => ?_⟩
  · have hpass := passesBy_skipExpression (c := c) (by rw [hkind]; rfl)
      (by simpa [hends, ExportForm.LeavesAsync] using hnot)
    simpa [ExportForm.asyncToken] using hpass
  · obtain ⟨rest, hrest⟩ := exists_cons_of_kind (c := c) (by simp [hkind])
    have hends : Reach.endsStatement c.previous c.current = true := by
      simpa [hends, ExportForm.LeavesAsync] using hleaves
    have hstay : c.skipExpression = c := by
      rw [skipExpression, hrest, Reach.expressionFrom,
        if_pos ⟨rfl, by simp [Reach.stopsExpression, hends]⟩, ← hrest]
    rw [hstay, hkind]
    simp [ExportForm.asyncToken, hrest]

theorem records_of_defaultExported (hok : c.defaultExported default = .ok (form, n))
    (hprevious : c.previous = some default) (hdefault : default.kind.endsExpression = true) :
    Records c form n ∧ ∀ d ∈ form.defaultToken, d = default := by
  have hreach := reaches_of_defaultExported hok
  cases readsDefault_of_defaultExported hok with
  | asyncFunction modifies reads =>
    obtain ⟨hasync, hfunction⟩ := asyncModifiesFunction_iff.1 modifies
    have hkeyword := passesBy_defaultFunction default (some c.current)
      (c := c.advance) (by simp [hfunction])
    have hword := passesBy_current (c := c) (by simp [hasync])
      (reaches_defaultFunction default (some c.current) c.advance)
    rw [reads] at hkeyword hword
    obtain ⟨rfl, -⟩ := Prod.mk.inj reads
    refine ⟨⟨hreach, ?_, fun _ => ?_, False.elim⟩, ?_⟩
    · simpa [ExportForm.declarationToken, defaultFunction] using
        (reaches_advance c).passesBy hkeyword
    · simpa [ExportForm.asyncToken, defaultFunction] using hword
    · simp [ExportForm.defaultToken]
  | plainFunction word reads =>
    have hkeyword := passesBy_defaultFunction default none
      (c := c) (by simp [kind_of_atWord word])
    rw [reads] at hkeyword
    obtain ⟨rfl, -⟩ := Prod.mk.inj reads
    refine ⟨⟨hreach, ?_, fun _ => ?_, False.elim⟩, ?_⟩
    · simpa [ExportForm.declarationToken, defaultFunction] using hkeyword
    · simp [ExportForm.asyncToken]
    · simp [ExportForm.defaultToken]
  | ofClass begins reads =>
    have hkeyword := passesBy_defaultClass default
      (c := c.advanceIf (c.atWord .abstractWord)) (by simp [kind_of_atClass begins])
    rw [reads] at hkeyword
    obtain ⟨rfl, -⟩ := Prod.mk.inj reads
    refine ⟨⟨hreach, ?_, fun _ => ?_, False.elim⟩, ?_⟩
    · simpa [ExportForm.declarationToken, defaultClass] using
        (reaches_advanceIf _ c).passesBy hkeyword
    · simp [ExportForm.asyncToken]
    · simp [ExportForm.defaultToken]
  | interface _ _ unnamed =>
    subst unnamed
    exact ⟨records_of_none hreach rfl rfl, by simp [ExportForm.defaultToken]⟩
  | name _ _ reads =>
    cases reads
    exact ⟨records_of_none hreach rfl rfl, by simp [ExportForm.defaultToken]⟩
  | expression _ _ reads =>
    obtain ⟨rfl, rfl⟩ := Prod.mk.inj reads
    by_cases hasync : c.atWord .asyncWord = true
    · rw [if_pos hasync]
      exact ⟨records_of_asyncExpression (kind_of_atWord hasync) hprevious hdefault,
        by simp [ExportForm.defaultToken]⟩
    · simp only [if_neg hasync] at hreach ⊢
      exact ⟨records_of_none hreach rfl rfl, by simp [ExportForm.defaultToken]⟩

/-- The word `default` comes first, and what else is recorded comes behind it. -/
theorem records_of_exportForm (hok : c.exportForm = .ok (form, n)) :
    Records c form n ∧ ∀ d ∈ form.defaultToken,
      c.ahead = d :: c.advance.ahead ∧ PassesBy c n d ∧ Records c.advance form n := by
  have hreach := reaches_of_exportForm hok
  rcases Seam.exportForm_cases hok with hkind | ⟨hnone, hasync, hdeclaration⟩ | hdeclaration
  · obtain ⟨rest, hrest⟩ := exists_cons_of_kind (c := c) (by simp [hkind])
    obtain ⟨heq, hahead, hprevious⟩ := Seam.exportForm_of_default hkind hrest
    rw [heq] at hok
    obtain ⟨hrecords, hdefault⟩ := records_of_defaultExported hok hprevious
      (by rw [← kind, hkind]; rfl)
    refine ⟨hrecords.of_reaches (reaches_advance c), fun d hd => ?_⟩
    obtain rfl := hdefault d hd
    exact ⟨by rw [hrest, hahead], passesBy_current (by simp [hkind]) hrecords.reaches, hrecords⟩
  · exact ⟨records_of_none hreach hdeclaration hasync, by simp [hnone]⟩
  · obtain ⟨kind, async, names, rfl, hkeyword, hasync⟩ := exists_of_declared hdeclaration
    refine ⟨⟨hreach, ?_, fun _ a ha => ?_, False.elim⟩, by simp [ExportForm.defaultToken]⟩
    · simpa [ExportForm.declarationToken] using
        (reaches_modifiersFrom ⟨false, none⟩ c).passesBy hkeyword
    · rcases hasync a ha with hmodifier | hpass
      · exact ((passesBy_modifiersFrom c a hmodifier).resolve_left (by simp)).before
          (reaches_of_declared hdeclaration)
      · exact (reaches_modifiersFrom _ c).passesBy hpass

/-- A semicolon is not taken in front of an `async` that is left. -/
theorem Records.exportEnding (h : Records c form n) : Records c form (n.exportEnding form).2 := by
  have hreach := reaches_exportEnding form n
  refine ⟨h.reaches.trans hreach, fun k hk => (h.declaration k hk).before hreach,
    fun hnot a ha => (h.async hnot a ha).before hreach, fun hleaves => ?_⟩
  have hstay : (n.exportEnding form).2 = n := by
    have hmark : n.atMark .semicolon = false := by simpa [atMark] using (h.left hleaves).1
    unfold Cursor.exportEnding takeSemicolon
    rw [hmark]
    split <;> rfl
  rw [hstay]
  exact h.left hleaves

theorem Records.mem_ahead {t : Token} (h : Records c form n)
    (ht : t ∈ form.asyncToken ∨ t ∈ form.declarationToken) : t ∈ c.ahead := by
  have of_passesBy : PassesBy c n t → t ∈ c.ahead := by
    rintro ⟨passed, hpass, hmem⟩
    rw [hpass.ahead]
    exact List.mem_append_left _ hmem
  rcases ht with ht | ht
  · by_cases hleaves : form.LeavesAsync
    · exact h.reaches.suffix.subset ((h.left hleaves).2 t ht)
    · exact of_passesBy (h.async hleaves t ht)
  · exact of_passesBy (h.declaration t ht)

/-- Where the words stand that an export records. -/
theorem records_of_exportStatement {e : ExportStatement} (hok : c.exportStatement = .ok (e, n)) :
    Records c e.form n ∧ ∀ d ∈ e.form.defaultToken, PassesBy c n d ∧
      ∃ lead rest, c.ahead = lead ++ d :: rest ∧
        ∀ t, t ∈ e.form.asyncToken ∨ t ∈ e.form.declarationToken → t ∈ rest := by
  obtain ⟨hexport, m, hform, hending, -⟩ := exportStatement_eq_ok.1 hok
  have hfirst := passes_advance (c := c) (by simp [hexport])
  obtain ⟨hrecords, hdefault⟩ := records_of_exportForm hform
  have hwhole := hrecords.exportEnding
  have hlast := reaches_exportEnding e.form m
  rw [hending] at hwhole hlast
  refine ⟨hwhole.of_reaches hfirst.reaches, fun d hd => ?_⟩
  obtain ⟨hahead, hpass, hbehind⟩ := hdefault d hd
  refine ⟨hfirst.reaches.passesBy (hpass.before hlast), [c.current],
    c.advance.advance.ahead, ?_, fun t ht => hbehind.mem_ahead ht⟩
  rw [hfirst.ahead, hahead]

end Cursor

/-- Whether a stretch of a text ends before another one begins. -/
def Span.Before (x y : Span) : Prop := x.stop ≤ y.start.offset

namespace Outline

/-- Statements that do not overlap, each kind of them in the order of the text. -/
structure Apart (o : Outline) : Prop where
  imports : o.imports.Pairwise fun i j => i.span.Before j.span
  exports : o.exports.Pairwise fun e f => e.span.Before f.span
  both : ∀ i ∈ o.imports, ∀ e ∈ o.exports, i.span.Before e.span ∨ e.span.Before i.span

theorem Apart.append {a b : Outline} (ha : a.Apart) (hb : b.Apart)
    (h : ∀ x ∈ a.spans, ∀ y ∈ b.spans, x.Before y) : (a ++ b).Apart := by
  have himport : ∀ {o : Outline}, ∀ i ∈ o.imports, i.span ∈ o.spans := fun i hi =>
    List.mem_append_left _ (List.mem_map_of_mem hi)
  have hexport : ∀ {o : Outline}, ∀ e ∈ o.exports, e.span ∈ o.spans := fun e he =>
    List.mem_append_right _ (List.mem_map_of_mem he)
  refine ⟨?_, ?_, fun i hi e he => ?_⟩
  · rw [imports_append, List.pairwise_append]
    exact ⟨ha.imports, hb.imports, fun i hi j hj => h _ (himport i hi) _ (himport j hj)⟩
  · rw [exports_append, List.pairwise_append]
    exact ⟨ha.exports, hb.exports, fun e he f hf => h _ (hexport e he) _ (hexport f hf)⟩
  · rcases List.mem_append.1 hi with hi | hi <;> rcases List.mem_append.1 he with he | he
    · exact ha.both i hi e he
    · exact .inl (h _ (himport i hi) _ (hexport e he))
    · exact .inr (h _ (hexport e he) _ (himport i hi))
    · exact hb.both i hi e he

end Outline

namespace Cursor

variable {s : TokenStream} {o : Outline} {front : List Token} {c n m : Cursor} {d d' : Nat}

theorem StatementAt.apart (h : StatementAt c o n) : o.Apart := by
  cases h with
  | @importing found => cases found <;> exact ⟨by simp, by simp, by simp⟩
  | exporting => exact ⟨by simp, by simp, by simp⟩

/-- Each statement ends before the next one begins. -/
theorem Surveys.apart (h : Surveys d c o d' m) (hs : s.Ordered) (hplace : PlaceIn s front c) :
    o.Apart := by
  induction h generalizing front with
  | done => exact ⟨.nil, .nil, by simp⟩
  | @statement c n m found o d first others ih =>
    obtain ⟨rest, hrest⟩ := first.passes
    refine first.apart.append (ih (hplace.passes hrest)) fun x hx y hy => ?_
    obtain ⟨t, ht, hstart⟩ := others.start_mem hy
    rw [Span.Before, first.span_eq hx, hstart]
    exact hs.stop_le_of_passes hplace hrest ht
  | pass more nothing others ih => exact ih (hplace.passes (passes_advance more))

/-- An import that is found is read somewhere. -/
theorem Surveys.exists_import {i : ImportStatement} (h : Surveys d c o d' m)
    (hplace : PlaceIn s front c) (hi : i ∈ o.imports) :
    ∃ front c n, PlaceIn s front c ∧ StatementAt c ⟨[i], []⟩ n ∧
      c.kind = .keyword .importWord := by
  obtain ⟨before, behind, hcut⟩ := List.append_of_mem hi
  obtain ⟨o₁, o₂, c₁, n₁, hfront, hstarts, hreads, -⟩ := h.cut_import hcut
  obtain ⟨passed, hpassed⟩ := hfront.reaches
  refine ⟨_, c₁, n₁, hplace.passes hpassed, .importing hstarts hreads, ?_⟩
  simp only [startsImport, Bool.and_eq_true] at hstarts
  exact kind_of_atWord hstarts.1.1.2

/-- An export that is found is read somewhere. -/
theorem Surveys.exists_export {e : ExportStatement} (h : Surveys d c o d' m)
    (hplace : PlaceIn s front c) (he : e ∈ o.exports) :
    ∃ front c n, PlaceIn s front c ∧ c.startsExport = true ∧ c.exportStatement = .ok (e, n) := by
  obtain ⟨before, behind, hcut⟩ := List.append_of_mem he
  obtain ⟨o₁, o₂, c₁, n₁, hfront, hstarts, hreads, -⟩ := h.cut_export hcut
  obtain ⟨passed, hpassed⟩ := hfront.reaches
  exact ⟨_, c₁, n₁, hplace.passes hpassed, hstarts, hreads⟩

end Cursor

namespace TokenStream

variable {s : TokenStream} {front rest : List Token} {t u : Token}

/-- The place behind the first word of a statement. -/
def behindFirst (s : TokenStream) (x : Span) : Cursor :=
  Cursor.advance ⟨none, s.onward x.start.offset, s.finish⟩

theorem Ordered.behindFirst_eq (hs : s.Ordered) (htokens : s.tokens = front ++ t :: rest) {x : Span}
    (hstart : x.start = t.start) : s.behindFirst x = ⟨some t, rest, s.finish⟩ := by
  have hall : s.before t.start.offset ++ s.onward t.start.offset = front ++ t :: rest := by
    rw [before, onward, List.takeWhile_append_dropWhile, htokens]
  rw [hs.before_eq htokens] at hall
  rw [behindFirst, hstart, List.append_cancel_left hall]
  rfl

theorem Ordered.stop_le_start (hs : s.Ordered) (ht : t ∈ s.tokens) (hu : u ∈ s.tokens)
    (hlt : t.start.offset < u.start.offset) : t.stop ≤ u.start.offset := by
  obtain ⟨front, back, hcut⟩ := List.append_of_mem ht
  rw [hcut] at hu
  rcases List.mem_append.1 hu with hu | hu
  · have := hs.start_lt hcut hu
    omega
  rcases List.mem_cons.1 hu with rfl | hu
  · exact absurd hlt (Nat.lt_irrefl _)
  · have hapart := hs.apart
    rw [hcut, List.pairwise_append] at hapart
    exact (List.pairwise_cons.1 hapart.2.1).1 u hu

end TokenStream

/-- The words of an export lie inside of it, `default` before the others, but for an `async` that
stands on a line of its own behind `default`. -/
structure ExportStatement.HoldsWords (e : ExportStatement) : Prop where
  default : ∀ d ∈ e.form.defaultToken, d.Inside e.span ∧
    ∀ t, t ∈ e.form.asyncToken ∨ t ∈ e.form.declarationToken → d.stop ≤ t.start.offset
  declaration : ∀ k ∈ e.form.declarationToken, k.Inside e.span
  async : ∀ a ∈ e.form.asyncToken, a.Inside e.span ↔ ¬ e.form.LeavesAsync

section Outline

variable {text : List Char} {s : TokenStream} {o : Outline} {front : List Token} {c n : Cursor}
  {e : ExportStatement} {x : Span}

theorem ExportStatement.holdsWords (hs : s.Ordered) (hplace : Cursor.PlaceIn s front c)
    (hstarts : c.startsExport = true) (hreads : c.exportStatement = .ok (e, n)) :
    e.HoldsWords := by
  obtain ⟨rest, hrest⟩ := (Cursor.StatementAt.exporting hstarts hreads).passes
  obtain ⟨hrecords, hdefault⟩ := Cursor.records_of_exportStatement hreads
  have inside : ∀ t, Cursor.PassesBy c n t → t.Inside e.span := by
    rintro t ⟨passed, hpassed, hmem⟩
    obtain rfl : passed = c.current :: rest :=
      List.append_cancel_right (hpassed.ahead.symm.trans hrest.ahead)
    rw [(Cursor.reaches_of_exportStatement hreads).2]
    exact hs.inside_of_passes hplace hrest hmem
  refine ⟨fun d hd => ?_, fun k hk => inside k (hrecords.declaration k hk), fun a ha => ?_⟩
  · obtain ⟨hpass, lead, others, hahead, hbehind⟩ := hdefault d hd
    refine ⟨inside d hpass, fun t ht => ?_⟩
    have hapart := hs.apart
    rw [hplace.tokens, hahead, ← List.append_assoc, List.pairwise_append] at hapart
    exact (List.pairwise_cons.1 hapart.2.1).1 t (hbehind t ht)
  · refine ⟨fun hinside hleaves => ?_, fun hnot => inside a (hrecords.async hnot a ha)⟩
    have hmem := (hrecords.left hleaves).2 a ha
    have hle := hs.stop_le_of_passes hplace hrest hmem
    have hlong := hs.nonempty a (by simp [hplace.tokens, hrest.ahead, hmem])
    rw [(Cursor.reaches_of_exportStatement hreads).2] at hinside
    have := hinside.2
    simp only at this
    omega

/-- Where a stretch of a text begins and ends. -/
structure Span.Covers (x : Span) (text : List Char) (s : TokenStream) (w : Keyword) : Prop where
  nonempty : x.start.offset < x.stop
  inside : x.stop ≤ text.length
  first : ∃ t ∈ s.tokens, t.kind = .keyword w ∧ t.start = x.start
  last : ∃ t ∈ s.tokens, t.stop = x.stop

/-- A statement takes up the text from its first word to the end of its last token. -/
theorem Cursor.StatementAt.covers {found : Outline} {w : Keyword} (h : StatementAt c found n)
    (hs : tokenize text = .ok s) (hplace : PlaceIn s front c) (hw : c.kind = .keyword w)
    (hx : x ∈ found.spans) : x.Covers text s w := by
  have hordered := TokenStream.ordered_of_tokenize hs
  obtain ⟨rest, hrest⟩ := h.passes
  have hmem : c.current ∈ s.tokens := by simp [hplace.tokens, hrest.ahead]
  have hinside := hordered.inside_of_passes hplace hrest List.mem_cons_self
  obtain ⟨u, hu⟩ : ∃ u, (c.current :: rest).getLast? = some u :=
    ⟨_, List.getLast?_eq_some_getLast (List.cons_ne_nil _ _)⟩
  have hstop : u.stop = n.passedOffset := by
    simp [passedOffset, hrest.previous, hu]
  have hlast : u ∈ s.tokens := by
    rw [hplace.tokens, hrest.ahead]
    exact List.mem_append_right _ (List.mem_append_left _ (List.mem_of_getLast? hu))
  rw [h.span_eq hx]
  refine ⟨(hordered.nonempty _ hmem).trans_le hinside.2, ?_, ⟨_, hmem, hw, rfl⟩, u, hlast, hstop⟩
  rw [← hstop]
  exact TokenStream.stop_le_length hs hlast

theorem covers_of_mem_imports {i : ImportStatement} (hs : tokenize text = .ok s)
    (ho : outline text = .ok o) (hi : i ∈ o.imports) : i.span.Covers text s .importWord := by
  obtain ⟨d, m, hrun, -⟩ := exists_surveys hs ho
  obtain ⟨front, c, n, hplace, hat, hword⟩ := hrun.exists_import (Cursor.placeIn_ofStream s) hi
  exact hat.covers hs hplace hword (by simp [Outline.spans])

theorem apart_of_outline (hs : tokenize text = .ok s) (ho : outline text = .ok o) : o.Apart := by
  obtain ⟨d, m, hrun, -⟩ := exists_surveys hs ho
  exact hrun.apart (TokenStream.ordered_of_tokenize hs) (Cursor.placeIn_ofStream s)

theorem covers_of_mem_exports (hs : tokenize text = .ok s) (ho : outline text = .ok o)
    (he : e ∈ o.exports) : e.span.Covers text s .exportWord ∧ e.HoldsWords := by
  obtain ⟨d, m, hrun, -⟩ := exists_surveys hs ho
  obtain ⟨front, c, n, hplace, hstarts, hreads⟩ :=
    hrun.exists_export (Cursor.placeIn_ofStream s) he
  have hword : c.kind = .keyword .exportWord := by
    rw [Cursor.startsExport, Bool.and_eq_true] at hstarts
    exact Cursor.kind_of_atWord hstarts.2
  exact ⟨(Cursor.StatementAt.exporting hstarts hreads).covers hs hplace hword
    (by simp [Outline.spans]),
    ExportStatement.holdsWords (TokenStream.ordered_of_tokenize hs) hplace hstarts hreads⟩

/-- An export is read behind its first word. -/
theorem exists_exportForm (hs : tokenize text = .ok s) (ho : outline text = .ok o)
    (he : e ∈ o.exports) : ∃ front t n, s.tokens = front ++ t :: (s.behindFirst e.span).ahead ∧
      t.kind = .keyword .exportWord ∧ (s.behindFirst e.span).exportForm = .ok (e.form, n) := by
  obtain ⟨d, m, hrun, -⟩ := exists_surveys hs ho
  obtain ⟨front, c, n, hplace, hstarts, hreads⟩ :=
    hrun.exists_export (Cursor.placeIn_ofStream s) he
  obtain ⟨rest, hrest⟩ := (Cursor.StatementAt.exporting hstarts hreads).passes
  have hspan := (Cursor.reaches_of_exportStatement hreads).2
  have hcut : s.tokens = front ++ c.current :: (rest ++ n.ahead) := by
    rw [hplace.tokens, hrest.ahead, List.cons_append]
  have hbehind := (TokenStream.ordered_of_tokenize hs).behindFirst_eq (x := e.span) hcut
    (by rw [hspan])
  have hadvance : c.advance = s.behindFirst e.span := by
    rw [hbehind]
    conv_lhs => rw [hplace.cons hrest.ahead]
    rfl
  obtain ⟨hkind, m, hform, -⟩ := Cursor.exportStatement_eq_ok.1 hreads
  exact ⟨front, _, m, by rw [hcut, hbehind], hkind, hadvance ▸ hform⟩

end Outline

/-- The statements of a module take up stretches of its text that do not overlap, each kind of them
in the order of the text. Each begins with the word `import` or `export` and ends with a token. The
words that an export records lie inside of it, but for an `async` on a line of its own behind
`default`. -/
theorem statements_apart {text : List Char} {s : TokenStream} {o : Outline}
    (hs : tokenize text = .ok s) (ho : outline text = .ok o) :
    o.Apart ∧ (∀ i ∈ o.imports, i.span.Covers text s .importWord) ∧
      ∀ e ∈ o.exports, e.span.Covers text s .exportWord ∧ e.HoldsWords :=
  ⟨apart_of_outline hs ho, fun _ hi => covers_of_mem_imports hs ho hi,
    fun _ he => covers_of_mem_exports hs ho he⟩

/-- Statements of both kinds, some of them on one line. -/
theorem statements_apart_mixed :
    let text := ("export default async function f() \x7b\x7d import x from 'y';\n" ++
      "export const g = async () => 1\nimport 'z'").toList
    ∃ s o, tokenize text = .ok s ∧ outline text = .ok o ∧ o.imports.length = 2 ∧
      o.exports.length = 2 ∧ o.Apart ∧
      (∀ i ∈ o.imports, i.span.Covers text s .importWord) ∧
      ∀ e ∈ o.exports, e.span.Covers text s .exportWord ∧ e.HoldsWords := by
  intro text
  let s := (tokenize text).toOption.getD ⟨[], .start⟩
  let o := (outline text).toOption.getD ⟨[], []⟩
  obtain ⟨htokens, houtline, himports, hexports⟩ :
      (tokenize text).toOption.isSome = true ∧ (outline text).toOption.isSome = true ∧
        o.imports.length = 2 ∧ o.exports.length = 2 := by
    decide +kernel
  have hs : tokenize text = .ok s := eq_ok_getD htokens _
  have ho : outline text = .ok o := eq_ok_getD houtline _
  exact ⟨s, o, hs, ho, himports, hexports, statements_apart hs ho⟩

/-- The word `async` below `default` is recorded and lies outside of its export. -/
theorem async_outside_below_default :
    let text := "export default\nasync () => 1".toList
    ∃ o e a, outline text = .ok o ∧ e ∈ o.exports ∧ e.form.asyncToken = some a ∧
      ¬ a.Inside e.span := by
  intro text
  let o := (outline text).toOption.getD ⟨[], []⟩
  let a : Token := ⟨.keyword .asyncWord, "async", "async", ⟨15, 2, 1⟩⟩
  let d : Token := ⟨.keyword .defaultWord, "default", "default", ⟨7, 1, 8⟩⟩
  obtain ⟨houtline, hexport, houtside⟩ :
      (outline text).toOption.isSome = true ∧
        ⟨.defaultExpression (some d) (some a), false, ⟨⟨0, 1, 1⟩, 14⟩⟩ ∈ o.exports ∧
        ¬ a.Inside ⟨⟨0, 1, 1⟩, 14⟩ := by
    decide +kernel
  exact ⟨o, _, a, eq_ok_getD houtline _, hexport, rfl, houtside⟩

end ComponentRegistry
