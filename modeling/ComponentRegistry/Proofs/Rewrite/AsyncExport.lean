import ComponentRegistry.Proofs.Lexing.Omission
import ComponentRegistry.Proofs.Outcome
import ComponentRegistry.Proofs.Rewrite.AsyncWord
import ComponentRegistry.Proofs.Rewrite.Edit
import ComponentRegistry.Proofs.Rewrite.ExportSite

/-! # Synchronous exports stay synchronous

The exports of a text lose their `async` words one after the other, from the back of the text to its
front. What stands in front of a word that is left out stays where it is, so that the turn of the
other words can come later. In the end the same statements are there, and none has such a word.
-/

namespace ComponentRegistry

open Lexer

/-- An export whose `async` word can be left out. What follows the word goes on without it, an
expression begins on the line of the word `default`, and no export in front waits for a name. -/
structure ExportStatement.Releases (s : TokenStream) (o : Outline) (e : ExportStatement)
    (async : Token) : Prop where
  yields : async.YieldsTo (s.onward async.stop)
  line : (∃ t ∈ (s.onward async.stop).head?, t.kind = .keyword .functionWord) ∨
    ∀ d ∈ e.form.defaultToken, d.line = async.line
  fresh : ∀ p ∈ (s.before e.span.start.offset).getLast?, p.kind ≠ .mark .star ∧
    ∀ x ∈ o.exports, x.span.start.offset < e.span.start.offset →
      p ∉ x.form.defaultToken ∧ p ∉ x.form.declarationToken

instance (s : TokenStream) (o : Outline) (e : ExportStatement) (async : Token) :
    Decidable (e.Releases s o async) :=
  decidable_of_iff (async.YieldsTo (s.onward async.stop) ∧
      ((∃ t ∈ (s.onward async.stop).head?, t.kind = .keyword .functionWord) ∨
        ∀ d ∈ e.form.defaultToken, d.line = async.line) ∧
      ∀ p ∈ (s.before e.span.start.offset).getLast?, p.kind ≠ .mark .star ∧
        ∀ x ∈ o.exports, x.span.start.offset < e.span.start.offset →
          p ∉ x.form.defaultToken ∧ p ∉ x.form.declarationToken)
    ⟨fun ⟨yields, line, fresh⟩ => ⟨yields, line, fresh⟩, fun h => ⟨h.yields, h.line, h.fresh⟩⟩

/-- Where an export with an `async` word stands among the tokens of a text, and what is found around
it. -/
structure AsyncSite (s : TokenStream) (o : Outline) (e : ExportStatement) (async : Token)
    (front back : List ExportStatement) extends ExportSite s o e front back where
  /-- Its tokens between the word `export` and the word `async`. -/
  lead : List Token
  /-- The tokens behind the word `async`. -/
  rest : List Token
  frees : Seam.FreesExport c e n async lead rest

section Omission

variable {text text' : List Char} {s s' : TokenStream} {o o' : Outline} {e : ExportStatement}
  {async : Token} {front back : List ExportStatement}

theorem exists_asyncSite (hs : tokenize text = .ok s) (ho : outline text = .ok o)
    (hexports : o.exports = front ++ e :: back) (hasync : e.form.asyncToken = some async) :
    Nonempty (AsyncSite s o e async front back) := by
  obtain ⟨site⟩ := exists_exportSite hs ho hexports
  obtain ⟨lead, rest, hfrees⟩ := Seam.exists_freesExport site.reads hasync
  exact ⟨⟨site, lead, rest, hfrees⟩⟩

namespace AsyncSite

variable (site : AsyncSite s o e async front back)

theorem tokens : s.tokens = (site.passed ++ site.c.current :: site.lead) ++ async :: site.rest := by
  rw [site.place.tokens, site.frees.ahead, List.append_assoc]

theorem tokens_cons :
    s.tokens = site.passed ++ site.c.current :: (site.lead ++ async :: site.rest) := by
  rw [site.tokens, List.append_assoc, List.cons_append]

theorem start_le (hs : tokenize text = .ok s) :
    site.c.current.start.offset ≤ async.start.offset :=
  (TokenStream.ordered_of_tokenize hs).start_le site.tokens_cons (by simp)

theorem onward (hs : tokenize text = .ok s) : s.onward async.stop = site.rest :=
  (TokenStream.ordered_of_tokenize hs).onward_eq site.tokens

theorem last_mem {u : Token}
    (hu : u ∈ (site.passed ++ site.c.current :: site.lead).getLast?) :
    u ∈ (site.c.current :: site.lead).getLast? := by
  rw [List.getLast?_append] at hu
  simpa using hu

/-- The text without the word reads as the same tokens without it. -/
theorem omitted {blanks tail : List Char} (hs : tokenize text = .ok s)
    (h : e.Releases s o async) (htail : text.drop async.stop = blanks ++ tail)
    (hblanks : ∀ c ∈ blanks, isInlineBlank c = true) :
    ∃ after' finish, WordOmitted (text.take async.start.offset ++ tail) async blanks
      (site.passed ++ site.c.current :: site.lead) site.rest after' finish := by
  refine tokenize_omit hs site.tokens (by rw [site.frees.kind]; rfl)
    ⟨site.c.current, by simp, site.kind_current⟩
    (fun u hu => site.frees.last u (site.last_mem hu)) htail hblanks fun v hv => ?_
  obtain ⟨ts, hts⟩ := List.head?_eq_some_iff.1 hv
  have hyields := h.yields
  rw [site.onward hs, hts] at hyields
  have hplain := hyields.plain
  simp only [List.mem_cons, List.not_mem_nil, or_false, not_or] at hplain
  exact ⟨hplain.1, hplain.2.1, hplain.2.2.1⟩

/-- The export can be read from these tokens. -/
theorem resumes {blanks : List Char} {after' : List Token} {finish : Position}
    (hs : tokenize text = .ok s) (h : e.Releases s o async)
    (homitted : WordOmitted text' async blanks
      (site.passed ++ site.c.current :: site.lead) site.rest after' finish) :
    Seam.Resumes (async.start.advance (async.lexeme.toList ++ blanks)) async.start async
      (site.c.current :: site.lead) site.rest after' := by
  obtain ⟨⟨q, hreads⟩, -⟩ := reads_of_tokenize hs
  have hvalue : ∀ t ∈ s.tokens, t.kind = .mark .semicolon → t.value = ";" := by
    intro t ht hk
    exact hreads.value_eq ht (by rw [hk]; rfl)
  refine ⟨Seam.tied_atBack homitted.moved fun t ht => hvalue t ?_, homitted.line.symm,
    site.onward hs ▸ h.yields, fun u hu hname t ht => ?_, fun u hu => hvalue u ?_⟩
  · rw [site.tokens]
    simp [ht]
  · have hlt := homitted.apart u (by rw [List.getLast?_append, hu]; rfl) hname
    have hle : async.start.offset ≤ t.start.offset := by
      obtain ⟨ts, hts⟩ := List.head?_eq_some_iff.1 ht
      have hmoved := homitted.moved
      rw [hts] at hmoved
      generalize site.rest = rest at hmoved
      cases hmoved with
      | cons first _ =>
        obtain ⟨passed, -, rfl⟩ := first
        rw [Position.offset_advance]
        omega
    omega
  · rw [site.tokens]
    simp only [List.mem_append]
    exact .inl (.inr hu)

/-- What the search finds in front of the export does not depend on the word. -/
theorem surveys_inFront {here here' : Position} {after' : List Token} (hs : tokenize text = .ok s)
    (ho : o.exports = front ++ e :: back) (h : e.Releases s o async)
    (hr : Seam.Resumes here here' async (site.c.current :: site.lead) site.rest after')
    (htokens : s'.tokens = site.passed ++ (site.c.current :: (site.lead ++ after'))) :
    ∃ c', Cursor.Surveys 0 (.ofStream s') site.above 0 c' ∧
      Cursor.PlaceIn s' site.passed c' := by
  refine site.toExportSite.surveys_inFront hs (fun u hu => ?_) (fun x hx _ p hp => ?_) htokens
  · cases hlead : site.lead with
    | nil =>
      rw [hlead] at hu
      obtain ⟨t, ts, t', ts', hrest, rfl, first, -⟩ := hr.exists_cons
      obtain rfl : t' = u := Option.some.inj hu
      have hyields := hr.yields
      rw [hrest] at hyields
      intro hk
      exact hyields.plain (by rw [← first.kind, hk]; decide)
    | cons v lead =>
      rw [hlead] at hu
      obtain rfl : v = u := Option.some.inj hu
      have hnext := site.at_statement.followingKind_ne
      rwa [Cursor.followingKind, Cursor.peek, site.frees.ahead, hlead] at hnext
  · obtain ⟨hstar, hother⟩ := h.fresh p (by rwa [site.before hs])
    have hlt := site.start_lt hs
      (List.mem_append_right _ (List.mem_map_of_mem (site.exports_above.symm ▸ hx)))
    exact ⟨hstar, hother x (by rw [ho]; exact List.mem_append_left _ hx) (by rwa [site.start])⟩

end AsyncSite

/-- A word that is followed by an export with no token between is no `async` word to be left out. -/
theorem Token.YieldsTo.of_export {t : Token} {others rest rest' : List Token}
    (h : async.YieldsTo (others ++ t :: rest)) (ht : t.kind = .keyword .exportWord) :
    async.YieldsTo (others ++ t :: rest') := by
  cases others with
  | nil =>
    rcases h with hk | ⟨hk, -⟩ | ⟨hk, -⟩ | ⟨-, -, hk, -⟩
    · simp [ht] at hk
    · simp [ht] at hk
    · simp [ht] at hk
    · exact absurd (by rw [ht]; decide) hk
  | cons u others =>
    cases others with
    | nil => exact h
    | cons v others => exact h

/-- The `async` word of an export can still be left out when a text changes behind a later export. -/
theorem ExportStatement.Releases.of_changed {t : Token} {others rest rest' : List Token}
    (h : e.Releases s o async) (ht : t.kind = .keyword .exportWord)
    (hs : s.tokens = others ++ t :: rest) (hs' : s'.tokens = others ++ t :: rest')
    (hstart : e.span.start.offset ≤ t.start.offset) (hstop : async.stop ≤ t.start.offset)
    (hexports : ∀ x ∈ o'.exports, x.span.start.offset < t.start.offset → x ∈ o.exports) :
    e.Releases s' o' async := by
  have hbefore : s'.before e.span.start.offset = s.before e.span.start.offset := by
    rw [TokenStream.before_append hs (by simpa), TokenStream.before_append hs' (by simpa)]
  obtain ⟨yields, line, fresh⟩ := h
  rw [TokenStream.onward_append hs (by simpa)] at yields line
  constructor
  · rw [TokenStream.onward_append hs' (by simpa)]
    exact yields.of_export ht
  · rw [TokenStream.onward_append hs' (by simpa)]
    cases hothers : others.dropWhile fun t => decide (t.start.offset < async.stop) with
    | nil => rwa [hothers] at line
    | cons u us => rwa [hothers] at line
  · rw [hbefore]
    intro p hp
    obtain ⟨hstar, hother⟩ := fresh p hp
    exact ⟨hstar, fun x hx hlt => hother x (hexports x hx (by omega)) hlt⟩

/-- The same export elsewhere, with no `async` word. -/
structure ExportStatement.Synchronous (e x : ExportStatement) : Prop where
  alike : e.Alike x
  async : x.form.asyncToken = none

theorem ExportStatement.Synchronous.same {S : Seam} {x x' : ExportStatement}
    (h : e.Synchronous x) (h' : S.SameExport x x') : e.Synchronous x' := by
  refine ⟨h.alike.trans h'.alike, ?_⟩
  have hasync := h.async
  obtain ⟨form, terminated, span⟩ := x
  obtain ⟨form', terminated', span'⟩ := x'
  obtain ⟨hform, -, -⟩ := h'
  cases hform with
  | declaration _ relation | defaultDeclaration _ relation _ | defaultExpression _ relation =>
    obtain rfl := hasync
    cases relation
    rfl
  | _ => rfl

/-- An edit that leaves out a word and blanks after it. -/
structure Token.OmittedBy (word : Token) (text : List Char) (edit : Edit) : Prop where
  start : edit.start = word.start.offset
  replacement : edit.replacement = []
  stop : ∃ blanks, edit.stop = word.stop + blanks.length ∧ blanks <+: text.drop word.stop ∧
    ∀ c ∈ blanks, isInlineBlank c = true

namespace Token.OmittedBy

variable {word : Token} {edit : Edit}

/-- The edit for a word leaves it out. -/
theorem of_removeWord (text : List Char) (word : Token) :
    word.OmittedBy text (removeWord text word) :=
  ⟨rfl, rfl, _, rfl, List.takeWhile_prefix _, List.all_eq_true.1 List.all_takeWhile⟩

/-- An edit in front of a place does not depend on what stands behind that place. -/
theorem of_take {x : Nat} (h : word.OmittedBy text edit) (hx : edit.stop ≤ x)
    (same : text'.take x = text.take x) : word.OmittedBy text' edit := by
  obtain ⟨start, replacement, blanks, stop, first, blank⟩ := h
  exact ⟨start, replacement, blanks, stop, prefix_drop_of_take first (by omega) same, blank⟩

/-- The blanks behind a word end in front of every later token. -/
theorem stop_le {t : Token} (h : word.OmittedBy text edit) (hs : tokenize text = .ok s)
    (ht : t ∈ s.tokens) (hle : word.stop ≤ t.start.offset) : edit.stop ≤ t.start.offset := by
  obtain ⟨-, -, blanks, stop, first, blank⟩ := h
  rw [stop]
  exact TokenStream.add_length_le hs ht hle first fun c hc => isSpace_of_isInlineBlank (blank c hc)

theorem exists_blanks (h : word.OmittedBy text edit) : ∃ blanks tail,
    text.drop word.stop = blanks ++ tail ∧ (∀ c ∈ blanks, isInlineBlank c = true) ∧
      edit.apply text = text.take word.start.offset ++ tail := by
  obtain ⟨start, replacement, blanks, stop, ⟨tail, cut⟩, blank⟩ := h
  refine ⟨blanks, tail, cut.symm, blank, ?_⟩
  rw [Edit.apply, start, replacement, stop, ← List.drop_drop, ← cut, List.drop_left,
    List.append_nil]

/-- Leaving out a word leaves the text in front of it as it is. -/
theorem take_apply (h : word.OmittedBy text edit) (hs : tokenize text = .ok s)
    (hword : word ∈ s.tokens) :
    (edit.apply text).take word.start.offset = text.take word.start.offset := by
  have inside := TokenStream.start_lt_length hs hword
  rw [← h.start]
  exact Edit.take_apply (by rw [h.start]; omega)

end Token.OmittedBy

/-- What a text and its outline become when the `async` word of one of its exports is left out. -/
structure AsyncOmitted (text' : List Char) (s s' : TokenStream) (o o' : Outline)
    (e : ExportStatement) (front back : List ExportStatement) : Prop where
  tokenized : tokenize text' = .ok s'
  outlined : outline text' = .ok o'
  imports : List.Forall₂ ImportStatement.Alike o.imports o'.imports
  exports : ∃ S : Seam, ∃ e' back', o'.exports = front ++ e' :: back' ∧ e.Synchronous e' ∧
    List.Forall₂ S.SameExport back back'
  releases : ∀ x ∈ front, ∀ a ∈ x.form.asyncToken, x.Releases s o a → x.Releases s' o' a

namespace AsyncSite

variable (site : AsyncSite s o e async front back)

theorem async_mem (site : AsyncSite s o e async front back) : async ∈ s.tokens := by
  rw [site.tokens]
  simp

/-- The `async` words of other exports in front of this one end before it. -/
theorem stop_le (hs : tokenize text = .ok s) (ho : outline text = .ok o)
    (hexports : o.exports = front ++ e :: back) {x : ExportStatement} (hx : x ∈ front) {a : Token}
    (ha : x.form.asyncToken = some a) : a.stop ≤ site.c.current.start.offset := by
  have hordered := TokenStream.ordered_of_tokenize hs
  obtain ⟨front₁, front₂, rfl⟩ := List.append_of_mem hx
  have hcut : o.exports = front₁ ++ x :: (front₂ ++ e :: back) := by simp [hexports]
  obtain ⟨other⟩ := exists_asyncSite hs ho hcut ha
  -- The export stands behind the word, or begins with it, and it begins with another word.
  obtain ⟨d, m, hbelow, -⟩ := other.surveys_below
  obtain ⟨t, ht, hstart⟩ := hbelow.start_mem (x := e.span)
    (List.mem_append_right _ (List.mem_map_of_mem (by simp [other.exports_below])))
  have hle : a.start.offset ≤ site.c.current.start.offset := by
    rw [← site.start, hstart]
    exact hordered.start_le other.tokens (other.frees.behind.subset ht)
  have hapart := hordered.apart
  rw [site.tokens_cons, List.pairwise_append] at hapart
  have hmem := other.async_mem
  rw [site.tokens_cons] at hmem
  rcases List.mem_append.1 hmem with hmem | hmem
  · exact hapart.2.2 a hmem _ List.mem_cons_self
  exfalso
  rcases List.mem_cons.1 hmem with rfl | hmem
  · have hkind := site.kind_current
    rw [Cursor.kind, other.frees.kind] at hkind
    cases hkind
  · have := (List.pairwise_cons.1 hapart.2.1).1 a hmem
    have := hordered.nonempty site.c.current (by simp [site.tokens_cons])
    omega

/-- The export is read without its word. -/
theorem statementAt {here here' : Position} {after' : List Token} {c' : Cursor}
    (site : AsyncSite s o e async front back) (hs : tokenize text = .ok s)
    (h : e.Releases s o async)
    (hr : Seam.Resumes here here' async (site.c.current :: site.lead) site.rest after')
    (hplace : Cursor.PlaceIn s' site.passed c')
    (hahead : c'.ahead = site.c.current :: site.lead ++ after') :
    ∃ e' n', Cursor.StatementAt c' ⟨[], [e']⟩ n' ∧ e.Synchronous e' ∧
      (Seam.atBack here here').Matches site.n n' := by
  have hline := h.line
  rw [site.onward hs] at hline
  obtain ⟨e', n', hreads, hfreed, hmatches⟩ := site.frees.reads hr hahead hline
  have hstarts := site.startsExport hplace hahead
  obtain ⟨hkindName, hnames, hdefault, -, hasync⟩ := hfreed
  exact ⟨e', n', .exporting hstarts hreads, ⟨⟨hkindName, hnames, hdefault⟩, hasync⟩, hmatches⟩

/-- The export is read without its word, and everything else is found again. -/
theorem outline_apply (site : AsyncSite s o e async front back) {edit : Edit}
    (hs : tokenize text = .ok s) (ho : outline text = .ok o)
    (hexports : o.exports = front ++ e :: back) (h : e.Releases s o async)
    (hedit : async.OmittedBy text edit) :
    ∃ s' o', AsyncOmitted (edit.apply text) s s' o o' e front back := by
  obtain ⟨blanks, tail, htail, hblanks, happly⟩ := hedit.exists_blanks
  obtain ⟨after', finish, homitted⟩ := site.omitted hs h htail hblanks
  rw [← happly] at homitted
  have hr := site.resumes hs h homitted
  have hnew : (⟨site.passed ++ site.c.current :: site.lead ++ after', finish⟩ :
      TokenStream).tokens = site.passed ++ site.c.current :: (site.lead ++ after') := by simp
  obtain ⟨c', habove, hplace⟩ := site.surveys_inFront hs hexports h hr hnew
  have hahead : c'.ahead = site.c.current :: site.lead ++ after' := by
    have hcut := hnew.symm.trans hplace.tokens
    exact (List.append_cancel_left hcut).symm
  obtain ⟨e', n', hat, hsynchronous, hmatches⟩ := site.statementAt hs h hr hplace hahead
  -- What stands behind it is found again.
  obtain ⟨d, m, hbelow, hm⟩ := site.surveys_below
  obtain ⟨below', m', hbelow', hsame, hm'⟩ := hmatches.surveys hbelow (Nat.zero_le _)
    (fun hextends => absurd rfl hextends.2) fun _ _ _ _ => Seam.meets_of_nil rfl rfl
  have hbehind := Cursor.Surveys.statement hat hbelow'
  have houtline : outline (edit.apply text) = .ok (site.above ++ (⟨[], [e']⟩ ++ below')) := by
    rw [outline, homitted.tokenized]
    exact Cursor.outlineFrom_eq_ok.2 ⟨d, m', habove.append hbehind, hm'.kind_atBack.trans hm⟩
  have hordered' := TokenStream.ordered_of_tokenize homitted.tokenized
  have hfound : ∀ x ∈ (site.above ++ (⟨[], [e']⟩ ++ below')).exports,
      x.span.start.offset < site.c.current.start.offset → x ∈ o.exports := by
    intro x hx hlt
    rw [hexports, ← site.exports_above]
    rcases List.mem_append.1 hx with hx | hx
    · exact List.mem_append_left _ hx
    · obtain ⟨t, ht, hbegin⟩ := hbehind.start_mem
        (List.mem_append_right _ (List.mem_map_of_mem hx))
      rw [hahead] at ht
      have := hordered'.start_le (by rw [hnew]; rfl) ht
      rw [hbegin] at hlt
      omega
  have himports : List.Forall₂ ImportStatement.Alike site.below.imports below'.imports :=
    hsame.imports.imp fun _ _ h => h.alike
  have hback := hsame.exports
  rw [site.exports_below] at hback
  refine ⟨_, _, homitted.tokenized, houtline, ?_, ⟨_, e', below'.exports, ?_, hsynchronous, hback⟩,
    ?_⟩
  · rw [site.imports]
    exact List.rel_append (List.forall₂_same.2 fun i _ => .refl i) himports
  · exact congrArg (· ++ e' :: below'.exports) site.exports_above
  · intro x hx a ha hreleases
    have hlt := site.start_lt hs
      (List.mem_append_right _ (List.mem_map_of_mem (site.exports_above.symm ▸ hx)))
    exact hreleases.of_changed site.kind_current site.tokens_cons hnew hlt.le
      (site.stop_le hs ho hexports hx ha) hfound

end AsyncSite

namespace Outline

/-- Some exports of a text have lost their `async` words, and those in front of them have still to
lose theirs. -/
structure Synchronized (text : List Char) (o : Outline) (front back : List ExportStatement)
    (text' : List Char) (s' : TokenStream) (o' : Outline) : Prop where
  tokenized : tokenize text' = .ok s'
  outlined : outline text' = .ok o'
  imports : List.Forall₂ ImportStatement.Alike o.imports o'.imports
  exports : ∃ left, o'.exports = front ++ left ∧
    List.Forall₂ ExportStatement.Synchronous back left
  waiting : ∀ x ∈ front, ∀ a ∈ x.form.asyncToken, x.Releases s' o' a ∧
    a.OmittedBy text' (removeWord text a)

namespace Synchronized

/-- The next export has no `async` word. -/
theorem skip (h : Synchronized text o (front ++ [e]) back text' s' o')
    (he : e.form.asyncToken = none) : Synchronized text o front (e :: back) text' s' o' := by
  obtain ⟨left, hexports, hleft⟩ := h.exports
  exact ⟨h.tokenized, h.outlined, h.imports,
    ⟨e :: left, by simp [hexports], .cons ⟨.refl e, he⟩ hleft⟩,
    fun x hx => h.waiting x (List.mem_append_left _ hx)⟩

/-- The next export loses its `async` word. -/
theorem remove (h : Synchronized text o (front ++ [e]) back text' s' o')
    (he : e.form.asyncToken = some async) :
    ∃ s'' o'', Synchronized text o front (e :: back) ((removeWord text async).apply text') s'' o'' := by
  obtain ⟨left, hexports, hleft⟩ := h.exports
  obtain ⟨hreleases, hedit⟩ := h.waiting e (List.mem_append_right _ List.mem_cons_self) async he
  rw [List.append_assoc, List.singleton_append] at hexports
  obtain ⟨site⟩ := exists_asyncSite h.tokenized h.outlined hexports he
  obtain ⟨s'', o'', hnew⟩ := site.outline_apply h.tokenized h.outlined hexports hreleases hedit
  obtain ⟨S, e', left', hexports', hsynchronous, hleft'⟩ := hnew.exports
  refine ⟨s'', o'', hnew.tokenized, hnew.outlined,
    forall₂_comp (fun _ _ _ hfirst => hfirst.trans) h.imports hnew.imports, ⟨e' :: left', hexports',
    .cons hsynchronous (forall₂_comp (fun _ _ _ hfirst => hfirst.same) hleft hleft')⟩, ?_⟩
  intro x hx a ha
  obtain ⟨hreleases', hedit'⟩ := h.waiting x (List.mem_append_left _ hx) a ha
  refine ⟨hnew.releases x hx a ha hreleases', hedit'.of_take ?_
    (hedit.take_apply h.tokenized site.async_mem)⟩
  exact hedit'.stop_le h.tokenized site.async_mem
    ((site.stop_le h.tokenized h.outlined hexports hx ha).trans
      (site.start_le h.tokenized))

end Synchronized

theorem asyncEdits_cons_of_none (he : e.form.asyncToken = none) :
    asyncEdits text ⟨[], e :: back⟩ = asyncEdits text ⟨[], back⟩ := by
  simp [asyncEdits, he]

theorem asyncEdits_cons_of_some (he : e.form.asyncToken = some async) :
    asyncEdits text ⟨[], e :: back⟩ = removeWord text async :: asyncEdits text ⟨[], back⟩ := by
  simp [asyncEdits, he]

/-- The words are left out in the order of the text. -/
theorem pairwise_asyncEdits (hs : tokenize text = .ok s) (ho : outline text = .ok o)
    (hexports : o.exports = front ++ back) :
    (asyncEdits text ⟨[], back⟩).Pairwise fun e f => e.start < f.start := by
  induction back generalizing front with
  | nil => exact .nil
  | cons e back ih =>
    have hnext : o.exports = (front ++ [e]) ++ back := by simp [hexports]
    cases he : e.form.asyncToken with
    | none =>
      rw [asyncEdits_cons_of_none he]
      exact ih hnext
    | some a =>
      rw [asyncEdits_cons_of_some he, List.pairwise_cons]
      refine ⟨fun f hf => ?_, ih hnext⟩
      obtain ⟨b, hmem, rfl⟩ := List.mem_map.1 hf
      obtain ⟨y, hy, hb⟩ := List.mem_filterMap.1 hmem
      obtain ⟨back₁, back₂, rfl⟩ := List.append_of_mem hy
      have hcut : o.exports = (front ++ e :: back₁) ++ y :: back₂ := by simp [hexports]
      obtain ⟨site⟩ := exists_asyncSite hs ho hcut hb
      have hstop := site.stop_le hs ho hcut (x := e) (by simp) he
      have hstart := site.start_le hs
      obtain ⟨other⟩ := exists_asyncSite hs ho hexports he
      have hlong := (TokenStream.ordered_of_tokenize hs).nonempty a other.async_mem
      simp only [removeWord]
      omega

/-- Exports lose their `async` words one after the other, the last one first. -/
theorem exists_synchronized (hs : tokenize text = .ok s) (ho : outline text = .ok o)
    (h : ∀ x ∈ o.exports, ∀ a ∈ x.form.asyncToken, x.Releases s o a)
    (hexports : o.exports = front ++ back) :
    ∃ s' o', Synchronized text o front back
      (Edit.applyAll text (asyncEdits text ⟨[], back⟩)) s' o' := by
  induction back generalizing front with
  | nil =>
    refine ⟨s, o, hs, ho, List.forall₂_same.2 fun i _ => .refl i, ⟨[], hexports, .nil⟩, ?_⟩
    intro x hx a ha
    exact ⟨h x (by rw [hexports]; exact List.mem_append_left _ hx) a ha, .of_removeWord text a⟩
  | cons e back ih =>
    have hnext : o.exports = (front ++ [e]) ++ back := by simp [hexports]
    obtain ⟨s', o', hbehind⟩ := ih hnext
    have hsorted := pairwise_asyncEdits hs ho hexports
    cases he : e.form.asyncToken with
    | none =>
      rw [asyncEdits_cons_of_none he]
      exact ⟨s', o', hbehind.skip he⟩
    | some a =>
      rw [asyncEdits_cons_of_some he] at hsorted ⊢
      rw [Edit.applyAll_cons text hsorted]
      exact hbehind.remove he

/-- Nothing is left out where no export has an `async` word. -/
theorem asyncEdits_eq_nil (h : ∀ x ∈ o.exports, x.form.asyncToken = none) :
    o.asyncEdits text = [] := by
  rw [asyncEdits, List.filterMap_eq_nil_iff.2 h, List.map_nil]

end Outline

end Omission

/-- Making the exports of a module synchronous leaves a module with the same imports and exports. None
of them has an `async` word any more, so that it stays the same from then on, as long as every such
word can be left out. -/
theorem removeAsyncExports_synchronizes {text : List Char} {s : TokenStream} {o : Outline}
    (hs : tokenize text = .ok s) (ho : outline text = .ok o)
    (h : ∀ e ∈ o.exports, ∀ async ∈ e.form.asyncToken, e.Releases s o async) :
    ∃ text' o', removeAsyncExports text = .ok text' ∧ outline text' = .ok o' ∧
      List.Forall₂ ImportStatement.Alike o.imports o'.imports ∧
      List.Forall₂ ExportStatement.Synchronous o.exports o'.exports ∧
      removeAsyncExports text' = .ok text' := by
  obtain ⟨s', o', hnew⟩ := Outline.exists_synchronized hs ho h (List.nil_append o.exports).symm
  obtain ⟨left, hexports, hleft⟩ := hnew.exports
  rw [List.nil_append] at hexports
  subst hexports
  refine ⟨_, o', ?_, hnew.outlined, hnew.imports, hleft, ?_⟩
  · rw [removeAsyncExports, ho]
    rfl
  · have hnone : ∀ x ∈ o'.exports, x.form.asyncToken = none :=
      ((List.forall₂_and_left _ _).1 (hleft.flip.imp fun _ _ h => ⟨h.async, h⟩)).1
    have houtlined := hnew.outlined
    generalize Edit.applyAll text (Outline.asyncEdits text ⟨[], o.exports⟩) = text' at houtlined
    rw [removeAsyncExports, houtlined]
    show Except.ok (Edit.applyAll text' (o'.asyncEdits text')) = _
    rw [Outline.asyncEdits_eq_nil hnone]
    rfl

/-- A function, an arrow function of variables and one behind `default` lose their words. -/
theorem removeAsyncExports_synchronizes_three :
    let text := ("export async function load() \x7b return 1 \x7d\n" ++
      "export const f = async (a) => a\nexport default async  x => x").toList
    ∃ s o text' o', tokenize text = .ok s ∧ outline text = .ok o ∧
      (o.exports.filterMap fun e => e.form.asyncToken).length = 3 ∧
      (∀ e ∈ o.exports, ∀ async ∈ e.form.asyncToken, e.Releases s o async) ∧
      removeAsyncExports text = .ok text' ∧ outline text' = .ok o' ∧
      List.Forall₂ ExportStatement.Synchronous o.exports o'.exports ∧
      removeAsyncExports text' = .ok text' := by
  intro text
  let s := (tokenize text).toOption.getD ⟨[], .start⟩
  let o := (outline text).toOption.getD ⟨[], []⟩
  obtain ⟨htokens, houtline, hthree, hreleases⟩ :
      (tokenize text).toOption.isSome = true ∧ (outline text).toOption.isSome = true ∧
        (o.exports.filterMap fun e => e.form.asyncToken).length = 3 ∧
        ∀ e ∈ o.exports, ∀ async ∈ e.form.asyncToken, e.Releases s o async := by
    decide +kernel
  have hs : tokenize text = .ok s := eq_ok_getD htokens _
  have ho : outline text = .ok o := eq_ok_getD houtline _
  obtain ⟨text', o', hremoved, houtline', -, hexports, hagain⟩ :=
    removeAsyncExports_synchronizes hs ho hreleases
  exact ⟨s, o, text', o', hs, ho, hthree, hreleases, hremoved, houtline', hexports, hagain⟩

end ComponentRegistry
