import ComponentRegistry.Proofs.Rewrite.NamedDefault
import ComponentRegistry.Proofs.Rewrite.Trailer
import ComponentRegistry.Proofs.Syntax.NamedDeclaration

/-! # A name that is stated at the end

The statement of a name at the end of a text is found there, and all that is found above is found
again. For that the text has to be complete where it ends, with its brackets closed.
-/

namespace ComponentRegistry

open Lexer

/-- A text below which a statement is found: it is complete where it ends, closes its brackets, and
does not end in a dot. -/
structure TokenStream.TakesStatement (s : TokenStream) (o : Outline) : Prop where
  closed : ∀ us, us <:+ s.tokens → bracketDepth us ≤ 0
  complete : s.Completes o
  dot : ∀ t ∈ s.tokens.getLast?, t.kind ≠ .mark .dot

/-- A text keeps its tokens, and those of a statement stand on lines below. -/
structure TokenStream.StatedBelow (s' : TokenStream) (kept stated words : List Token) : Prop where
  tokens : s'.tokens = kept ++ stated
  bare : stated.map Token.bare = words
  line : ∀ t ∈ kept, ∀ u ∈ stated, t.line < u.line

/-- The words of an export, and what they are read as. -/
structure ExportWords (words : List Token) (P : ExportStatement → Prop) : Prop where
  first : ∃ w rest, words = .ofName "export" :: w :: rest ∧ w.kind ≠ .mark .arrow
  reads : ∀ {c n : Cursor}, c.Spells words n → ∃ z, c.exportStatement = .ok (z, n) ∧ P z

section Below

variable {text : List Char} {s s' : TokenStream} {o below : Outline} {S : Seam}
  {kept stated words passed passed' : List Token} {P : ExportStatement → Prop} {n n' m : Cursor}
  {d : Nat}

theorem ExportWords.exists_cons (h : ExportWords words P) (hbare : stated.map Token.bare = words) :
    ∃ t u rest, stated = t :: u :: rest ∧ t.kind = .keyword .exportWord ∧ t.value = "export" ∧
      u.kind ≠ .mark .arrow := by
  obtain ⟨w, ws, rfl, harrow⟩ := h.first
  obtain ⟨t, ts, rfl, ht, hts⟩ := List.map_eq_cons_iff.1 hbare
  obtain ⟨u, rest, rfl, rfl, -⟩ := List.map_eq_cons_iff.1 hts
  have hkind : t.bare.kind = .keyword .exportWord := by
    rw [ht]
    decide
  have hvalue : t.bare.value = "export" := congrArg Token.value ht
  exact ⟨t, u, rest, rfl, hkind, hvalue, harrow⟩

/-- The statement stands below all that goes together with the text. -/
theorem ExportWords.beginsBelow (h : ExportWords words P) (hs' : s'.StatedBelow kept stated words)
    (hold : S.old = []) (hnew : S.new = stated)
    (hlast : Option.Rel S.Same s.tokens.getLast? kept.getLast?) : s.BeginsBelow S := by
  obtain ⟨t, u, rest, hstated, hkind, hvalue, harrow⟩ := h.exists_cons hs'.bare
  have hhead : ∀ v ∈ S.new.head?, v = t := by
    intro v hv
    rw [hnew, hstated] at hv
    exact (Option.some.inj hv).symm
  refine ⟨hold, fun v hv => .inr (hhead v hv ▸ hkind), fun v hv => .inr (hhead v hv ▸ hvalue),
    fun v w others heq => ?_, fun v hv v' hsame w hw => ?_⟩
  · rw [hnew, hstated] at heq
    obtain ⟨-, rfl, -⟩ : _ ∧ u = w ∧ _ := by simpa using heq
    exact harrow
  · obtain ⟨last, hkept, hlast⟩ := Seam.exists_same_right hlast hv
    have hline := hs'.line last (List.mem_of_getLast? hkept) w (hnew ▸ List.mem_of_mem_head? hw)
    have hle := hlast.line_lt hsame
    omega

/-- What is found up to the end of a text is found again, and the statement behind it. -/
theorem Cursor.Surveys.above_statement (hs : tokenize text = .ok s) (h : s.TakesStatement o)
    (hwords : ExportWords words P) (hs' : s'.StatedBelow kept stated words) (hold : S.old = [])
    (hnew : S.new = stated) (hlast : Option.Rel S.Same s.tokens.getLast? kept.getLast?)
    (hplace : Cursor.PlaceIn s passed n) (hplace' : Cursor.PlaceIn s' passed' n')
    (hrun : Cursor.Surveys 0 n below d m) (hm : m.kind = .endOfInput)
    (hmem : ∀ e ∈ below.exports, e ∈ o.exports) (htied : S.Tied n.ahead n'.ahead)
    (hstart : n.kind ≠ .endOfInput → n'.atStatementStart = n.atStatementStart) :
    ∃ below' z m', Cursor.Surveys 0 n' (below' ++ ⟨[], [z]⟩) 0 m' ∧ m'.kind = .endOfInput ∧
      S.SameOutline below below' ∧ P z := by
  obtain ⟨t, u, rest, hstated, hkind, -, -⟩ := hwords.exists_cons hs'.bare
  obtain ⟨below', m', hrun', hsame, hm'⟩ := h.complete.surveys hs h.closed
    (hwords.beginsBelow hs' hold hnew hlast) hplace hrun hm hmem htied hstart
  rw [hnew] at hm'
  -- The statement comes next, and nothing is left behind it.
  obtain ⟨others, hothers⟩ := hrun'.reaches
  have hend := hplace'.passes hothers
  obtain rfl : kept = passed' ++ others :=
    List.append_cancel_right (hs'.tokens.symm.trans (hm' ▸ hend.tokens))
  have hbegins : m'.atStatementStart = true := by
    refine TokenStream.atStatementStart_below hend (t := t) (by rw [hm', hstated]; rfl)
      (fun v hv => hs'.line v (List.mem_of_getLast? hv) t (by simp [hstated])) fun v hv => ?_
    obtain ⟨last, hold, hlast⟩ := Seam.exists_same_left hlast hv
    rw [hlast.kind]
    exact h.dot last hold
  have hspells : m'.Spells words ⟨stated.getLast?.or m'.previous, [], m'.finish⟩ :=
    ⟨stated, ⟨by rw [hm', List.append_nil], rfl, rfl⟩, hs'.bare⟩
  obtain ⟨z, hreads, hz⟩ := hwords.reads hspells
  have hstarts : m'.startsExport = true := by
    have hcurrent : m'.current = t := Cursor.current_eq_of_cons (hm'.trans hstated)
    rw [Cursor.startsExport, hbegins, Bool.true_and, Cursor.atWord, Cursor.kind, hcurrent]
    exact beq_iff_eq.2 hkind
  exact ⟨below', z, _, hrun'.append (.statement (.exporting hstarts hreads) (.done 0 _)), rfl, hsame,
    hz⟩

end Below

section Statement

variable {text statement : List Char} {s : TokenStream} {o : Outline} {words : List Token}
  {name : String} {front back : List ExportStatement} {e : ExportStatement}
  {specifiers : List Specifier}

/-- The text keeps its tokens above the statement of a name. -/
theorem exists_statedBelow (hs : tokenize text = .ok s) (hname : IsName name)
    (hstates : StatesName name statement words) :
    ∃ s' stated, tokenize (withTrailer text (some statement)) = .ok s' ∧
      s'.StatedBelow s.tokens stated words := by
  have hstatement := hstates.isStatement
  obtain ⟨u, hu, hwords⟩ := hstatement.exists_tokenize (hstates.reads hname)
  have hall := tokenize_withTrailer hs hu hstatement.not_interpreter fun w hw => by
    rw [hstatement.kind_first hu w hw]
    decide
  refine ⟨_, _, hall, rfl, ?_, fun t ht v hv => ?_⟩
  · rw [TokenStream.shift, List.map_map, ← hwords]
    rfl
  · obtain ⟨feeds, htext, hfeeds⟩ := append_of_dropFinalLineFeeds text
    rw [htext] at hs
    obtain ⟨q, hrun⟩ := reads_before_feed [] hs hfeeds (by simp)
    obtain ⟨w, hw, rfl⟩ := List.mem_map.1 hv
    obtain ⟨⟨q', hrun'⟩, -⟩ := reads_of_tokenize hu
    have hle := (hrun.line_le t ht).2
    have hle' := (hrun'.line_le w hw).1
    have hcount : (dropFinalLineFeeds text ++ ['\n', '\n']).count '\n' =
        (dropFinalLineFeeds text).count '\n' + 2 := by simp
    simp only [Position.line_advance, Position.start] at hle hle'
    simp only [Token.line, Token.shift, Position.shift, hcount] at hle hle' ⊢
    omega

/-- The statement of a name as the default is read as such. -/
theorem exportWords_default (hname : name ∉ (["function", "class", "interface"] : List String)) :
    ExportWords [.ofName "export", .ofName "default", .ofName name, .ofMark .semicolon]
      fun z => ∃ default, z.form = .defaultName default name :=
  ⟨⟨_, _, rfl, by decide⟩, fun hc => ⟨_, Cursor.exportStatement_of_defaultName hname hc, _, rfl⟩⟩

/-- The clause of a name is read as such. -/
theorem exportWords_clause (hname : IsName name) :
    ExportWords [.ofName "export", .ofMark .openBrace, .ofName name, .ofMark .closeBrace,
      .ofMark .semicolon] fun z => z.form = .list [⟨name, name, false⟩] none false := by
  refine ⟨⟨_, _, rfl, by decide⟩, fun {c n} hc => ?_⟩
  have hwords : clauseWords false [⟨name, name, false⟩] = [.ofName name] := by
    simp [clauseWords, Specifier.clauseWords]
  have htext := isName_iff.1 hname
  have hentries : ∀ entry ∈ ([⟨name, name, false⟩] : List Specifier), entry.Writable false := by
    simpa using ⟨htext, htext, by simp, by simp⟩
  exact ⟨_, Cursor.exportStatement_of_clause hentries (by rw [hwords]; exact hc), rfl⟩

/-- The module in which an entry of a clause is the default export, and its name is exported by
another clause at the end. -/
theorem named_entry (hs : tokenize text = .ok s) (ho : outline text = .ok o)
    (hexports : o.exports = front ++ e :: back) (hform : e.form = .list specifiers none false)
    (hdefault : e.defaultExportName = some name) (h : s.TakesStatement o) (hname : IsName name) :
    ∃ o', outline (withTrailer text (some (nameClause name))) = .ok o' ∧
      o.Named name front back e o' := by
  obtain ⟨s', stated, hs', hbelow⟩ := exists_statedBelow hs hname .clause
  obtain ⟨d, m, hrun, hm⟩ := exists_surveys hs ho
  obtain ⟨⟨q, hreads⟩, -⟩ := reads_of_tokenize hs
  have hvalue : ∀ t ∈ s.tokens, t.kind = .mark .semicolon → t.value = ";" := fun t ht hmark =>
    hreads.value_eq ht (by rw [hmark]; rfl)
  have htied : (Seam.atEnd [] stated).Tied (Cursor.ofStream s).ahead (Cursor.ofStream s').ahead := by
    have htied := Seam.tied_atEnd [] stated hvalue
    have hshift : Token.shift [] = id := rfl
    rw [hshift, List.map_id, ← hbelow.tokens] at htied
    exact htied
  have hlast : Option.Rel (Seam.atEnd [] stated).Same s.tokens.getLast? s.tokens.getLast? := by
    cases hlast : s.tokens.getLast? with
    | none => exact .none
    | some t => exact .some (Seam.same_shift (hvalue t (List.mem_of_getLast? hlast)))
  obtain ⟨o₁, z, m', hrun', hm', ho₁, hz⟩ := hrun.above_statement hs h (exportWords_clause hname)
    hbelow rfl rfl hlast (Cursor.placeIn_ofStream s) (Cursor.placeIn_ofStream s') hm
    (fun _ he => he) htied fun _ => rfl
  obtain rfl : o₁ = o := (ho₁.eq_shift Seam.shifts_atEnd).trans (Outline.shift_nil o)
  refine ⟨o₁ ++ ⟨[], [z]⟩, ?_, fun table => ?_, Seam.atEnd [] stated, e, back, [z], ?_, ?_,
    .entry hform hdefault hz⟩
  · rw [outline, hs']
    exact Cursor.outlineFrom_eq_ok.2 ⟨0, m', hrun', hm'⟩
  · have hnone : z.source.isSome = false := by simp [ExportStatement.source, hz, ExportForm.source]
    rw [Outline.importFacts_of_source table (List.append_nil _) (by simp [hnone])]
  · rw [Outline.exports_append, hexports]
    simp
  · have hsame := List.forall₂_same.1 ho₁.exports
    exact List.forall₂_same.2 fun y hy => hsame y (by simp [hexports, hy])

end Statement

namespace Seam

variable {S : Seam}

/-- The same seam with other tokens behind it in the other stream. -/
def onto (S : Seam) (new : List Token) : Seam := { S with new := new }

theorem Same.onto {t t' : Token} (h : S.Same t t') (new : List Token) : (S.onto new).Same t t' :=
  ⟨h.kind, h.value, h.lexeme, h.semicolon, h.start⟩

theorem rel_onto {t t' : Option Token} (h : Option.Rel S.Same t t') (new : List Token) :
    Option.Rel (S.onto new).Same t t' := by
  cases h with
  | none => exact .none
  | some h => exact .some (h.onto new)

/-- Where both streams end at a seam, the other one may go on. -/
theorem Tied.onto {ts ts' : List Token} (h : S.Tied ts ts') (hnew : S.new = []) (new : List Token) :
    (S.onto new).Tied ts (ts' ++ new) := by
  induction h with
  | seam =>
    rw [hnew, List.nil_append]
    exact .seam
  | cons first _ ih => exact .cons (first.onto new) ih

end Seam

namespace ExportSite

variable {text : List Char} {s : TokenStream} {o : Outline} {e : ExportStatement}
  {front back : List ExportStatement} {declared : DeclarationKind} {d k : Token}
  {async : Option Token} {name : String}

/-- The words of a declaration that comes behind `export` without the word `default`, and what
follows it. -/
structure Undefaulted (site : ExportSite s o e front back) (name : String)
    (declared : DeclarationKind) (text' : List Char) (here here' : Position)
    (words words' rest' : List Token) : Prop where
  declaring : Cursor.Declaring name declared (words'.map Token.bare)
  isName : IsName name
  tokens : ∃ lead, s.tokens = lead ++ (words ++ site.n.ahead)
  last : words ≠ [] ∧ site.n.previous = words.getLast?
  tokenized : ∃ finish,
    tokenize text' = .ok ⟨site.passed ++ site.c.current :: (words' ++ rest'), finish⟩
  words_moved : List.Forall₂ (Moved here here') words words'
  rest_moved : List.Forall₂ (Moved here here') site.n.ahead rest'

theorem Undefaulted.exists_cons {site : ExportSite s o e front back} {text' : List Char}
    {here here' : Position} {words words' rest' : List Token}
    (h : site.Undefaulted name declared text' here here' words words' rest') :
    ∃ t ts w, words' = t :: ts ∧ t.kind = .keyword w := by
  obtain ⟨u, us, w, hwords, hkind⟩ := h.declaring.head
  obtain ⟨t, ts, rfl, rfl, -⟩ := List.map_eq_cons_iff.1 hwords
  exact ⟨t, ts, w, rfl, hkind⟩

section Undefaulted

variable {site : ExportSite s o e front back} {text' : List Char} {here here' : Position}
  {words words' rest' : List Token}

theorem Undefaulted.value_of_semicolon
    (h : site.Undefaulted name declared text' here here' words words' rest')
    (hs : tokenize text = .ok s) :
    ∀ t ∈ words ++ site.n.ahead, t.kind = .mark .semicolon → t.value = ";" := by
  obtain ⟨⟨q, hreads⟩, -⟩ := reads_of_tokenize hs
  obtain ⟨lead, hcut⟩ := h.tokens
  intro t ht hmark
  exact hreads.value_eq (by rw [hcut]; exact List.mem_append_right _ ht) (by rw [hmark]; rfl)

/-- Both texts end with tokens that go together. -/
theorem Undefaulted.last_same (h : site.Undefaulted name declared text' here here' words words' rest')
    (hs : tokenize text = .ok s) (stated : List Token) :
    Option.Rel ((Seam.atBack here here').onto stated).Same s.tokens.getLast?
      (site.passed ++ site.c.current :: (words' ++ rest')).getLast? := by
  obtain ⟨lead, hcut⟩ := h.tokens
  obtain ⟨t, ts, w, hcons, -⟩ := h.exists_cons
  have hlast := Seam.last_of_moved (List.rel_append h.words_moved h.rest_moved)
    (h.value_of_semicolon hs)
  rw [hcut, List.append_cons,
    List.getLast?_append_of_ne_nil _ (List.append_ne_nil_of_left_ne_nil h.last.1 _),
    List.getLast?_append_of_ne_nil _ (List.append_ne_nil_of_left_ne_nil (by simp [hcons]) _)]
  exact Seam.rel_onto hlast stated

/-- Behind the declaration both texts go on alike, up to what is stated in the other one. -/
theorem Undefaulted.matches (h : site.Undefaulted name declared text' here here' words words' rest')
    (hs : tokenize text = .ok s) (stated : List Token) (p : Option Token) (finish : Position) :
    ((Seam.atBack here here').onto stated).Matches site.n
      ⟨words'.getLast?.or p, rest' ++ stated, finish⟩ := by
  obtain ⟨t, ts, w, hcons, -⟩ := h.exists_cons
  have hvalue := h.value_of_semicolon hs
  have hlast := Seam.last_of_moved h.words_moved fun t ht => hvalue t (by simp [ht])
  rw [← h.last.2] at hlast
  have hprevious : words'.getLast?.or p = words'.getLast? := by
    rw [hcons, List.getLast?_eq_some_getLast (List.cons_ne_nil _ _)]
    rfl
  refine ⟨hprevious.symm ▸ Seam.rel_onto hlast stated, ?_⟩
  exact (Seam.tied_atBack h.rest_moved fun t ht => hvalue t (by simp [ht])).onto rfl stated

end Undefaulted

/-- The text without the word `default` reads as the same declaration behind `export`. -/
theorem exists_undefaulted (site : ExportSite s o e front back) (hs : tokenize text = .ok s)
    (hform : e.form = .defaultDeclaration declared d async k (some name))
    (hline : d.line = (async.getD k).line ∨
      ∀ t ∈ s.tokens, t.start.offset < d.start.offset → t.isHalf = false) :
    ∃ words words' rest', site.Undefaulted name declared
      (Edit.apply text ⟨d.start.offset, (async.getD k).start.offset, []⟩) (async.getD k).start d.start
      words words' rest' := by
  obtain ⟨lead, words, hdeclaring, hpass, hhead, hdefault, hlead⟩ :=
    Cursor.exists_declaring_of_exportStatement site.reads hform
  obtain ⟨k', rest, w, rfl, hword⟩ := hdeclaring.head
  obtain rfl : k' = async.getD k := Option.some.inj hhead
  have htokens : s.tokens = (site.passed ++ [site.c.current]) ++
      ((d :: lead) ++ async.getD k :: (rest ++ site.n.ahead)) := by
    rw [site.tokens, hpass.ahead]
    simp
  have hordered := TokenStream.ordered_of_tokenize hs
  have hkind := site.kind_current
  obtain ⟨after', finish, htokenize, hmoved⟩ := tokenize_drop hs htokens rfl
    (by
      intro t ht
      simp only [List.cons_append, List.mem_cons, List.mem_append, List.not_mem_nil, or_false] at ht
      rcases ht with rfl | ht | rfl
      · rw [hdefault]
        rfl
      · rw [hlead t ht]
        rfl
      · rw [hword]
        rfl)
    ⟨site.c.current, by simp, hkind⟩
    (by
      intro t ht
      obtain rfl : site.c.current = t := by simpa using ht
      exact .inl (by rw [show site.c.current.kind = _ from hkind]; rfl))
    (hline.imp_right fun hnone t ht => hnone t (by rw [htokens]; exact List.mem_append_left _ ht)
      (hordered.start_lt (by rw [htokens, List.cons_append]) ht))
  have hwords := List.forall₂_take (async.getD k :: rest).length hmoved
  have hrest := List.forall₂_drop (async.getD k :: rest).length hmoved
  rw [← List.cons_append, List.take_left] at hwords
  rw [← List.cons_append, List.drop_left] at hrest
  refine ⟨async.getD k :: rest, _, _, ?_, ?_, ⟨(site.passed ++ [site.c.current]) ++ (d :: lead), ?_⟩,
    ⟨List.cons_ne_nil _ _, ?_⟩, ⟨finish, ?_⟩, hwords, hrest⟩
  · rw [Edit.bare_of_moved hwords]
    exact hdeclaring.bare
  · obtain ⟨⟨q, hreads⟩, -⟩ := reads_of_tokenize hs
    obtain ⟨v, hv, hname, rfl⟩ := hdeclaring.exists_name
    refine isName_iff.2 (hreads.isNameText_value ?_ hname)
    rw [htokens]
    simp only [List.mem_append, List.mem_cons] at hv ⊢
    tauto
  · rw [htokens, List.append_assoc, List.append_assoc, List.append_assoc]
    rfl
  · rw [hpass.previous, ← List.cons_append, List.getLast?_append,
      List.getLast?_eq_some_getLast (List.cons_ne_nil _ _)]
    rfl
  · rw [List.take_append_drop, Edit.apply, List.append_nil, htokenize, List.append_assoc]
    rfl

/-- The module in which a declaration is exported with its name, and that name is stated as the
default at the end. -/
theorem named_declaration (site : ExportSite s o e front back) (hs : tokenize text = .ok s)
    (hexports : o.exports = front ++ e :: back)
    (hform : e.form = .defaultDeclaration declared d async k (some name))
    (hline : d.line = (async.getD k).line ∨
      ∀ t ∈ s.tokens, t.start.offset < d.start.offset → t.isHalf = false)
    (hfront : ∀ x ∈ front, x.form.isDefault = false) (h : s.TakesStatement o)
    (hother : name ∉ (["function", "class", "interface"] : List String)) :
    ∃ o', outline (withTrailer
        (Edit.apply text ⟨d.start.offset, (async.getD k).start.offset, []⟩)
        (some (defaultNameStatement name))) = .ok o' ∧
      o.Named name front back e o' := by
  obtain ⟨words, words', rest', hnew⟩ := site.exists_undefaulted hs hform hline
  obtain ⟨finish, hs₁⟩ := hnew.tokenized
  obtain ⟨s', stated, hs', hbelow⟩ := exists_statedBelow hs₁ hnew.isName .default
  have htokens : s'.tokens = site.passed ++ site.c.current :: (words' ++ (rest' ++ stated)) := by
    rw [hbelow.tokens]
    simp
  -- What stands in front of the declaration is found as before.
  obtain ⟨v, vs, w, hcons, hkind⟩ := hnew.exists_cons
  have hhead : ∀ u ∈ (words' ++ (rest' ++ stated)).head?, u.kind ≠ .mark .arrow := by
    intro u hu
    rw [hcons] at hu
    obtain rfl : v = u := Option.some.inj hu
    simp [hkind]
  obtain ⟨c', habove, hplace, hahead, hstarts⟩ := site.exists_startsExport hs hfront hhead htokens
  have hcurrent : c'.current = site.c.current := Cursor.current_eq_of_cons hahead
  -- The declaration is read up to its name.
  have hfirst := Cursor.passes_cons hahead
  let n' : Cursor := ⟨words'.getLast?.or c'.advance.previous, rest' ++ stated, c'.advance.finish⟩
  have hpass : Cursor.Passes c'.advance n' words' :=
    ⟨Cursor.ahead_advance hahead, rfl, rfl⟩
  obtain ⟨x, hread, keyword, async', hx⟩ := Cursor.exportStatement_of_declaring
    (by rw [Cursor.kind, hcurrent]; exact site.kind_current) hnew.declaring ⟨words', hpass, rfl⟩
  -- What stands behind it is found again, and the statement below.
  have hmatches := hnew.matches hs stated c'.advance.previous c'.advance.finish
  obtain ⟨own, hown⟩ := site.at_statement.passes
  obtain ⟨d₀, m, hrun, hm⟩ := site.surveys_below
  obtain ⟨below', z, m', hrun', hm', hsame, default', hz⟩ :=
    hrun.above_statement hs h (exportWords_default hother) hbelow rfl rfl (hnew.last_same hs stated)
      (site.place.passes hown) (hplace.passes (hfirst.trans hpass)) hm
      (fun y hy => by rw [hexports]; simp [site.exports_below ▸ hy]) hmatches.ahead
      fun hmore => hmatches.atStatementStart_eq (Cursor.remaining_pos hmore)
  exact site.named_of_surveys hs hexports hs' habove
    (.exporting hstarts hread) hrun' hm' hsame
    (.declaration hform hnew.declaring.kind.1 hx hz)

end ExportSite

end ComponentRegistry
