import ComponentRegistry.Proofs.Rewrite.Exchange

/-! # Reading undoes writing

Imports that are written one to a line are read again as they were, with the entries in the same
order. Every word of an import may also be a name in it, so that the words after `import` and `type`
have to tell which is meant. There is one import that they do not tell.
-/

namespace ComponentRegistry

open Lexer

/-- A string that is read as one word, which is a name or a keyword. -/
def IsName (name : String) : Prop :=
  ∃ s t, tokenize name.toList = .ok s ∧ s.tokens = [t] ∧ t.lexeme = name ∧ t.kind.isName = true

theorem isName_iff {name : String} : IsName name ↔ Lexeme.isNameText name.toList = true := by
  constructor
  · rintro ⟨s, t, read, single, rfl, hname⟩
    obtain ⟨⟨q, reads⟩, -⟩ := reads_of_tokenize read
    exact reads.isNameText (by simp [single]) hname
  · intro h
    have noLine : interpreterLine name.toList = [] := by
      apply interpreterLine_eq_nil
      rintro ⟨rest, start⟩
      rw [← start] at h
      simp [Lexeme.isNameText, show Lexeme.startsName '#' = false by decide] at h
    obtain ⟨ts, q, reads, words⟩ := says_ofName h none [] .start [] (fun _ _ _ hd => by cases hd)
    rw [List.append_nil] at reads
    obtain ⟨t, rfl, word⟩ : ∃ t, ts = [t] ∧ t.bare = .ofName name := by
      cases ts with
      | nil => cases words
      | cons t rest =>
        obtain ⟨word, none⟩ := List.cons.inj words
        exact ⟨t, by rw [List.map_eq_nil_iff.1 none], word⟩
    have kind : t.bare.kind = (Token.ofName name).kind := congrArg Token.kind word
    refine ⟨⟨[t], Position.start.advance name.toList⟩, t, ?_, rfl, congrArg Token.lexeme word, ?_⟩
    · rw [tokenize, noLine]
      exact tokensFrom_eq_ok.2 ⟨q, reads⟩
    · rw [show t.kind = _ from kind]
      exact Token.isName_ofName name

/-- An entry of a clause with names for what it imports and binds. Under a statement that imports
types only every entry is a type. -/
structure Specifier.Clausal (statementTypeOnly : Bool) (s : Specifier) : Prop where
  imported : IsName s.imported
  bound : IsName s.bound
  other : s.imported ≠ "default"
  typeOnly : statementTypeOnly = true → s.typeOnly = true
  modified : statementTypeOnly = false → s.typeOnly = true → s.imported ≠ "as"

/-- What may stand after a default import, or in its place. -/
inductive Listing (typeOnly : Bool) : List Specifier → Prop where
  | whole {name : String} (hname : IsName name) : Listing typeOnly [⟨"*", name, typeOnly⟩]
  | clause {entries : List Specifier} (clausal : ∀ s ∈ entries, s.Clausal typeOnly) :
      Listing typeOnly entries

namespace ImportStatement

/-- An import that can be written out: some default, namespace and clause entries, and a module
between two equal quotes that needs no escapes. -/
structure Renderable (i : ImportStatement) : Prop where
  specifiers : Listing i.typeOnly i.specifiers ∨ ∃ name rest, IsName name ∧
    Listing i.typeOnly rest ∧ i.specifiers = ⟨"default", name, i.typeOnly⟩ :: rest
  some : i.specifiers ≠ []
  source : ∃ quote body, (quote = '"' ∨ quote = '\x27') ∧
    (∀ c ∈ body, c ≠ quote ∧ c ≠ '\\' ∧ c ≠ '\n') ∧
    i.source.written.toList = quote :: (body ++ [quote]) ∧ i.source.path.toList = body

/-- A type imported as the default under the name `from` stands alone. -/
def FromAlone (i : ImportStatement) : Prop :=
  i.typeOnly = true → ∀ s ∈ i.specifiers, s.imported = "default" → s.bound = "from" →
    i.specifiers = [s]

/-- The same import, possibly elsewhere. -/
structure Restates (i x : ImportStatement) : Prop where
  source : x.source = i.source
  specifiers : x.specifiers = i.specifiers
  typeOnly : x.typeOnly = i.typeOnly
  terminated : x.terminated = i.terminated

end ImportStatement

theorem quotedBody_of_plain {quote : Char} {body : List Char}
    (plain : ∀ c ∈ body, c ≠ quote ∧ c ≠ '\\' ∧ c ≠ '\n') (hline : quote ≠ '\n')
    (hescape : quote ≠ '\\') :
    Lexeme.quotedBody quote (body ++ [quote]) = some (body, []) ∧ Lexeme.unescape body = body := by
  induction body with
  | nil =>
    refine ⟨?_, rfl⟩
    rw [List.nil_append, Lexeme.quotedBody.eq_4 _ _ _ hline (fun _ _ h => absurd h hescape), if_pos rfl]
  | cons c body ih =>
    obtain ⟨other, unescaped, line⟩ := plain c List.mem_cons_self
    obtain ⟨read, same⟩ := ih fun d hd => plain d (List.mem_cons_of_mem c hd)
    constructor
    · rw [List.cons_append, Lexeme.quotedBody.eq_4 _ _ _ line (fun _ _ h => absurd h unescaped),
        if_neg other, read]
      rfl
    · rw [Lexeme.unescape.eq_2 _ _ (fun _ _ h => absurd h unescaped), same]

theorem quotation_of_plain {written path : String} {quote : Char} {body : List Char}
    (hquote : quote = '"' ∨ quote = '\x27')
    (plain : ∀ c ∈ body, c ≠ quote ∧ c ≠ '\\' ∧ c ≠ '\n')
    (hwritten : written.toList = quote :: (body ++ [quote])) (hpath : path.toList = body) :
    Quotation path written := by
  have hline : quote ≠ '\n' := by rcases hquote with rfl | rfl <;> decide
  have hescape : quote ≠ '\\' := by rcases hquote with rfl | rfl <;> decide
  have hlast : Lexeme.continuesName quote = false := by rcases hquote with rfl | rfl <;> decide
  obtain ⟨read, same⟩ := quotedBody_of_plain plain hline hescape
  have reading := says_string hquote read
  rw [same, ← hpath, String.ofList_toList, hpath, ← hwritten, String.ofList_toList] at reading
  refine ⟨reading, by simp [hwritten], ?_⟩
  intro more
  rw [hwritten]
  exact apart_of_last hlast (quote :: body) more

section Entries

variable {typeOnly : Bool} {entries : List Specifier} {s : Specifier}

theorem Specifier.Clausal.writable (h : s.Clausal typeOnly) : s.Writable typeOnly :=
  ⟨isName_iff.1 h.imported, isName_iff.1 h.bound, h.typeOnly,
    fun modified statement => h.modified statement modified⟩

theorem Specifier.Clausal.outerText? (h : s.Clausal typeOnly) : s.outerText? = none := by
  have whole : s.imported ≠ "*" := by
    intro same
    have named := isName_iff.1 h.imported
    rw [same] at named
    revert named
    decide
  rw [Specifier.outerText?, if_neg h.other, if_neg whole]

theorem outerEntries_of_clausal (h : ∀ s ∈ entries, s.Clausal typeOnly) :
    outerEntries entries = [] ∧ innerEntries entries = entries := by
  constructor
  · rw [outerEntries, List.filter_eq_nil_iff]
    intro s hs
    simp [(h s hs).outerText?]
  · rw [innerEntries, List.filter_eq_self]
    intro s hs
    simp [(h s hs).outerText?]

theorem outerEntries_default (name : String) :
    outerEntries (⟨"default", name, typeOnly⟩ :: entries) =
      ⟨"default", name, typeOnly⟩ :: outerEntries entries := by
  rw [outerEntries, List.filter_cons_of_pos]
  · rfl
  · rfl

theorem innerEntries_default (name : String) :
    innerEntries (⟨"default", name, typeOnly⟩ :: entries) = innerEntries entries := by
  rw [innerEntries, List.filter_cons_of_neg]
  · rfl
  · exact Bool.false_ne_true

/-- What stands after a default import is listed in the order in which it is written. -/
theorem Listing.printable (h : Listing typeOnly entries) :
    Printable typeOnly entries ∧ outerEntries entries ++ innerEntries entries = entries ∧
      (outerEntries entries).map Specifier.imported ∈ [[], ["*"]] := by
  cases h with
  | @whole name hname =>
    have outer : outerEntries [⟨"*", name, typeOnly⟩] = [⟨"*", name, typeOnly⟩] := rfl
    have inner : innerEntries [⟨"*", name, typeOnly⟩] = [] := rfl
    refine ⟨⟨?_, ?_, ?_, fun _ => inner, ?_⟩, ?_, ?_⟩
    · intro s hs
      rw [inner] at hs
      cases hs
    · intro s hs
      rw [outer, List.mem_singleton] at hs
      subst hs
      exact ⟨isName_iff.1 hname, rfl⟩
    · simp [outer]
    · intro _ s hs hdefault
      rw [List.mem_singleton.1 hs] at hdefault
      exact absurd hdefault (by simp)
    · rw [outer, inner, List.append_nil]
    · simp [outer]
  | clause clausal =>
    obtain ⟨outer, inner⟩ := outerEntries_of_clausal clausal
    rw [outer, inner]
    refine ⟨⟨?_, ?_, ?_, ?_, ?_⟩, rfl, List.mem_cons_self⟩
    · intro s hs
      rw [inner] at hs
      exact (clausal s hs).writable
    · intro s hs
      rw [outer] at hs
      cases hs
    · rw [outer]
      exact List.mem_cons_self
    · intro whole
      rw [outer] at whole
      cases whole
    · intro _ s hs hdefault
      exact absurd hdefault (clausal s hs).other

end Entries

namespace ImportStatement

variable {i : ImportStatement}

/-- An import that can be written out lists its entries in the order in which they are written. -/
theorem Renderable.printable (h : i.Renderable) (alone : i.FromAlone) :
    Printable i.typeOnly i.specifiers ∧
      outerEntries i.specifiers ++ innerEntries i.specifiers = i.specifiers := by
  rcases h.specifiers with listing | ⟨name, rest, hname, listing, whole⟩
  · obtain ⟨printable, order, -⟩ := listing.printable
    exact ⟨printable, order⟩
  · obtain ⟨printable, order, once⟩ := listing.printable
    have onlyRest := alone
    rw [FromAlone, whole] at onlyRest
    rw [whole, outerEntries_default, innerEntries_default, List.cons_append, order]
    refine ⟨⟨?_, ?_, ?_, ?_, onlyRest⟩, rfl⟩
    · rw [innerEntries_default]
      exact printable.inner
    · rw [outerEntries_default]
      intro s hs
      rcases List.mem_cons.1 hs with rfl | hs
      · exact ⟨isName_iff.1 hname, rfl⟩
      · exact printable.outer s hs
    · rw [outerEntries_default, List.map_cons]
      rcases (by simpa using once : _ ∨ _) with none | star
      · simp [none]
      · simp [star]
    · rw [outerEntries_default, innerEntries_default, List.map_cons]
      intro star
      rcases List.mem_cons.1 star with same | star
      · exact absurd same (by simp)
      · exact printable.whole star

theorem Renderable.quotation (h : i.Renderable) : Quotation i.source.path i.source.written := by
  obtain ⟨quote, body, hquote, plain, hwritten, hpath⟩ := h.source
  exact quotation_of_plain hquote plain hwritten hpath

/-- An import reads as its words wherever it is written. -/
theorem Renderable.says_render (h : i.Renderable) (alone : i.FromAlone) :
    ∃ bindings, Says (i.render i.specifiers) (i.words bindings) ∧
      BindingSpelling i.typeOnly bindings i.specifiers := by
  obtain ⟨printable, order⟩ := h.printable alone
  obtain ⟨bindings, reading, spelled⟩ := ImportStatement.says_render printable h.some h.quotation
  rw [order] at spelled
  exact ⟨bindings, reading, spelled⟩

end ImportStatement

/-- The tokens of some imports, each below the one before it. -/
inductive Lined : List ImportStatement → List Token → Prop where
  | nil : Lined [] []
  | cons {i : ImportStatement} {statements : List ImportStatement} {bindings own below : List Token}
      (words : own.map Token.bare = i.words bindings)
      (spelled : BindingSpelling i.typeOnly bindings i.specifiers)
      (lines : ∀ t ∈ own, ∀ u ∈ below, t.line < u.line) (others : Lined statements below) :
      Lined (i :: statements) (own ++ below)

/-- Imports that are written one to a line. -/
def renderLines (statements : List ImportStatement) : List Char :=
  Lines.join (statements.map fun i => i.render i.specifiers)

theorem renderLines_cons (i j : ImportStatement) (rest : List ImportStatement) :
    renderLines (i :: j :: rest) = i.render i.specifiers ++ '\n' :: renderLines (j :: rest) := by
  simp [renderLines, Lines.join, List.intercalate]

theorem renderLines_singleton (i : ImportStatement) :
    renderLines [i] = i.render i.specifiers := by
  simp [renderLines, Lines.join]

theorem head?_renderLines (statements : List ImportStatement) :
    ∀ c ∈ (renderLines statements).head?, c = 'i' := by
  have first : ∀ i : ImportStatement, ∃ tail, i.render i.specifiers = 'i' :: tail := by
    intro i
    unfold ImportStatement.render
    split
    · exact ⟨_, rfl⟩
    · exact ⟨_, rfl⟩
  intro c hc
  match statements with
  | [] => cases hc
  | [i] =>
    obtain ⟨tail, start⟩ := first i
    rw [renderLines_singleton, start] at hc
    exact (Option.some.inj hc).symm
  | i :: j :: rest =>
    obtain ⟨tail, start⟩ := first i
    rw [renderLines_cons, start] at hc
    exact (Option.some.inj hc).symm

theorem reads_renderLines {statements : List ImportStatement}
    (h : ∀ i ∈ statements, i.Renderable ∧ i.FromAlone) (p : Option Token) (here : Position) :
    ∃ ts q, Reads ⟨p, [], here, renderLines statements⟩ ts
      ⟨q, [], here.advance (renderLines statements), []⟩ ∧ Lined statements ts := by
  induction statements generalizing p here with
  | nil => exact ⟨[], p, .done _, .nil⟩
  | cons i rest ih =>
    obtain ⟨renderable, alone⟩ := h i List.mem_cons_self
    obtain ⟨bindings, reading, spelled⟩ := renderable.says_render alone
    have apart := ImportStatement.apart_render renderable.quotation i.specifiers
    cases rest with
    | nil =>
      obtain ⟨own, q, reads, words⟩ := reading p [] here [] (apart [])
      have lined : Lined [i] (own ++ []) := .cons words spelled (fun _ _ _ hu => nomatch hu) .nil
      rw [List.append_nil] at reads lined
      rw [renderLines_singleton]
      exact ⟨own, q, reads, lined⟩
    | cons j rest =>
      obtain ⟨own, q, reads, words⟩ :=
        reading p [] here ('\n' :: renderLines (j :: rest)) (apart _)
      have newline : step q [] (here.advance (i.render i.specifiers)) '\n'
          (renderLines (j :: rest)) = .ok (skipped ['\n'] (renderLines (j :: rest)) []) := rfl
      obtain ⟨below, q', reads', lined⟩ := ih (fun k hk => h k (List.mem_cons_of_mem i hk)) q
        ((here.advance (i.render i.specifiers)).advance ['\n'])
      refine ⟨own ++ below, q', ?_, .cons words spelled ?_ lined⟩
      · rw [renderLines_cons, Position.advance_append]
        exact reads.append (.step newline reads')
      · intro t ht u hu
        have above := (reads.line_le t ht).2
        have under := (reads'.line_le u hu).1
        simp only [Position.line_advance] at above under
        simp at under
        omega

theorem exists_cons_of_words {i : ImportStatement} {bindings own : List Token}
    (words : own.map Token.bare = i.words bindings) :
    ∃ t rest, own = t :: rest ∧ t.bare = .ofName "import" := by
  cases own with
  | nil => cases words
  | cons t rest => exact ⟨t, rest, rfl, (List.cons.inj words).1⟩

/-- What comes after an import that was read: the end, or the next import. -/
theorem Lined.next {statements : List ImportStatement} {ts : List Token} (h : Lined statements ts)
    {n : Cursor} (ahead : n.ahead = ts) :
    (statements = [] ∧ n.current = .endOfInput n.finish) ∨
      (n.current ∈ ts ∧ n.current.bare = .ofName "import") := by
  cases h with
  | nil =>
    left
    simp [Cursor.current, Cursor.peek, ahead]
  | cons words =>
    obtain ⟨t, rest, rfl, first⟩ := exists_cons_of_words words
    right
    rw [Cursor.current_eq_of_cons ahead]
    exact ⟨List.mem_cons_self, first⟩

/-- Every import is found where it is read, and the next one begins below it. -/
theorem Lined.surveys {statements : List ImportStatement} {ts : List Token} (h : Lined statements ts)
    {c : Cursor} (ahead : c.ahead = ts) (start : statements ≠ [] → c.atStatementStart = true) :
    ∃ found n, Cursor.Surveys 0 c ⟨found, []⟩ 0 n ∧ n.kind = .endOfInput ∧
      List.Forall₂ ImportStatement.Restates statements found := by
  induction h generalizing c with
  | nil =>
    obtain ⟨-, ends⟩ | ⟨mem, -⟩ := Lined.nil.next ahead
    · exact ⟨[], c, .done 0 c, by rw [Cursor.kind, ends]; rfl, .nil⟩
    · cases mem
  | @cons i statements bindings own below words spelled lines others ih =>
    let n : Cursor := ⟨own.getLast?.or c.previous, below, c.finish⟩
    have spells : Cursor.Spells c (i.words bindings) n := ⟨own, ⟨ahead, rfl, rfl⟩, words⟩
    have next := others.next (n := n) rfl
    have value : n.current.value = "" ∨ n.current.value = "import" := by
      rcases next with ⟨-, ends⟩ | ⟨-, first⟩
      · exact .inl (by rw [ends]; rfl)
      · exact .inr (congrArg Token.value first)
    have kind : n.kind = .endOfInput ∨ n.kind = (Token.ofName "import").kind := by
      rcases next with ⟨-, ends⟩ | ⟨-, first⟩
      · exact .inl (by rw [Cursor.kind, ends]; rfl)
      · exact .inr (congrArg Token.kind first : n.current.bare.kind = _)
    obtain ⟨x, first, reads, source, typeOnly, specifiers, terminated⟩ :=
      ImportStatement.surveys_of_words spelled spells (start (List.cons_ne_nil _ _))
        (by rcases value with v | v <;> rw [v] <;> decide)
        (fun _ => by rcases kind with k | k <;> rw [k] <;> decide)
    have start' : statements ≠ [] → n.atStatementStart = true := by
      intro some
      have mem : n.current ∈ below := by
        rcases next with ⟨none, -⟩ | ⟨mem, -⟩
        · exact absurd none some
        · exact mem
      apply (Cursor.endsImport_of_importStatement reads).atStatementStart
      right
      intro t last
      obtain ⟨u, rest, rfl, -⟩ := exists_cons_of_words words
      apply lines t _ _ mem
      apply List.mem_of_getLast?
      simpa [n, List.getLast?_cons] using last
    obtain ⟨found, m, rest, ends, restated⟩ := ih (c := n) rfl start'
    refine ⟨x :: found, m, ?_, ends, .cons ⟨source, specifiers, typeOnly, terminated⟩ restated⟩
    exact first.append rest

/-- Imports that are written one to a line are what is read, in the same order, and nothing else is
read. Only a type imported as the default under the name `from` has to stand alone. -/
theorem outline_renderLines (statements : List ImportStatement)
    (renderable : ∀ i ∈ statements, i.Renderable) (alone : ∀ i ∈ statements, i.FromAlone) :
    ∃ o, outline (renderLines statements) = .ok o ∧ o.exports = [] ∧
      List.Forall₂ ImportStatement.Restates statements o.imports := by
  obtain ⟨ts, q, reads, lined⟩ := reads_renderLines
    (fun i hi => ⟨renderable i hi, alone i hi⟩) none Position.start
  obtain ⟨found, n, surveys, ends, restated⟩ :=
    lined.surveys (c := ⟨none, ts, Position.start.advance (renderLines statements)⟩) rfl
      (fun _ => rfl)
  have noLine : interpreterLine (renderLines statements) = [] := by
    apply interpreterLine_eq_nil
    rintro ⟨rest, start⟩
    have first := head?_renderLines statements '#' (by rw [← start]; rfl)
    exact absurd first (by decide)
  have stream : tokenize (renderLines statements) =
      .ok ⟨ts, Position.start.advance (renderLines statements)⟩ := by
    rw [tokenize, noLine]
    exact tokensFrom_eq_ok.2 ⟨q, reads⟩
  refine ⟨⟨found, []⟩, ?_, rfl, restated⟩
  rw [outline, stream]
  exact Cursor.outlineFrom_eq_ok.2 ⟨0, n, surveys, ends⟩

/-- Two imports whose words all have a meaning in imports. -/
def contextual : List ImportStatement :=
  [{ source := ⟨"it\x27s", "\"it\x27s\""⟩
     specifiers := [⟨"default", "type", false⟩, ⟨"as", "as", false⟩, ⟨"from", "type", true⟩]
     typeOnly := false
     terminated := true
     span := ⟨.start, 0⟩ },
    { source := ⟨"a", "\x27a\x27"⟩
      specifiers := [⟨"default", "from", true⟩]
      typeOnly := true
      terminated := false
      span := ⟨.start, 0⟩ }]

theorem outline_renderLines_contextual :
    renderLines contextual =
        "import type, \x7b as, type from as type \x7d from \"it\x27s\";\nimport type from from \x27a\x27".toList ∧
      (∀ i ∈ contextual, i.Renderable) ∧ (∀ i ∈ contextual, i.FromAlone) ∧
      ∃ o, outline (renderLines contextual) = .ok o ∧ o.exports = [] ∧
        List.Forall₂ ImportStatement.Restates contextual o.imports := by
  have name : ∀ word ∈ ["type", "as", "from"], IsName word := by
    intro word mem
    rw [isName_iff]
    revert word
    decide
  have renderable : ∀ i ∈ contextual, i.Renderable := by
    intro i mem
    rcases List.mem_cons.1 mem with rfl | mem
    · refine ⟨.inr ⟨"type", _, name _ (by decide), .clause ?_, rfl⟩, List.cons_ne_nil _ _,
        '"', ['i', 't', '\x27', 's'], .inl rfl, by simp, by decide +kernel, rfl⟩
      intro s mem
      rcases List.mem_cons.1 mem with rfl | mem
      · exact ⟨name _ (by decide), name _ (by decide), by decide, by decide, by decide⟩
      · rw [List.mem_singleton] at mem
        subst mem
        exact ⟨name _ (by decide), name _ (by decide), by decide, by decide, by decide⟩
    · rw [List.mem_singleton] at mem
      subst mem
      exact ⟨.inr ⟨"from", [], name _ (by decide), .clause (fun _ none => nomatch none), rfl⟩,
        List.cons_ne_nil _ _, '\x27', ['a'], .inr rfl, by simp, by decide +kernel, rfl⟩
  have alone : ∀ i ∈ contextual, i.FromAlone := by
    intro i mem
    rcases List.mem_cons.1 mem with rfl | mem
    · intro typed
      cases typed
    · rw [List.mem_singleton] at mem
      subst mem
      intro _ s hs _ _
      rw [List.mem_singleton.1 hs]
  exact ⟨by decide +kernel, renderable, alone, outline_renderLines contextual renderable alone⟩

/-- After `import type`, the name `from` and a comma are read as a default import `type` that goes on
with `from`. -/
def fromWithOthers : ImportStatement where
  source := ⟨"x", "\x27x\x27"⟩
  specifiers := [⟨"default", "from", true⟩, ⟨"a", "a", true⟩]
  typeOnly := true
  terminated := false
  span := ⟨.start, 0⟩

theorem not_outline_renderLines_fromWithOthers :
    (∀ i ∈ [fromWithOthers], i.Renderable) ∧
      renderLines [fromWithOthers] = "import type from, \x7b a \x7d from \x27x\x27".toList ∧
      ¬ ∃ o, outline (renderLines [fromWithOthers]) = .ok o := by
  refine ⟨?_, by decide +kernel, ?_⟩
  · intro i mem
    rw [List.mem_singleton] at mem
    subst mem
    refine ⟨.inr ⟨"from", _, isName_iff.2 (by decide), .clause ?_, rfl⟩, List.cons_ne_nil _ _,
      '\x27', ['x'], .inr rfl, by simp, by decide +kernel, rfl⟩
    intro s mem
    rw [List.mem_singleton] at mem
    subst mem
    exact ⟨isName_iff.2 (by decide), isName_iff.2 (by decide), by decide, by decide, by decide⟩
  · rintro ⟨o, read⟩
    have refused : (outline (renderLines [fromWithOthers])).toOption = none := by decide +kernel
    rw [read] at refused
    cases refused

end ComponentRegistry
