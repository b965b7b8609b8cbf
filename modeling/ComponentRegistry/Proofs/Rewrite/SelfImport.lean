import ComponentRegistry.Proofs.Lexing.Omission
import ComponentRegistry.Proofs.Outcome
import ComponentRegistry.Proofs.Rewrite.Edit
import ComponentRegistry.Proofs.Rewrite.Exchange
import ComponentRegistry.Proofs.Syntax.Spans

/-! # Removing imports keeps the module

Imports that lose some of their names are exchanged one after the other, from the back of a text to
its front. What stands in front of the one that is exchanged stays where it is, so that its turn can
come later. In the end the other imports and all exports are still there.
-/

namespace ComponentRegistry

open Lexer

/-- Spaces and tabs, and at most one end of a line behind them. -/
def IsLineRest (rest : List Char) : Prop :=
  ∃ blanks ending, rest = blanks ++ ending ∧ (∀ c ∈ blanks, c = ' ' ∨ c = '\t') ∧
    ending ∈ ([[], ['\n'], ['\r', '\n']] : List (List Char))

theorem IsLineRest.isSpace {rest : List Char} (h : IsLineRest rest) :
    ∀ c ∈ rest, Lexeme.isSpace c = true := by
  obtain ⟨blanks, ending, rfl, inline, line⟩ := h
  refine List.forall_mem_append.2 ⟨fun c hc => ?_, ?_⟩
  · rcases inline c hc with rfl | rfl <;> decide
  · simp only [List.mem_cons, List.not_mem_nil, or_false] at line
    rcases line with rfl | rfl | rfl <;> simp [Lexeme.isSpace]

/-- What is removed behind an import. -/
theorem exists_lineRest (after : List Char) :
    ∃ rest left, after = rest ++ left ∧ lineRest after = rest.length ∧ IsLineRest rest := by
  have inline : ∀ c ∈ after.takeWhile isInlineBlank, c = ' ' ∨ c = '\t' := fun c hc => by
    simpa [isInlineBlank] using List.all_eq_true.1 List.all_takeWhile c hc
  have whole : after.takeWhile isInlineBlank ++ after.dropWhile isInlineBlank = after :=
    List.takeWhile_append_dropWhile
  have behind : after.drop (after.takeWhile isInlineBlank).length =
      after.dropWhile isInlineBlank := by
    have := congrArg (List.drop (after.takeWhile isInlineBlank).length) whole
    rw [List.drop_left] at this
    exact this.symm
  unfold lineRest
  simp only [behind]
  generalize after.takeWhile isInlineBlank = front, after.dropWhile isInlineBlank = back at *
  subst whole
  split
  · exact ⟨front, [], rfl, rfl, front, [], by simp, inline, by simp⟩
  · next back =>
    exact ⟨front ++ ['\r', '\n'], back, by simp, by simp, front, _, rfl, inline, by simp⟩
  · next back => exact ⟨front ++ ['\n'], back, by simp, by simp, front, _, rfl, inline, by simp⟩
  · exact ⟨[], _, rfl, rfl, [], [], rfl, by simp, by simp⟩

section Removal

variable {text text' : List Char} {s s' : TokenStream} {o o' : Outline} {i : ImportStatement}
  {specifiers : List Specifier} {front back : List ImportStatement} {e : Edit} {names : List String}

/-- Imports stand one behind the other. -/
theorem imports_apart_of_outline (hs : tokenize text = .ok s) (ho : outline text = .ok o) :
    o.imports.Pairwise fun i j => i.span.stop ≤ j.span.start.offset ∧
      i.span.start.offset < j.span.start.offset := by
  refine (apart_of_outline hs ho).imports.imp_of_mem fun {i j} hi _ hbefore => ⟨hbefore, ?_⟩
  exact (covers_of_mem_imports hs ho hi).nonempty.trans_le hbefore

namespace ImportStatement

/-- An edit that exchanges an import for the same import with certain entries. Where none is left,
blanks behind the import may go as well. -/
structure ExchangedBy (i : ImportStatement) (specifiers : List Specifier) (text : List Char)
    (e : Edit) : Prop where
  start : e.start = i.span.start.offset
  puts : ∃ words, i.Puts specifiers e.replacement words
  stop : ∃ blanks, e.stop = i.span.stop + blanks.length ∧ blanks <+: text.drop i.span.stop ∧
    (∀ c ∈ blanks, Lexeme.isSpace c = true) ∧ (specifiers ≠ [] → blanks = [])

/-- Removing names from an import exchanges it. -/
theorem exchangedBy_removalEdit (text : List Char)
    (hsource : Quotation i.source.path i.source.written)
    (h : Printable i.typeOnly (i.kept names)) :
    i.ExchangedBy (i.kept names) text (i.removalEdit text names) := by
  unfold removalEdit
  cases hkept : i.kept names with
  | nil =>
    obtain ⟨blanks, left, whole, length, line⟩ := exists_lineRest (text.drop i.span.stop)
    exact ⟨rfl, ⟨[], .nothing⟩, blanks, by simp [length], ⟨left, whole.symm⟩, line.isSpace,
      fun some => absurd rfl some⟩
  | cons entry rest =>
    rw [hkept] at h
    obtain ⟨bindings, reading, spelled⟩ := says_render h (List.cons_ne_nil _ _) hsource
    exact ⟨rfl, ⟨_, .anew (List.cons_ne_nil _ _) hsource reading spelled⟩, [], rfl,
      List.nil_prefix, by simp, fun _ => rfl⟩

/-- An edit in front of a place does not depend on what stands behind that place. -/
theorem ExchangedBy.of_take {x : Nat} (h : i.ExchangedBy specifiers text e) (hx : e.stop ≤ x)
    (same : text'.take x = text.take x) : i.ExchangedBy specifiers text' e := by
  obtain ⟨start, puts, blanks, stop, first, blank, keeps⟩ := h
  exact ⟨start, puts, blanks, stop, prefix_drop_of_take first (by omega) same, blank, keeps⟩

/-- An edit of an import ends in front of every later token. -/
theorem ExchangedBy.stop_le {t : Token} (h : i.ExchangedBy specifiers text e)
    (hs : tokenize text = .ok s) (ht : t ∈ s.tokens) (hle : i.span.stop ≤ t.start.offset) :
    e.stop ≤ t.start.offset := by
  obtain ⟨-, -, blanks, stop, first, blank, -⟩ := h
  rw [stop]
  exact TokenStream.add_length_le hs ht hle first blank

/-- Exchanging an import leaves the text in front of it as it is. -/
theorem ExchangedBy.take_apply {t : Token} (h : i.ExchangedBy specifiers text e)
    (hs : tokenize text = .ok s) (ht : t ∈ s.tokens)
    (hstart : t.start.offset = i.span.start.offset) :
    (e.apply text).take i.span.start.offset = text.take i.span.start.offset := by
  have inside := TokenStream.start_lt_length hs ht
  rw [← h.start]
  exact Edit.take_apply (by rw [h.start]; omega)

/-- What a text and its outline become when one of its imports is exchanged. -/
structure OutlineExchanged (text text' : List Char) (s s' : TokenStream) (o o' : Outline)
    (i : ImportStatement) (specifiers : List Specifier) (front back : List ImportStatement) :
    Prop where
  tokenized : tokenize text' = .ok s'
  outlined : outline text' = .ok o'
  unchanged : text'.take i.span.start.offset = text.take i.span.start.offset
  imports : ∃ found back', o'.imports = front ++ (found ++ back') ∧
    List.Forall₂ i.Lists (if specifiers = [] then [] else [specifiers]) found ∧
    List.Forall₂ Alike back back'
  exports : List.Forall₂ ExportStatement.Alike o.exports o'.exports
  exchangeable : ∀ j ∈ front, j.Exchangeable text s o → j.Exchangeable text' s' o'

/-- An import in front of another one can still be exchanged when that one was exchanged. -/
theorem TokensExchanged.exchangeable {j : ImportStatement} {c n : Cursor} {u : Token}
    {own words ts after' : List Token} {y : List Char}
    (hnew : i.TokensExchanged text text' s s' n y words ts after') (hs : tokenize text = .ok s)
    (hsite : i.StandsAt s c n own u)
    (htake : text'.take i.span.start.offset = text.take i.span.start.offset)
    (hexports : ∀ x ∈ o'.exports, x.span.start.offset < i.span.start.offset → x ∈ o.exports)
    (hj : j.Exchangeable text s o) (hstart : j.span.start.offset < i.span.start.offset)
    (hstop : j.span.stop ≤ i.span.start.offset) : j.Exchangeable text' s' o' := by
  obtain ⟨others, hahead⟩ : ∃ others, c.ahead = c.current :: others := by
    obtain ⟨others, rfl⟩ := List.head?_eq_some_iff.1 hsite.head
    exact ⟨_, hsite.passes.ahead⟩
  have htokens := hsite.place.tokens
  refine hj.of_changed hstart.le hstop htake htokens hnew.tokens ?_ ?_ ?_ hexports
  · intro t ht
    rw [hahead] at ht htokens
    rw [← hsite.start]
    exact (TokenStream.ordered_of_tokenize hs).start_le htokens ht
  · intro t ht
    exact (hnew.later t ht).1
  · intro t ht
    refine ⟨hnew.afresh t ht, c.current, by rw [hahead]; rfl, ?_⟩
    have hline := (hnew.later t (List.mem_of_mem_head? ht)).2
    rwa [← hsite.start] at hline

theorem kind_eq_of_moved {here here' : Position} {n n' : Cursor}
    (h : List.Forall₂ (Moved here here') n.ahead n'.ahead) : n'.kind = n.kind := by
  obtain ⟨previous, ahead, finish⟩ := n
  obtain ⟨previous', ahead', finish'⟩ := n'
  cases h with
  | nil => rfl
  | cons first _ =>
    obtain ⟨passed, -, rfl⟩ := first
    rfl

/-- An import of a text is exchanged where it stands, and everything else is found again. -/
theorem Exchangeable.outline_apply (hi : i.Exchangeable text s o) (hs : tokenize text = .ok s)
    (ho : outline text = .ok o) (himports : o.imports = front ++ i :: back)
    (he : i.ExchangedBy specifiers text e) :
    ∃ s' o', OutlineExchanged text (e.apply text) s s' o o' i specifiers front back := by
  obtain ⟨d, m, hrun, hm⟩ := exists_surveys hs ho
  obtain ⟨o₁, o₂, c, n, hfront, hstarts, hreads, hback, rfl, rfl, hexports⟩ :=
    hrun.cut_import himports
  have hat : Cursor.StatementAt c ⟨[i], []⟩ n := .importing hstarts hreads
  have hstart : c.atStatementStart = true := by
    simp only [Cursor.startsImport, Bool.and_eq_true] at hstarts
    exact hstarts.1.1.1
  obtain ⟨own, u, hsite⟩ := hfront.standsAt (TokenStream.ordered_of_tokenize hs) hat
  have htokens : s.tokens = s.before i.span.start.offset ++ (own ++ n.ahead) := by
    rw [← hsite.passes.ahead]
    exact hsite.place.tokens
  -- The import is exchanged, and what stands in front of it is found as before.
  obtain ⟨words, hputs⟩ := he.puts
  obtain ⟨blanks, hstop, ⟨rest, hrest⟩, hblanks, hkeeps⟩ := he.stop
  obtain ⟨s', ts, after', hnew⟩ := hi.tokens hs hsite hputs hrest.symm hblanks hkeeps
  have happly : e.apply text = text.take i.span.start.offset ++ (e.replacement ++ rest) := by
    rw [Edit.apply, he.start, hstop, ← List.drop_drop, ← hrest, List.drop_left, List.append_assoc]
  rw [← happly] at hnew
  obtain ⟨c', hfront', hplace⟩ := hi.surveys_inFront hs hsite hfront
    (fun x hx => by rw [hexports]; exact List.mem_append_left _ hx) hat hstart hnew.tokens
    hnew.afresh
  obtain ⟨n', found, hput, hahead, hlists, hbegin⟩ := hnew.surveys hi hsite hputs hstart hplace
  -- What stands behind it is found again.
  obtain ⟨blanks', -, -, hmoved⟩ := hnew.moved
  rw [← hahead] at hmoved
  have hvalue : ∀ t ∈ n.ahead, t.kind = .mark .semicolon → t.value = ";" := by
    intro t ht hk
    obtain ⟨⟨q, reads⟩, -⟩ := reads_of_tokenize hs
    apply reads.value_eq (u := t) _ (by rw [hk]; rfl)
    rw [htokens]
    exact List.mem_append_right _ (List.mem_append_right _ ht)
  have hbegins : n.kind ≠ .endOfInput → n'.atStatementStart = n.atStatementStart := by
    intro hmore
    rw [hi.atStatementStart hs hsite (Cursor.endsImport_of_importStatement hreads) hmore]
    exact hbegin (by rwa [kind_eq_of_moved hmoved])
  obtain ⟨o₂', m', hback', hm', hsame⟩ := hback.behind hm hmoved hvalue hbegins
  have himports' := hsame.imports.imp fun _ _ h => h.alike
  have hexports' := hsame.exports.imp fun _ _ h => h.alike
  have houtline : outline (e.apply text) = .ok (o₁ ++ (⟨found, []⟩ ++ o₂')) := by
    rw [outline, hnew.tokenized]
    exact Cursor.outlineFrom_eq_ok.2 ⟨d, m', hfront'.append (hput.append hback'), hm'⟩
  have hmem : c.current ∈ s.tokens := by
    rw [htokens]
    exact List.mem_append_right _ (List.mem_append_left _ (List.mem_of_mem_head? hsite.head))
  have htake := he.take_apply hs hmem (congrArg Position.offset hsite.start)
  have hfound : ∀ x ∈ (o₁ ++ (⟨found, []⟩ ++ o₂')).exports,
      x.span.start.offset < i.span.start.offset → x ∈ o.exports := by
    intro x hx hlt
    rw [hexports]
    rcases List.mem_append.1 hx with hx | hx
    · exact List.mem_append_left _ hx
    · obtain ⟨t, ht, hbegin⟩ := hback'.start_mem
        (List.mem_append_right _ (List.mem_map_of_mem hx) : x.span ∈ o₂'.spans)
      rw [hahead] at ht
      have := (hnew.later t (List.mem_append_right _ ht)).1
      rw [hbegin] at hlt
      omega
  have hapart := imports_apart_of_outline hs ho
  rw [himports, List.pairwise_append] at hapart
  refine ⟨s', _, ⟨hnew.tokenized, houtline, htake,
    ⟨found, o₂'.imports, rfl, hlists, himports'⟩, ?_, ?_⟩⟩
  · rw [hexports]
    exact List.rel_append (List.forall₂_same.2 fun x _ => .refl x) hexports'
  · intro j hj hexchangeable
    obtain ⟨hstop, hlt⟩ := hapart.2.2 j hj i List.mem_cons_self
    exact hnew.exchangeable hs hsite htake hfound hexchangeable hlt hstop

/-- What is left of an import without some names comes from the same module. -/
def Keeps (names : List String) (i x : ImportStatement) : Prop := i.Lists (i.kept names) x

/-- Whether an import stays when some names are removed. One that binds nothing does. -/
def stays (names : List String) (i : ImportStatement) : Bool :=
  i.specifiers.isEmpty || !(i.kept names).isEmpty

theorem kept_of_not_binds (h : i.binds names = false) : i.kept names = i.specifiers := by
  rw [binds, List.any_eq_false] at h
  exact List.filter_eq_self.2 fun entry hentry => by simpa using h entry hentry

theorem stays_of_not_binds (h : i.binds names = false) : i.stays names = true := by
  rw [stays, kept_of_not_binds h]
  cases i.specifiers.isEmpty <;> rfl

theorem stays_of_binds (h : i.binds names = true) :
    i.stays names = !(i.kept names).isEmpty := by
  obtain ⟨entry, hentry, -⟩ := List.any_eq_true.1 h
  have some : i.specifiers.isEmpty = false := by
    cases hspecifiers : i.specifiers with
    | nil => simp [hspecifiers] at hentry
    | cons => rfl
  rw [stays, some, Bool.false_or]

theorem Keeps.alike {x x' : ImportStatement} (h : i.Keeps names x) (h' : x.Alike x') :
    i.Keeps names x' :=
  ⟨h'.source.trans h.source, h'.typeOnly.trans h.typeOnly, h'.specifiers ▸ h.specifiers⟩

theorem keeps_of_not_binds (h : i.binds names = false) : i.Keeps names i :=
  ⟨rfl, rfl, by rw [kept_of_not_binds h]⟩

end ImportStatement

namespace Outline

/-- Some imports of a text have lost the names to be removed, and those in front of them have still
to lose them. -/
structure Removed (names : List String) (text : List Char) (o : Outline)
    (front back : List ImportStatement) (text' : List Char) (s' : TokenStream) (o' : Outline) :
    Prop where
  tokenized : tokenize text' = .ok s'
  outlined : outline text' = .ok o'
  imports : ∃ left, o'.imports = front ++ left ∧
    List.Forall₂ (ImportStatement.Keeps names) (back.filter (ImportStatement.stays names)) left
  exports : List.Forall₂ ExportStatement.Alike o.exports o'.exports
  waiting : ∀ i ∈ front, i.binds names = true → i.Exchangeable text' s' o' ∧
    i.ExchangedBy (i.kept names) text' (i.removalEdit text names)

namespace Removed

/-- The next import has no names to lose. -/
theorem skip (h : Removed names text o (front ++ [i]) back text' s' o')
    (hi : i.binds names = false) : Removed names text o front (i :: back) text' s' o' := by
  obtain ⟨left, himports, hleft⟩ := h.imports
  refine ⟨h.tokenized, h.outlined, ⟨i :: left, by simp [himports], ?_⟩, h.exports,
    fun j hj => h.waiting j (List.mem_append_left _ hj)⟩
  rw [List.filter_cons_of_pos (ImportStatement.stays_of_not_binds hi)]
  exact .cons (ImportStatement.keeps_of_not_binds hi) hleft

/-- The next import loses its names. -/
theorem remove (h : Removed names text o (front ++ [i]) back text' s' o')
    (hi : i.binds names = true) :
    ∃ s'' o'', Removed names text o front (i :: back) ((i.removalEdit text names).apply text')
      s'' o'' := by
  obtain ⟨left, himports, hleft⟩ := h.imports
  obtain ⟨hexchangeable, hedit⟩ := h.waiting i (List.mem_append_right _ List.mem_cons_self) hi
  rw [List.append_assoc, List.singleton_append] at himports
  obtain ⟨s'', o'', hnew⟩ := hexchangeable.outline_apply h.tokenized h.outlined himports hedit
  obtain ⟨found, left', himports', hfound, hleft'⟩ := hnew.imports
  refine ⟨s'', o'', hnew.tokenized, hnew.outlined, ⟨found ++ left', himports', ?_⟩, ?_, ?_⟩
  · have hothers : List.Forall₂ (ImportStatement.Keeps names)
        (back.filter (ImportStatement.stays names)) left' :=
      forall₂_comp (fun _ _ _ hkept => hkept.alike) hleft hleft'
    rw [List.filter_cons, ImportStatement.stays_of_binds hi]
    cases hkept : i.kept names with
    | nil =>
      rw [if_pos hkept] at hfound
      cases hfound
      exact hothers
    | cons entry rest =>
      rw [if_neg (by simp [hkept])] at hfound
      cases hfound with
      | cons hlists hnone =>
        cases hnone
        exact .cons hlists hothers
  · exact forall₂_comp (fun _ _ _ hfirst => hfirst.trans) h.exports hnew.exports
  · intro j hj hbinds
    obtain ⟨hj', hedit'⟩ := h.waiting j (List.mem_append_left _ hj) hbinds
    refine ⟨hnew.exchangeable j hj hj', hedit'.of_take ?_ hnew.unchanged⟩
    obtain ⟨d, m, hrun, -⟩ := exists_surveys h.tokenized h.outlined
    have hmem : i.span ∈ o'.spans := by
      apply List.mem_append_left
      rw [himports]
      exact List.mem_map_of_mem (List.mem_append_right _ List.mem_cons_self)
    obtain ⟨t, ht, hstart⟩ := hrun.start_mem hmem
    have hapart := imports_apart_of_outline h.tokenized h.outlined
    rw [himports, List.pairwise_append] at hapart
    have hstop := (hapart.2.2 j hj i List.mem_cons_self).1
    rw [hstart] at hstop ⊢
    exact hedit'.stop_le h.tokenized ht hstop

end Removed

/-- The edits that remove names from some imports. -/
def removalEdits (text : List Char) (names : List String) (imports : List ImportStatement) :
    List Edit :=
  (imports.filter (ImportStatement.binds names)).map (ImportStatement.removalEdit text names)

theorem pairwise_removalEdits (text : List Char) (names : List String)
    {imports : List ImportStatement}
    (h : imports.Pairwise fun i j => i.span.start.offset < j.span.start.offset) :
    (removalEdits text names imports).Pairwise fun e f => e.start < f.start := by
  have start : ∀ i : ImportStatement, (i.removalEdit text names).start = i.span.start.offset := by
    intro i
    unfold ImportStatement.removalEdit
    simp only
    split <;> rfl
  rw [removalEdits, List.pairwise_map]
  simp only [start]
  exact h.filter _

/-- Imports lose their names one after the other, the last one first. -/
theorem exists_removed (hs : tokenize text = .ok s) (ho : outline text = .ok o)
    (hwaiting : ∀ i ∈ o.imports, i.binds names = true → i.Exchangeable text s o ∧
      i.ExchangedBy (i.kept names) text (i.removalEdit text names))
    (himports : o.imports = front ++ back) :
    ∃ s' o', Removed names text o front back
      (Edit.applyAll text (removalEdits text names back)) s' o' := by
  induction back generalizing front with
  | nil =>
    rw [List.append_nil] at himports
    refine ⟨s, o, hs, ho, ⟨[], by simp [himports], .nil⟩,
      List.forall₂_same.2 fun x _ => .refl x, ?_⟩
    rw [← himports]
    exact hwaiting
  | cons i back ih =>
    have hnext : o.imports = (front ++ [i]) ++ back := by simp [himports]
    obtain ⟨s', o', hbehind⟩ := ih hnext
    cases hi : i.binds names with
    | false =>
      rw [removalEdits, List.filter_cons_of_neg (by simp [hi]), ← removalEdits]
      exact ⟨s', o', hbehind.skip hi⟩
    | true =>
      have hsorted : (removalEdits text names (i :: back)).Pairwise
          fun e f => e.start < f.start := by
        have hapart := imports_apart_of_outline hs ho
        rw [himports, List.pairwise_append] at hapart
        exact pairwise_removalEdits text names (hapart.2.1.imp And.right)
      rw [removalEdits, List.filter_cons_of_pos hi, List.map_cons, ← removalEdits] at hsorted ⊢
      rw [Edit.applyAll_cons text hsorted]
      exact hbehind.remove hi

end Outline

/-- The module of an import is named by a string of the text. -/
theorem quotation_of_mem_imports (hs : tokenize text = .ok s) (ho : outline text = .ok o)
    (hi : i ∈ o.imports) : Quotation i.source.path i.source.written := by
  obtain ⟨d, m, hrun, -⟩ := exists_surveys hs ho
  obtain ⟨front, back, hcut⟩ := List.append_of_mem hi
  obtain ⟨o₁, o₂, c, n, hfront, -, hreads, -⟩ := hrun.cut_import hcut
  obtain ⟨t, ht, hkind, hsource⟩ := (Cursor.endsImport_of_importStatement hreads).source
  obtain ⟨⟨q, reads⟩, -⟩ := reads_of_tokenize hs
  rw [hsource]
  exact reads.quotation (hfront.reaches.suffix.subset ht) hkind

end Removal

/-- Removing names from the imports of a module leaves a module. Its imports are those that have
names left, or had none, in the same order and with their other names, and its exports are as
before, as long as every import that loses names can be exchanged and written without them. -/
theorem removeSelfImports_preserves {text : List Char} {s : TokenStream} {o : Outline}
    (names : List String) (hs : tokenize text = .ok s) (ho : outline text = .ok o)
    (h : ∀ i ∈ o.imports, i.binds names = true →
      i.Exchangeable text s o ∧ Printable i.typeOnly (i.kept names)) :
    ∃ r o', removeSelfImports names text = .ok r ∧ outline r.text = .ok o' ∧
      List.Forall₂ (ImportStatement.Keeps names)
        (o.imports.filter (ImportStatement.stays names)) o'.imports ∧
      List.Forall₂ ExportStatement.Alike o.exports o'.exports := by
  have hwaiting : ∀ i ∈ o.imports, i.binds names = true → i.Exchangeable text s o ∧
      i.ExchangedBy (i.kept names) text (i.removalEdit text names) := by
    intro i hi hbinds
    obtain ⟨hexchangeable, hprintable⟩ := h i hi hbinds
    exact ⟨hexchangeable, ImportStatement.exchangedBy_removalEdit text
      (quotation_of_mem_imports hs ho hi) hprintable⟩
  obtain ⟨s', o', hremoved⟩ := Outline.exists_removed hs ho hwaiting (List.nil_append o.imports).symm
  obtain ⟨left, himports, hleft⟩ := hremoved.imports
  refine ⟨o.removeImports text names, o', ?_, hremoved.outlined, ?_, hremoved.exports⟩
  · rw [removeSelfImports, ho]
    rfl
  · rwa [himports, List.nil_append]

/-- The first import keeps a name, and the second one goes with its line. -/
theorem removeSelfImports_preserves_two :
    let text := ("import \x7b Card, Icon \x7d from './ui'\n" ++
      "import Card from './card'\nexport const a = 1").toList
    ∃ s o r o', tokenize text = .ok s ∧ outline text = .ok o ∧
      o.imports.map (ImportStatement.kept ["Card"]) = [[⟨"Icon", "Icon", false⟩], []] ∧
      (∀ i ∈ o.imports, i.binds ["Card"] = true →
        i.Exchangeable text s o ∧ Printable i.typeOnly (i.kept ["Card"])) ∧
      removeSelfImports ["Card"] text = .ok r ∧ outline r.text = .ok o' ∧
      List.Forall₂ (ImportStatement.Keeps ["Card"])
        (o.imports.filter (ImportStatement.stays ["Card"])) o'.imports ∧
      List.Forall₂ ExportStatement.Alike o.exports o'.exports := by
  intro text
  let s := (tokenize text).toOption.getD ⟨[], .start⟩
  let o := (outline text).toOption.getD ⟨[], []⟩
  obtain ⟨htokens, houtline, hkept, hexchangeable⟩ :
      (tokenize text).toOption.isSome = true ∧ (outline text).toOption.isSome = true ∧
        o.imports.map (ImportStatement.kept ["Card"]) = [[⟨"Icon", "Icon", false⟩], []] ∧
        ∀ i ∈ o.imports, i.binds ["Card"] = true →
          i.Exchangeable text s o ∧ Printable i.typeOnly (i.kept ["Card"]) := by
    decide +kernel
  have hs : tokenize text = .ok s := eq_ok_getD htokens _
  have ho : outline text = .ok o := eq_ok_getD houtline _
  obtain ⟨r, o', hremoved⟩ := removeSelfImports_preserves ["Card"] hs ho hexchangeable
  exact ⟨s, o, r, o', hs, ho, hkept, hexchangeable, hremoved⟩

/-- An entry that is named by a string loses its quotes, and what is left is no import. -/
theorem removeSelfImports_quotedEntry :
    let text := "import \x7b \"data-table\" as Table, Card \x7d from './ui'".toList
    let left := "import \x7b data-table as Table \x7d from './ui'".toList
    (outline text).toOption.isSome = true ∧
      (removeSelfImports ["Card"] text).toOption = some ⟨left, ["./ui"]⟩ ∧
      (outline left).toOption = none := by
  intro text left
  decide +kernel

end ComponentRegistry
