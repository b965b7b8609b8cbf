import ComponentRegistry.Proofs.Lexing.Dropping
import ComponentRegistry.Proofs.Lexing.Trailing
import ComponentRegistry.Proofs.Rewrite.Rendering
import ComponentRegistry.Proofs.Rewrite.Splicing
import ComponentRegistry.Proofs.Syntax.Spans

/-! # What a default declaration loses

A declaration that is the default export loses the word `default`, and an `abstract` behind it.
Every other token of the text is kept in its order, and those of the statement at the end come last.
-/

namespace ComponentRegistry

open Lexer

theorem TokenStream.Ordered.sorted {s : TokenStream} (hs : s.Ordered) :
    s.tokens.Pairwise fun t u => t.start.offset < u.start.offset :=
  hs.apart.imp_of_mem fun ht _ hle => (hs.nonempty _ ht).trans_le hle

namespace Edit

/-- Whether a token begins in the stretch of a text that an edit replaces. -/
def covers (x : Edit) (t : Token) : Bool :=
  decide (x.start ≤ t.start.offset ∧ t.start.offset < x.stop)

/-- Whether a token begins in no stretch that some edits replace. -/
def spares (edits : List Edit) (t : Token) : Bool := edits.all fun x => !x.covers t

/-- What takes place when words behind `export` are left out, from `default` up to another word. -/
structure DropsWords (s : TokenStream) (x : Edit) (before words : List Token) (k : Token)
    (after : List Token) : Prop where
  tokens : s.tokens = before ++ (words ++ k :: after)
  start : ∃ d ∈ words.head?, d.kind = .keyword .defaultWord ∧ x.start = d.start.offset ∧
    (d.line = k.line ∨ ∀ t ∈ before, t.isHalf = false)
  stop : x.stop = k.start.offset
  replacement : x.replacement = []
  names : ∀ t ∈ words ++ [k], t.kind.isName = true
  other : k.kind ≠ .keyword .defaultWord
  behind : ∃ v ∈ before.getLast?, v.kind = .keyword .exportWord

/-- Whether an edit leaves out words behind `export`. -/
def IsDrop (s : TokenStream) (x : Edit) : Prop :=
  ∃ before words k after, x.DropsWords s before words k after

section Drops

variable {text : List Char} {s : TokenStream} {x : Edit} {edits : List Edit} {k t : Token}
  {before words after front back between : List Token} {n : Nat}

theorem DropsWords.tokens_behind (h : x.DropsWords s before words k after) :
    s.tokens = (before ++ words) ++ k :: after := by
  rw [h.tokens, List.append_assoc]

/-- An edit covers the words that it leaves out, and no other token. -/
theorem DropsWords.covers_eq (h : x.DropsWords s before words k after) (hs : s.Ordered) :
    (∀ t ∈ before, x.covers t = false) ∧ (∀ t ∈ words, x.covers t = true) ∧
      ∀ t ∈ k :: after, x.covers t = false := by
  obtain ⟨d, hd, -, hstart, -⟩ := h.start
  obtain ⟨rest, hrest⟩ : ∃ rest, words = d :: rest := List.head?_eq_some_iff.1 hd
  have hcut : s.tokens = before ++ d :: (rest ++ k :: after) := by
    rw [h.tokens, hrest, List.cons_append]
  simp only [covers, hstart, h.stop, decide_eq_false_iff_not, decide_eq_true_eq]
  refine ⟨fun t ht => ?_, fun t ht => ⟨?_, ?_⟩, fun t ht => ?_⟩
  · have := hs.start_lt hcut ht
    omega
  · rw [hrest] at ht
    exact hs.start_le hcut (by rw [← List.cons_append]; exact List.mem_append_left _ ht)
  · exact hs.start_lt h.tokens_behind (List.mem_append_right _ ht)
  · have := hs.start_le h.tokens_behind ht
    omega

theorem DropsWords.covers_iff (h : x.DropsWords s before words k after) (hs : s.Ordered)
    (ht : t ∈ s.tokens) : x.covers t = true ↔ t ∈ words := by
  obtain ⟨hbefore, hwords, hbehind⟩ := h.covers_eq hs
  refine ⟨fun hcovers => ?_, hwords t⟩
  rw [h.tokens, List.mem_append, List.mem_append] at ht
  rcases ht with ht | ht | ht
  · simp [hbefore t ht] at hcovers
  · exact ht
  · simp [hbehind t ht] at hcovers

/-- Of the tokens from some place on, an edit and those behind it spare those in front of the words
that it leaves out, and those behind them that the others spare. -/
theorem DropsWords.filter_spares (h : x.DropsWords s before words k after) (hs : s.Ordered)
    (hbetween : ∀ t ∈ between, t ∈ before)
    (hlater : ∀ y ∈ edits, ∀ t ∈ before ++ words ++ [k], t.start.offset < y.start) :
    (between ++ (words ++ k :: after)).filter (spares (x :: edits)) =
      between ++ k :: after.filter (spares edits) := by
  obtain ⟨hbefore, hwords, hbehind⟩ := h.covers_eq hs
  have hspares : ∀ t ∈ before ++ words ++ [k], spares edits t = true := by
    intro t ht
    refine List.all_eq_true.2 fun y hy => ?_
    have := hlater y hy t ht
    simp [covers, this]
  have hcons : ∀ t, spares (x :: edits) t = (!x.covers t && spares edits t) := fun t => rfl
  rw [List.filter_append, List.filter_append, List.filter_cons_of_pos, List.filter_eq_self.2,
    List.filter_eq_nil_iff.2, List.nil_append]
  · congr 2
    refine List.filter_congr fun t ht => ?_
    rw [hcons, hbehind t (List.mem_cons_of_mem _ ht), Bool.not_false, Bool.true_and]
  · intro t ht
    simp [hcons, hwords t ht]
  · intro t ht
    rw [hcons, hbefore t (hbetween t ht), hspares t (by simp [hbetween t ht])]
    rfl
  · rw [hcons, hbehind k List.mem_cons_self, hspares k (by simp)]
    rfl

/-- Behind the word that one edit leads up to, the next one begins. -/
theorem DropsWords.start_lt (h : x.DropsWords s before words k after) (hs : s.Ordered) {y : Edit}
    (hy : y.IsDrop s) (hle : x.stop ≤ y.start) :
    ∀ t ∈ before ++ words ++ [k], t.start.offset < y.start := by
  obtain ⟨before', words', k', after', h'⟩ := hy
  obtain ⟨d, hd, hdefault, hstart, -⟩ := h'.start
  have hmem : d ∈ s.tokens := by
    rw [h'.tokens]
    exact List.mem_append_right _ (List.mem_append_left _ (List.mem_of_head? hd))
  rw [h.stop, hstart] at hle
  rw [h.tokens_behind, List.mem_append] at hmem
  have hbehind : d ∈ after := by
    rcases hmem with hmem | hmem
    · have := hs.start_lt h.tokens_behind hmem
      omega
    · rcases List.mem_cons.1 hmem with rfl | hmem
      · exact absurd hdefault h.other
      · exact hmem
  have hsorted := hs.sorted
  rw [h.tokens_behind, ← List.singleton_append, ← List.append_assoc,
    List.pairwise_append] at hsorted
  rw [hstart]
  exact fun t ht => hsorted.2.2 t ht d hbehind

/-- The tokens in front of the words that an edit leaves out come before the words. -/
theorem DropsWords.exists_between (h : x.DropsWords s before words k after)
    (hsplit : s.tokens = front ++ back) (hfront : ∀ t ∈ front, t.start.offset < x.start) :
    ∃ between, before = front ++ between ∧ back = between ++ (words ++ k :: after) := by
  rcases List.append_eq_append_iff.1 (hsplit.symm.trans h.tokens) with
    ⟨between, hbefore, hback⟩ | ⟨between, hbefore, hwords⟩
  · exact ⟨between, hbefore, hback⟩
  · obtain ⟨d, hd, -, hstart, -⟩ := h.start
    cases between with
    | nil => exact ⟨[], by simpa using hbefore.symm, by simpa using hwords.symm⟩
    | cons t between =>
      obtain ⟨rest, rfl⟩ : ∃ rest, words = d :: rest := List.head?_eq_some_iff.1 hd
      obtain ⟨rfl, -⟩ := List.cons.inj hwords
      have := hfront d (by simp [hbefore])
      omega

theorem bare_of_moved {p p' : Position} {ts ts' : List Token}
    (h : List.Forall₂ (Moved p p') ts ts') : ts'.map Token.bare = ts.map Token.bare := by
  induction h with
  | nil => rfl
  | cons hmoved _ ih =>
    obtain ⟨passed, -, rfl⟩ := hmoved
    rw [List.map_cons, List.map_cons, ih]
    rfl

/-- Edits that leave out words behind `export` keep all other tokens of a text, in their order. Those
in front of the first edit stay where they are. -/
theorem tokenize_applyAll (hs : tokenize text = .ok s) (hordered : InOrder text n edits)
    (hdrops : ∀ x ∈ edits, x.IsDrop s) (hsplit : s.tokens = front ++ back)
    (hfront : ∀ x ∈ edits, ∀ t ∈ front, t.start.offset < x.start) :
    ∃ back' finish, tokenize (applyAll text edits) = .ok ⟨front ++ back', finish⟩ ∧
      back'.map Token.bare = (back.filter (spares edits)).map Token.bare := by
  have horder := TokenStream.ordered_of_tokenize hs
  induction edits generalizing n front back with
  | nil =>
    refine ⟨back, s.finish, by rw [← hsplit]; exact hs, ?_⟩
    rw [List.filter_eq_self.2]
    intro t _
    rfl
  | cons x edits ih =>
    obtain ⟨⟨before, words, k, after, h⟩, hothers⟩ := List.forall_mem_cons.1 hdrops
    obtain ⟨hle, hlong, hrest⟩ := hordered
    have hlater : ∀ y ∈ edits, ∀ t ∈ before ++ words ++ [k], t.start.offset < y.start :=
      fun y hy => h.start_lt horder (hothers y hy) (hrest.le_start y hy)
    -- The edits behind this one leave everything up to the word that it leads up to.
    have hcut : s.tokens = (before ++ words ++ [k]) ++ after := by
      rw [h.tokens]
      simp
    obtain ⟨after₁, finish₁, htokens₁, hbare₁⟩ := ih hrest hothers hcut hlater
    obtain ⟨d, hd, -, hstart, hline⟩ := h.start
    obtain ⟨v, hv, hexport⟩ := h.behind
    have hcut₁ : (before ++ words ++ [k]) ++ after₁ = before ++ (words ++ k :: after₁) := by simp
    obtain ⟨after₂, finish₂, htokens₂, hmoved⟩ := tokenize_drop htokens₁ hcut₁ hd h.names
      ⟨v, List.mem_of_getLast? hv, hexport⟩ (fun u hu => by
        obtain rfl : v = u := Option.some.inj (hv.symm.trans hu)
        exact .inl (by rw [hexport]; rfl)) hline
    obtain ⟨between, rfl, rfl⟩ := h.exists_between hsplit
      (hfront x List.mem_cons_self)
    have hpairwise : (x :: edits).Pairwise fun e f => e.start < f.start :=
      InOrder.pairwise (k := n) ⟨hle, hlong, hrest⟩
    refine ⟨between ++ after₂, finish₂, ?_, ?_⟩
    · rw [applyAll_cons text hpairwise, apply, hstart, h.stop, h.replacement, List.append_nil,
        htokens₂, List.append_assoc]
    · rw [h.filter_spares horder (fun t ht => List.mem_append_right _ ht) hlater, List.map_append,
        List.map_append, bare_of_moved hmoved, List.map_cons, List.map_cons, hbare₁]

end Drops

end Edit

namespace Cursor

variable {c n : Cursor} {form : ExportForm} {declared : DeclarationKind} {default d k : Token}
  {async : Option Token} {own : Option String} {lead rest : List Token}

/-- The words of a default declaration behind `export`: `default`, possibly `abstract`, and the word
with which the declaration goes on. Its name comes later. -/
structure Declares (c : Cursor) (d k : Token) (own : Option String) (lead rest : List Token) :
    Prop where
  ahead : c.ahead = d :: (lead ++ k :: rest)
  default : d.kind = .keyword .defaultWord
  lead : ∀ t ∈ lead, t.kind = .keyword .abstractWord
  word : ∃ w, k.kind = .keyword w ∧ w ≠ .defaultWord
  name : ∀ name ∈ own, ∃ u ∈ rest, u.kind.isName = true ∧ u.value = name

theorem exists_name_of_reaches (h : Reaches c n) {condition : Bool}
    (hname : condition = true → n.atName = true) :
    ∀ name ∈ (if condition then some n.current.value else none),
      ∃ u ∈ c.ahead, u.kind.isName = true ∧ u.value = name := by
  intro name hown
  split at hown
  · next hcondition =>
    obtain rfl : n.current.value = name := Option.some.inj hown
    have hn := hname hcondition
    obtain ⟨rest, hrest⟩ := exists_cons_of_kind (kind_ne_of_atName hn)
    exact ⟨n.current, h.suffix.subset (by simp [hrest]), hn, rfl⟩
  · cases hown

/-- The name of a function stands behind its first word. -/
theorem exists_name_of_defaultFunction {found : Option Token} (hc : c.ahead = c.current :: rest)
    (hform : (defaultFunction default found c).1 = .defaultDeclaration declared d async k own) :
    (d = default ∧ async = found ∧ k = c.current) ∧
      ∀ name ∈ own, ∃ u ∈ rest, u.kind.isName = true ∧ u.value = name := by
  obtain ⟨-, rfl, rfl, rfl, rfl⟩ := ExportForm.defaultDeclaration.inj hform
  refine ⟨⟨rfl, rfl, rfl⟩, ?_⟩
  rw [← ahead_advance hc]
  exact exists_name_of_reaches (reaches_advanceIf _ _) id

/-- The name of a class stands behind its first word. -/
theorem exists_name_of_defaultClass (hc : c.ahead = c.current :: rest)
    (hform : (defaultClass default c).1 = .defaultDeclaration declared d async k own) :
    (d = default ∧ async = none ∧ k = c.current) ∧
      ∀ name ∈ own, ∃ u ∈ rest, u.kind.isName = true ∧ u.value = name := by
  obtain ⟨-, rfl, rfl, rfl, rfl⟩ := ExportForm.defaultDeclaration.inj hform
  refine ⟨⟨rfl, rfl, rfl⟩, ?_⟩
  rw [← ahead_advance hc]
  refine exists_name_of_reaches (Reaches.refl _) fun h => ?_
  simp only [atClassName, Bool.and_eq_true] at h
  exact h.1.1

theorem exists_declares_of_defaultExported
    (hok : c.defaultExported default = .ok (.defaultDeclaration declared d async k own, n)) :
    d = default ∧ ∃ lead rest, c.ahead = lead ++ async.getD k :: rest ∧
      (∀ t ∈ lead, t.kind = .keyword .abstractWord) ∧
      (∃ w, (async.getD k).kind = .keyword w ∧ w ≠ .defaultWord) ∧
      ∀ name ∈ own, ∃ u ∈ rest, u.kind.isName = true ∧ u.value = name := by
  cases readsDefault_of_defaultExported hok with
  | asyncFunction modifies reads =>
    obtain ⟨hasync, hfunction⟩ := asyncModifiesFunction_iff.1 modifies
    obtain ⟨rest, hc⟩ := exists_cons_of_kind (c := c) (by simp [hasync])
    obtain ⟨rest', hc'⟩ := exists_cons_of_kind (c := c.advance) (by simp [hfunction])
    obtain ⟨⟨rfl, rfl, rfl⟩, hname⟩ := exists_name_of_defaultFunction hc' (congrArg Prod.fst reads)
    refine ⟨rfl, [], rest, by simpa using hc, by simp, ⟨_, hasync, by decide⟩, ?_⟩
    intro name hown
    obtain ⟨u, hu, h⟩ := hname name hown
    refine ⟨u, ?_, h⟩
    rw [← ahead_advance hc, hc']
    exact List.mem_cons_of_mem _ hu
  | plainFunction word reads =>
    obtain ⟨rest, hc⟩ := exists_cons_of_kind (c := c) (by simp [kind_of_atWord word])
    obtain ⟨⟨rfl, rfl, rfl⟩, hname⟩ := exists_name_of_defaultFunction hc (congrArg Prod.fst reads)
    exact ⟨rfl, [], rest, by simpa using hc, by simp, ⟨_, kind_of_atWord word, by decide⟩, hname⟩
  | ofClass begins reads =>
    have hkind := kind_of_atClass begins
    obtain ⟨rest, hc⟩ := exists_cons_of_kind (c := c.advanceIf (c.atWord .abstractWord))
      (by simp [hkind])
    obtain ⟨⟨rfl, rfl, rfl⟩, hname⟩ := exists_name_of_defaultClass hc (congrArg Prod.fst reads)
    refine ⟨rfl, ?_⟩
    by_cases habstract : c.atWord .abstractWord = true
    · obtain ⟨more, hfirst⟩ := exists_cons_of_kind (c := c) (by simp [kind_of_atWord habstract])
      rw [habstract, advanceIf, if_pos rfl] at hc hkind ⊢
      refine ⟨[c.current], rest, ?_, ?_, ⟨_, hkind, by decide⟩, hname⟩
      · rw [hfirst, ← ahead_advance hfirst, hc]
        rfl
      · intro t ht
        rw [List.mem_singleton.1 ht]
        exact kind_of_atWord habstract
    · rw [Bool.not_eq_true] at habstract
      rw [habstract, advanceIf, if_neg (by simp)] at hc hkind ⊢
      exact ⟨[], rest, hc, by simp, ⟨_, hkind, by decide⟩, hname⟩
  | interface _ _ unnamed => cases unnamed
  | name _ _ reads => cases reads
  | expression _ _ reads => cases reads

theorem exists_declares (hok : c.exportForm = .ok (.defaultDeclaration declared d async k own, n)) :
    ∃ lead rest, c.Declares d (async.getD k) own lead rest := by
  rcases Seam.exportForm_cases hok with hkind | ⟨hnone, -, -⟩ | hdeclaration
  · obtain ⟨rest, hc⟩ := exists_cons_of_kind (c := c) (by simp [hkind])
    obtain ⟨heq, hahead, -⟩ := Seam.exportForm_of_default hkind hc
    obtain ⟨rfl, lead, rest', hrest, hlead, hword, hname⟩ :=
      exists_declares_of_defaultExported (heq.symm.trans hok)
    exact ⟨lead, rest', by rw [hc, ← hahead, hrest], hkind, hlead, hword, hname⟩
  · cases hnone
  · obtain ⟨_, _, _, hform, -⟩ := exists_of_declared hdeclaration
    cases hform

end Cursor

/-- Whether a default export, of a certain name, is not importable by that name yet. -/
def Outline.LacksName (o : Outline) (e : ExportStatement) (name : String) : Prop :=
  e ∈ o.exports ∧ e.unnamedDefault (o.runtimeExports.flatMap ExportStatement.names) = some name

theorem ExportStatement.unnamedDefault_eq_some_iff {e : ExportStatement} {named : List String}
    {name : String} : e.unnamedDefault named = some name ↔
      e.source = none ∧ e.ownDefaultName = some name ∧ name ∉ named := by
  unfold unnamedDefault
  split
  · next hsource =>
    obtain ⟨source, hsource⟩ := Option.isSome_iff_exists.1 hsource
    simp [hsource]
  · next hsource => simpa [Option.filter_eq_some_iff] using fun _ _ => hsource

/-- A default export that is stated again at the end of the text. The word that a declaration goes on
with stands on the line of `default`, or else no quote and no slash is left over in front of it. The
clause for an entry of another clause can be read, which a string may prevent. -/
inductive ExportForm.Restates (s : TokenStream) (name : String) : ExportForm → Prop where
  | declaration {declared : DeclarationKind} {default keyword : Token} {async : Option Token}
      {own : Option String} (line : default.line = (async.getD keyword).line ∨
        ∀ t ∈ s.tokens, t.start.offset < default.start.offset → t.isHalf = false) :
      Restates s name (.defaultDeclaration declared default async keyword own)
  | entry {specifiers : List Specifier} {source : Option ModuleSource} {typeOnly : Bool}
      (reads : ∃ u, tokenize (nameClause name) = .ok u) :
      Restates s name (.list specifiers source typeOnly)

/-- The words that a default declaration loses: `default`, and `abstract` between that and the word
it goes on with. -/
inductive ExportForm.Loses : ExportForm → Token → Prop where
  | default {declared : DeclarationKind} {default keyword : Token} {async : Option Token}
      {own : Option String} (word : default.kind = .keyword .defaultWord) :
      Loses (.defaultDeclaration declared default async keyword own) default
  | abstract {declared : DeclarationKind} {default keyword t : Token} {async : Option Token}
      {own : Option String} (word : t.kind = .keyword .abstractWord)
      (behind : default.stop ≤ t.start.offset)
      (front : t.stop ≤ (async.getD keyword).start.offset) :
      Loses (.defaultDeclaration declared default async keyword own) t

section Declarations

variable {text : List Char} {s : TokenStream} {o : Outline} {e : ExportStatement} {name : String}
  {declared : DeclarationKind} {d k t : Token} {async : Option Token} {own : Option String}

/-- The words with which the declaration behind `export default` begins. -/
theorem exists_declares_of_export (hs : tokenize text = .ok s) (ho : outline text = .ok o)
    (he : e ∈ o.exports) (hform : e.form = .defaultDeclaration declared d async k own) :
    ∃ front t lead rest, s.tokens = front ++ t :: d :: (lead ++ async.getD k :: rest) ∧
      t.kind = .keyword .exportWord ∧
      (s.behindFirst e.span).Declares d (async.getD k) own lead rest := by
  obtain ⟨front, t, n, htokens, hexport, hread⟩ := exists_exportForm hs ho he
  rw [hform] at hread
  obtain ⟨lead, rest, h⟩ := Cursor.exists_declares hread
  exact ⟨front, t, lead, rest, by rw [htokens, h.ahead], hexport, h⟩

/-- The edit of a default declaration leaves out `default` and what stands behind it up to the word
that the declaration goes on with. -/
theorem exists_dropsWords (hs : tokenize text = .ok s) (ho : outline text = .ok o)
    (he : e ∈ o.exports) (hform : e.form = .defaultDeclaration declared d async k own)
    (hrestates : e.form.Restates s name) :
    ∃ before lead after, Edit.DropsWords s ⟨d.start.offset, (async.getD k).start.offset, []⟩ before
        (d :: lead) (async.getD k) after ∧ d.kind = .keyword .defaultWord ∧
      (∀ t ∈ lead, t.kind = .keyword .abstractWord) ∧
      ∀ name ∈ own, Lexeme.isNameText name.toList = true := by
  obtain ⟨front, t, lead, rest, htokens, hexport, h⟩ := exists_declares_of_export hs ho he hform
  rw [hform] at hrestates
  obtain ⟨w, hword, hother⟩ := h.word
  have hcut : s.tokens = front ++ [t] ++ d :: (lead ++ async.getD k :: rest) := by
    rw [htokens, List.append_assoc]
    rfl
  have horder := TokenStream.ordered_of_tokenize hs
  refine ⟨front ++ [t], lead, rest, ⟨?_, ⟨d, rfl, h.default, rfl, ?_⟩, rfl, rfl, ?_, ?_, ?_⟩,
    h.default, h.lead, ?_⟩
  · rw [hcut, List.cons_append]
  · cases hrestates with
    | declaration line =>
      refine line.imp_right fun hfront u hu => hfront u ?_ (horder.start_lt hcut hu)
      rw [hcut]
      exact List.mem_append_left _ hu
  · intro u hu
    rw [List.cons_append, List.mem_cons, List.mem_append, List.mem_singleton] at hu
    rcases hu with rfl | hu | rfl
    · rw [h.default]
      rfl
    · rw [h.lead u hu]
      rfl
    · rw [hword]
      rfl
  · rw [hword]
    simpa using hother
  · exact ⟨t, by simp, hexport⟩
  · intro name hown
    obtain ⟨u, hu, hname, rfl⟩ := h.name name hown
    obtain ⟨⟨q, hrun⟩, -⟩ := reads_of_tokenize hs
    exact hrun.isNameText_value (by rw [hcut]; simp [hu]) hname

/-- What a default export changes, if it lacks its name. -/
theorem mem_defaultExportChanges {change : DefaultExportChange} :
    change ∈ o.defaultExportChanges ↔
      ∃ e name, o.LacksName e name ∧ e.defaultChange name = some change := by
  simp only [Outline.defaultExportChanges, List.mem_filterMap, Option.bind_eq_some_iff,
    Outline.LacksName]
  constructor
  · rintro ⟨e, he, name, hname, hchange⟩
    exact ⟨e, name, ⟨he, hname⟩, hchange⟩
  · rintro ⟨e, name, ⟨he, hname⟩, hchange⟩
    exact ⟨e, he, name, hname, hchange⟩

/-- The edit of one default export. -/
def Outline.editOf (o : Outline) (e : ExportStatement) : Option Edit :=
  ((e.unnamedDefault (o.runtimeExports.flatMap ExportStatement.names)).bind e.defaultChange).bind
    DefaultExportChange.edit?

theorem defaultExportEdits_eq : o.defaultExportEdits = o.exports.filterMap o.editOf :=
  List.filterMap_filterMap

theorem editOf_eq_some_iff (h : ∀ e name, o.LacksName e name → e.form.Restates s name)
    (he : e ∈ o.exports) {x : Edit} : o.editOf e = some x ↔
      ∃ name declared d async k own, o.LacksName e name ∧
        e.form = .defaultDeclaration declared d async k own ∧
        x = ⟨d.start.offset, (async.getD k).start.offset, []⟩ := by
  simp only [Outline.editOf, Option.bind_eq_some_iff]
  constructor
  · rintro ⟨change, ⟨name, hname, hchange⟩, hx⟩
    have hrestates := h e name ⟨he, hname⟩
    obtain ⟨form, terminated, span⟩ := e
    cases hrestates with
    | declaration line =>
      cases hchange
      cases hx
      exact ⟨name, _, _, _, _, _, ⟨he, hname⟩, rfl, rfl⟩
    | entry reads =>
      cases hchange
      cases hx
  · rintro ⟨name, declared, d, async, k, own, ⟨-, hname⟩, hform, rfl⟩
    exact ⟨_, ⟨name, hname, by rw [ExportStatement.defaultChange, hform]⟩, rfl⟩

/-- Edits of statements that do not overlap, each inside of its statement. -/
theorem inOrder_filterMap {f : ExportStatement → Option Edit} {es : List ExportStatement} {n : Nat}
    (hapart : es.Pairwise fun e f => e.span.Before f.span)
    (hinside : ∀ e ∈ es, ∀ x ∈ f e,
      e.span.start.offset ≤ x.start ∧ x.start < x.stop ∧ x.stop ≤ e.span.stop)
    (hlong : ∀ e ∈ es, e.span.stop ≤ text.length) (hle : ∀ e ∈ es, n ≤ e.span.start.offset)
    (hn : n ≤ text.length) : Edit.InOrder text n (es.filterMap f) := by
  induction es generalizing n with
  | nil => exact hn
  | cons e es ih =>
    obtain ⟨hbefore, hapart⟩ := List.pairwise_cons.1 hapart
    obtain ⟨hfirst, hinside⟩ := List.forall_mem_cons.1 hinside
    obtain ⟨hstop, hlong⟩ := List.forall_mem_cons.1 hlong
    obtain ⟨hstart, hle⟩ := List.forall_mem_cons.1 hle
    cases hf : f e with
    | none =>
      rw [List.filterMap_cons_none hf]
      exact ih hapart hinside hlong hle hn
    | some x =>
      obtain ⟨hfront, hnonempty, hback⟩ := hfirst x hf
      rw [List.filterMap_cons_some hf]
      refine ⟨hstart.trans hfront, hnonempty, ih hapart hinside hlong (fun e' he' => ?_)
        (hback.trans hstop)⟩
      exact hback.trans (hbefore e' he')

/-- The edit of a default export takes up the whole statement, or a stretch inside of it. -/
theorem editOf_inside (hs : tokenize text = .ok s) (ho : outline text = .ok o) (he : e ∈ o.exports)
    {x : Edit} (hx : o.editOf e = some x) :
    e.span.start.offset ≤ x.start ∧ x.start < x.stop ∧ x.stop ≤ e.span.stop := by
  obtain ⟨hcovers, hholds⟩ := covers_of_mem_exports hs ho he
  simp only [Outline.editOf, Option.bind_eq_some_iff] at hx
  obtain ⟨change, ⟨name, -, hchange⟩, hx⟩ := hx
  cases hform : e.form <;> rw [ExportStatement.defaultChange, hform] at hchange <;>
    cases hchange <;> cases hx
  case defaultName => exact ⟨le_rfl, hcovers.nonempty, le_rfl⟩
  case defaultDeclaration declared d async k own =>
    obtain ⟨front, t, lead, rest, htokens, -, -⟩ := exists_declares_of_export hs ho he hform
    have horder := TokenStream.ordered_of_tokenize hs
    have hmem : async.getD k ∈ s.tokens := by simp [htokens]
    have hlong := horder.nonempty _ hmem
    have hlast : (async.getD k).Inside e.span := by
      cases async with
      | none => exact hholds.declaration k (by rw [hform]; rfl)
      | some a => exact (hholds.async a (by rw [hform]; rfl)).2 (by rw [hform]; exact id)
    have hcut : s.tokens = (front ++ t :: d :: lead) ++ async.getD k :: rest := by simp [htokens]
    refine ⟨(hholds.default d (by rw [hform]; rfl)).1.1, ?_, hlong.le.trans hlast.2⟩
    exact horder.start_lt hcut (by simp)

/-- The edits of default exports stand in the order of the text. -/
theorem inOrder_defaultExportEdits (hs : tokenize text = .ok s) (ho : outline text = .ok o) :
    Edit.InOrder text 0 o.defaultExportEdits := by
  rw [defaultExportEdits_eq]
  apply inOrder_filterMap (apart_of_outline hs ho).exports
  · intro e he x hx
    exact editOf_inside hs ho he hx
  · intro e he
    exact (covers_of_mem_exports hs ho he).1.inside
  · intro e _
    exact Nat.zero_le _
  · exact Nat.zero_le _

/-- A statement that states a name begins with the word `export`. -/
def IsStatement (statement : List Char) : Prop := ∃ more, statement = "export".toList ++ ' ' :: more

theorem nameClause_eq (name : String) : nameClause name =
    "export".toList ++ ' ' :: ('\x7b' :: (' ' :: name.toList ++ [' '] ++ ['\x7d']) ++ [';']) := by
  have hfront : "export \x7b ".toList = "export".toList ++ ' ' :: ['\x7b', ' '] := by
    decide +kernel
  have hend : " \x7d;".toList = [' ', '\x7d', ';'] := by decide
  have hcut : nameClause name =
      "export".toList ++ ' ' :: ['\x7b', ' '] ++ name.toList ++ [' ', '\x7d', ';'] :=
    congrArg₂ (fun front back => front ++ name.toList ++ back) hfront hend
  simpa only [List.append_assoc, List.cons_append, List.nil_append] using hcut

theorem isStatement_nameClause (name : String) : IsStatement (nameClause name) :=
  ⟨_, nameClause_eq name⟩

theorem defaultNameStatement_eq (name : String) : defaultNameStatement name =
    "export".toList ++ ' ' :: ("default".toList ++ ' ' :: (name.toList ++ [';'])) := by
  have hfront : "export default ".toList =
      "export".toList ++ ' ' :: ("default".toList ++ [' ']) := by
    decide +kernel
  have hcut : defaultNameStatement name =
      "export".toList ++ ' ' :: ("default".toList ++ [' ']) ++ name.toList ++ [';'] :=
    congrArg (fun front => front ++ name.toList ++ [';']) hfront
  simpa only [List.append_assoc, List.cons_append, List.nil_append] using hcut

theorem isStatement_defaultNameStatement (name : String) :
    IsStatement (defaultNameStatement name) := ⟨_, defaultNameStatement_eq name⟩

theorem IsStatement.not_interpreter {statement : List Char} (h : IsStatement statement) :
    ¬ ['#', '!'] <+: statement := by
  obtain ⟨more, rfl⟩ := h
  have hfirst : "export".toList = 'e' :: "xport".toList := by decide
  rintro ⟨rest, hrest⟩
  rw [hfirst] at hrest
  exact absurd (List.cons.inj hrest).1 (by decide)

theorem IsStatement.ofText_eq {statement : List Char} (h : IsStatement statement) :
    Scan.ofText statement = ⟨none, [], .start, statement⟩ := by
  rw [Scan.ofText, interpreterLine_eq_nil h.not_interpreter]
  rfl

theorem IsStatement.kind_first {statement : List Char} {u : TokenStream} (h : IsStatement statement)
    (hu : tokenize statement = .ok u) : ∀ w ∈ u.tokens.head?, w.kind = .keyword .exportWord := by
  have hall : ∃ q, Reads (Scan.ofText statement) u.tokens ⟨q, [], u.finish, []⟩ :=
    tokensFrom_eq_ok.1 hu
  rw [h.ofText_eq] at hall
  have hall := tokensFrom_eq_ok.2 hall
  obtain ⟨more, rfl⟩ := h
  have hexport : Says "export".toList [.ofName "export"] := says_ofName (by decide)
  obtain ⟨ts, q, hrun, hbare⟩ := hexport none [] .start (' ' :: more)
    (apart_of_first (c := ' ') (by decide) "export".toList more)
  have hsplit := (tokensFrom_of_reads hrun).symm.trans hall
  obtain ⟨others, -, rfl⟩ := map_eq_ok.1 hsplit
  obtain ⟨w, rfl, hw⟩ := List.map_eq_singleton_iff.1 hbare
  intro v hv
  obtain rfl : w = v := by simpa using hv
  have hkind : w.bare.kind = (Token.ofName "export").kind := congrArg Token.kind hw
  rw [show w.kind = _ from hkind]
  decide

theorem IsStatement.exists_tokenize {statement : List Char} {words : List Token}
    (h : IsStatement statement) (hread : Says statement words) :
    ∃ u, tokenize statement = .ok u ∧ u.tokens.map Token.bare = words := by
  obtain ⟨ts, q, hrun, hwords⟩ := hread none [] .start [] fun _ _ _ hd => by cases hd
  rw [List.append_nil, ← h.ofText_eq] at hrun
  exact ⟨_, tokenize_of_reads hrun, hwords⟩

/-- The words of the statement of a name as the default export. -/
theorem says_defaultNameStatement (hname : Lexeme.isNameText name.toList = true) :
    Says (defaultNameStatement name)
      [.ofName "export", .ofName "default", .ofName name, .ofMark .semicolon] := by
  have hexport : Says "export".toList [.ofName "export"] := says_ofName (by decide)
  have hdefault : Says "default".toList [.ofName "default"] := says_ofName (by decide)
  have hend := (says_ofName hname).append says_semicolon (by simp)
    (apart_of_first (c := ';') (by decide) name.toList [])
  rw [defaultNameStatement_eq]
  exact hexport.append_blank (hdefault.append_blank hend (by simp)) (by simp)

/-- A declaration that lacks its name has one. -/
theorem own_eq_of_lacksName (h : o.LacksName e name)
    (hform : e.form = .defaultDeclaration declared d async k own) : own = some name := by
  obtain ⟨-, hown, -⟩ := ExportStatement.unnamedDefault_eq_some_iff.1 h.2
  obtain ⟨hname, hother⟩ := Option.filter_eq_some_iff.1 hown
  rw [ExportStatement.defaultExportName, hform] at hname
  obtain rfl : own.getD ExportForm.defaultWord = name := Option.some.inj hname
  cases own with
  | none => simp at hother
  | some _ => rfl

/-- The statement at the end can be read on its own. -/
theorem exists_of_mem_trailer (hs : tokenize text = .ok s) (ho : outline text = .ok o)
    (h : ∀ e name, o.LacksName e name → e.form.Restates s name) {statement : List Char}
    (hstatement : statement ∈ o.defaultExportTrailer) :
    IsStatement statement ∧ ∃ u, tokenize statement = .ok u := by
  obtain ⟨change, hchange, hstated⟩ := List.mem_filterMap.1 (List.mem_of_getLast? hstatement)
  obtain ⟨e, name, hlacks, hchange⟩ := mem_defaultExportChanges.1 hchange
  have hrestates := h e name hlacks
  cases hform : e.form <;> rw [hform] at hrestates <;> cases hrestates
  case defaultDeclaration declared d async k own line =>
    obtain ⟨-, -, -, -, -, -, hname⟩ := exists_dropsWords hs ho hlacks.1 hform (h e name hlacks)
    rw [ExportStatement.defaultChange, hform] at hchange
    cases hchange
    cases hstated
    have hstates := isStatement_defaultNameStatement name
    obtain ⟨u, hu, -⟩ := hstates.exists_tokenize
      (says_defaultNameStatement (hname name (own_eq_of_lacksName hlacks hform)))
    exact ⟨hstates, u, hu⟩
  case list specifiers source typeOnly reads =>
    rw [ExportStatement.defaultChange, hform] at hchange
    cases hchange
    cases hstated
    exact ⟨isStatement_nameClause name, reads⟩

/-- The tokens of the text with the statement at its end. -/
theorem tokenize_statedBelow (hs : tokenize text = .ok s) (ho : outline text = .ok o)
    (h : ∀ e name, o.LacksName e name → e.form.Restates s name) {left : List Char}
    {s₁ : TokenStream} (hleft : tokenize left = .ok s₁) :
    ∃ s' u, tokenize (withTrailer left o.defaultExportTrailer) = .ok s' ∧
      tokenize (o.defaultExportTrailer.getD []) = .ok u ∧
      s'.tokens.map Token.bare = s₁.tokens.map Token.bare ++ u.tokens.map Token.bare := by
  cases htrailer : o.defaultExportTrailer with
  | none =>
    have hnone : tokenize [] = .ok ⟨[], .start⟩ := tokenize_of_reads (.done _)
    exact ⟨s₁, _, hleft, hnone, (List.append_nil _).symm⟩
  | some statement =>
    obtain ⟨hstatement, u, hu⟩ := exists_of_mem_trailer hs ho h htrailer
    refine ⟨_, u, tokenize_withTrailer hleft hu hstatement.not_interpreter fun w hw => ?_, hu, ?_⟩
    · rw [hstatement.kind_first hu w hw]
      decide
    · rw [List.map_append, TokenStream.shift, List.map_map]
      rfl

theorem exists_isDrop_of_mem (hs : tokenize text = .ok s) (ho : outline text = .ok o)
    (h : ∀ e name, o.LacksName e name → e.form.Restates s name) {x : Edit}
    (hx : x ∈ o.defaultExportEdits) : x.IsDrop s := by
  rw [defaultExportEdits_eq] at hx
  obtain ⟨e, he, hx⟩ := List.mem_filterMap.1 hx
  obtain ⟨name, declared, d, async, k, own, hlacks, hform, rfl⟩ := (editOf_eq_some_iff h he).1 hx
  obtain ⟨before, lead, after, hdrops, -⟩ := exists_dropsWords hs ho he hform (h e name hlacks)
  exact ⟨before, _, _, after, hdrops⟩

/-- The tokens that the edits of a text do not spare are those that its default declarations lose. -/
theorem spares_eq_false_iff (hs : tokenize text = .ok s) (ho : outline text = .ok o)
    (h : ∀ e name, o.LacksName e name → e.form.Restates s name) (ht : t ∈ s.tokens) :
    Edit.spares o.defaultExportEdits t = false ↔
      ∃ e name, o.LacksName e name ∧ e.form.Loses t := by
  have horder := TokenStream.ordered_of_tokenize hs
  simp only [Edit.spares, List.all_eq_false, Bool.not_eq_true', Bool.not_eq_false]
  rw [defaultExportEdits_eq]
  constructor
  · rintro ⟨x, hx, hcovers⟩
    obtain ⟨e, he, hx⟩ := List.mem_filterMap.1 hx
    obtain ⟨name, declared, d, async, k, own, hlacks, hform, rfl⟩ := (editOf_eq_some_iff h he).1 hx
    obtain ⟨before, lead, after, hdrops, hdefault, hlead, -⟩ :=
      exists_dropsWords hs ho he hform (h e name hlacks)
    refine ⟨e, name, hlacks, ?_⟩
    rw [hform]
    rcases List.mem_cons.1 ((hdrops.covers_iff horder ht).1 hcovers) with rfl | hmem
    · exact .default hdefault
    · have hapart := horder.apart
      rw [hdrops.tokens, List.cons_append, List.pairwise_append, List.pairwise_cons,
        List.pairwise_append] at hapart
      exact .abstract (hlead t hmem) (hapart.2.1.1 t (List.mem_append_left _ hmem))
        (hapart.2.1.2.2.2 t hmem _ List.mem_cons_self)
  · rintro ⟨e, name, hlacks, hloses⟩
    have hrestates := h e name hlacks
    cases hform : e.form <;> rw [hform] at hloses <;> cases hloses
    all_goals
      refine ⟨_, List.mem_filterMap.2 ⟨e, hlacks.1, (editOf_eq_some_iff h hlacks.1).2
        ⟨name, _, _, _, _, _, hlacks, hform, rfl⟩⟩, ?_⟩
    case default =>
      obtain ⟨before, lead, after, hdrops, -⟩ := exists_dropsWords hs ho hlacks.1 hform hrestates
      exact (hdrops.covers_iff horder ht).2 List.mem_cons_self
    case abstract word behind front =>
      have := horder.nonempty t ht
      simp only [Token.stop] at behind front this
      simp only [Edit.covers, decide_eq_true_eq]
      omega

end Declarations

/-- A default export that is stated again at the end loses no token but `default`, and an `abstract`
in front of the word that it keeps. All other tokens of the text are kept in their order, and those
of the statement come last. -/
theorem nameDefaultExport_drops {text : List Char} {s : TokenStream} {o : Outline}
    (hs : tokenize text = .ok s) (ho : outline text = .ok o)
    (h : ∀ e name, o.LacksName e name → e.form.Restates s name) :
    ∃ text' s' u, ∃ lost : List Token, nameDefaultExport text = .ok text' ∧
      tokenize text' = .ok s' ∧ tokenize (o.defaultExportTrailer.getD []) = .ok u ∧
      (∀ t, t ∈ lost ↔ t ∈ s.tokens ∧ ∃ e name, o.LacksName e name ∧ e.form.Loses t) ∧
      s'.tokens.map Token.bare =
        ((s.tokens.filter (· ∉ lost)) ++ u.tokens).map Token.bare := by
  obtain ⟨kept, finish, htokens, hbare⟩ := Edit.tokenize_applyAll hs
    (inOrder_defaultExportEdits hs ho) (fun x hx => exists_isDrop_of_mem hs ho h hx)
    (List.nil_append s.tokens).symm (by simp)
  obtain ⟨s', u, hs', hu, hall⟩ := tokenize_statedBelow hs ho h htokens
  refine ⟨_, s', u, s.tokens.filter fun t => !Edit.spares o.defaultExportEdits t, ?_, hs', hu,
    fun t => ?_, ?_⟩
  · rw [nameDefaultExport, ho]
    rfl
  · rw [List.mem_filter, Bool.not_eq_true']
    exact and_congr_right fun ht => spares_eq_false_iff hs ho h ht
  · have hfilter : s.tokens.filter (· ∉ s.tokens.filter fun t =>
        !Edit.spares o.defaultExportEdits t) = s.tokens.filter (Edit.spares o.defaultExportEdits) := by
      refine List.filter_congr fun t ht => ?_
      simp [ht]
    rw [hall, hfilter, List.nil_append, List.map_append, hbare]

/-- A function behind a comment and a class below a quote that is not closed. -/
theorem nameDefaultExport_drops_two :
    let text := ("x = <p>it's</p>\nexport default /* ' */ async function load() \x7b\x7d\n" ++
      "export default class Card \x7b\x7d").toList
    ∃ s o text' s' u, ∃ lost : List Token, tokenize text = .ok s ∧ outline text = .ok o ∧
      o.defaultExportEdits.length = 2 ∧ nameDefaultExport text = .ok text' ∧
      tokenize text' = .ok s' ∧ tokenize (o.defaultExportTrailer.getD []) = .ok u ∧
      (∀ t, t ∈ lost ↔ t ∈ s.tokens ∧ ∃ e name, o.LacksName e name ∧ e.form.Loses t) ∧
      s'.tokens.map Token.bare =
        ((s.tokens.filter (· ∉ lost)) ++ u.tokens).map Token.bare := by
  intro text
  let s := (tokenize text).toOption.getD ⟨[], .start⟩
  let o := (outline text).toOption.getD ⟨[], []⟩
  obtain ⟨htokens, houtline, two, lines⟩ :
      (tokenize text).toOption.isSome = true ∧ (outline text).toOption.isSome = true ∧
        o.defaultExportEdits.length = 2 ∧
        ∀ e ∈ o.exports, ∃ d ∈ e.form.defaultToken, ∃ k ∈ e.form.declarationToken,
          d.line = (e.form.asyncToken.getD k).line := by
    decide +kernel
  have hs : tokenize text = .ok s := eq_ok_getD htokens _
  have ho : outline text = .ok o := eq_ok_getD houtline _
  obtain ⟨text', s', u, lost, result⟩ := nameDefaultExport_drops hs ho fun e name hlacks => by
    obtain ⟨d, hd, k, hk, hline⟩ := lines e hlacks.1
    cases hform : e.form <;> rw [hform] at hd hk hline <;> cases hd <;> cases hk
    exact .declaration (.inl hline)
  exact ⟨s, o, text', s', u, lost, hs, ho, two, result⟩

/-- A class loses the word `abstract` together with `default`. A declaration on the line below
`default` comes up to a quote that is not closed, and the text can no longer be read. -/
theorem nameDefaultExport_abstractClass :
    let text := "export default abstract class Widget \x7b\x7d".toList
    let below := "x = <p>it's</p>; export default\nclass C \x7b p = <p>it's</p> \x7d".toList
    (nameDefaultExport text).toOption =
        some "export class Widget \x7b\x7d\n\nexport default Widget;\n".toList ∧
      (tokenize text).toOption.map (·.tokens.map Token.lexeme) =
        some ["export", "default", "abstract", "class", "Widget", "\x7b", "\x7d"] ∧
      (nameDefaultExport text).toOption.map (fun left =>
        (tokenize left).toOption.map (·.tokens.map Token.lexeme)) =
        some (some ["export", "class", "Widget", "\x7b", "\x7d",
          "export", "default", "Widget", ";"]) ∧
      (tokenize below).toOption.isSome = true ∧
      (nameDefaultExport below).toOption.map (fun left => (tokenize left).toOption.isSome) =
        some false := by
  intro text below
  decide +kernel

end ComponentRegistry
