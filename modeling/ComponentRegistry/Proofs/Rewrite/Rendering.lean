import ComponentRegistry.Proofs.Syntax.Spelling

/-! # Imports read as they are written

An import that is written from its parts has these parts when it is read again. What cannot be
written so are names in quotes, a second default import, and a type as the default import of a
statement that imports more than types.
-/

namespace ComponentRegistry

open Lexer

/-- Default and namespace imports, which stand outside of the clause. -/
def outerEntries (specifiers : List Specifier) : List Specifier :=
  specifiers.filter fun s => s.outerText?.isSome

/-- The entries of the clause. -/
def innerEntries (specifiers : List Specifier) : List Specifier :=
  specifiers.filter fun s => s.outerText?.isNone

/-- Entries that one import can list. -/
structure Printable (typeOnly : Bool) (specifiers : List Specifier) : Prop where
  inner : ∀ s ∈ innerEntries specifiers, s.Writable typeOnly
  outer : ∀ s ∈ outerEntries specifiers,
    Lexeme.isNameText s.bound.toList = true ∧ s.typeOnly = typeOnly
  once : (outerEntries specifiers).map Specifier.imported ∈
    [[], ["default"], ["*"], ["default", "*"]]
  /-- A namespace leaves no room for a clause. -/
  whole : "*" ∈ (outerEntries specifiers).map Specifier.imported → innerEntries specifiers = []
  /-- After the modifier `type`, the name `from` has to stand alone. -/
  alone : typeOnly = true → ∀ s ∈ specifiers, s.imported = "default" → s.bound = "from" →
    specifiers = [s]

instance (typeOnly : Bool) (specifiers : List Specifier) :
    Decidable (Printable typeOnly specifiers) :=
  decidable_of_iff ((∀ s ∈ innerEntries specifiers, s.Writable typeOnly) ∧
      (∀ s ∈ outerEntries specifiers,
        Lexeme.isNameText s.bound.toList = true ∧ s.typeOnly = typeOnly) ∧
      (outerEntries specifiers).map Specifier.imported ∈
        [[], ["default"], ["*"], ["default", "*"]] ∧
      ("*" ∈ (outerEntries specifiers).map Specifier.imported → innerEntries specifiers = []) ∧
      (typeOnly = true → ∀ s ∈ specifiers, s.imported = "default" → s.bound = "from" →
        specifiers = [s]))
    ⟨fun ⟨inner, outer, once, whole, alone⟩ => ⟨inner, outer, once, whole, alone⟩,
      fun h => ⟨h.inner, h.outer, h.once, h.whole, h.alone⟩⟩

section Words

variable {typeOnly : Bool} {name : String} {s : Specifier} {entries specifiers : List Specifier}

theorem says_ofName (h : Lexeme.isNameText name.toList = true) :
    Says name.toList [.ofName name] := by
  have := says_name h
  rwa [String.ofList_toList] at this

theorem toList_ne_nil (h : Lexeme.isNameText name.toList = true) : name.toList ≠ [] := by
  intro hnil
  rw [hnil] at h
  cases h

/-- Words after words and a blank. -/
theorem Lexer.Says.append_blank {a b : List Char} {ws us : List Token} (ha : Says a ws)
    (hb : Says b us) (hne : b ≠ []) : Says (a ++ ' ' :: b) (ws ++ us) :=
  ha.append (hb.after_blank hne) (List.cons_ne_nil _ _) (apart_of_first (by decide) a b)

theorem says_clauseText (h : s.Writable typeOnly) :
    Says (s.clauseText typeOnly) (s.clauseWords typeOnly) ∧ s.clauseText typeOnly ≠ [] := by
  have himported := says_ofName h.imported
  have hne := toList_ne_nil h.imported
  have hname : Says (s.imported.toList ++
      if s.imported = s.bound then [] else " as ".toList ++ s.bound.toList)
      (.ofName s.imported ::
        if s.imported = s.bound then [] else [.ofName "as", .ofName s.bound]) := by
    split
    · rwa [List.append_nil]
    · have has : Says "as".toList [.ofName "as"] := says_ofName (by decide)
      have hall := himported.append_blank
        (has.append_blank (says_ofName h.bound) (toList_ne_nil h.bound)) (by simp)
      exact hall
  have hname_ne : s.imported.toList ++
      (if s.imported = s.bound then [] else " as ".toList ++ s.bound.toList) ≠ [] := by
    simp [hne]
  unfold Specifier.clauseText Specifier.clauseWords
  rw [List.append_assoc]
  split
  · refine ⟨?_, by simp⟩
    have htype : Says "type".toList [.ofName "type"] := says_ofName (by decide)
    exact htype.append_blank hname hname_ne
  · exact ⟨hname, hname_ne⟩

theorem says_nil : Says [] [] := fun _ _ _ _ _ => ⟨[], _, .done _, rfl⟩

/-- The entries of a clause, with commas between them. -/
theorem says_entries (h : ∀ s ∈ entries, s.Writable typeOnly) :
    Says (", ".toList.intercalate (entries.map (Specifier.clauseText typeOnly)))
      (clauseWords typeOnly entries) ∧
      (entries ≠ [] → ", ".toList.intercalate (entries.map (Specifier.clauseText typeOnly)) ≠ []) := by
  induction entries with
  | nil => exact ⟨says_nil, fun hne => absurd rfl hne⟩
  | cons s rest ih =>
    obtain ⟨hfirst, hfirst_ne⟩ := says_clauseText (h s List.mem_cons_self)
    cases rest with
    | nil =>
      simp only [List.map_cons, List.map_nil, List.intercalate_singleton]
      exact ⟨hfirst, fun _ => hfirst_ne⟩
    | cons t rest =>
      obtain ⟨hothers, hothers_ne⟩ := ih fun s hs => h s (List.mem_cons_of_mem _ hs)
      have hcomma := says_comma.append_blank hothers (hothers_ne (List.cons_ne_nil _ _))
      have hall := hfirst.append hcomma (List.cons_ne_nil _ _) (apart_of_first (by decide) _ _)
      have hcut : ", ".toList.intercalate ((s :: t :: rest).map (Specifier.clauseText typeOnly)) =
          s.clauseText typeOnly ++ ([','] ++ ' ' :: ", ".toList.intercalate
            ((t :: rest).map (Specifier.clauseText typeOnly))) := by
        simp [List.intercalate]
      rw [hcut]
      exact ⟨hall, fun _ => by simp [hfirst_ne]⟩

/-- What an import binds besides its default, as it is written. -/
theorem says_clause (h : ∀ s ∈ entries, s.Writable typeOnly) (hne : entries ≠ []) :
    Says ("\x7b ".toList ++ ", ".toList.intercalate (entries.map (Specifier.clauseText typeOnly)) ++
        " \x7d".toList)
      (.ofMark .openBrace :: (clauseWords typeOnly entries ++ [.ofMark .closeBrace])) := by
  obtain ⟨hentries, hentries_ne⟩ := says_entries h
  have hinside := (hentries.after_blank (hentries_ne hne)).append says_blank (by simp)
    (apart_of_first (by decide) _ _)
  have hall := hinside.enclosed
  rw [List.append_nil, List.append_assoc] at hall
  rw [List.append_assoc]
  exact hall

theorem says_namespace (h : Lexeme.isNameText name.toList = true) :
    Says ("* as ".toList ++ name.toList) [.ofMark .star, .ofName "as", .ofName name] := by
  have has : Says "as".toList [.ofName "as"] := says_ofName (by decide)
  have hall := says_star.append_blank (has.append_blank (says_ofName h) (toList_ne_nil h)) (by simp)
  exact hall

theorem outerText?_default (h : s.imported = "default") : s.outerText? = some s.bound.toList := by
  simp [Specifier.outerText?, h]

theorem outerText?_namespace (h : s.imported = "*") :
    s.outerText? = some ("* as ".toList ++ s.bound.toList) := by
  simp [Specifier.outerText?, h]

theorem bindingsText_eq (typeOnly : Bool) (specifiers : List Specifier) :
    bindingsText typeOnly specifiers = ", ".toList.intercalate
      ((outerEntries specifiers).filterMap Specifier.outerText? ++
        if innerEntries specifiers = [] then []
        else ["\x7b ".toList ++ ", ".toList.intercalate
          ((innerEntries specifiers).map (Specifier.clauseText typeOnly)) ++ " \x7d".toList]) := by
  have houter : (outerEntries specifiers).filterMap Specifier.outerText? =
      specifiers.filterMap Specifier.outerText? := by
    rw [outerEntries, List.filterMap_filter]
    congr 1
    funext s
    cases s.outerText? <;> rfl
  rw [houter, bindingsText, innerEntries]
  simp only [List.isEmpty_iff, List.map_eq_nil_iff]

theorem intercalate_pair (a b : List Char) :
    ", ".toList.intercalate [a, b] = a ++ ([','] ++ ' ' :: b) := by
  simp [List.intercalate]

/-- Writing an import reorders its entries at most. -/
theorem entries_perm (specifiers : List Specifier) :
    (outerEntries specifiers ++ innerEntries specifiers).Perm specifiers := by
  have hinner : innerEntries specifiers = specifiers.filter fun s => !s.outerText?.isSome := by
    rw [innerEntries]
    congr 1
    funext s
    cases s.outerText? <;> rfl
  rw [hinner]
  exact List.filter_append_perm _ specifiers

/-- The bindings of an import read as its entries, default and namespace first. -/
theorem says_bindings (h : Printable typeOnly specifiers) (hne : specifiers ≠ []) :
    ∃ words, Says (bindingsText typeOnly specifiers) words ∧
      BindingSpelling typeOnly words (outerEntries specifiers ++ innerEntries specifiers) ∧
      bindingsText typeOnly specifiers ≠ [] := by
  have hcut := entries_perm specifiers
  have hall := bindingsText_eq typeOnly specifiers
  obtain ⟨hinner, houter, honce, hwhole, halone⟩ := h
  generalize outerEntries specifiers = outer, innerEntries specifiers = inner at *
  have hentry : ∀ s ∈ outer, ∀ imported, s.imported = imported →
      s = ⟨imported, s.bound, typeOnly⟩ := by
    rintro s hs _ rfl
    rw [← (houter s hs).2]
  have hfrom : ∀ s ∈ outer, s.imported = "default" → 2 ≤ (outer ++ inner).length →
      typeOnly = true → s.bound ≠ "from" := by
    intro s hs hdefault hlength htyped hname
    have hmem : s ∈ specifiers := hcut.subset (List.mem_append_left inner hs)
    rw [hcut.length_eq, halone htyped s hmem hdefault hname] at hlength
    simp at hlength
  -- What stands outside of the clause: nothing, a default, a namespace, or both.
  rcases outer with _ | ⟨s, _ | ⟨t, _ | ⟨u, rest⟩⟩⟩
  · have hne' : inner ≠ [] := by
      rintro rfl
      exact hne hcut.nil_eq.symm
    have hclause := says_clause hinner hne'
    rw [if_neg hne'] at hall
    simp only [List.filterMap_nil, List.nil_append, List.intercalate_singleton] at hall
    rw [hall]
    exact ⟨_, hclause, .clause (.clause hinner), by simp⟩
  · have hname := (houter s List.mem_cons_self).1
    rcases (by simpa using honce : s.imported = "default" ∨ s.imported = "*") with hs | hs
    · have hself := hentry s List.mem_cons_self "default" hs
      by_cases hnone : inner = []
      · rw [if_pos hnone] at hall
        simp only [List.filterMap_cons_some (outerText?_default hs), List.filterMap_nil,
          List.append_nil, List.intercalate_singleton] at hall
        rw [hall, hnone, hself]
        exact ⟨_, says_ofName hname, .lone s.bound, toList_ne_nil hname⟩
      · have hclause := says_clause hinner hnone
        have hlength := List.length_pos_iff.2 hnone
        have hother := hfrom s List.mem_cons_self hs (by simp; omega)
        rw [if_neg hnone] at hall
        simp only [List.filterMap_cons_some (outerText?_default hs), List.filterMap_nil,
          List.singleton_append] at hall
        have hwords := (says_ofName hname).append (says_comma.append_blank hclause (by simp))
          (List.cons_ne_nil _ _) (apart_of_first (by decide) _ _)
        rw [hall, intercalate_pair, hself]
        exact ⟨_, hwords, .both (.clause hinner) hother, by simp⟩
    · have hself := hentry s List.mem_cons_self "*" hs
      have hnone : inner = [] := hwhole (by simp [hs])
      rw [if_pos hnone] at hall
      simp only [List.filterMap_cons_some (outerText?_namespace hs), List.filterMap_nil,
        List.append_nil, List.intercalate_singleton] at hall
      rw [hall, hnone, hself]
      exact ⟨_, says_namespace hname, .clause (.whole s.bound), by simp⟩
  · obtain ⟨hs, ht⟩ : s.imported = "default" ∧ t.imported = "*" := by simpa using honce
    have hname := (houter s List.mem_cons_self).1
    have hname' := (houter t (List.mem_cons_of_mem s List.mem_cons_self)).1
    have hself := hentry s List.mem_cons_self "default" hs
    have hself' := hentry t (List.mem_cons_of_mem s List.mem_cons_self) "*" ht
    have hnone : inner = [] := hwhole (by simp [ht])
    have hother := hfrom s List.mem_cons_self hs (by simp)
    rw [if_pos hnone] at hall
    simp only [List.filterMap_cons_some (outerText?_default hs),
      List.filterMap_cons_some (outerText?_namespace ht), List.filterMap_nil,
      List.append_nil] at hall
    have hwords := (says_ofName hname).append (says_comma.append_blank (says_namespace hname')
      (by simp)) (List.cons_ne_nil _ _) (apart_of_first (by decide) _ _)
    rw [hall, intercalate_pair, hnone, hself, hself']
    exact ⟨_, hwords, .both (.whole t.bound) hother, by simp⟩
  · simp at honce

end Words

namespace ImportStatement

variable {s : ImportStatement} {specifiers : List Specifier}

/-- The words of an import with certain words for its bindings. -/
def words (s : ImportStatement) (bindings : List Token) : List Token :=
  .ofName "import" :: ((if s.typeOnly then [.ofName "type"] else []) ++
    (bindings ++ .ofName "from" :: sourceWords s.source s.terminated))

/-- An import that is written from its parts reads as these words. -/
theorem says_render (h : Printable s.typeOnly specifiers) (hne : specifiers ≠ [])
    (hsource : Quotation s.source.path s.source.written) :
    ∃ bindings, Says (s.render specifiers) (s.words bindings) ∧
      BindingSpelling s.typeOnly bindings (outerEntries specifiers ++ innerEntries specifiers) := by
  obtain ⟨bindings, hbindings, hspelled, hsome⟩ := says_bindings h hne
  refine ⟨bindings, ?_, hspelled⟩
  have hfrom : Says "from".toList [.ofName "from"] := says_ofName (by decide)
  have himport : Says "import".toList [.ofName "import"] := says_ofName (by decide)
  have htype : Says "type".toList [.ofName "type"] := says_ofName (by decide)
  have hend : Says (s.source.written.toList ++ if s.terminated then [';'] else [])
      (sourceWords s.source s.terminated) := by
    unfold sourceWords
    split
    · exact hsource.reading.append says_semicolon (by simp) (apart_of_first (by decide) _ _)
    · rw [List.append_nil]
      exact hsource.reading
  have hrest := hbindings.append_blank (hfrom.append_blank hend (by simp [hsource.ne_nil])) (by simp)
  have hblanks : ∀ text : List Char,
      " from ".toList ++ text = ' ' :: ("from".toList ++ ' ' :: text) := fun _ => rfl
  rw [render, words, List.append_assoc, List.append_assoc, List.append_assoc, hblanks]
  split
  · exact himport.append_blank (htype.append_blank hrest (by simp)) (by simp)
  · exact himport.append_blank hrest (by simp)

/-- No name goes on after an import that is written. -/
theorem apart_render (hsource : Quotation s.source.path s.source.written) (specifiers : List Specifier)
    (more : List Char) : Apart (s.render specifiers) more := by
  rw [render]
  cases s.terminated with
  | true => exact apart_of_last (by decide) _ more
  | false =>
    rw [if_neg Bool.false_ne_true, List.append_nil]
    exact (hsource.apart more).of_suffix hsource.ne_nil _

/-- An import that was written from its parts is read with these parts. -/
theorem importStatement_of_words {bindings : List Token} {entries : List Specifier} {c n : Cursor}
    (h : BindingSpelling s.typeOnly bindings entries) (hc : Cursor.Spells c (s.words bindings) n)
    (hword : n.current.value ≠ "with" ∧ n.current.value ≠ "assert")
    (hend : s.terminated = false → n.kind ≠ .mark .semicolon) :
    c.importStatement = .ok (some ⟨s.source, entries, s.typeOnly, s.terminated,
      ⟨c.current.start, n.passedOffset⟩⟩, n) := by
  obtain ⟨m, hm, hread⟩ := h.importStatement_eq rfl hc
  exact hread _ n (importSource_of_spells hm hword hend)

end ImportStatement

end ComponentRegistry
