import ComponentRegistry.Proofs.Syntax.Spelling
import ComponentRegistry.Syntax.Outline

/-! # Exports read as they are written

A clause of names and a name behind `export default` are read as they are written when a semicolon
ends them, whatever stands behind it.
-/

namespace ComponentRegistry.Cursor

variable {c n : Cursor} {entries : List Specifier} {name : String}

/-- A statement may begin behind words that end in a semicolon. -/
theorem atStatementStart_of_spells {words : List Token}
    (h : Spells c (words ++ [.ofMark .semicolon]) n) : n.atStatementStart = true := by
  obtain ⟨ts, hpass, hbare⟩ := h
  obtain ⟨us, vs, rfl, -, hlast⟩ := List.map_eq_append_iff.1 hbare
  obtain ⟨t, rfl, ht⟩ := List.map_eq_singleton_iff.1 hlast
  have hkind : t.kind = .mark .semicolon := congrArg Token.kind ht
  have hprevious : n.previous = some t := by
    rw [hpass.previous, List.getLast?_concat]
    rfl
  simp [atStatementStart, hprevious, hkind]

/-- An export whose form takes the semicolon behind it. -/
theorem exportStatement_of_terminated {m : Cursor} {form : ExportForm}
    (hexport : c.kind = .keyword .exportWord) (hform : c.advance.exportForm = .ok (form, m))
    (htakes : form.takesSemicolon = true) (h : Spells m [.ofMark .semicolon] n) :
    c.exportStatement = .ok (⟨form, true, ⟨c.current.start, n.passedOffset⟩⟩, n) := by
  have hmark : m.atMark .semicolon = true := by
    rw [h.atMark]
    rfl
  obtain rfl : n = m.advance := h.cons.2.2.eq_of_nil
  refine exportStatement_eq_ok.2 ⟨hexport, m, hform, ?_, rfl⟩
  simp only [exportEnding, htakes, if_true, takeSemicolon, hmark]

/-- A clause of names is exported as it is written. -/
theorem exportStatement_of_clause (hs : ∀ s ∈ entries, s.Writable false)
    (h : Spells c (.ofName "export" :: .ofMark .openBrace :: (clauseWords false entries ++
      [.ofMark .closeBrace, .ofMark .semicolon])) n) :
    c.exportStatement =
      .ok (⟨.list entries none false, true, ⟨c.current.start, n.passedOffset⟩⟩, n) := by
  have hbrace := h.cons.2.2
  obtain ⟨m, hclause, hm⟩ := clause_of_spells hs hbrace
  have hlist : c.advance.exportList false = .ok (.list entries none false, m) := by
    have hfrom : ¬ m.atWord .fromWord = true := by
      rw [hm.atWord]
      decide
    refine bind_eq_ok.2 ⟨_, hclause, ?_⟩
    simp only [if_neg hfrom]
  refine exportStatement_of_terminated (by rw [h.kind]; decide) ?_ rfl hm
  have hkind : c.advance.kind = .mark .openBrace := hbrace.kind
  rw [exportForm, if_neg (by simp [atWord, hkind]), if_neg (by simp [atMark, hkind]),
    if_pos (by simp [atMark, hkind])]
  exact hlist

/-- A name that begins no declaration, and a semicolon behind it, are the default export. -/
theorem defaultExported_of_name {default : Token}
    (hname : name ∉ (["function", "class", "interface"] : List String))
    (h : Spells c [.ofName name, .ofMark .semicolon] n) :
    c.defaultExported default = .ok (.defaultName default name, c.advance) := by
  have hsemicolon : c.followingKind = .mark .semicolon := by
    rw [followingKind_eq]
    exact h.cons.2.2.kind
  have hword : ∀ k : Keyword, k.spelling ∈ (["function", "class", "interface"] : List String) →
      c.atWord k = false := by
    intro k hk
    rw [h.atWord, beq_eq_false_iff_ne, Ne, Token.kind_ofName]
    rintro rfl
    exact hname hk
  have hlone : c.atLoneName = true := by
    have hpeek : (c.peek 1).kind = .mark .semicolon := hsemicolon
    have hatName : c.atName = true := by
      rw [atName, h.kind]
      exact Token.isName_ofName name
    simp [atLoneName, hpeek, hatName]
  have hvalue : c.current.value = name := h.value
  rw [defaultExported, if_neg (by simp [asyncModifiesFunction, hsemicolon]),
    if_neg (by rw [hword .functionWord (by decide)]; simp),
    if_neg (by simp [atClass, hsemicolon, hword .classWord (by decide)]),
    if_neg (by rw [hword .interfaceWord (by decide)]; simp), if_pos hlone, hvalue]

/-- A name is exported as the default as it is written. -/
theorem exportStatement_of_defaultName
    (hname : name ∉ (["function", "class", "interface"] : List String))
    (h : Spells c [.ofName "export", .ofName "default", .ofName name, .ofMark .semicolon] n) :
    c.exportStatement = .ok (⟨.defaultName c.advance.current name, true,
      ⟨c.current.start, n.passedOffset⟩⟩, n) := by
  have hdefault := h.cons.2.2
  have hlast := hdefault.cons.2.2
  have hkind : c.advance.kind = .keyword .defaultWord := by
    rw [hdefault.kind]
    decide
  refine exportStatement_of_terminated (by rw [h.kind]; decide) ?_ rfl hlast.cons.2.2
  rw [exportForm, if_pos (by simp [atWord, hkind]), exportDefault]
  exact bind_eq_ok.2 ⟨_, by rw [expect, if_pos hkind], defaultExported_of_name hname hlast⟩

end ComponentRegistry.Cursor
