import ComponentRegistry.Proofs.Likeness.Skipping

/-! # Imports that are read alike

The readers of imports and of clauses, one after the other, in programs that are alike.
-/

namespace ComponentRegistry

namespace Likeness

variable {S : Likeness} {c c' : Cursor}

/-- The same import, but for the stretch of text that it takes up. -/
structure SameImport (S : Likeness) (s s' : ImportStatement) : Prop where
  source : s'.source = s.source
  specifiers : s'.specifiers = s.specifiers
  typeOnly : s'.typeOnly = s.typeOnly
  terminated : s'.terminated = s.terminated
  start : S.place s.span.start s'.span.start

namespace Along

section Clause

variable {typeOnly : Bool}

theorem typeModifiesEntry_eq (h : S.Along c c') : c'.typeModifiesEntry = c.typeModifiesEntry := by
  rw [Cursor.typeModifiesEntry, Cursor.typeModifiesEntry, h.atWord_eq, h.followingKind_eq]

theorem specifier (h : S.Along c c') :
    S.Alike (S.Through Eq) (c.specifier typeOnly) (c'.specifier typeOnly) := by
  unfold Cursor.specifier
  rw [h.typeModifiesEntry_eq]
  refine (h.advanceIf _).expectModuleName.andThen fun imported imported' c₁ c₁' _ ht h₁ => ?_
  refine .ite (h₁.atWord_eq .asWord) (fun _ => ?_) fun _ => .ok ⟨by simp only [ht], h₁⟩
  refine h₁.advance.expectModuleName.andThen fun bound bound' c₂ c₂' _ hb h₂ => ?_
  exact .ok ⟨by simp only [ht, hb], h₂⟩

theorem clauseEntries_eq (c : Cursor) : c.clauseEntries typeOnly =
    if c.atMark .closeBrace then .ok ([], c.advance)
    else c.specifier typeOnly >>= fun x =>
      if x.2.atMark .comma then
        (x.2.advance.clauseEntries typeOnly).map fun (entries, c) => (x.1 :: entries, c)
      else if x.2.atMark .closeBrace then .ok ([x.1], x.2.advance)
      else .error (x.2.fault .expectedClauseSeparator) := by
  rw [Cursor.clauseEntries]
  cases c.specifier typeOnly <;> rfl

theorem clauseEntries (h : S.Along c c') :
    S.Alike (S.Through Eq) (c.clauseEntries typeOnly) (c'.clauseEntries typeOnly) := by
  induction hn : c.remaining using Nat.strongRecOn generalizing c c' with
  | ind n ih =>
  rw [clauseEntries_eq c, clauseEntries_eq c']
  refine .ite (h.atMark_eq .closeBrace) (fun _ => .ok ⟨rfl, h.advance⟩) fun _ => ?_
  refine h.specifier.andThen fun entry entry' c₁ c₁' hentry heq h₁ => ?_
  subst heq
  refine .ite (h₁.atMark_eq .comma) (fun _ => ?_) fun _ => ?_
  · have hlt := Cursor.remaining_lt_of_specifier hentry
    have hle := Cursor.remaining_advance_le c₁
    refine (ih _ (by omega) h₁.advance rfl).map fun (entries, n) (entries', n') ⟨heq, hn⟩ => ?_
    exact ⟨congrArg (entry :: ·) heq, hn⟩
  · exact .ite (h₁.atMark_eq .closeBrace) (fun _ => .ok ⟨rfl, h₁.advance⟩) fun _ => h₁.fault _ _

theorem clause (h : S.Along c c') :
    S.Alike (S.Through Eq) (c.clause typeOnly) (c'.clause typeOnly) :=
  (h.expect _).andThen fun _ _ _ _ _ _ h₁ => h₁.clauseEntries

end Clause

section Statement

variable {start start' : Token} {typeOnly : Bool} {bound specifiers : List Specifier}

theorem skipAttributes {source source' : Token} (h : S.Along c c')
    (hsource : S.token source source') :
    S.Alike S.Along (c.skipAttributes source) (c'.skipAttributes source') := by
  refine .ite ?_ (fun _ => ?_) fun _ => .ok h
  · rw [h.value_beq (w := "with") (by decide), h.value_beq (w := "assert") (by decide),
      line_beq h.current hsource, h.followingKind_eq]
  · exact ((h.advance.advance.skipTo _).expect _).andThen fun _ _ _ _ _ _ h₁ => .ok h₁

theorem importSource (h : S.Along c c') (hstart : S.token start start') :
    S.Alike (S.Through S.SameImport) (c.importSource start specifiers typeOnly)
      (c'.importSource start' specifiers typeOnly) := by
  refine (h.expect _).andThen fun source source' c₁ c₁' _ ⟨hsource, hkind⟩ h₁ => ?_
  refine (h₁.skipAttributes hsource).bind fun c₂ c₂' _ _ h₂ => ?_
  obtain ⟨hterminated, hending⟩ := h₂.takeSemicolon
  exact .ok ⟨⟨moduleSource hsource hkind, rfl, rfl, hterminated, S.start hstart⟩, hending⟩

theorem importBindings (h : S.Along c c') :
    S.Alike (S.Through Eq) (c.importBindings bound typeOnly)
      (c'.importBindings bound typeOnly) := by
  refine .ite (h.atMark_eq .star) (fun _ => ?_) fun _ => ?_
  · refine (h.advance.expect _).andThen fun _ _ c₁ c₁' _ _ h₁ => ?_
    refine h₁.expectName.andThen fun name name' c₂ c₂' _ hname h₂ => ?_
    exact .ok ⟨by simp only [hname], h₂⟩
  refine .ite (h.atMark_eq .openBrace) (fun _ => ?_) fun _ => ?_
  · refine h.clause.andThen fun entries entries' c₁ c₁' _ heq h₁ => ?_
    exact .ok ⟨congrArg (bound ++ ·) heq, h₁⟩
  · exact .ite rfl (fun _ => h.fault _ _) fun _ => .ok ⟨rfl, h⟩

theorem importFrom (h : S.Along c c') (hstart : S.token start start') :
    S.Alike (S.Through S.SameImport) (c.importFrom start bound typeOnly)
      (c'.importFrom start' bound typeOnly) := by
  refine h.importBindings.andThen fun specifiers specifiers' c₁ c₁' _ heq h₁ => ?_
  subst heq
  exact (h₁.expect _).andThen fun _ _ _ _ _ _ h₂ => h₂.importSource hstart

theorem importAlias {name name' : Token} (h : S.Along c c') (hstart : S.token start start')
    (hname : name'.value = name.value) :
    S.Alike (S.Through (Option.Rel S.SameImport)) (c.importAlias start name typeOnly)
      (c'.importAlias start' name' typeOnly) := by
  refine (h.expect _).andThen fun _ _ c₁ c₁' _ _ h₁ => ?_
  refine .ite ?_ (fun _ => ?_) fun _ => ?_
  · rw [h₁.value_beq (w := "require") (by decide), h₁.followingKind_eq]
  · refine (h₁.advance.expect _).andThen fun _ _ c₂ c₂' _ _ h₂ => ?_
    refine (h₂.expect _).andThen fun source source' c₃ c₃' _ ⟨hsource, hkind⟩ h₃ => ?_
    refine (h₃.expect _).andThen fun _ _ c₄ c₄' _ _ h₄ => ?_
    refine (h₄.skipAttributes hsource).bind fun c₅ c₅' _ _ h₅ => ?_
    obtain ⟨hterminated, hending⟩ := h₅.takeSemicolon
    refine .ok ⟨.some ⟨moduleSource hsource hkind, ?_, rfl, hterminated, S.start hstart⟩, hending⟩
    simp only [hname]
  · refine h₁.expectName.andThen fun _ _ c₂ c₂' _ _ h₂ => ?_
    exact h₂.dottedNames.bind fun _ _ _ _ h₃ => .ok ⟨.none, h₃.takeSemicolon.2⟩

theorem typeModifiesImport_eq (h : S.Along c c') :
    c'.typeModifiesImport = c.typeModifiesImport := by
  rw [Cursor.typeModifiesImport, Cursor.typeModifiesImport, h.atWord_eq, h.followingKind_eq,
    S.kind (h.peek 2)]

/-- An import that refers to a module. -/
theorem someImport {x x' : Except Fault (ImportStatement × Cursor)}
    (h : S.Alike (S.Through S.SameImport) x x') :
    S.Alike (S.Through (Option.Rel S.SameImport)) (x >>= fun (s, c) => .ok (some s, c))
      (x' >>= fun (s, c) => .ok (some s, c)) :=
  h.andThen fun _ _ _ _ _ hsame along => .ok ⟨.some hsame, along⟩

theorem importDefault (h : S.Along c c') (hstart : S.token start start') :
    S.Alike (S.Through (Option.Rel S.SameImport)) (c.importDefault start typeOnly)
      (c'.importDefault start' typeOnly) := by
  refine h.expectName.andThen fun name name' c₁ c₁' _ hname h₁ => ?_
  refine .ite (h₁.atMark_eq .equals) (fun _ => h₁.importAlias hstart hname) fun _ => ?_
  rw [hname]
  refine .ite (h₁.atMark_eq .comma) (fun _ => ?_) fun _ => someImport (h₁.importFrom hstart)
  have h₂ := h₁.advance
  refine .ite ?_ (fun _ => someImport (h₂.importFrom hstart)) fun _ => h₂.fault _ _
  rw [h₂.atMark_eq, h₂.atMark_eq]

theorem importStatement (h : S.Along c c') :
    S.Alike (S.Through (Option.Rel S.SameImport)) c.importStatement c'.importStatement := by
  refine (h.expect _).andThen fun start start' c₁ c₁' _ ⟨hstart, _⟩ h₁ => ?_
  simp only [h₁.typeModifiesImport_eq]
  have h₂ := h₁.advanceIf c₁.typeModifiesImport
  refine .ite h₂.atString_eq (fun _ => someImport (h₂.importSource hstart)) fun _ => ?_
  exact .ite h₂.atName_eq (fun _ => h₂.importDefault hstart) fun _ =>
    someImport (h₂.importFrom hstart)

end Statement

end Along

end Likeness

end ComponentRegistry
