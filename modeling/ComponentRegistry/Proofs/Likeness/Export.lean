import ComponentRegistry.Proofs.Likeness.Declaration
import ComponentRegistry.Proofs.Likeness.Import
import ComponentRegistry.Syntax.Outline

/-! # Modules that are read alike

Exports, and from them the whole search for statements, in programs that are alike.
-/

namespace ComponentRegistry

namespace Likeness

variable {S : Likeness} {c c' : Cursor}

/-- The same export statement, but for the stretch of text that it takes up. -/
structure SameExport (S : Likeness) (s s' : ExportStatement) : Prop where
  form : SameForm s.form s'.form
  terminated : s'.terminated = s.terminated
  start : S.place s.span.start s'.span.start

/-- The same statements. -/
structure SameOutline (S : Likeness) (o o' : Outline) : Prop where
  imports : List.Forall₂ S.SameImport o.imports o'.imports
  exports : List.Forall₂ S.SameExport o.exports o'.exports

namespace Along

section Module

variable {typeOnly : Bool}

theorem exportEverything (h : S.Along c c') :
    S.Alike (S.Through SameForm) (c.exportEverything typeOnly) (c'.exportEverything typeOnly) := by
  refine (h.expect _).andThen fun _ _ c₁ c₁' _ _ h₁ => ?_
  refine .ite (h₁.atWord_eq .asWord) (fun _ => ?_) fun _ => ?_
  · refine h₁.advance.expectModuleName.andThen fun name name' c₂ c₂' _ hname h₂ => ?_
    refine (h₂.expect _).andThen fun _ _ c₃ c₃' _ _ h₃ => ?_
    refine (h₃.expect _).andThen fun source source' c₄ c₄' _ ⟨hsource, hkind⟩ h₄ => .ok ⟨?_, h₄⟩
    rw [hname, moduleSource hsource hkind]
    rfl
  · refine (h₁.expect _).andThen fun _ _ c₂ c₂' _ _ h₂ => ?_
    refine (h₂.expect _).andThen fun source source' c₃ c₃' _ ⟨hsource, hkind⟩ h₃ => .ok ⟨?_, h₃⟩
    rw [moduleSource hsource hkind]
    rfl

theorem exportList (h : S.Along c c') :
    S.Alike (S.Through SameForm) (c.exportList typeOnly) (c'.exportList typeOnly) := by
  refine h.clause.andThen fun specifiers specifiers' c₁ c₁' _ heq h₁ => ?_
  subst heq
  refine .ite (h₁.atWord_eq .fromWord) (fun _ => ?_) fun _ => .ok ⟨rfl, h₁⟩
  refine (h₁.advance.expect _).andThen fun source source' c₂ c₂' _ ⟨hsource, hkind⟩ h₂ =>
    .ok ⟨?_, h₂⟩
  rw [moduleSource hsource hkind]
  rfl

end Module

section Default

variable {default default' : Token}

/-- What a name says that may be missing. -/
theorem value_of_atName (h : S.Along c c') (hname : c.atName = true) :
    c'.current.value = c.current.value := by
  refine h.value_eq fun hkind => ?_
  simp [Cursor.atName, hkind, TokenKind.isName] at hname

theorem defaultFunction {async async' : Option Token} (h : S.Along c c') :
    S.Through SameForm (c.defaultFunction default async) (c'.defaultFunction default' async') := by
  have h₁ := h.advance.advanceIf (c.advance.atMark .star)
  unfold Cursor.defaultFunction
  simp only [h.advance.atMark_eq, h₁.atName_eq]
  refine ⟨?_, h₁.advanceIf _⟩
  cases hname : (c.advance.advanceIf (c.advance.atMark .star)).atName with
  | false => rfl
  | true =>
    simp only [h₁.value_of_atName hname]
    rfl

theorem atClassName_eq (h : S.Along c c') : c'.atClassName = c.atClassName := by
  unfold Cursor.atClassName
  rw [h.atName_eq]
  cases hname : c.atName with
  | false => rfl
  | true => rw [h.value_of_atName hname]

theorem defaultClass (h : S.Along c c') :
    S.Through SameForm (c.defaultClass default) (c'.defaultClass default') := by
  have h₁ := h.advance
  unfold Cursor.defaultClass
  simp only [h₁.atClassName_eq]
  refine ⟨?_, h₁.advanceIf _⟩
  cases hname : c.advance.atClassName with
  | false => rfl
  | true =>
    simp only [Cursor.atClassName, Bool.and_eq_true] at hname
    simp only [h₁.value_of_atName hname.1.1]
    rfl

theorem atClass_eq (h : S.Along c c') : c'.atClass = c.atClass := by
  rw [Cursor.atClass, Cursor.atClass, h.atWord_eq, h.atWord_eq, h.followingKind_eq]

theorem atLoneName_eq (h : S.Along c c') : c'.atLoneName = c.atLoneName := by
  simp only [Cursor.atLoneName, h.atName_eq, S.kind (h.peek 1), line_lt_eq h.current (h.peek 1)]

theorem defaultExported (h : S.Along c c') :
    S.Alike (S.Through SameForm) (c.defaultExported default) (c'.defaultExported default') := by
  refine .ite h.asyncModifiesFunction_eq (fun _ => .ok h.advance.defaultFunction) fun _ => ?_
  refine .ite (h.atWord_eq .functionWord) (fun _ => .ok h.defaultFunction) fun _ => ?_
  refine .ite h.atClass_eq (fun _ => ?_) fun _ => ?_
  · rw [h.atWord_eq]
    exact .ok (h.advanceIf _).defaultClass
  refine .ite (h.atWord_eq .interfaceWord) (fun _ => ?_) fun _ => ?_
  · exact h.advance.expectName.andThen fun _ _ _ _ _ _ h₁ => .ok ⟨rfl, h₁⟩
  refine .ite h.atLoneName_eq (fun hlone => ?_) fun _ => ?_
  · simp only [Cursor.atLoneName, Bool.and_eq_true] at hlone
    rw [h.value_of_atName hlone.1]
    exact .ok ⟨rfl, h.advance⟩
  · exact .ok ⟨rfl, h.skipExpression⟩

theorem exportDefault (h : S.Along c c') :
    S.Alike (S.Through SameForm) c.exportDefault c'.exportDefault :=
  (h.expect _).andThen fun _ _ _ _ _ _ h₁ => h₁.defaultExported

end Default

theorem exportForm (h : S.Along c c') :
    S.Alike (S.Through SameForm) c.exportForm c'.exportForm := by
  have h₁ := h.advance
  refine .ite (h.atWord_eq .defaultWord) (fun _ => h.exportDefault) fun _ => ?_
  refine .ite (h.atMark_eq .star) (fun _ => h.exportEverything) fun _ => ?_
  refine .ite (h.atMark_eq .openBrace) (fun _ => h.exportList) fun _ => ?_
  refine .ite (by rw [h.atWord_eq, h.followingKind_eq]) (fun _ => h₁.exportList) fun _ => ?_
  refine .ite (by rw [h.atWord_eq, h.followingKind_eq]) (fun _ => h₁.exportEverything) fun _ => ?_
  refine .ite (h.atMark_eq .equals) (fun _ => ?_) fun _ => ?_
  · exact .ok ⟨rfl, h₁.skipExpression⟩
  refine .ite (h.atWord_eq .asWord) (fun _ => ?_) fun _ => h.exportDeclaration
  refine h₁.expectName.andThen fun _ _ c₂ c₂' _ _ h₂ => ?_
  exact h₂.expectName.andThen fun _ _ _ _ _ _ h₃ => .ok ⟨rfl, h₃⟩

theorem exportEnding {form form' : ExportForm} (h : S.Along c c') (hform : SameForm form form') :
    (c'.exportEnding form').1 = (c.exportEnding form).1 ∧
      S.Along (c.exportEnding form).2 (c'.exportEnding form').2 := by
  unfold Cursor.exportEnding
  rw [← form'.takesSemicolon_unplaced, show form'.unplaced = form.unplaced from hform,
    form.takesSemicolon_unplaced]
  split
  · exact h.takeSemicolon
  · exact ⟨rfl, h⟩

theorem exportStatement (h : S.Along c c') :
    S.Alike (S.Through S.SameExport) c.exportStatement c'.exportStatement := by
  refine (h.expect _).andThen fun start start' c₁ c₁' _ ⟨hstart, _⟩ h₁ => ?_
  refine h₁.exportForm.andThen fun form form' c₂ c₂' _ hform h₂ => ?_
  obtain ⟨hterminated, hending⟩ := h₂.exportEnding hform
  exact .ok ⟨⟨hform, hterminated, S.start hstart⟩, hending⟩

section Survey

theorem atStatementStart_eq (h : S.Along c c') : c'.atStatementStart = c.atStatementStart := by
  obtain ⟨previous, ahead, finish⟩ := c
  obtain ⟨previous', ahead', finish'⟩ := c'
  have hcurrent := h.current
  cases h.previous with
  | none => rfl
  | @some p p' hp =>
    simp only [Cursor.atStatementStart, S.kind hp, line_lt_eq hp hcurrent]

theorem startsImport_eq (h : S.Along c c') : c'.startsImport = c.startsImport := by
  rw [Cursor.startsImport, Cursor.startsImport, h.atStatementStart_eq, h.atWord_eq,
    h.followingKind_eq]

theorem startsExport_eq (h : S.Along c c') : c'.startsExport = c.startsExport := by
  rw [Cursor.startsExport, Cursor.startsExport, h.atStatementStart_eq, h.atWord_eq]

theorem outlineFrom_eq (depth : Nat) (c : Cursor) : c.outlineFrom depth =
    if c.kind == .endOfInput then .ok ⟨[], []⟩
    else if depth == 0 && c.startsImport then
      c.importStatement >>= fun x => (x.2.outlineFrom 0).map fun rest =>
        { rest with imports := x.1.toList ++ rest.imports }
    else if depth == 0 && c.startsExport then
      c.exportStatement >>= fun x => (x.2.outlineFrom 0).map fun rest =>
        { rest with exports := x.1 :: rest.exports }
    else c.advance.outlineFrom (Reach.depthAfter depth c.current) := by
  rw [Cursor.outlineFrom]
  simp only [beq_iff_eq, Bool.and_eq_true]
  split
  · rfl
  split
  · split <;> simp_all [bind, Except.bind]
  split
  · split <;> simp_all [bind, Except.bind]
  · rfl

theorem outlineFrom (h : S.Along c c') (depth : Nat) :
    S.Alike S.SameOutline (c.outlineFrom depth) (c'.outlineFrom depth) := by
  induction hn : c.remaining using Nat.strongRecOn generalizing c c' depth with
  | ind n ih =>
  rw [outlineFrom_eq depth c, outlineFrom_eq depth c']
  refine .ite (by rw [h.kind_eq]) (fun _ => .ok ⟨.nil, .nil⟩) fun hmore => ?_
  refine .ite (by rw [h.startsImport_eq]) (fun _ => ?_) fun _ => ?_
  · refine h.importStatement.andThen fun s s' c₁ c₁' hstatement hsame h₁ => ?_
    have hlt := Cursor.remaining_lt_of_importStatement hstatement
    refine (ih _ (by omega) h₁ 0 rfl).map fun rest rest' hrest => ⟨?_, hrest.exports⟩
    cases hsame with
    | none => exact hrest.imports
    | some hsame => exact .cons hsame hrest.imports
  refine .ite (by rw [h.startsExport_eq]) (fun _ => ?_) fun _ => ?_
  · refine h.exportStatement.andThen fun s s' c₁ c₁' hstatement hsame h₁ => ?_
    have hlt := Cursor.remaining_lt_of_exportStatement hstatement
    exact (ih _ (by omega) h₁ 0 rfl).map fun rest rest' hrest =>
      ⟨hrest.imports, .cons hsame hrest.exports⟩
  · have hlt := Cursor.remaining_advance_lt (c := c) (by simpa using hmore)
    rw [depthAfter_eq h.current]
    exact ih _ (by omega) h.advance _ rfl

end Survey

end Along

end Likeness

end ComponentRegistry
