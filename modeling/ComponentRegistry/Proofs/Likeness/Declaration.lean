import ComponentRegistry.Proofs.Likeness.Skipping
import ComponentRegistry.Syntax.Export

/-! # Exported declarations that are read alike

The machine for patterns goes the same way through programs that are alike, step by step. From it
the readers of declarations follow.
-/

namespace ComponentRegistry

/-- An export without its words, which tell where it stands. -/
def ExportForm.unplaced : ExportForm → ExportForm
  | declaration declared _ _ bound ambient =>
    .declaration declared (.endOfInput .start) none bound ambient
  | defaultInterface => .defaultInterface
  | globalName => .globalName
  | defaultDeclaration declared _ _ _ name =>
    .defaultDeclaration declared (.endOfInput .start) none (.endOfInput .start) name
  | defaultName _ name => .defaultName (.endOfInput .start) name
  | defaultExpression _ _ => .defaultExpression none none
  | list specifiers source typeOnly => .list specifiers source typeOnly
  | everything name source typeOnly => .everything name source typeOnly

theorem ExportForm.takesSemicolon_unplaced (form : ExportForm) :
    form.unplaced.takesSemicolon = form.takesSemicolon := by
  cases form <;> rfl

namespace Likeness

variable {S : Likeness} {c c' : Cursor}

/-- Exports that say the same. -/
def SameForm (form form' : ExportForm) : Prop := form'.unplaced = form.unplaced

/-- The same state of the machine for patterns. -/
structure SameState (S : Likeness) (s s' : PatternState) : Prop where
  task : s'.task = s.task
  frames : s'.frames = s.frames
  names : s'.names = s.names
  cursor : S.Along s.cursor s'.cursor

namespace Along

section Pattern

variable {frames : List PatternFrame} {names : List String}

theorem stepBind (h : S.Along c c') :
    S.Alike S.SameState (PatternState.stepBind frames names c)
      (PatternState.stepBind frames names c') := by
  refine .ite (h.atMark_eq .openBrace) (fun _ => .ok ⟨rfl, rfl, rfl, h.advance⟩) fun _ => ?_
  refine .ite (h.atMark_eq .openBracket) (fun _ => .ok ⟨rfl, rfl, rfl, h.advance⟩) fun _ => ?_
  refine h.expectName.andThen fun name name' c₁ c₁' _ hname h₁ => ?_
  exact .ok ⟨rfl, rfl, by simp only [hname], h₁⟩

theorem stepKey (h : S.Along c c') :
    S.Alike S.SameState (PatternState.stepKey frames names c)
      (PatternState.stepKey frames names c') := by
  refine .ite (h.atMark_eq .openBracket) (fun _ => ?_) fun _ => ?_
  · have h₁ := h.skipGroup
    exact .ite (h₁.atMark_eq .colon) (fun _ => .ok ⟨rfl, rfl, rfl, h₁.advance⟩) fun _ =>
      h₁.fault _ _
  · refine h.expectModuleName.andThen fun key key' c₁ c₁' _ hkey h₁ => ?_
    refine .ite (h₁.atMark_eq .colon) (fun _ => .ok ⟨rfl, rfl, rfl, h₁.advance⟩) fun _ => ?_
    exact .ok ⟨rfl, rfl, by simp only [hkey], h₁⟩

theorem stepMember (h : S.Along c c') :
    S.Alike S.SameState (PatternState.stepMember frames names c)
      (PatternState.stepMember frames names c') := by
  refine .ite (h.atMark_eq .closeBrace) (fun _ => .ok ⟨rfl, rfl, rfl, h.advance⟩) fun _ => ?_
  exact .ite (h.atMark_eq .ellipsis) (fun _ => .ok ⟨rfl, rfl, rfl, h.advance⟩) fun _ => h.stepKey

theorem stepElement (h : S.Along c c') :
    S.Alike S.SameState (PatternState.stepElement frames names c)
      (PatternState.stepElement frames names c') := by
  refine .ite (h.atMark_eq .closeBracket) (fun _ => .ok ⟨rfl, rfl, rfl, h.advance⟩) fun _ => ?_
  refine .ite (h.atMark_eq .comma) (fun _ => .ok ⟨rfl, rfl, rfl, h.advance⟩) fun _ => ?_
  exact .ite (h.atMark_eq .ellipsis) (fun _ => .ok ⟨rfl, rfl, rfl, h.advance⟩) fun _ =>
    .ok ⟨rfl, rfl, rfl, h⟩

theorem stepSeparator {closer : Mark} {cause : FaultCause} (h : S.Along c c') :
    S.Alike S.SameState (PatternState.stepSeparator closer cause frames names c)
      (PatternState.stepSeparator closer cause frames names c') := by
  refine .ite (h.atMark_eq .comma) (fun _ => .ok ⟨rfl, rfl, rfl, h.advance⟩) fun _ => ?_
  exact .ite (h.atMark_eq closer) (fun _ => .ok ⟨rfl, rfl, rfl, h⟩) fun _ => h.fault _ _

theorem stepBound {frame : PatternFrame} (h : S.Along c c') :
    S.Alike S.SameState (PatternState.stepBound frame frames names c)
      (PatternState.stepBound frame frames names c') := by
  cases frame with
  | member => exact h.skipInitializer.stepSeparator
  | objectRest => exact h.stepSeparator
  | element => exact h.skipInitializer.stepSeparator

end Pattern

end Along

/-- One step leads to the same state, or to none. -/
theorem SameState.step {s s' : PatternState} (h : S.SameState s s') :
    S.Alike (Option.Rel S.SameState) s.step s'.step := by
  obtain ⟨task, frames, names, c⟩ := s
  obtain ⟨task', frames', names', c'⟩ := s'
  obtain ⟨rfl, rfl, rfl, along⟩ := h
  have hsome : ∀ {x x' : Except Fault PatternState}, S.Alike S.SameState x x' →
      S.Alike (Option.Rel S.SameState) (x.map some) (x'.map some) :=
    fun h => h.map fun _ _ hsame => .some hsame
  cases task' with
  | bind => exact hsome along.stepBind
  | part =>
    match frames' with
    | [] => exact .ok .none
    | .element :: _ => exact hsome along.stepElement
    | .member :: _ => exact hsome along.stepMember
    | .objectRest :: _ => exact hsome along.stepMember
  | bound =>
    match frames' with
    | [] => exact .ok .none
    | _ :: _ => exact hsome along.stepBound

theorem run_eq (s : PatternState) : s.run = s.step >>= fun next =>
    match next with
    | none => .ok (s.names, s.cursor)
    | some t => t.run := by
  rw [PatternState.run]
  split <;> simp_all [bind, Except.bind]

/-- So does a whole run. -/
theorem SameState.run {s s' : PatternState} (h : S.SameState s s') :
    S.Alike (S.Through Eq) s.run s'.run := by
  induction hn : s.measure using Nat.strongRecOn generalizing s s' with
  | ind n ih =>
  rw [run_eq s, run_eq s']
  refine h.step.bind fun next next' hstep _ hnext => ?_
  cases hnext with
  | none => exact .ok ⟨h.names.symm, h.cursor⟩
  | @some t t' hsame =>
    have hlt := (PatternState.remaining_le_of_step hstep).2.2
    exact ih _ (by omega) hsame rfl

namespace Along

section Declaration

variable {m : Cursor.Modifiers}

theorem bindingNames (h : S.Along c c') :
    S.Alike (S.Through Eq) c.bindingNames c'.bindingNames :=
  SameState.run ⟨rfl, rfl, rfl, h⟩

theorem declarators_eq (c : Cursor) : c.declarators = c.bindingNames >>= fun (names, next) =>
    if next.skipDeclaratorRest.atMark .comma then
      next.skipDeclaratorRest.advance.declarators.map fun ((more, _), n) =>
        ((names ++ more, next.skipAnnotation.asyncInitializer), n)
    else .ok ((names, next.skipAnnotation.asyncInitializer), next.skipDeclaratorRest) := by
  rw [Cursor.declarators]
  split <;> simp_all [bind, Except.bind]

theorem declarators (h : S.Along c c') :
    S.Alike (S.Through fun found found' => found'.1 = found.1) c.declarators c'.declarators := by
  induction hn : c.remaining using Nat.strongRecOn generalizing c c' with
  | ind n ih =>
  rw [declarators_eq c, declarators_eq c']
  refine h.bindingNames.andThen fun names names' c₁ c₁' hnames heq h₁ => ?_
  subst heq
  have h₂ := h₁.skipDeclaratorRest
  refine .ite (h₂.atMark_eq .comma) (fun _ => ?_) fun _ => .ok ⟨rfl, h₂⟩
  have hlt := Cursor.remaining_lt_of_bindingNames hnames
  have hle := Cursor.remaining_skipDeclaratorRest_le c₁
  have hle' := Cursor.remaining_advance_le c₁.skipDeclaratorRest
  refine (ih _ (by omega) h₂.advance rfl).map fun (found, n) (found', n') ⟨heq, hn⟩ => ?_
  exact ⟨congrArg (names ++ ·) heq, hn⟩

theorem asyncModifiesFunction_eq (h : S.Along c c') :
    c'.asyncModifiesFunction = c.asyncModifiesFunction := by
  rw [Cursor.asyncModifiesFunction, Cursor.asyncModifiesFunction, h.atWord_eq, h.followingKind_eq]

theorem modifiersFrom {m' : Cursor.Modifiers} (h : S.Along c c')
    (hambient : m'.ambient = m.ambient) :
    (c'.modifiersFrom m').1.ambient = (c.modifiersFrom m).1.ambient ∧
      S.Along (c.modifiersFrom m).2 (c'.modifiersFrom m').2 := by
  fun_induction Cursor.modifiersFrom m c generalizing m' c' with
  | case1 m c hword ih =>
    rw [Cursor.modifiersFrom, dif_pos (h.atWord_eq _ ▸ hword)]
    exact ih h.advance rfl
  | case2 m c hno hword ih =>
    rw [Cursor.modifiersFrom, dif_neg (h.atWord_eq _ ▸ hno), dif_pos (h.atWord_eq _ ▸ hword)]
    exact ih h.advance hambient
  | case3 m c hno hno' hword ih =>
    rw [Cursor.modifiersFrom, dif_neg (h.atWord_eq _ ▸ hno), dif_neg (h.atWord_eq _ ▸ hno'),
      dif_pos (h.asyncModifiesFunction_eq ▸ hword)]
    exact ih h.advance hambient
  | case4 m c hno hno' hno'' =>
    rw [Cursor.modifiersFrom, dif_neg (h.atWord_eq _ ▸ hno), dif_neg (h.atWord_eq _ ▸ hno'),
      dif_neg (h.asyncModifiesFunction_eq ▸ hno'')]
    exact ⟨hambient, h⟩

theorem atEnumeration_eq (h : S.Along c c') : c'.atEnumeration = c.atEnumeration := by
  rw [Cursor.atEnumeration, Cursor.atEnumeration, h.atWord_eq, h.atWord_eq, h.followingKind_eq]

theorem atNamespace_eq (h : S.Along c c') : c'.atNamespace = c.atNamespace := by
  unfold Cursor.atNamespace
  rw [h.kind_eq]
  by_cases hkind : c.kind = .identifier
  · rw [h.value_eq (by simp [hkind])]
  · rw [beq_false_of_ne hkind, Bool.false_and, Bool.false_and]

/-- A declaration that declares one name. -/
theorem declaredName {x x' : Except Fault (Token × Cursor)} {kind : DeclarationKind}
    {keyword keyword' : Token} {async async' : Option Token} {ambient : Bool}
    (h : S.Alike (S.Through fun t t' => t'.value = t.value) x x') :
    S.Alike (S.Through SameForm)
      (x >>= fun (name, c) => .ok (.declaration kind keyword async [name.value] ambient, c))
      (x' >>= fun (name, c) =>
        .ok (.declaration kind keyword' async' [name.value] ambient, c)) := by
  refine h.andThen fun name name' c c' _ hname along => .ok ⟨?_, along⟩
  rw [hname]
  rfl

theorem declared {m' : Cursor.Modifiers} (h : S.Along c c') (hambient : m'.ambient = m.ambient) :
    S.Alike (S.Through SameForm) (c.declared m) (c'.declared m') := by
  have h₁ := h.advance
  unfold Cursor.declared
  simp only [hambient]
  refine .ite (h.atWord_eq .functionWord) (fun _ => ?_) fun _ => ?_
  · rw [h₁.atMark_eq]
    exact declaredName (h₁.advanceIf _).expectName
  refine .ite (h.atWord_eq .classWord) (fun _ => declaredName h₁.expectName) fun _ => ?_
  refine .ite h.atEnumeration_eq (fun _ => ?_) fun _ => ?_
  · rw [h.atWord_eq]
    exact declaredName (h.advanceIf _).advance.expectName
  rw [h.kind_eq]
  cases Cursor.variableKind? c.kind with
  | some kind =>
    refine h₁.declarators.andThen fun found found' n n' _ heq hn => .ok ⟨?_, hn⟩
    rw [heq]
    rfl
  | none =>
  cases Cursor.erasedKind? c.kind with
  | some kind =>
    exact h₁.expectName.andThen fun _ _ _ _ _ _ hn => .ok ⟨rfl, hn⟩
  | none =>
  refine .ite h.atNamespace_eq (fun _ => declaredName h₁.expectModuleName) fun _ => ?_
  refine .ite (h.atWord_eq .importWord) (fun _ => ?_) fun _ => h.fault _ _
  refine h₁.expectName.andThen fun name name' c₂ c₂' _ hname h₂ => ?_
  refine (h₂.expect _).andThen fun _ _ c₃ c₃' _ _ h₃ => ?_
  refine h₃.expectName.andThen fun _ _ c₄ c₄' _ _ h₄ => ?_
  refine h₄.dottedNames.bind fun c₅ c₅' _ _ h₅ => .ok ⟨?_, h₅⟩
  rw [hname]
  rfl

theorem exportDeclaration (h : S.Along c c') :
    S.Alike (S.Through SameForm) c.exportDeclaration c'.exportDeclaration := by
  obtain ⟨hambient, along⟩ : c'.modifiers.1.ambient = c.modifiers.1.ambient ∧
      S.Along c.modifiers.2 c'.modifiers.2 := h.modifiersFrom rfl
  exact along.declared hambient

end Declaration

end Along

end Likeness

end ComponentRegistry
