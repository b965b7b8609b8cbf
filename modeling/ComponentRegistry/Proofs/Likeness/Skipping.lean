import ComponentRegistry.Proofs.Likeness.Basic

/-! # What is passed over alike

Expressions, types and bracketed groups reach equally far in programs that are alike.
-/

namespace ComponentRegistry

namespace Likeness

variable {S : Likeness} {p p' : Option Token} {t t' : Token} {ts ts' : List Token} {f f' : Position}

/-- An operator's text is not that of a template. -/
theorem isDecorator_eq (ht : S.token t t') :
    (t'.kind == .operator && t'.value == "@") = (t.kind == .operator && t.value == "@") := by
  by_cases hkind : t.kind = .operator
  · rw [S.kind ht, S.value ht (by simp [hkind])]
  · rw [S.kind ht, beq_false_of_ne hkind, Bool.false_and, Bool.false_and]

theorem endsStatement_eq (hp : Option.Rel S.token p p') (ht : S.token t t') :
    Reach.endsStatement p' t' = Reach.endsStatement p t := by
  cases hp with
  | none => rfl
  | @some u u' hu =>
    simp only [Reach.endsStatement, line_lt_eq hu ht, isDecorator_eq ht, S.kind hu]
    rw [S.kind ht]

theorem anglesAfter_eq (hp : Option.Rel S.token p p') (ht : S.token t t') (angles : Nat) :
    Reach.anglesAfter angles p' t' = Reach.anglesAfter angles p t := by
  have hopens : Reach.opensTypeArguments p' t' = Reach.opensTypeArguments p t := by
    cases hp with
    | none => rfl
    | @some u u' hu =>
      simp only [Reach.opensTypeArguments, S.kind hu]
      cases hname : u.kind.isName with
      | false => rfl
      | true => rw [Bool.true_and, Bool.true_and, Bool.eq_iff_iff, beq_iff_eq, beq_iff_eq,
          S.adjoins hu ht hname]
  rw [Reach.anglesAfter, Reach.anglesAfter, hopens, S.kind ht]

theorem depthAfter_eq (ht : S.token t t') (depth : Nat) :
    Reach.depthAfter depth t' = Reach.depthAfter depth t := by
  rw [Reach.depthAfter, Reach.depthAfter, S.kind ht]

theorem typeDepthAfter_eq (ht : S.token t t') (depth : Int) :
    Reach.typeDepthAfter depth t' = Reach.typeDepthAfter depth t := by
  rw [Reach.typeDepthAfter, Reach.typeDepthAfter, S.kind ht]

theorem stopsExpression_eq (hp : Option.Rel S.token p p') (ht : S.token t t') (angles : Nat) :
    Reach.stopsExpression angles p' t' = Reach.stopsExpression angles p t := by
  simp only [Reach.stopsExpression, S.kind ht, endsStatement_eq hp ht]

theorem stopsType_eq (hp : Option.Rel S.token p p') (ht : S.token t t') :
    Reach.stopsType p' t' = Reach.stopsType p t := by
  simp only [Reach.stopsType, S.kind ht, endsStatement_eq hp ht]

theorem expressionFrom (hp : Option.Rel S.token p p') (hts : List.Forall₂ S.token ts ts')
    (hf : S.place f f') (depth angles : Nat) :
    S.Along (Reach.expressionFrom f depth angles p ts)
      (Reach.expressionFrom f' depth angles p' ts') := by
  induction hts generalizing p p' depth angles with
  | nil => exact ⟨hp, .nil, hf⟩
  | cons first others ih =>
    simp only [Reach.expressionFrom, anglesAfter_eq hp first, stopsExpression_eq hp first,
      depthAfter_eq first]
    split
    · exact ⟨hp, .cons first others, hf⟩
    · exact ih (.some first) _ _

theorem typeFrom (hp : Option.Rel S.token p p') (hts : List.Forall₂ S.token ts ts')
    (hf : S.place f f') (depth : Int) :
    S.Along (Reach.typeFrom f depth p ts) (Reach.typeFrom f' depth p' ts') := by
  induction hts generalizing p p' depth with
  | nil => exact ⟨hp, .nil, hf⟩
  | cons first others ih =>
    simp only [Reach.typeFrom, stopsType_eq hp first, typeDepthAfter_eq first]
    split
    · exact ⟨hp, .cons first others, hf⟩
    · exact ih (.some first) _

theorem groupFrom (hp : Option.Rel S.token p p') (hts : List.Forall₂ S.token ts ts')
    (hf : S.place f f') (depth : Nat) :
    S.Along (Reach.groupFrom f depth p ts) (Reach.groupFrom f' depth p' ts') := by
  induction hts generalizing p p' depth with
  | nil => exact ⟨hp, .nil, hf⟩
  | cons first others ih =>
    simp only [Reach.groupFrom, S.kind first, depthAfter_eq first]
    split
    · exact ⟨.some first, others, hf⟩
    · exact ih (.some first) _

theorem upToKind (hp : Option.Rel S.token p p') (hts : List.Forall₂ S.token ts ts')
    (hf : S.place f f') (kind : TokenKind) :
    S.Along (Reach.upToKind kind f p ts) (Reach.upToKind kind f' p' ts') := by
  induction hts generalizing p p' with
  | nil => exact ⟨hp, .nil, hf⟩
  | cons first others ih =>
    simp only [Reach.upToKind, S.kind first]
    split
    · exact ⟨hp, .cons first others, hf⟩
    · exact ih (.some first)

namespace Along

variable {c c' : Cursor}

theorem skipExpression (h : S.Along c c') : S.Along c.skipExpression c'.skipExpression :=
  expressionFrom h.previous h.ahead h.finish 0 0

theorem skipType (h : S.Along c c') : S.Along c.skipType c'.skipType :=
  typeFrom h.previous h.ahead h.finish 0

theorem skipGroup (h : S.Along c c') : S.Along c.skipGroup c'.skipGroup :=
  groupFrom h.previous h.ahead h.finish 0

theorem skipTo (h : S.Along c c') (kind : TokenKind) : S.Along (c.skipTo kind) (c'.skipTo kind) :=
  upToKind h.previous h.ahead h.finish kind

theorem skipInitializer (h : S.Along c c') :
    S.Along (PatternState.skipInitializer c) (PatternState.skipInitializer c') := by
  unfold PatternState.skipInitializer
  rw [h.atMark_eq]
  split
  · exact h.advance.skipExpression
  · exact h

theorem skipAnnotation (h : S.Along c c') : S.Along c.skipAnnotation c'.skipAnnotation := by
  unfold Cursor.skipAnnotation
  rw [h.atMark_eq]
  split
  · exact h.advance.skipType
  · exact h

theorem skipDeclaratorRest (h : S.Along c c') :
    S.Along c.skipDeclaratorRest c'.skipDeclaratorRest := h.skipAnnotation.skipInitializer

end Along

end Likeness

end ComponentRegistry
