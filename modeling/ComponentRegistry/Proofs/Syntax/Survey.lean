import ComponentRegistry.Proofs.Syntax.Passing

/-! # Runs of the search for statements

What the search finds between two places. A text has an outline exactly when a run leads from its
first token to its end.
-/

namespace ComponentRegistry

namespace Outline

instance : Append Outline := ⟨fun a b => ⟨a.imports ++ b.imports, a.exports ++ b.exports⟩⟩

@[simp] theorem imports_append (a b : Outline) : (a ++ b).imports = a.imports ++ b.imports := rfl

@[simp] theorem exports_append (a b : Outline) : (a ++ b).exports = a.exports ++ b.exports := rfl

theorem append_assoc (a b c : Outline) : a ++ b ++ c = a ++ (b ++ c) := by
  obtain ⟨_, _⟩ := a
  simp only [HAppend.hAppend, Append.append, Outline.mk.injEq]
  exact ⟨List.append_assoc .., List.append_assoc ..⟩

/-- Where the statements of a module stand. -/
def spans (o : Outline) : List Span :=
  o.imports.map ImportStatement.span ++ o.exports.map ExportStatement.span

theorem mem_spans_append {a b : Outline} {x : Span} :
    x ∈ (a ++ b).spans ↔ x ∈ a.spans ∨ x ∈ b.spans := by
  simp only [spans, imports_append, exports_append, List.map_append, List.mem_append]
  grind

end Outline

namespace Cursor

/-- A statement begins at a place, and reading it leads to another. -/
inductive StatementAt (c : Cursor) : Outline → Cursor → Prop where
  | importing {s : Option ImportStatement} {n : Cursor} (starts : c.startsImport = true)
      (reads : c.importStatement = .ok (s, n)) : StatementAt c ⟨s.toList, []⟩ n
  | exporting {s : ExportStatement} {n : Cursor} (starts : c.startsExport = true)
      (reads : c.exportStatement = .ok (s, n)) : StatementAt c ⟨[], [s]⟩ n

/-- Whether a statement may begin at a place. -/
def startsStatement (c : Cursor) : Bool := c.startsImport || c.startsExport

/-- The search for statements gets from one place to another and finds some of them on its way. -/
inductive Surveys : Nat → Cursor → Outline → Nat → Cursor → Prop where
  /-- Standing still. -/
  | done (d : Nat) (c : Cursor) : Surveys d c ⟨[], []⟩ d c
  /-- A statement outside of all brackets. -/
  | statement {c n m : Cursor} {found o : Outline} {d : Nat} (first : StatementAt c found n)
      (others : Surveys 0 n o d m) : Surveys 0 c (found ++ o) d m
  /-- Any other token. -/
  | pass {d d' : Nat} {c m : Cursor} {o : Outline} (more : c.kind ≠ .endOfInput)
      (nothing : ¬ (d = 0 ∧ c.startsStatement = true))
      (others : Surveys (Reach.depthAfter d c.current) c.advance o d' m) : Surveys d c o d' m

theorem StatementAt.kind_ne {c n : Cursor} {o : Outline} (h : StatementAt c o n) :
    c.kind = .keyword .importWord ∨ c.kind = .keyword .exportWord := by
  cases h with
  | importing starts =>
    simp only [startsImport, Bool.and_eq_true] at starts
    exact .inl (kind_of_atWord starts.1.1.2)
  | exporting starts =>
    simp only [startsExport, Bool.and_eq_true] at starts
    exact .inr (kind_of_atWord starts.2)

theorem StatementAt.startsStatement {c n : Cursor} {o : Outline} (h : StatementAt c o n) :
    c.startsStatement = true := by
  cases h with
  | importing starts => simp [Cursor.startsStatement, starts]
  | exporting starts => simp [Cursor.startsStatement, starts]

theorem StatementAt.reaches {c n : Cursor} {o : Outline} (h : StatementAt c o n) : Reaches c n := by
  cases h with
  | importing _ reads => exact (reaches_of_importStatement reads).1
  | exporting _ reads => exact (reaches_of_exportStatement reads).1

theorem StatementAt.remaining_lt {c n : Cursor} {o : Outline} (h : StatementAt c o n) :
    n.remaining < c.remaining := by
  cases h with
  | importing _ reads => exact remaining_lt_of_importStatement reads
  | exporting _ reads => exact remaining_lt_of_exportStatement reads

theorem StatementAt.span_eq {c n : Cursor} {o : Outline} (h : StatementAt c o n) {x : Span}
    (hx : x ∈ o.spans) : x = ⟨c.current.start, n.passedOffset⟩ := by
  cases h with
  | @importing found n _ reads =>
    obtain ⟨s, rfl, rfl⟩ : ∃ s, found = some s ∧ s.span = x := by simpa [Outline.spans] using hx
    exact (reaches_of_importStatement reads).2 s rfl
  | exporting _ reads =>
    obtain rfl : x = _ := by simpa [Outline.spans] using hx
    exact (reaches_of_exportStatement reads).2

theorem Surveys.reaches {d d' : Nat} {c m : Cursor} {o : Outline} (h : Surveys d c o d' m) :
    Reaches c m := by
  induction h with
  | done => exact Reaches.refl _
  | statement first _ ih => exact first.reaches.trans ih
  | pass _ _ _ ih => exact (reaches_advance _).trans ih

theorem Surveys.append {d d₁ d₂ : Nat} {c n m : Cursor} {o₁ o₂ : Outline}
    (h₁ : Surveys d c o₁ d₁ n) (h₂ : Surveys d₁ n o₂ d₂ m) : Surveys d c (o₁ ++ o₂) d₂ m := by
  induction h₁ with
  | done => exact h₂
  | statement first _ ih =>
    rw [Outline.append_assoc]
    exact .statement first (ih h₂)
  | pass more nothing _ ih => exact .pass more nothing (ih h₂)

theorem startsExport_eq_false {c : Cursor} (h : c.startsImport = true) :
    c.startsExport = false := by
  simp only [startsImport, Bool.and_eq_true] at h
  simp [startsExport, atWord, kind_of_atWord h.1.1.2]

/-- A run to the end of the text finds the whole outline. -/
theorem outlineFrom_of_surveys {d d' : Nat} {c m : Cursor} {o : Outline} (h : Surveys d c o d' m)
    (hm : m.kind = .endOfInput) : outlineFrom d c = .ok o := by
  induction h with
  | done d c =>
    rw [outlineFrom]
    simp [hm]
  | @statement c n m found o d first _ ih =>
    have hne : c.kind ≠ .endOfInput := by
      rcases first.kind_ne with hk | hk <;> simp [hk]
    rw [outlineFrom, dif_neg hne]
    cases first with
    | importing starts reads =>
      rw [if_pos ⟨rfl, starts⟩]
      split
      · next hfault => simp [reads] at hfault
      · next s' n' hok =>
        rw [reads, Except.ok.injEq, Prod.mk.injEq] at hok
        obtain ⟨rfl, rfl⟩ := hok
        rw [ih hm]
        rfl
    | exporting starts reads =>
      have himport : ¬ (0 = 0 ∧ c.startsImport = true) := fun himport => by
        simp [startsExport_eq_false himport.2] at starts
      rw [if_neg himport, if_pos ⟨rfl, starts⟩]
      split
      · next hfault => simp [reads] at hfault
      · next s' n' hok =>
        rw [reads, Except.ok.injEq, Prod.mk.injEq] at hok
        obtain ⟨rfl, rfl⟩ := hok
        rw [ih hm]
        rfl
  | @pass d d' c m o more nothing _ ih =>
    rw [outlineFrom, dif_neg more, if_neg, if_neg]
    · exact ih hm
    · exact fun hexport => nothing ⟨hexport.1, by simp [startsStatement, hexport.2]⟩
    · exact fun himport => nothing ⟨himport.1, by simp [startsStatement, himport.2]⟩

theorem surveys_of_outlineFrom {d : Nat} {c : Cursor} {o : Outline}
    (h : outlineFrom d c = .ok o) : ∃ d' m, Surveys d c o d' m ∧ m.kind = .endOfInput := by
  fun_induction outlineFrom d c generalizing o with
  | case1 d c hdone =>
    cases h
    exact ⟨d, c, .done d c, hdone⟩
  | case2 => cases h
  | case3 d c hdone hstart s n hread ih =>
    obtain ⟨o', ho', rfl⟩ := map_eq_ok.1 h
    obtain ⟨d', m, hrun, hm⟩ := ih ho'
    obtain rfl := hstart.1
    exact ⟨d', m, .statement (.importing hstart.2 hread) hrun, hm⟩
  | case4 => cases h
  | case5 d c hdone himport hstart s n hread ih =>
    obtain ⟨o', ho', rfl⟩ := map_eq_ok.1 h
    obtain ⟨d', m, hrun, hm⟩ := ih ho'
    obtain rfl := hstart.1
    exact ⟨d', m, .statement (.exporting hstart.2 hread) hrun, hm⟩
  | case6 d c hdone himport hexport ih =>
    obtain ⟨d', m, hrun, hm⟩ := ih h
    refine ⟨d', m, .pass hdone ?_ hrun, hm⟩
    rintro ⟨rfl, hstart⟩
    rcases Bool.or_eq_true_iff.1 hstart with hstart | hstart
    · exact himport ⟨rfl, hstart⟩
    · exact hexport ⟨rfl, hstart⟩

/-- The outline from a place on is what a run to the end of the text finds. -/
theorem outlineFrom_eq_ok {d : Nat} {c : Cursor} {o : Outline} :
    outlineFrom d c = .ok o ↔ ∃ d' m, Surveys d c o d' m ∧ m.kind = .endOfInput :=
  ⟨surveys_of_outlineFrom, fun ⟨_, _, h, hm⟩ => outlineFrom_of_surveys h hm⟩

end Cursor

end ComponentRegistry
