import ComponentRegistry.Proofs.Lexing.Concatenation
import ComponentRegistry.Proofs.Seam.Survey

/-! # Statements in a text that is moved down

The statements of a text that has another text in front of it. Where the places in front of a seam
are those of the same text further down, so are the statements.
-/

namespace ComponentRegistry

section Shift

variable (front : List Char)

/-- The same stretch in a text that has another text in front. -/
def Span.shift (x : Span) : Span := ⟨x.start.shift front, x.stop + front.length⟩

/-- The same import in a text that has another text in front. -/
def ImportStatement.shift (s : ImportStatement) : ImportStatement :=
  { s with span := s.span.shift front }

/-- The same form in a text that has another text in front. -/
def ExportForm.shift : ExportForm → ExportForm
  | .declaration declared keyword async bound ambient =>
    .declaration declared (keyword.shift front) (async.map (Token.shift front)) bound ambient
  | .defaultDeclaration declared default async keyword name =>
    .defaultDeclaration declared (default.shift front) (async.map (Token.shift front))
      (keyword.shift front) name
  | .defaultName default name => .defaultName (default.shift front) name
  | .defaultExpression default async =>
    .defaultExpression (default.map (Token.shift front)) (async.map (Token.shift front))
  | .defaultInterface => .defaultInterface
  | .globalName => .globalName
  | .list specifiers source typeOnly => .list specifiers source typeOnly
  | .everything name source typeOnly => .everything name source typeOnly

/-- The same export in a text that has another text in front. -/
def ExportStatement.shift (s : ExportStatement) : ExportStatement :=
  { s with form := s.form.shift front, span := s.span.shift front }

/-- The same statements in a text that has another text in front. -/
def Outline.shift (o : Outline) : Outline :=
  ⟨o.imports.map (ImportStatement.shift front), o.exports.map (ExportStatement.shift front)⟩

end Shift

theorem Outline.shift_nil (o : Outline) : o.shift [] = o := by
  have htoken : Token.shift [] = id := rfl
  have himport : ImportStatement.shift [] = id := rfl
  have hexport : ExportStatement.shift [] = id := by
    funext s
    have hform : s.form.shift [] = s.form := by
      cases s.form <;> simp only [ExportForm.shift, htoken, Option.map_id, id]
    rw [ExportStatement.shift, hform]
    rfl
  rw [shift, himport, hexport, List.map_id, List.map_id]

namespace Seam

variable {S : Seam} {front : List Char}

theorem line_lt_of_shift {p p' q q' : Position} (hp : p' = p.shift front)
    (hq : q' = q.shift front) : p.line < q.line ↔ p'.line < q'.line := by
  subst hp hq
  simp only [Position.shift]
  omega

theorem offset_eq_of_shift {p p' q q' : Position} (n : Nat) (hp : p' = p.shift front)
    (hq : q' = q.shift front) : p.offset + n = q.offset ↔ p'.offset + n = q'.offset := by
  subst hp hq
  simp only [Position.shift]
  omega

/-- Places that go together are the same ones in a text that has another text in front. -/
def Shifts (S : Seam) (front : List Char) : Prop := ∀ p p', S.placed p p' → p' = p.shift front

theorem Same.eq_shift (hS : S.Shifts front) {t t' : Token} (h : S.Same t t') :
    t' = t.shift front := by
  obtain ⟨kind, value, lexeme, start⟩ := t
  obtain ⟨kind', value', lexeme', start'⟩ := t'
  obtain ⟨hkind, hvalue, hlexeme, -, hstart⟩ := h
  simp only at hkind hvalue hlexeme hstart
  have hstart := hS _ _ hstart
  subst hkind hvalue hlexeme hstart
  rfl

theorem map_eq_of_rel (hS : S.Shifts front) {t t' : Option Token} (h : Option.Rel S.Same t t') :
    t' = t.map (Token.shift front) := by
  cases h with
  | none => rfl
  | some hsame => rw [hsame.eq_shift hS]; rfl

theorem SameSpan.eq_shift (hS : S.Shifts front) {x x' : Span} (h : S.SameSpan x x') :
    x' = x.shift front := by
  obtain ⟨hstart, p, p', k, hplaced, hstop, hstop'⟩ := h
  obtain ⟨start, stop⟩ := x
  obtain ⟨start', stop'⟩ := x'
  simp only at hstart hstop hstop'
  have hstart := hS _ _ hstart
  have hplaced := hS _ _ hplaced
  subst hstart hplaced hstop hstop'
  simp only [Span.shift, Span.mk.injEq, true_and, Position.shift]
  omega

theorem SameForm.eq_shift (hS : S.Shifts front) {form form' : ExportForm}
    (h : S.SameForm form form') : form' = form.shift front := by
  cases h with
  | declaration keyword async => rw [keyword.eq_shift hS, map_eq_of_rel hS async]; rfl
  | defaultDeclaration default async keyword =>
    rw [default.eq_shift hS, map_eq_of_rel hS async, keyword.eq_shift hS]; rfl
  | defaultName default => rw [default.eq_shift hS]; rfl
  | defaultExpression default async => rw [map_eq_of_rel hS default, map_eq_of_rel hS async]; rfl
  | defaultInterface | globalName | list | everything => rfl

theorem SameImport.eq_shift (hS : S.Shifts front) {s s' : ImportStatement}
    (h : S.SameImport s s') : s' = s.shift front := by
  have hspan := h.span.eq_shift hS
  obtain ⟨source, specifiers, typeOnly, terminated, span⟩ := s
  obtain ⟨source', specifiers', typeOnly', terminated', span'⟩ := s'
  obtain ⟨hsource, hspecifiers, htypeOnly, hterminated, -⟩ := h
  simp only at hsource hspecifiers htypeOnly hterminated hspan
  subst hsource hspecifiers htypeOnly hterminated hspan
  rfl

theorem SameExport.eq_shift (hS : S.Shifts front) {s s' : ExportStatement}
    (h : S.SameExport s s') : s' = s.shift front := by
  have hspan := h.span.eq_shift hS
  have hform := h.form.eq_shift hS
  have hterminated := h.terminated
  obtain ⟨form, terminated, span⟩ := s
  obtain ⟨form', terminated', span'⟩ := s'
  simp only at hform hterminated hspan
  subst hform hterminated hspan
  rfl

/-- What is found in front of a text is what is found in the text alone, further up. -/
theorem SameOutline.eq_shift (hS : S.Shifts front) {o o' : Outline} (h : S.SameOutline o o') :
    o' = o.shift front := by
  have himports : List.Forall₂ Eq (o.imports.map (ImportStatement.shift front)) o'.imports := by
    rw [List.forall₂_map_left_iff]
    exact h.imports.imp fun _ _ hs => (hs.eq_shift hS).symm
  have hexports : List.Forall₂ Eq (o.exports.map (ExportStatement.shift front)) o'.exports := by
    rw [List.forall₂_map_left_iff]
    exact h.exports.imp fun _ _ hs => (hs.eq_shift hS).symm
  rw [List.forall₂_eq_eq_eq] at himports hexports
  rw [Outline.shift, himports, hexports]

end Seam

end ComponentRegistry
