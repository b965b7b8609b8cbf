import Mathlib.Data.List.Forall2
import ComponentRegistry.Proofs.Syntax.Passing

/-! # Programs that the grammar cannot tell apart

Two token streams whose tokens have the same kinds, say the same and stand in the same order of
lines are read alike: either both readings succeed, with results that answer each other, or both
fail, at places that answer each other.
-/

namespace ComponentRegistry

/-- Which places and which tokens of two programs answer each other. -/
structure Likeness where
  /-- The place in the one text and the place in the other. -/
  place : Position → Position → Prop
  /-- The token of the one program and the token of the other. -/
  token : Token → Token → Prop
  line_lt : ∀ {p p' q q'}, place p p' → place q q' → (p'.line < q'.line ↔ p.line < q.line)
  start : ∀ {t t'}, token t t' → place t.start t'.start
  kind : ∀ {t t'}, token t t' → t'.kind = t.kind
  /-- The text of a template is of no concern. -/
  value : ∀ {t t'}, token t t' → t.kind ≠ .template → t'.value = t.value
  /-- But for the words that any token may stand for. -/
  word : ∀ {t t'}, token t t' → ∀ w ∈ ["with", "assert", "require"], t'.value = w ↔ t.value = w
  lexeme : ∀ {t t'}, token t t' → t.kind = .string → t'.lexeme = t.lexeme
  /-- A name and a token directly behind it answer a name and a token directly behind it. -/
  adjoins : ∀ {p p' t t'}, token p p' → token t t' → p.kind.isName = true →
    (p'.stop = t'.start.offset ↔ p.stop = t.start.offset)
  last : ∀ {p p'}, place p p' → token (Token.endOfInput p) (Token.endOfInput p')

namespace Likeness

/-- Both readings succeed, or both fail. -/
inductive Alike {α β : Type} (S : Likeness) (R : α → β → Prop) :
    Except Fault α → Except Fault β → Prop where
  | ok {a : α} {b : β} (results : R a b) : Alike S R (.ok a) (.ok b)
  | error {f f' : Fault} (places : S.place f.place f'.place) : Alike S R (.error f) (.error f')

/-- The same way through both programs. -/
structure Along (S : Likeness) (c c' : Cursor) : Prop where
  previous : Option.Rel S.token c.previous c'.previous
  ahead : List.Forall₂ S.token c.ahead c'.ahead
  finish : S.place c.finish c'.finish

/-- What was read, and the place after it. -/
def Through {α β : Type} (S : Likeness) (R : α → β → Prop) (x : α × Cursor) (x' : β × Cursor) :
    Prop :=
  R x.1 x'.1 ∧ S.Along x.2 x'.2

variable {S : Likeness} {α β γ δ : Type} {R : α → β → Prop} {Q : γ → δ → Prop}

section Readings

variable {x : Except Fault α} {x' : Except Fault β}

theorem Alike.bind {f : α → Except Fault γ} {f' : β → Except Fault δ} (h : S.Alike R x x')
    (next : ∀ a b, x = .ok a → x' = .ok b → R a b → S.Alike Q (f a) (f' b)) :
    S.Alike Q (x >>= f) (x' >>= f') := by
  cases h with
  | ok results => exact next _ _ rfl rfl results
  | error places => exact .error places

/-- What is read after something else. -/
theorem Alike.andThen {y : Except Fault (α × Cursor)} {y' : Except Fault (β × Cursor)}
    {f : α × Cursor → Except Fault γ} {f' : β × Cursor → Except Fault δ}
    (h : S.Alike (S.Through R) y y')
    (next : ∀ a b c c', y = .ok (a, c) → R a b → S.Along c c' → S.Alike Q (f (a, c)) (f' (b, c'))) :
    S.Alike Q (y >>= f) (y' >>= f') :=
  h.bind fun ⟨a, c⟩ ⟨b, c'⟩ hok _ ⟨results, along⟩ => next a b c c' hok results along

theorem Alike.map {f : α → γ} {f' : β → δ} (h : S.Alike R x x')
    (results : ∀ a b, R a b → Q (f a) (f' b)) : S.Alike Q (x.map f) (x'.map f') := by
  cases h with
  | ok h => exact .ok (results _ _ h)
  | error places => exact .error places

/-- Alike readings where something holds, and others where it does not. -/
theorem Alike.ifThen {y : Except Fault α} {y' : Except Fault β} {P P' : Prop} [Decidable P]
    [Decidable P'] (hP : P' ↔ P) (yes : P → S.Alike R x x') (no : ¬ P → S.Alike R y y') :
    S.Alike R (if P then x else y) (if P' then x' else y') := by
  by_cases h : P
  · rw [if_pos h, if_pos (hP.2 h)]
    exact yes h
  · rw [if_neg h, if_neg fun h' => h (hP.1 h')]
    exact no h

theorem Alike.ite {y : Except Fault α} {y' : Except Fault β} {b b' : Bool} (hb : b' = b)
    (yes : b = true → S.Alike R x x') (no : b = false → S.Alike R y y') :
    S.Alike R (if b then x else y) (if b' then x' else y') :=
  .ifThen (by rw [hb]) yes fun h => no (by simpa using h)

end Readings

section Tokens

variable {t t' u u' : Token}

theorem line_lt_eq (h : S.token t t') (hu : S.token u u') :
    (t'.line < u'.line) = (t.line < u.line) := propext (S.line_lt (S.start h) (S.start hu))

theorem line_beq (h : S.token t t') (hu : S.token u u') :
    (t'.line == u'.line) = (t.line == u.line) := by
  have hlt : t'.line < u'.line ↔ t.line < u.line := iff_of_eq (line_lt_eq h hu)
  have hgt : u'.line < t'.line ↔ u.line < t.line := iff_of_eq (line_lt_eq hu h)
  rw [Bool.eq_iff_iff, beq_iff_eq, beq_iff_eq]
  omega

theorem moduleSource (h : S.token t t') (hkind : t.kind = .string) :
    ModuleSource.ofToken t' = ModuleSource.ofToken t := by
  rw [ModuleSource.ofToken, ModuleSource.ofToken, S.value h (by simp [hkind]), S.lexeme h hkind]

end Tokens

variable {c c' : Cursor}

namespace Along

theorem advance (h : S.Along c c') : S.Along c.advance c'.advance := by
  obtain ⟨previous, ahead, finish⟩ := c
  obtain ⟨previous', ahead', finish'⟩ := c'
  obtain ⟨hprevious, hahead, hfinish⟩ := h
  cases hahead with
  | nil => exact ⟨hprevious, .nil, hfinish⟩
  | cons first others => exact ⟨.some first, others, hfinish⟩

theorem current (h : S.Along c c') : S.token c.current c'.current := by
  obtain ⟨previous, ahead, finish⟩ := c
  obtain ⟨previous', ahead', finish'⟩ := c'
  obtain ⟨hprevious, hahead, hfinish⟩ := h
  cases hahead with
  | nil => exact S.last hfinish
  | cons first others => exact first

theorem peek (h : S.Along c c') (n : Nat) : S.token (c.peek n) (c'.peek n) := by
  induction n generalizing c c' with
  | zero => exact h.current
  | succ n ih =>
    rw [Cursor.peek_succ, Cursor.peek_succ]
    exact ih h.advance

theorem kind_eq (h : S.Along c c') : c'.kind = c.kind := S.kind h.current

theorem followingKind_eq (h : S.Along c c') : c'.followingKind = c.followingKind :=
  S.kind (h.peek 1)

theorem atMark_eq (h : S.Along c c') (m : Mark) : c'.atMark m = c.atMark m := by
  rw [Cursor.atMark, Cursor.atMark, h.kind_eq]

theorem atWord_eq (h : S.Along c c') (w : Keyword) : c'.atWord w = c.atWord w := by
  rw [Cursor.atWord, Cursor.atWord, h.kind_eq]

theorem atName_eq (h : S.Along c c') : c'.atName = c.atName := by
  rw [Cursor.atName, Cursor.atName, h.kind_eq]

theorem atString_eq (h : S.Along c c') : c'.atString = c.atString := by
  rw [Cursor.atString, Cursor.atString, h.kind_eq]

theorem value_eq (h : S.Along c c') (hkind : c.kind ≠ .template) :
    c'.current.value = c.current.value := S.value h.current hkind

theorem value_beq (h : S.Along c c') {w : String} (hw : w ∈ ["with", "assert", "require"]) :
    (c'.current.value == w) = (c.current.value == w) := by
  rw [Bool.eq_iff_iff, beq_iff_eq, beq_iff_eq]
  exact S.word h.current w hw

theorem advanceIf (h : S.Along c c') (condition : Bool) :
    S.Along (c.advanceIf condition) (c'.advanceIf condition) := by
  cases condition with
  | false => exact h
  | true => exact h.advance

theorem fault (h : S.Along c c') (cause cause' : Token → FaultCause) :
    S.Alike R (.error (c.fault cause)) (.error (c'.fault cause')) := .error (S.start h.current)

theorem expect (h : S.Along c c') (kind : TokenKind) :
    S.Alike (S.Through fun t t' => S.token t t' ∧ t.kind = kind) (c.expect kind)
      (c'.expect kind) := by
  unfold Cursor.expect
  by_cases hk : c.kind = kind
  · rw [if_pos hk, if_pos (h.kind_eq.trans hk)]
    exact .ok ⟨⟨h.current, hk⟩, h.advance⟩
  · rw [if_neg hk, if_neg (h.kind_eq ▸ hk)]
    exact h.fault _ _

theorem expectName (h : S.Along c c') :
    S.Alike (S.Through fun t t' => t'.value = t.value) c.expectName c'.expectName := by
  refine .ite h.atName_eq (fun hname => ?_) fun _ => h.fault _ _
  refine .ok ⟨h.value_eq fun hkind => ?_, h.advance⟩
  simp [Cursor.atName, hkind, TokenKind.isName] at hname

theorem expectModuleName (h : S.Along c c') :
    S.Alike (S.Through fun t t' => t'.value = t.value) c.expectModuleName c'.expectModuleName := by
  refine .ite h.atString_eq (fun hstring => ?_) fun _ => h.expectName
  exact .ok ⟨h.value_eq (by simp [Cursor.kind_of_atString hstring]), h.advance⟩

theorem takeSemicolon (h : S.Along c c') :
    c'.takeSemicolon.1 = c.takeSemicolon.1 ∧ S.Along c.takeSemicolon.2 c'.takeSemicolon.2 := by
  unfold Cursor.takeSemicolon
  rw [h.atMark_eq]
  split
  · exact ⟨rfl, h.advance⟩
  · exact ⟨rfl, h⟩

theorem dottedNames_eq (c : Cursor) : c.dottedNames =
    if c.atMark .dot then c.advance.expectName >>= fun x => x.2.dottedNames else .ok c := by
  rw [Cursor.dottedNames]
  split
  · cases c.advance.expectName <;> rfl
  · rfl

theorem dottedNames (h : S.Along c c') : S.Alike S.Along c.dottedNames c'.dottedNames := by
  induction hn : c.remaining using Nat.strongRecOn generalizing c c' with
  | ind n ih =>
  rw [dottedNames_eq c, dottedNames_eq c']
  refine .ite (h.atMark_eq .dot) (fun hdot => ?_) fun _ => .ok h
  refine h.advance.expectName.andThen fun _ _ c₁ c₁' hname _ h₁ => ?_
  have hlt := Cursor.remaining_lt_of_atMark hdot
  have hlt₁ := Cursor.remaining_lt_of_expectName hname
  exact ih c₁.remaining (by omega) h₁ rfl

end Along

end Likeness

end ComponentRegistry
