import Mathlib.Data.List.Forall2
import ComponentRegistry.Proofs.Syntax.Passing

/-! # Seams between token streams

Two token streams that begin with the same tokens, possibly at other places of their texts, and go
on differently from some token on. A reader that stops at the seam of the one stops at the seam of
the other, as long as it does not look past the seam. What a reader may see there is what the
conditions in this development are about.
-/

namespace ComponentRegistry

namespace Cursor

/-- Whether the last token that was passed is a semicolon. -/
def afterSemicolon (c : Cursor) : Bool := c.previous.any fun t => t.kind == .mark .semicolon

theorem takeSemicolon_cases (c : Cursor) :
    (c.takeSemicolon = (true, c.advance) ∧ c.atMark .semicolon = true ∧
        c.advance.afterSemicolon = true ∧ c.advance.remaining + 1 = c.remaining) ∨
      (c.takeSemicolon = (false, c) ∧ c.atMark .semicolon = false) := by
  unfold takeSemicolon
  split
  · next hmark =>
    have hkind := kind_of_atMark hmark
    refine .inl ⟨rfl, hmark, ?_, ?_⟩
    · obtain ⟨rest, hrest⟩ := exists_cons_of_kind (c := c) (by simp [hkind])
      have hcurrent : c.current.kind = .mark .semicolon := hkind
      simp [afterSemicolon, (passes_cons hrest).previous, hcurrent]
    · have := remaining_lt_of_atMark hmark
      have := remaining_advance c
      omega
  · next hmark => exact .inr ⟨rfl, by simpa using hmark⟩

theorem afterSemicolon_of_passes {c n : Cursor} {t : Token} (h : Passes c n [t]) :
    n.afterSemicolon = (t.kind == .mark .semicolon) := by
  simp [afterSemicolon, h.previous]

theorem not_afterSemicolon_of_expectName {c n : Cursor} {t : Token}
    (h : c.expectName = .ok (t, n)) : n.afterSemicolon = false := by
  obtain ⟨hpass, -, hkind⟩ := passes_of_expectName h
  rw [afterSemicolon_of_passes hpass]
  cases hk : t.kind <;> simp_all [TokenKind.isName]

theorem not_afterSemicolon_of_dottedNames {c n : Cursor} (h : c.dottedNames = .ok n)
    (hc : c.afterSemicolon = false) : n.afterSemicolon = false := by
  fun_induction dottedNames c with
  | case1 => cases h
  | case2 c hdot t c₁ hname ih =>
    exact ih h (not_afterSemicolon_of_expectName hname)
  | case3 =>
    cases h
    exact hc

end Cursor

/-- Two rests of token streams, and how places in front of them go together. -/
structure Seam where
  /-- The same place in both texts. -/
  placed : Position → Position → Prop
  /-- The order of lines is the same. -/
  line_lt : ∀ {p p' q q'}, placed p p' → placed q q' → (p.line < q.line ↔ p'.line < q'.line)
  /-- Distances are the same. -/
  offset_eq : ∀ {p p' q q'} (n : Nat), placed p p' → placed q q' →
    (p.offset + n = q.offset ↔ p'.offset + n = q'.offset)
  /-- The tokens after the seam of the one stream. -/
  old : List Token
  /-- The tokens after the seam of the other stream. -/
  new : List Token

/-- A seam in front of a statement: nothing tells it from the end of what stands before it. -/
class Seam.AtStatement (S : Seam) : Prop where
  /-- The one stream ends at the seam, or goes on with a statement. -/
  begins : ∀ t ∈ S.old.head?, t.kind = .keyword .importWord ∨ t.kind = .keyword .exportWord
  /-- The first word of that statement is no parameter. -/
  arrow : ∀ t u rest, S.old = t :: u :: rest → u.kind ≠ .mark .arrow
  /-- Nor does the other stream go on with an arrow. -/
  newArrow : ∀ t ∈ S.new.head?, t.kind ≠ .mark .arrow

namespace Seam

theorem atStatement_of_nil {S : Seam} (hold : S.old = [])
    (hnew : ∀ t ∈ S.new.head?, t.kind ≠ .mark .arrow) : S.AtStatement := by
  refine ⟨?_, ?_, hnew⟩ <;> simp [hold]

/-- The same token at places that go together. -/
structure Same (S : Seam) (t t' : Token) : Prop where
  kind : t'.kind = t.kind
  value : t'.value = t.value
  lexeme : t'.lexeme = t.lexeme
  /-- A semicolon is nothing but a semicolon. -/
  semicolon : t.kind = .mark .semicolon → t.value = ";"
  start : S.placed t.start t'.start

theorem exists_same_right {S : Seam} {x x' : Option Token} {t : Token} (h : Option.Rel S.Same x x')
    (ht : x = some t) : ∃ t', x' = some t' ∧ S.Same t t' := by
  subst ht
  cases h with
  | some hsame => exact ⟨_, rfl, hsame⟩

theorem exists_same_left {S : Seam} {x x' : Option Token} {t' : Token} (h : Option.Rel S.Same x x')
    (ht : x' = some t') : ∃ t, x = some t ∧ S.Same t t' := by
  subst ht
  cases h with
  | some hsame => exact ⟨_, rfl, hsame⟩

/-- The same tokens up to the seam. -/
inductive Tied (S : Seam) : List Token → List Token → Prop where
  | seam : Tied S S.old S.new
  | cons {t t' : Token} {ts ts' : List Token} (first : S.Same t t') (others : Tied S ts ts') :
      Tied S (t :: ts) (t' :: ts')

/-- The same place in front of the seam. -/
structure Matches (S : Seam) (c c' : Cursor) : Prop where
  previous : Option.Rel S.Same c.previous c'.previous
  ahead : S.Tied c.ahead c'.ahead

/-- The kind of the first token after the seam of the other stream. -/
def nextKind (S : Seam) : TokenKind := (S.new.head?.map Token.kind).getD .endOfInput

/-- What the first token after the seam of the other stream says. -/
def nextValue (S : Seam) : String := (S.new.head?.map Token.value).getD ""

/-- The kinds with which a statement may go on after what could be its end. -/
def continuations : List TokenKind :=
  [.mark .semicolon, .mark .dot, .mark .equals, .mark .colon, .mark .comma, .mark .arrow,
    .mark .openBrace, .mark .openParen, .mark .less, .mark .star, .keyword .fromWord,
    .keyword .functionWord, .keyword .classWord]

/-- What follows the seam of the other stream does not go on with the statement before it. -/
structure Detached (S : Seam) : Prop where
  kind : ∀ k ∈ continuations, S.nextKind ≠ k
  word : S.nextValue ≠ "with" ∧ S.nextValue ≠ "assert" ∧ S.nextValue ≠ "require"
  arrow : ∀ t u rest, S.new = t :: u :: rest → u.kind ≠ .mark .arrow

/-- What follows the seam of the other stream does not go on with an import before it. -/
structure Closes (S : Seam) : Prop where
  kind : ∀ k ∈ ([.mark .semicolon, .mark .dot, .mark .openBrace, .mark .openParen] :
    List TokenKind), S.nextKind ≠ k
  word : S.nextValue ≠ "with" ∧ S.nextValue ≠ "assert"

/-- The other stream goes on where the one ends. -/
def Extends (S : Seam) : Prop := S.old = [] ∧ S.new ≠ []

/-- Where a line break before the rest of the one stream ends a statement, it does so before the
rest of the other. After a semicolon nothing is left to end. -/
def Carries (S : Seam) (p : Option Token) : Prop :=
  (∀ t ∈ S.old.head?, Reach.endsStatement p t = true) → (∀ t ∈ p, t.kind ≠ .mark .semicolon) →
    ∀ p', Option.Rel S.Same p p' → ∀ t ∈ S.new.head?, Reach.endsStatement p' t = true

variable {S : Seam} {c c' n : Cursor} {t t' : Token}

theorem Detached.closes (h : S.Detached) : S.Closes where
  kind k hk := h.kind k (by revert k; decide)
  word := ⟨h.word.1, h.word.2.1⟩

theorem Same.line_lt {u u' : Token} (h : S.Same t t') (h' : S.Same u u') :
    t'.line < u'.line ↔ t.line < u.line := (S.line_lt h.start h'.start).symm

theorem Same.line_beq {u u' : Token} (h : S.Same t t') (h' : S.Same u u') :
    (t'.line == u'.line) = (t.line == u.line) := by
  have hlt := h.line_lt h'
  have hgt := h'.line_lt h
  rw [Bool.eq_iff_iff, beq_iff_eq, beq_iff_eq]
  omega

theorem Tied.length_le {ts ts' : List Token} (h : S.Tied ts ts') :
    S.old.length ≤ ts.length := by
  induction h with
  | seam => exact Nat.le_refl _
  | cons _ _ ih => exact Nat.le_succ_of_le ih

theorem Matches.length_le (h : S.Matches c c') : S.old.length ≤ c.remaining := h.ahead.length_le

/-- In front of the seam the next tokens are the same. What was before them does not matter. -/
theorem Tied.inside (h : S.Tied c.ahead c'.ahead) (hlt : S.old.length < c.remaining) :
    S.Same c.current c'.current ∧ S.Matches c.advance c'.advance := by
  obtain ⟨previous, ahead, finish⟩ := c
  obtain ⟨previous', ahead', finish'⟩ := c'
  cases h with
  | seam => exact absurd hlt (Nat.lt_irrefl _)
  | cons first others => exact ⟨first, .some first, others⟩

theorem Matches.inside (h : S.Matches c c') (hlt : S.old.length < c.remaining) :
    S.Same c.current c'.current ∧ S.Matches c.advance c'.advance := h.ahead.inside hlt

/-- At the seam the rests follow. -/
theorem Tied.outside {ts ts' : List Token} (h : S.Tied ts ts') (hle : ts.length ≤ S.old.length) :
    ts = S.old ∧ ts' = S.new := by
  cases h with
  | seam => exact ⟨rfl, rfl⟩
  | cons first others =>
    have := others.length_le
    simp only [List.length_cons] at hle
    omega

theorem Matches.outside (h : S.Matches c c') (hle : c.remaining ≤ S.old.length) :
    c.ahead = S.old ∧ c'.ahead = S.new := h.ahead.outside hle

theorem Matches.same (h : S.Matches c c') (hlt : S.old.length < c.remaining) :
    S.Same c.current c'.current := (h.inside hlt).1

theorem Matches.advance (h : S.Matches c c') (hlt : S.old.length < c.remaining) :
    S.Matches c.advance c'.advance := (h.inside hlt).2

theorem Matches.kind_eq (h : S.Matches c c') (hlt : S.old.length < c.remaining) :
    c'.kind = c.kind := (h.same hlt).kind

theorem Matches.atMark_eq (h : S.Matches c c') (hlt : S.old.length < c.remaining) (m : Mark) :
    c'.atMark m = c.atMark m := by
  rw [Cursor.atMark, Cursor.atMark, h.kind_eq hlt]

theorem Matches.atWord_eq (h : S.Matches c c') (hlt : S.old.length < c.remaining) (w : Keyword) :
    c'.atWord w = c.atWord w := by
  rw [Cursor.atWord, Cursor.atWord, h.kind_eq hlt]

theorem Matches.atName_eq (h : S.Matches c c') (hlt : S.old.length < c.remaining) :
    c'.atName = c.atName := by
  rw [Cursor.atName, Cursor.atName, h.kind_eq hlt]

theorem Matches.atString_eq (h : S.Matches c c') (hlt : S.old.length < c.remaining) :
    c'.atString = c.atString := by
  rw [Cursor.atString, Cursor.atString, h.kind_eq hlt]

theorem Matches.value_eq (h : S.Matches c c') (hlt : S.old.length < c.remaining) :
    c'.current.value = c.current.value := (h.same hlt).value

/-- Tokens further ahead are the same as well, as long as they stand in front of the seam. -/
theorem Matches.peek (h : S.Matches c c') {k : Nat} (hlt : S.old.length + k < c.remaining) :
    S.Same (c.peek k) (c'.peek k) := by
  induction k generalizing c c' with
  | zero => exact h.same hlt
  | succ k ih =>
    rw [Cursor.peek_succ, Cursor.peek_succ]
    have hadvance := Cursor.remaining_advance c
    exact ih (h.advance (by omega)) (by omega)

theorem Matches.followingKind_eq (h : S.Matches c c') (hlt : S.old.length + 1 < c.remaining) :
    c'.followingKind = c.followingKind := (h.peek hlt).kind

theorem Matches.kind_eq_nextKind (h : S.Matches c c') (hle : c.remaining ≤ S.old.length) :
    c'.kind = S.nextKind := by
  simp only [Cursor.kind, Cursor.current, Cursor.peek, (h.outside hle).2, nextKind]
  cases S.new <;> rfl

/-- At the seam the one stream ends, or goes on with a statement. -/
theorem Matches.kind_outside [S.AtStatement] (h : S.Matches c c')
    (hle : c.remaining ≤ S.old.length) :
    c.kind = .endOfInput ∨ c.kind = .keyword .importWord ∨ c.kind = .keyword .exportWord := by
  rw [Cursor.kind, Cursor.current, Cursor.peek, (h.outside hle).1]
  have hbegins := AtStatement.begins (S := S)
  cases hold : S.old with
  | nil => exact .inl rfl
  | cons t rest => exact .inr (hbegins t (by simp [hold]))

theorem Matches.kind_ne_of_outside [S.AtStatement] (h : S.Matches c c')
    (hle : c.remaining ≤ S.old.length) {kind : TokenKind} (hkind : kind ∈ continuations) :
    c.kind ≠ kind := by
  rintro rfl
  rcases h.kind_outside hle with hk | hk | hk <;> rw [hk] at hkind <;> revert hkind <;> decide

/-- A mark that goes on with a statement stands ahead in both streams or in none. -/
theorem Matches.atMark_eq_of_detached [S.AtStatement] (h : S.Matches c c') {m : Mark}
    (hm : .mark m ∈ continuations) (hend : c.remaining = S.old.length → S.Detached) :
    c'.atMark m = c.atMark m := by
  rcases Nat.lt_or_eq_of_le h.length_le with hlt | heq
  · exact h.atMark_eq hlt m
  · have hle := Nat.le_of_eq heq.symm
    have hnew := (hend heq.symm).kind _ hm
    have hold := h.kind_ne_of_outside hle hm
    simp [Cursor.atMark, h.kind_eq_nextKind hle, hnew, hold]

theorem Matches.value_eq_nextValue (h : S.Matches c c') (hle : c.remaining ≤ S.old.length) :
    c'.current.value = S.nextValue := by
  simp only [Cursor.current, Cursor.peek, (h.outside hle).2, nextValue]
  cases S.new <;> rfl

theorem Matches.followingKind_eq_nextKind (h : S.Matches c c')
    (heq : c.remaining = S.old.length + 1) : c'.followingKind = S.nextKind := by
  have hadvance := Cursor.remaining_advance c
  rw [Cursor.followingKind_eq]
  exact (h.advance (by omega)).kind_eq_nextKind (by omega)

theorem Matches.advanceIf (h : S.Matches c c') (condition : Bool)
    (hlt : condition = true → S.old.length < c.remaining) :
    S.Matches (c.advanceIf condition) (c'.advanceIf condition) := by
  cases condition with
  | false => exact h
  | true => exact h.advance (hlt rfl)

theorem Tied.expect {kind : TokenKind} (h : S.Tied c.ahead c'.ahead) (hkind : kind ≠ .endOfInput)
    (hok : c.expect kind = .ok (t, n)) (hle : S.old.length ≤ n.remaining) :
    ∃ t' n', c'.expect kind = .ok (t', n') ∧ S.Same t t' ∧ S.Matches n n' := by
  have hlt := Cursor.remaining_lt_of_expect hkind hok
  obtain ⟨hsame, hadvance⟩ := h.inside (by omega)
  unfold Cursor.expect at hok
  split at hok
  · next hk =>
    cases hok
    refine ⟨c'.current, c'.advance, ?_, hsame, hadvance⟩
    have hk' : c'.kind = kind := hsame.kind.trans hk
    rw [Cursor.expect, if_pos hk']
  · cases hok

theorem Matches.expect {kind : TokenKind} (h : S.Matches c c') (hkind : kind ≠ .endOfInput)
    (hok : c.expect kind = .ok (t, n)) (hle : S.old.length ≤ n.remaining) :
    ∃ t' n', c'.expect kind = .ok (t', n') ∧ S.Same t t' ∧ S.Matches n n' :=
  h.ahead.expect hkind hok hle

theorem Matches.expectName (h : S.Matches c c') (hok : c.expectName = .ok (t, n))
    (hle : S.old.length ≤ n.remaining) :
    ∃ t' n', c'.expectName = .ok (t', n') ∧ S.Same t t' ∧ S.Matches n n' := by
  have hlt := Cursor.remaining_lt_of_expectName hok
  obtain ⟨hsame, hadvance⟩ := h.inside (by omega)
  unfold Cursor.expectName at hok
  split at hok
  · next hk =>
    cases hok
    refine ⟨c'.current, c'.advance, ?_, hsame, hadvance⟩
    rw [Cursor.expectName, if_pos (h.atName_eq (by omega) ▸ hk)]
  · cases hok

theorem Matches.expectModuleName (h : S.Matches c c') (hok : c.expectModuleName = .ok (t, n))
    (hle : S.old.length ≤ n.remaining) :
    ∃ t' n', c'.expectModuleName = .ok (t', n') ∧ S.Same t t' ∧ S.Matches n n' := by
  have hlt := Cursor.remaining_lt_of_expectModuleName hok
  unfold Cursor.expectModuleName at hok ⊢
  rw [h.atString_eq (by omega)]
  split at hok
  · next hs =>
    cases hok
    obtain ⟨hsame, hadvance⟩ := h.inside (by omega)
    exact ⟨c'.current, c'.advance, by rw [if_pos hs], hsame, hadvance⟩
  · next hs =>
    rw [if_neg hs]
    exact h.expectName hok hle

/-- A semicolon in front of the seam is taken from both streams. -/
theorem Matches.takeSemicolon (h : S.Matches c c')
    (hle : S.old.length ≤ c.takeSemicolon.2.remaining)
    (hend : c.takeSemicolon.1 = false → c.remaining = S.old.length →
      S.nextKind ≠ .mark .semicolon) :
    c'.takeSemicolon.1 = c.takeSemicolon.1 ∧ S.Matches c.takeSemicolon.2 c'.takeSemicolon.2 := by
  unfold Cursor.takeSemicolon at hle hend ⊢
  by_cases hmark : c.atMark .semicolon = true
  · rw [if_pos hmark] at hle ⊢
    have hlt := Cursor.remaining_lt_of_atMark hmark
    rw [h.atMark_eq (by simp only at hle; omega), if_pos hmark]
    exact ⟨rfl, h.advance (by simp only at hle; omega)⟩
  · rw [if_neg hmark] at hle hend ⊢
    have hmark' : ¬ c'.atMark .semicolon = true := by
      rcases Nat.lt_or_eq_of_le hle with hlt | heq
      · rwa [h.atMark_eq hlt]
      · rw [Cursor.atMark, h.kind_eq_nextKind (Nat.le_of_eq heq.symm), beq_iff_eq]
        exact hend rfl heq.symm
    rw [if_neg hmark']
    exact ⟨rfl, h⟩

theorem Matches.dottedNames (h : S.Matches c c') (hok : c.dottedNames = .ok n)
    (hle : S.old.length ≤ n.remaining)
    (hend : n.remaining = S.old.length → S.nextKind ≠ .mark .dot) :
    ∃ n', c'.dottedNames = .ok n' ∧ S.Matches n n' := by
  fun_induction Cursor.dottedNames c generalizing c' with
  | case1 => cases hok
  | case2 c hdot t c₁ hname ih =>
    have hlt := Cursor.remaining_lt_of_atMark hdot
    have hlt₁ := Cursor.remaining_lt_of_expectName hname
    have hle₁ := Cursor.remaining_le_of_dottedNames hok
    obtain ⟨t', c₁', hname', -, h₁⟩ := (h.advance (by omega)).expectName hname (by omega)
    obtain ⟨n', hok', hn⟩ := ih h₁ hok
    refine ⟨n', ?_, hn⟩
    have hdot' : c'.atMark .dot = true := by rwa [h.atMark_eq (by omega)]
    rw [Cursor.dottedNames, dif_pos hdot']
    split
    · next hfault => simp [hname'] at hfault
    · next hname'' =>
      rw [hname', Except.ok.injEq, Prod.mk.injEq] at hname''
      rwa [← hname''.2]
  | case3 c hdot =>
    cases hok
    refine ⟨c', ?_, h⟩
    have hdot' : ¬ c'.atMark .dot = true := by
      rcases Nat.lt_or_eq_of_le hle with hlt | heq
      · rwa [h.atMark_eq hlt]
      · rw [Cursor.atMark, h.kind_eq_nextKind (Nat.le_of_eq heq.symm), beq_iff_eq]
        exact hend heq.symm
    rw [Cursor.dottedNames, dif_neg hdot']

/-- Distances from places that go together to the same distance past other ones. -/
def StopsAt (S : Seam) (stop stop' : Nat) : Prop :=
  ∃ p p' k, S.placed p p' ∧ stop = p.offset + k ∧ stop' = p'.offset + k

/-- The same stretch of both texts. -/
structure SameSpan (S : Seam) (x x' : Span) : Prop where
  start : S.placed x.start x'.start
  stop : S.StopsAt x.stop x'.stop

theorem Matches.passedOffset (h : S.Matches c c') (hsome : c.previous.isSome = true) :
    S.StopsAt c.passedOffset c'.passedOffset := by
  obtain ⟨p, hp⟩ := Option.isSome_iff_exists.1 hsome
  obtain ⟨p', hp', hsame⟩ := exists_same_right h.previous hp
  refine ⟨p.start, p'.start, p.lexeme.length, hsame.start, ?_, ?_⟩
  · simp [Cursor.passedOffset, hp, Token.stop]
  · simp [Cursor.passedOffset, hp', Token.stop, hsame.lexeme]

end Seam

end ComponentRegistry
