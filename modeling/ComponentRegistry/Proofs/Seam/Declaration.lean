import ComponentRegistry.Proofs.Seam.Pattern
import ComponentRegistry.Syntax.Declaration

/-! # Declarations in front of a seam

A declaration whose names end in front of the seam is the same in both streams. Variables may go on
with a type and an initializer; where these end just at the seam, a line break has to end them in
the other stream as well, and a type must not be open there.
-/

namespace ComponentRegistry

namespace Cursor

/-- The text ends inside of the type of a variable, with a bracket or a list of type arguments
open. -/
inductive EndsInsideType : Cursor → Prop where
  /-- In the type of the variables that are read next. -/
  | here {c n : Cursor} {names : List String} (binds : c.bindingNames = .ok (names, n))
      (colon : n.atMark .colon = true) (ends : n.advance.skipType.ahead = [])
      (inside : n.advance.ahead.foldl Reach.typeDepthAfter 0 ≠ 0) : EndsInsideType c
  /-- In the type of later ones. -/
  | later {c n : Cursor} {names : List String} (binds : c.bindingNames = .ok (names, n))
      (comma : n.skipDeclaratorRest.atMark .comma = true)
      (others : EndsInsideType n.skipDeclaratorRest.advance) : EndsInsideType c

/-- How a declaration of variables is read. -/
theorem declared_of_variable {c : Cursor} {m : Modifiers} {kind : DeclarationKind}
    (hkind : variableKind? c.kind = some kind) (hlist : c.atEnumeration = false) :
    c.declared m = (do
      let (found, n) ← c.advance.declarators
      .ok (.declaration kind c.current (m.async <|> found.2) found.1 m.ambient, n)) := by
  have hplain : c.atWord .functionWord = false ∧ c.atWord .classWord = false := by
    simp only [atWord]
    revert hkind
    unfold variableKind?
    split <;> simp_all
  simp only [declared, hplain, hlist, Bool.false_eq_true, ↓reduceIte, hkind]

/-- The words that a declaration begins with decide how it is read. -/
theorem declared_of_readsDeclared {c n : Cursor} {m : Modifiers} {form : ExportForm}
    (h : ReadsDeclared m c form n) : c.declared m = .ok (form, n) := by
  cases h with
  | ofFunction word reads =>
    simp only [declared, word, ↓reduceIte, reads]
    rfl
  | ofClass word reads =>
    have hplain : c.atWord .functionWord = false := by simp [atWord, kind_of_atWord word]
    simp only [declared, hplain, Bool.false_eq_true, ↓reduceIte, word, reads]
    rfl
  | enumeration begins reads =>
    have hplain : c.atWord .functionWord = false ∧ c.atWord .classWord = false := by
      simp only [atEnumeration, atWord, Bool.or_eq_true, Bool.and_eq_true, beq_iff_eq] at begins ⊢
      rcases begins with hkind | ⟨hkind, -⟩ <;> simp [hkind]
    simp only [declared, hplain, begins, Bool.false_eq_true, ↓reduceIte, reads]
    rfl
  | bindings plain word reads =>
    rw [declared_of_variable word plain, reads]
    rfl
  | erased word reads =>
    have hplain : c.atWord .functionWord = false ∧ c.atWord .classWord = false ∧
        c.atEnumeration = false ∧ variableKind? c.kind = none := by
      simp only [atEnumeration, atWord]
      revert word
      unfold erasedKind?
      split <;> simp_all [variableKind?]
    simp only [declared, hplain, Bool.false_eq_true, ↓reduceIte, word, reads]
    rfl
  | ofNamespace begins reads =>
    have hplain : c.atWord .functionWord = false ∧ c.atWord .classWord = false ∧
        c.atEnumeration = false ∧ variableKind? c.kind = none ∧ erasedKind? c.kind = none := by
      simp only [atNamespace, Bool.and_eq_true, beq_iff_eq] at begins
      simp [atEnumeration, atWord, variableKind?, erasedKind?, begins.1]
    simp only [declared, hplain, Bool.false_eq_true, ↓reduceIte, begins, reads]
    rfl
  | importAlias word reads equals names dots =>
    have hplain : c.atWord .functionWord = false ∧ c.atWord .classWord = false ∧
        c.atEnumeration = false ∧ variableKind? c.kind = none ∧ erasedKind? c.kind = none ∧
        c.atNamespace = false := by
      simp [atEnumeration, atNamespace, atWord, variableKind?, erasedKind?, kind_of_atWord word]
    simp only [declared, hplain, Bool.false_eq_true, ↓reduceIte, word]
    exact bind_eq_ok.2 ⟨_, reads, bind_eq_ok.2 ⟨_, equals, bind_eq_ok.2 ⟨_, names,
      bind_eq_ok.2 ⟨_, dots, rfl⟩⟩⟩⟩

theorem variableKind?_eq_some {kind : TokenKind} {declared : DeclarationKind}
    (h : variableKind? kind = some declared) :
    kind ∈ ([.keyword .constWord, .keyword .letWord, .keyword .varWord] : List TokenKind) ∧
      (declared = .constBinding ∨ declared = .letBinding ∨ declared = .varBinding) := by
  unfold variableKind? at h
  split at h <;> cases h <;> simp

end Cursor

namespace Seam

variable {S : Seam} {c c' n : Cursor}

theorem Matches.peek_outside (h : S.Matches c c') {j : Nat} (k : Nat)
    (hj : c.remaining = S.old.length + j) :
    c.peek (j + k) = S.old[k]?.getD (Token.endOfInput c.finish) ∧
      c'.peek (j + k) = S.new[k]?.getD (Token.endOfInput c'.finish) := by
  induction j generalizing c c' with
  | zero =>
    obtain ⟨hold, hnew⟩ := h.outside (Nat.le_of_eq hj)
    simp [Cursor.peek, hold, hnew]
  | succ j ih =>
    have hadvance := Cursor.remaining_advance c
    have hfinish : ∀ c : Cursor, c.advance.finish = c.finish := fun c => by
      unfold Cursor.advance
      split <;> rfl
    rw [Nat.add_right_comm, Cursor.peek_succ, Cursor.peek_succ, ← hfinish c, ← hfinish c']
    exact ih (h.advance (by omega)) (by omega)

theorem kind_getD_old [S.AtStatement] (k : Nat) (hk : k ≤ 1) (p : Position) :
    (S.old[k]?.getD (Token.endOfInput p)).kind ≠ .mark .arrow := by
  have hbegins := AtStatement.begins (S := S)
  have harrow := AtStatement.arrow (S := S)
  cases hold : S.old with
  | nil => simp [Token.endOfInput]
  | cons t rest =>
    rw [hold] at hbegins harrow
    obtain rfl | rfl : k = 0 ∨ k = 1 := by omega
    · rcases hbegins t rfl with hk | hk <;> simp [hk]
    · cases rest with
      | nil => simp [Token.endOfInput]
      | cons u rest => simpa using harrow t u rest rfl

/-- Whether `async` begins an arrow function shows in front of the seam, or neither stream goes on
with one. -/
theorem Matches.asyncBeginsArrow_eq [S.AtStatement] (h : S.Matches c c')
    (hinside : S.old.length < c.remaining)
    (hend : c.remaining = S.old.length + 1 → c.atWord .asyncWord = true → S.Detached) :
    c'.asyncBeginsArrow = c.asyncBeginsArrow := by
  unfold Cursor.asyncBeginsArrow
  rw [h.atWord_eq hinside]
  cases hasync : c.atWord .asyncWord with
  | false => rfl
  | true =>
    simp only [Bool.true_and]
    rcases Nat.lt_trichotomy c.remaining (S.old.length + 2) with hlt | heq | hgt
    · have heq : c.remaining = S.old.length + 1 := by omega
      have hdetached := hend heq hasync
      obtain ⟨hold, hnew⟩ := h.peek_outside 1 heq
      have hadvance := Cursor.remaining_advance c
      have hnext := h.advance hinside
      have hparen := hnext.kind_ne_of_outside (by omega)
        (by decide : TokenKind.mark .openParen ∈ continuations)
      have hless := hnext.kind_ne_of_outside (by omega)
        (by decide : TokenKind.mark .less ∈ continuations)
      have harrow := kind_getD_old (S := S) 1 (Nat.le_refl _) c.finish
      have hparen' := hdetached.kind (.mark .openParen) (by decide)
      have hless' := hdetached.kind (.mark .less) (by decide)
      have harrow' : (S.new[1]?.getD (Token.endOfInput c'.finish)).kind ≠ .mark .arrow := by
        have harrow := hdetached.arrow
        rcases hnew : S.new with _ | ⟨t, _ | ⟨u, rest⟩⟩
        · simp [Token.endOfInput]
        · simp [Token.endOfInput]
        · simpa using harrow t u rest hnew
      rw [h.followingKind_eq_nextKind heq, hold, hnew, Cursor.followingKind_eq]
      simp [beq_false_of_ne hparen, beq_false_of_ne hless, beq_false_of_ne hparen',
        beq_false_of_ne hless', beq_false_of_ne harrow, beq_false_of_ne harrow']
    · obtain ⟨hold, hnew⟩ := h.peek_outside 0 heq
      have harrow := kind_getD_old (S := S) 0 (Nat.zero_le _) c.finish
      have harrow' : (S.new[0]?.getD (Token.endOfInput c'.finish)).kind ≠ .mark .arrow := by
        have harrow := AtStatement.newArrow (S := S)
        cases hnew : S.new with
        | nil => simp [Token.endOfInput]
        | cons t rest => simpa using harrow t (by simp [hnew])
      rw [h.followingKind_eq (by omega), hold, hnew]
      simp [beq_false_of_ne harrow, beq_false_of_ne harrow']
    · rw [h.followingKind_eq (by omega), (h.peek (by omega : S.old.length + 2 < c.remaining)).kind]

/-- An expression after an equals sign does not end at once because of a line break. -/
theorem remaining_lt_of_skipExpression_of_not {p : Token} (hp : c.previous = some p)
    (hkind : p.kind.endsExpression = false) (hc : c.kind.isName = true) :
    c.skipExpression.remaining < c.remaining := by
  obtain ⟨rest, hrest⟩ := Cursor.exists_cons_of_kind (c := c)
    (by intro hk; simp [hk, TokenKind.isName] at hc)
  have hname : c.current.kind.isName = true := hc
  have hstops : ∀ angles, Reach.stopsExpression angles (some p) c.current = false := by
    intro angles
    cases hk : c.current.kind <;>
      simp_all [Reach.stopsExpression, Reach.endsStatement, TokenKind.isName, TokenKind.isCloser]
  rw [Cursor.skipExpression, hrest, hp, Reach.expressionFrom]
  simp only [hstops, Bool.false_eq_true, and_false, ↓reduceIte, Cursor.remaining, hrest,
    List.length_cons]
  exact Nat.lt_succ_of_le (Reach.remaining_expressionFrom_le ..)

/-- A type that ends in front of the seam. -/
theorem Matches.skipAnnotation_of_lt (h : S.Matches c c')
    (hlt : S.old.length < c.skipAnnotation.remaining) :
    S.Matches c.skipAnnotation c'.skipAnnotation := by
  have hinside := Nat.lt_of_lt_of_le hlt (Cursor.remaining_skipAnnotation_le c)
  unfold Cursor.skipAnnotation at hlt ⊢
  rw [h.atMark_eq hinside]
  split
  · next hcolon =>
    rw [if_pos hcolon] at hlt
    exact (h.advance hinside).skipType_of_lt hlt
  · exact h

/-- The type after a colon, if there is one. -/
theorem Matches.skipAnnotation [S.AtStatement] (h : S.Matches c c')
    (hle : S.old.length ≤ c.skipAnnotation.remaining)
    (hend : c.skipAnnotation.remaining = S.old.length → S.Detached)
    (hcarries : c.skipAnnotation.remaining = S.old.length → S.Carries c.skipAnnotation.previous)
    (hclosed : S.Extends → c.atMark .colon = true → c.advance.skipType.ahead = [] →
      c.advance.ahead.foldl Reach.typeDepthAfter 0 = 0) :
    S.Matches c.skipAnnotation c'.skipAnnotation := by
  have hle₁ := Cursor.remaining_skipAnnotation_le c
  have hcolon : c'.atMark .colon = c.atMark .colon :=
    h.atMark_eq_of_detached (by decide) fun heq => hend (by omega)
  unfold Cursor.skipAnnotation at hle hcarries ⊢
  rw [hcolon]
  split
  · next hc =>
    rw [if_pos hc] at hle hcarries
    have hlt := Cursor.remaining_lt_of_atMark hc
    have hle₂ := Cursor.remaining_skipType_le c.advance
    exact (h.advance (by omega)).skipType hle hcarries (not_semicolon_of_atMark hc (by simp))
      fun hextends => hclosed hextends hc
  · exact h

/-- At the seam an initializer has begun, but nothing of it has been read: then the other stream
ends as well. -/
theorem new_eq_nil_of_initializer [S.AtStatement] {p : Token} (h : S.Matches c c')
    (hp : c.previous = some p)
    (hkind : p.kind = .mark .equals) (hat : c.remaining = S.old.length)
    (hle : S.old.length ≤ c.skipExpression.remaining)
    (hcarries : c.skipExpression.remaining = S.old.length → S.Carries c.skipExpression.previous) :
    S.new = [] := by
  have hle₁ := Cursor.remaining_skipExpression_le c
  obtain ⟨hold, -⟩ := h.outside (Nat.le_of_eq hat)
  cases hfirst : S.old with
  | cons t rest =>
    have hname : c.kind.isName = true := by
      rw [Cursor.kind, Cursor.current, Cursor.peek, hold, hfirst]
      rcases AtStatement.begins (S := S) t (by simp [hfirst]) with hk | hk <;>
        simp [hk, TokenKind.isName]
    have := remaining_lt_of_skipExpression_of_not hp (by rw [hkind]; rfl) hname
    omega
  | nil =>
    have hsame : c.skipExpression.previous = some p := by
      rw [Cursor.skipExpression, hold, hfirst, Reach.expressionFrom, hp]
    have hcarries := hcarries (by omega)
    rw [hsame] at hcarries
    obtain ⟨p', -, hsame'⟩ := exists_same_right h.previous hp
    cases hnew : S.new with
    | nil => rfl
    | cons t rest =>
      have hends := hcarries (by simp [hfirst]) (by simp [hkind]) (some p') (.some hsame') t
        (by simp [hnew])
      simp [Reach.endsStatement, hsame'.kind, hkind, TokenKind.endsExpression, TokenKind.isName,
        TokenKind.isCloser] at hends

theorem Matches.skipInitializer [S.AtStatement] (h : S.Matches c c')
    (hle : S.old.length ≤ (PatternState.skipInitializer c).remaining)
    (hend : (PatternState.skipInitializer c).remaining = S.old.length → S.Detached)
    (hcarries : (PatternState.skipInitializer c).remaining = S.old.length →
      S.Carries (PatternState.skipInitializer c).previous)
    (hbalanced : S.Balanced c) :
    S.Matches (PatternState.skipInitializer c) (PatternState.skipInitializer c') ∧
      Option.Rel S.Same c.asyncInitializer c'.asyncInitializer := by
  have hle₁ := PatternState.remaining_skipInitializer_le c
  have hequals : c'.atMark .equals = c.atMark .equals :=
    h.atMark_eq_of_detached (by decide) fun heq => hend (by omega)
  unfold PatternState.skipInitializer at hle hend hcarries ⊢
  unfold Cursor.asyncInitializer
  rw [hequals]
  by_cases heq : c.atMark .equals = true
  · rw [if_pos heq] at hle hend hcarries
    rw [if_pos heq, if_pos heq]
    have hlt := Cursor.remaining_lt_of_atMark heq
    have hle₂ := Cursor.remaining_skipExpression_le c.advance
    have hkind : c.current.kind = .mark .equals := Cursor.kind_of_atMark heq
    have hprevious := previous_advance (c := c) (by simp [Cursor.kind, hkind])
    have hnext := h.advance (by omega)
    have hexpression := hnext.skipExpression hle hcarries (not_semicolon_of_atMark heq (by simp))
      (hbalanced.reaches (Cursor.reaches_advance c))
    refine ⟨hexpression, ?_⟩
    rw [heq, Bool.true_and, Bool.true_and]
    rcases Nat.lt_or_eq_of_le hnext.length_le with hinside | hat
    · have hasync : c'.advance.asyncBeginsArrow = c.advance.asyncBeginsArrow := by
        refine hnext.asyncBeginsArrow_eq hinside fun hlast hword => hend ?_
        have hname : c.advance.kind.isName = true := by
          rw [Cursor.kind_of_atWord hword]
          rfl
        have := remaining_lt_of_skipExpression_of_not hprevious (by rw [hkind]; rfl) hname
        omega
      rw [hasync]
      split
      · exact .some (hnext.same hinside)
      · exact .none
    · have hnew := new_eq_nil_of_initializer hnext hprevious hkind hat.symm hle hcarries
      have hasync : c.advance.asyncBeginsArrow = false := by
        rw [Cursor.asyncBeginsArrow, Cursor.atWord]
        rcases hnext.kind_outside (Nat.le_of_eq hat.symm) with hk | hk | hk <;> simp [hk]
      have hasync' : c'.advance.asyncBeginsArrow = false := by
        rw [Cursor.asyncBeginsArrow, Cursor.atWord,
          hnext.kind_eq_nextKind (Nat.le_of_eq hat.symm), nextKind, hnew]
        rfl
      rw [hasync, hasync']
      exact .none
  · rw [if_neg heq, if_neg heq]
    simp only [heq, Bool.false_and]
    exact ⟨h, .none⟩

theorem Matches.skipDeclaratorRest [S.AtStatement] (h : S.Matches c c')
    (hle : S.old.length ≤ c.skipDeclaratorRest.remaining)
    (hend : c.skipDeclaratorRest.remaining = S.old.length → S.Detached)
    (hcarries : c.skipDeclaratorRest.remaining = S.old.length →
      S.Carries c.skipDeclaratorRest.previous)
    (hbalanced : S.Balanced c)
    (hclosed : S.Extends → c.atMark .colon = true → c.advance.skipType.ahead = [] →
      c.advance.ahead.foldl Reach.typeDepthAfter 0 = 0) :
    S.Matches c.skipDeclaratorRest c'.skipDeclaratorRest ∧
      Option.Rel S.Same c.skipAnnotation.asyncInitializer c'.skipAnnotation.asyncInitializer := by
  have hle₁ := PatternState.remaining_skipInitializer_le c.skipAnnotation
  -- At the seam there is no initializer, so that the type is the last thing that was read.
  have hlast : c.skipAnnotation.remaining = S.old.length →
      c.skipDeclaratorRest = c.skipAnnotation := by
    intro heq
    simp only [Cursor.skipDeclaratorRest, PatternState.skipInitializer] at hle ⊢
    split
    · next hequals =>
      rw [if_pos hequals] at hle
      have := Cursor.remaining_lt_of_atMark hequals
      have := Cursor.remaining_skipExpression_le c.skipAnnotation.advance
      omega
    · rfl
  have hannotation : S.Matches c.skipAnnotation c'.skipAnnotation := by
    refine h.skipAnnotation (Nat.le_trans hle hle₁) (fun heq => ?_) (fun heq => ?_) hclosed
    · exact hend (by rw [hlast heq, heq])
    · exact hlast heq ▸ hcarries (by rw [hlast heq, heq])
  exact hannotation.skipInitializer hle hend hcarries
    (hbalanced.reaches c.reaches_skipAnnotation)

theorem Matches.declarators [S.AtStatement] {found : List String × Option Token}
    (h : S.Matches c c') (hok : c.declarators = .ok (found, n))
    (hle : S.old.length ≤ n.remaining) (hend : n.remaining = S.old.length → S.Detached)
    (hcarries : n.remaining = S.old.length → S.Carries n.previous) (hbalanced : S.Balanced c)
    (hclosed : S.Extends → ¬ c.EndsInsideType) :
    ∃ async' n', c'.declarators = .ok ((found.1, async'), n') ∧
      Option.Rel S.Same found.2 async' ∧ S.Matches n n' := by
  fun_induction Cursor.declarators c generalizing found c' with
  | case1 => cases hok
  | case2 c names c₁ hnames hcomma ih =>
    obtain ⟨⟨⟨more, async⟩, n₁⟩, hmore, heq⟩ := map_eq_ok.1 hok
    cases heq
    have hlt := Cursor.remaining_lt_of_declarators hmore
    have hlt₁ := Cursor.remaining_lt_of_atMark hcomma
    have hle₁ := Cursor.remaining_skipDeclaratorRest_le c₁
    obtain ⟨c₁', hnames', h₁⟩ := h.bindingNames hnames (by omega)
    have hreach := Cursor.reaches_of_bindingNames hnames
    obtain ⟨hrest, hasync⟩ := h₁.skipDeclaratorRest (by omega) (fun heq => by omega)
      (fun heq => by omega) (hbalanced.reaches hreach) fun hextends hcolon hnothing => by
        refine Decidable.byContradiction fun hinside => ?_
        exact hclosed hextends (.here hnames hcolon hnothing hinside)
    obtain ⟨async', n', hmore', -, hn⟩ := ih (hrest.advance (by omega)) hmore
      (hbalanced.reaches (hreach.trans ((Cursor.reaches_skipDeclaratorRest c₁).trans
        (Cursor.reaches_advance _))))
      (fun hextends hinside => hclosed hextends (.later hnames hcomma hinside))
    refine ⟨_, n', ?_, hasync, hn⟩
    rw [Cursor.declarators]
    split
    · next hfault => simp [hnames'] at hfault
    · next hnames'' =>
      rw [hnames', Except.ok.injEq, Prod.mk.injEq] at hnames''
      obtain ⟨rfl, rfl⟩ := hnames''
      rw [hrest.atMark_eq (by omega), if_pos hcomma, hmore']
      rfl
  | case3 c names c₁ hnames hcomma =>
    cases hok
    have hle₁ := Cursor.remaining_skipDeclaratorRest_le c₁
    obtain ⟨c₁', hnames', h₁⟩ := h.bindingNames hnames (by omega)
    have hreach := Cursor.reaches_of_bindingNames hnames
    obtain ⟨hrest, hasync⟩ := h₁.skipDeclaratorRest hle hend hcarries (hbalanced.reaches hreach)
      fun hextends hcolon hnothing => by
        refine Decidable.byContradiction fun hinside => ?_
        exact hclosed hextends (.here hnames hcolon hnothing hinside)
    refine ⟨_, _, ?_, hasync, hrest⟩
    rw [Cursor.declarators]
    split
    · next hfault => simp [hnames'] at hfault
    · next hnames'' =>
      rw [hnames', Except.ok.injEq, Prod.mk.injEq] at hnames''
      obtain ⟨rfl, rfl⟩ := hnames''
      rw [hrest.atMark_eq_of_detached (by decide) hend, if_neg hcomma]

theorem Matches.asyncModifiesFunction_eq (h : S.Matches c c')
    (hlt : S.old.length + 1 < c.remaining) :
    c'.asyncModifiesFunction = c.asyncModifiesFunction := by
  rw [Cursor.asyncModifiesFunction, Cursor.asyncModifiesFunction, h.atWord_eq (by omega),
    h.followingKind_eq hlt]

theorem Matches.modifiersFrom (found found' : Cursor.Modifiers) (h : S.Matches c c')
    (hambient : found'.ambient = found.ambient) (hasync : Option.Rel S.Same found.async found'.async)
    (hlt : S.old.length + 1 < (Cursor.modifiersFrom found c).2.remaining) :
    (Cursor.modifiersFrom found' c').1.ambient = (Cursor.modifiersFrom found c).1.ambient ∧
      Option.Rel S.Same (Cursor.modifiersFrom found c).1.async
        (Cursor.modifiersFrom found' c').1.async ∧
      S.Matches (Cursor.modifiersFrom found c).2 (Cursor.modifiersFrom found' c').2 := by
  fun_induction Cursor.modifiersFrom found c generalizing found' c' with
  | case1 found c hambient' ih =>
    have hle := Cursor.remaining_modifiersFrom_le { found with ambient := true } c.advance
    have hle₁ := Cursor.remaining_advance_le c
    have hambient'' : c'.atWord .declareWord = true := by rwa [h.atWord_eq (by omega)]
    rw [Cursor.modifiersFrom, dif_pos hambient'']
    exact ih _ (h.advance (by omega)) rfl hasync hlt
  | case2 found c hambient' habstract ih =>
    have hle := Cursor.remaining_modifiersFrom_le found c.advance
    have hle₁ := Cursor.remaining_advance_le c
    have hambient'' : ¬ c'.atWord .declareWord = true := by rwa [h.atWord_eq (by omega)]
    have habstract' : c'.atWord .abstractWord = true := by rwa [h.atWord_eq (by omega)]
    rw [Cursor.modifiersFrom, dif_neg hambient'', dif_pos habstract']
    exact ih _ (h.advance (by omega)) hambient hasync hlt
  | case3 found c hambient' habstract hmodifies ih =>
    have hle := Cursor.remaining_modifiersFrom_le { found with async := some c.current } c.advance
    have hle₁ := Cursor.remaining_advance_le c
    have hambient'' : ¬ c'.atWord .declareWord = true := by rwa [h.atWord_eq (by omega)]
    have habstract' : ¬ c'.atWord .abstractWord = true := by rwa [h.atWord_eq (by omega)]
    have hmodifies' : c'.asyncModifiesFunction = true := by
      rwa [h.asyncModifiesFunction_eq (by omega)]
    rw [Cursor.modifiersFrom, dif_neg hambient'', dif_neg habstract', dif_pos hmodifies']
    exact ih _ (h.advance (by omega)) hambient (.some (h.same (by omega))) hlt
  | case4 found c hambient' habstract hmodifies =>
    simp only at hlt
    have hambient'' : ¬ c'.atWord .declareWord = true := by rwa [h.atWord_eq (by omega)]
    have habstract' : ¬ c'.atWord .abstractWord = true := by rwa [h.atWord_eq (by omega)]
    have hmodifies' : ¬ c'.asyncModifiesFunction = true := by
      rwa [h.asyncModifiesFunction_eq (by omega)]
    rw [Cursor.modifiersFrom, dif_neg hambient'', dif_neg habstract', dif_neg hmodifies']
    exact ⟨hambient, hasync, h⟩

/-- The same shape of an export, read from both streams. -/
inductive SameForm (S : Seam) : ExportForm → ExportForm → Prop where
  | declaration {d : DeclarationKind} {k k' : Token} {a a' : Option Token} {bound : List String}
      {ambient : Bool} (keyword : S.Same k k') (async : Option.Rel S.Same a a') :
      SameForm S (.declaration d k a bound ambient) (.declaration d k' a' bound ambient)
  | defaultInterface : SameForm S .defaultInterface .defaultInterface
  | globalName : SameForm S .globalName .globalName
  | defaultDeclaration {d : DeclarationKind} {t t' k k' : Token} {a a' : Option Token}
      {name : Option String} (default : S.Same t t') (async : Option.Rel S.Same a a')
      (keyword : S.Same k k') :
      SameForm S (.defaultDeclaration d t a k name) (.defaultDeclaration d t' a' k' name)
  | defaultName {t t' : Token} {name : String} (default : S.Same t t') :
      SameForm S (.defaultName t name) (.defaultName t' name)
  | defaultExpression {t t' a a' : Option Token} (default : Option.Rel S.Same t t')
      (async : Option.Rel S.Same a a') :
      SameForm S (.defaultExpression t a) (.defaultExpression t' a')
  | list {specifiers : List Specifier} {source : Option ModuleSource} {typeOnly : Bool} :
      SameForm S (.list specifiers source typeOnly) (.list specifiers source typeOnly)
  | everything {name : Option String} {source : ModuleSource} {typeOnly : Bool} :
      SameForm S (.everything name source typeOnly) (.everything name source typeOnly)

theorem orElse_rel {a a' b b' : Option Token} (ha : Option.Rel S.Same a a')
    (hb : Option.Rel S.Same b b') : Option.Rel S.Same (a <|> b) (a' <|> b') := by
  cases ha with
  | none => exact hb
  | some hsame => exact .some hsame

theorem Matches.atEnumeration_eq (h : S.Matches c c') (hlt : S.old.length + 1 < c.remaining) :
    c'.atEnumeration = c.atEnumeration := by
  rw [Cursor.atEnumeration, Cursor.atEnumeration, h.atWord_eq (by omega), h.atWord_eq (by omega),
    h.followingKind_eq hlt]

section

variable {m : Cursor.Modifiers} {name : Token}

theorem Matches.readsFunction (h : S.Matches c c') (word : c.atWord .functionWord = true)
    (reads : (c.advance.advanceIf (c.advance.atMark .star)).expectName = .ok (name, n))
    (hle : S.old.length ≤ n.remaining) : ∃ n',
      Cursor.ReadsDeclared m c' (.declaration .function c'.current m.async [name.value] m.ambient)
        n' ∧ S.Matches n n' := by
  have hadvance := Cursor.remaining_advance c
  have hlt := Cursor.remaining_lt_of_expectName reads
  have hle₁ := Cursor.remaining_advanceIf_le (c.advance.atMark .star) c.advance
  have hnext := h.advance (by omega)
  obtain ⟨name', n', reads', hsame, hn⟩ :=
    (hnext.advanceIf (c.advance.atMark .star) fun _ => by omega).expectName reads hle
  rw [← hnext.atMark_eq (by omega)] at reads'
  exact ⟨n', hsame.value ▸ .ofFunction (by rwa [h.atWord_eq (by omega)]) reads', hn⟩

theorem Matches.readsEnumeration (h : S.Matches c c') (begins : c.atEnumeration = true)
    (reads : (c.advanceIf (c.atWord .constWord)).advance.expectName = .ok (name, n))
    (hle : S.old.length ≤ n.remaining) : ∃ n',
      Cursor.ReadsDeclared m c'
        (.declaration .enumeration c'.current m.async [name.value] m.ambient) n' ∧
      S.Matches n n' := by
  have hlt := Cursor.remaining_lt_of_expectName reads
  have hle₁ := Cursor.remaining_advance (c.advanceIf (c.atWord .constWord))
  have hle₂ := Cursor.remaining_advanceIf_le (c.atWord .constWord) c
  have hword := h.advanceIf (c.atWord .constWord) fun _ => by omega
  obtain ⟨name', n', reads', hsame, hn⟩ := (hword.advance (by omega)).expectName reads hle
  rw [← h.atWord_eq (by omega)] at reads'
  have begins' := (h.atEnumeration_eq (by omega)).trans begins
  exact ⟨n', hsame.value ▸ .enumeration begins' reads', hn⟩

theorem Matches.readsNamespace (h : S.Matches c c') (begins : c.atNamespace = true)
    (reads : c.advance.expectModuleName = .ok (name, n)) (hle : S.old.length ≤ n.remaining) :
    ∃ n', Cursor.ReadsDeclared m c'
        (.declaration .namespaceBlock c'.current m.async [name.value] m.ambient) n' ∧
      S.Matches n n' := by
  have hadvance := Cursor.remaining_advance c
  have hlt := Cursor.remaining_lt_of_expectModuleName reads
  obtain ⟨name', n', reads', hsame, hn⟩ := (h.advance (by omega)).expectModuleName reads hle
  have begins' : c'.atNamespace = true := by
    rwa [Cursor.atNamespace, h.kind_eq (by omega), h.value_eq (by omega)]
  exact ⟨n', hsame.value ▸ .ofNamespace begins' reads', hn⟩

theorem Matches.readsImportAlias {sign target : Token} {c₁ c₂ c₃ : Cursor} (h : S.Matches c c')
    (word : c.atWord .importWord = true) (reads : c.advance.expectName = .ok (name, c₁))
    (equals : c₁.expect (.mark .equals) = .ok (sign, c₂))
    (names : c₂.expectName = .ok (target, c₃)) (dots : c₃.dottedNames = .ok n)
    (hle : S.old.length ≤ n.remaining) (hend : n.remaining = S.old.length → S.Detached) :
    ∃ n', Cursor.ReadsDeclared m c'
        (.declaration .importAlias c'.current m.async [name.value] m.ambient) n' ∧
      S.Matches n n' := by
  have hadvance := Cursor.remaining_advance c
  have hlt₁ := Cursor.remaining_lt_of_expectName reads
  have hlt₂ := Cursor.remaining_lt_of_expect (by simp) equals
  have hlt₃ := Cursor.remaining_lt_of_expectName names
  have hle₄ := Cursor.remaining_le_of_dottedNames dots
  obtain ⟨name', c₁', reads', hsame, h₁⟩ := (h.advance (by omega)).expectName reads (by omega)
  obtain ⟨sign', c₂', equals', -, h₂⟩ := h₁.expect (by simp) equals (by omega)
  obtain ⟨target', c₃', names', -, h₃⟩ := h₂.expectName names (by omega)
  obtain ⟨n', dots', hn⟩ := h₃.dottedNames dots hle fun heq => (hend heq).kind _ (by decide)
  exact ⟨n', hsame.value ▸
    .importAlias (by rwa [h.atWord_eq (by omega)]) reads' equals' names' dots', hn⟩

end

theorem Matches.declared [S.AtStatement] {m m' : Cursor.Modifiers} {form : ExportForm}
    (h : S.Matches c c') (hambient : m'.ambient = m.ambient)
    (hasync : Option.Rel S.Same m.async m'.async)
    (hok : c.declared m = .ok (form, n)) (hle : S.old.length ≤ n.remaining)
    (hend : n.remaining = S.old.length → S.Detached)
    (hcarries : n.remaining = S.old.length → S.Carries n.previous) (hbalanced : S.Balanced c)
    (hclosed : S.Extends → (Cursor.variableKind? c.kind).isSome = true →
      c.atEnumeration = false → ¬ c.advance.EndsInsideType) :
    ∃ form' n', c'.declared m' = .ok (form', n') ∧ S.SameForm form form' ∧ S.Matches n n' := by
  have hlt := Cursor.remaining_of_declared hok
  have hadvance := Cursor.remaining_advance c
  have hnext := h.advance (by omega)
  have hkeyword := h.same (by omega)
  suffices ∃ form' n', Cursor.ReadsDeclared m' c' form' n' ∧ S.SameForm form form' ∧
      S.Matches n n' by
    obtain ⟨form', n', hreads, hform, hn⟩ := this
    exact ⟨form', n', Cursor.declared_of_readsDeclared hreads, hform, hn⟩
  cases Cursor.readsDeclared_of_declared hok with
  | ofFunction word reads =>
    obtain ⟨n', hreads, hn⟩ := h.readsFunction (m := m') word reads hle
    exact ⟨_, n', hreads, hambient ▸ .declaration hkeyword hasync, hn⟩
  | ofClass word reads =>
    obtain ⟨name', n', reads', hsame, hn⟩ := hnext.expectName reads hle
    have word' : c'.atWord .classWord = true := by rwa [h.atWord_eq (by omega)]
    exact ⟨_, n', .ofClass word' reads', hambient ▸ hsame.value ▸ .declaration hkeyword hasync, hn⟩
  | enumeration begins reads =>
    obtain ⟨n', hreads, hn⟩ := h.readsEnumeration (m := m') begins reads hle
    exact ⟨_, n', hreads, hambient ▸ .declaration hkeyword hasync, hn⟩
  | bindings plain word reads =>
    obtain ⟨async', n', reads', hasync', hn⟩ := hnext.declarators reads hle hend hcarries
      (hbalanced.reaches (Cursor.reaches_advance c)) fun hextends =>
        hclosed hextends (by simp [word]) plain
    have plain' := (h.atEnumeration_eq (by omega)).trans plain
    have word' := (congrArg Cursor.variableKind? (h.kind_eq (by omega))).trans word
    exact ⟨_, n', .bindings plain' word' reads',
      hambient ▸ .declaration hkeyword (orElse_rel hasync hasync'), hn⟩
  | erased word reads =>
    obtain ⟨name', n', reads', -, hn⟩ := hnext.expectName reads hle
    have word' := (congrArg Cursor.erasedKind? (h.kind_eq (by omega))).trans word
    exact ⟨_, n', .erased word' reads', hambient ▸ .declaration hkeyword hasync, hn⟩
  | ofNamespace begins reads =>
    obtain ⟨n', hreads, hn⟩ := h.readsNamespace (m := m') begins reads hle
    exact ⟨_, n', hreads, hambient ▸ .declaration hkeyword hasync, hn⟩
  | importAlias word reads equals names dots =>
    obtain ⟨n', hreads, hn⟩ := h.readsImportAlias (m := m') word reads equals names dots hle hend
    exact ⟨_, n', hreads, hambient ▸ .declaration hkeyword hasync, hn⟩

end Seam

end ComponentRegistry
