import ComponentRegistry.Proofs.Seam.Declaration
import ComponentRegistry.Proofs.Seam.Import
import ComponentRegistry.Syntax.Export

/-! # Exports in front of a seam

An export that ends in front of a seam, or just at it, is read from both streams alike. More can go
wrong than with imports: the name after `export default` may still come, an expression may go on,
and a list of variables may end inside of a type.
-/

namespace ComponentRegistry

namespace Seam

variable {S : Seam} {c c' n : Cursor}

/-- What an export that has been read up to a place asks of a seam there, before its semicolon. -/
structure Settled (S : Seam) (form : ExportForm) (n : Cursor) : Prop where
  /-- Nothing goes on with it. -/
  detached : n.remaining = S.old.length → S.Detached
  /-- Nor with the next token, unless that ends it. -/
  near : n.remaining = S.old.length + 1 → n.atMark .semicolon = false → S.Detached
  /-- A line break ends it in both streams. -/
  carries : n.remaining = S.old.length → S.Carries n.previous
  /-- A name before the seam is on a line of its own. -/
  broken : n.remaining = S.old.length + 1 → n.atName = true →
    ∀ t ∈ S.old.head?, n.current.line < t.line
  /-- A default export waits for no name. -/
  complete : form.isDefault = true → n.remaining = S.old.length → S.new ≠ [] →
    n.previous ≠ form.defaultToken ∧ n.previous ≠ form.declarationToken ∧
      ∀ p ∈ n.previous, p.kind ≠ .mark .star

section Module

variable {typeOnly : Bool} {form : ExportForm}

theorem Matches.exportEverything (h : S.Matches c c')
    (hok : c.exportEverything typeOnly = .ok (form, n)) (hle : S.old.length ≤ n.remaining) :
    ∃ form' n', c'.exportEverything typeOnly = .ok (form', n') ∧ S.SameForm form form' ∧
      S.Matches n n' := by
  obtain ⟨⟨star, c₁⟩, hstar, hok⟩ := bind_eq_ok.1 hok
  simp only at hok
  split at hok
  · next has =>
    obtain ⟨⟨name, c₂⟩, hname, hok⟩ := bind_eq_ok.1 hok
    obtain ⟨⟨word, c₃⟩, hword, hok⟩ := bind_eq_ok.1 hok
    obtain ⟨⟨source, c₄⟩, hsource, hok⟩ := bind_eq_ok.1 hok
    have hlt₁ := Cursor.remaining_advance c₁
    have hlt₂ := Cursor.remaining_lt_of_expectModuleName hname
    have hlt₃ := Cursor.remaining_lt_of_expect (by simp) hword
    have hlt₄ := Cursor.remaining_lt_of_expect (by simp) hsource
    cases hok
    simp only at *
    obtain ⟨star', c₁', hstar', -, h₁⟩ := h.expect (by simp) hstar (by omega)
    obtain ⟨name', c₂', hname', hsame, h₂⟩ :=
      (h₁.advance (by omega)).expectModuleName hname (by omega)
    obtain ⟨word', c₃', hword', -, h₃⟩ := h₂.expect (by simp) hword (by omega)
    obtain ⟨source', n', hsource', hsame', hn⟩ := h₃.expect (by simp) hsource hle
    refine ⟨_, n', bind_eq_ok.2 ⟨_, hstar', ?_⟩, .everything, hn⟩
    simp only [h₁.atWord_eq (by omega), if_pos has]
    refine bind_eq_ok.2 ⟨_, hname', bind_eq_ok.2 ⟨_, hword', bind_eq_ok.2 ⟨_, hsource', ?_⟩⟩⟩
    simp only [hsame.value, hsame'.moduleSource]
  · next has =>
    obtain ⟨⟨word, c₂⟩, hword, hok⟩ := bind_eq_ok.1 hok
    obtain ⟨⟨source, c₃⟩, hsource, hok⟩ := bind_eq_ok.1 hok
    have hlt₂ := Cursor.remaining_lt_of_expect (by simp) hword
    have hlt₃ := Cursor.remaining_lt_of_expect (by simp) hsource
    cases hok
    simp only at *
    obtain ⟨star', c₁', hstar', -, h₁⟩ := h.expect (by simp) hstar (by omega)
    obtain ⟨word', c₂', hword', -, h₂⟩ := h₁.expect (by simp) hword (by omega)
    obtain ⟨source', n', hsource', hsame, hn⟩ := h₂.expect (by simp) hsource hle
    refine ⟨_, n', bind_eq_ok.2 ⟨_, hstar', ?_⟩, .everything, hn⟩
    simp only [h₁.atWord_eq (by omega), if_neg has]
    refine bind_eq_ok.2 ⟨_, hword', bind_eq_ok.2 ⟨_, hsource', ?_⟩⟩
    simp only [hsame.moduleSource]

theorem Matches.exportList (h : S.Matches c c') (hok : c.exportList typeOnly = .ok (form, n))
    (hle : S.old.length ≤ n.remaining) (hend : n.remaining = S.old.length → S.Detached) :
    ∃ form' n', c'.exportList typeOnly = .ok (form', n') ∧ S.SameForm form form' ∧
      S.Matches n n' := by
  obtain ⟨⟨specifiers, c₁⟩, hspecifiers, hok⟩ := bind_eq_ok.1 hok
  simp only at hok
  split at hok
  · next hfrom =>
    obtain ⟨⟨source, c₂⟩, hsource, hok⟩ := bind_eq_ok.1 hok
    have hlt₁ := Cursor.remaining_advance c₁
    have hlt₂ := Cursor.remaining_lt_of_expect (by simp) hsource
    cases hok
    simp only at *
    obtain ⟨c₁', hspecifiers', h₁⟩ := h.clause hspecifiers (by omega)
    obtain ⟨source', n', hsource', hsame, hn⟩ :=
      (h₁.advance (by omega)).expect (by simp) hsource hle
    refine ⟨_, n', bind_eq_ok.2 ⟨_, hspecifiers', ?_⟩, .list, hn⟩
    simp only [h₁.atWord_eq (by omega), if_pos hfrom]
    refine bind_eq_ok.2 ⟨_, hsource', ?_⟩
    simp only [hsame.moduleSource]
  · next hfrom =>
    cases hok
    obtain ⟨c₁', hspecifiers', h₁⟩ := h.clause hspecifiers hle
    refine ⟨_, c₁', bind_eq_ok.2 ⟨_, hspecifiers', ?_⟩, .list, h₁⟩
    have hfrom' : ¬ c₁'.atWord .fromWord = true := by
      rcases Nat.lt_or_eq_of_le hle with hlt | heq
      · rwa [h₁.atWord_eq hlt]
      · rw [Cursor.atWord, h₁.kind_eq_nextKind (Nat.le_of_eq heq.symm), beq_iff_eq]
        exact (hend heq.symm).kind _ (by decide)
    simp only [if_neg hfrom']

end Module

section Default

variable {default default' : Token} {form : ExportForm}

/-- A name that may be missing is there in both streams or in none. -/
theorem Matches.optionalName {condition condition' : Bool} (h : S.Matches c c')
    (hname : condition = true → c.atName = true) (hname' : condition' = true → c'.atName = true)
    (hinside : S.old.length < c.remaining → condition' = condition)
    (hle : S.old.length ≤ (c.advanceIf condition).remaining)
    (hempty : c.remaining = S.old.length → condition = false → S.new = []) :
    condition' = condition ∧ (condition = true → S.Same c.current c'.current) ∧
      S.Matches (c.advanceIf condition) (c'.advanceIf condition') := by
  have hlt : condition = true → S.old.length < c.remaining := by
    rintro rfl
    have := Cursor.remaining_advance_lt (Cursor.kind_ne_of_atName (hname rfl))
    exact Nat.lt_of_le_of_lt hle this
  have heq : condition' = condition := by
    rcases Nat.lt_or_eq_of_le h.length_le with hinner | hat
    · exact hinside hinner
    · cases hcondition : condition with
      | true => exact absurd (hlt hcondition) (by omega)
      | false =>
        have hnew := hempty hat.symm hcondition
        cases hcondition' : condition' with
        | false => rfl
        | true =>
          have hname' := hname' hcondition'
          rw [Cursor.atName, h.kind_eq_nextKind (Nat.le_of_eq hat.symm), nextKind, hnew] at hname'
          cases hname'
  exact ⟨heq, fun hcondition => h.same (hlt hcondition), heq ▸ h.advanceIf condition hlt⟩

theorem Matches.defaultFunction [S.AtStatement] {async async' : Option Token}
    (h : S.Matches c c')
    (hdefault : S.Same default default') (hasync : Option.Rel S.Same async async')
    (hword : c.atWord .functionWord = true)
    (hle : S.old.length ≤ (Cursor.defaultFunction default async c).2.remaining)
    (hsettled : S.Settled (Cursor.defaultFunction default async c).1
      (Cursor.defaultFunction default async c).2) :
    S.SameForm (Cursor.defaultFunction default async c).1
        (Cursor.defaultFunction default' async' c').1 ∧
      S.Matches (Cursor.defaultFunction default async c).2
        (Cursor.defaultFunction default' async' c').2 := by
  simp only [Cursor.defaultFunction] at hle hsettled ⊢
  have hne : c.kind ≠ .endOfInput := by simp [Cursor.kind_of_atWord hword]
  have hlt := Cursor.remaining_advance_lt hne
  have hle₁ := Cursor.remaining_advanceIf_le (c.advance.atMark .star) c.advance
  have hle₂ := Cursor.remaining_advanceIf_le
    (c.advance.advanceIf (c.advance.atMark .star)).atName
    (c.advance.advanceIf (c.advance.atMark .star))
  have hnext := h.advance (by omega)
  have hstar : c'.advance.atMark .star = c.advance.atMark .star :=
    hnext.atMark_eq_of_detached (by decide) fun heq => hsettled.detached (by omega)
  rw [hstar]
  have h₁ := hnext.advanceIf (c.advance.atMark .star) fun hmark => by
    have := Cursor.remaining_lt_of_atMark hmark
    simp only [hmark, Cursor.advanceIf] at hle₁ hle₂ hle
    simp only [↓reduceIte] at hle₁ hle₂ hle
    omega
  obtain ⟨heq, hsame, hn⟩ := h₁.optionalName (fun hname => hname) (fun hname => hname)
    (fun hinside => h₁.atName_eq hinside) hle fun hat hname => by
      refine Decidable.byContradiction fun hnew => ?_
      rw [hname] at hsettled
      obtain ⟨-, hkeyword, hstarless⟩ := hsettled.complete rfl hat hnew
      cases hmark : c.advance.atMark .star with
      | false =>
        rw [hmark] at hkeyword
        exact hkeyword (previous_advance hne)
      | true =>
        have hkind := Cursor.kind_of_atMark hmark
        rw [hmark] at hstarless
        exact hstarless c.advance.current (previous_advance (by simp [hkind])) hkind
  rw [heq] at hn ⊢
  refine ⟨?_, hn⟩
  cases hname : (c.advance.advanceIf (c.advance.atMark .star)).atName with
  | false => exact .defaultDeclaration hdefault hasync (h.same (by omega))
  | true =>
    simp only [↓reduceIte, (hsame hname).value]
    exact .defaultDeclaration hdefault hasync (h.same (by omega))

theorem Matches.defaultClass (h : S.Matches c c') (hdefault : S.Same default default')
    (hword : c.atWord .classWord = true)
    (hle : S.old.length ≤ (Cursor.defaultClass default c).2.remaining)
    (hsettled : S.Settled (Cursor.defaultClass default c).1 (Cursor.defaultClass default c).2) :
    S.SameForm (Cursor.defaultClass default c).1 (Cursor.defaultClass default' c').1 ∧
      S.Matches (Cursor.defaultClass default c).2 (Cursor.defaultClass default' c').2 := by
  simp only [Cursor.defaultClass] at hle hsettled ⊢
  have hne : c.kind ≠ .endOfInput := by simp [Cursor.kind_of_atWord hword]
  have hlt := Cursor.remaining_advance_lt hne
  have hle₁ := Cursor.remaining_advanceIf_le c.advance.atClassName c.advance
  have hnext := h.advance (by omega)
  have hclassName : ∀ {c : Cursor}, c.atClassName = true → c.atName = true := fun hname => by
    simp only [Cursor.atClassName, Bool.and_eq_true] at hname
    exact hname.1.1
  obtain ⟨heq, hsame, hn⟩ := hnext.optionalName hclassName hclassName
    (fun hinside => by
      simp only [Cursor.atClassName, hnext.atName_eq hinside, hnext.value_eq hinside])
    hle fun hat hname => by
      refine Decidable.byContradiction fun hnew => ?_
      rw [hname] at hsettled
      exact (hsettled.complete rfl hat hnew).2.1 (previous_advance hne)
  rw [heq] at hn ⊢
  refine ⟨?_, hn⟩
  cases hname : c.advance.atClassName with
  | false => exact .defaultDeclaration hdefault .none (h.same (by omega))
  | true =>
    simp only [↓reduceIte, (hsame hname).value]
    exact .defaultDeclaration hdefault .none (h.same (by omega))

/-- An expression that does not reach to the end of the text stops for a reason. -/
theorem stopsExpression_of_expressionFrom {f : Position} {d angles : Nat} {p : Option Token}
    {ts rest : List Token} {t : Token}
    (h : (Reach.expressionFrom f d angles p ts).ahead = t :: rest) :
    ∃ angles', Reach.stopsExpression angles' (Reach.expressionFrom f d angles p ts).previous t =
      true := by
  induction ts generalizing d angles p with
  | nil => cases h
  | cons u us ih =>
    simp only [Reach.expressionFrom] at h ⊢
    split
    · next hstops =>
      rw [if_pos hstops] at h
      obtain ⟨rfl, rfl⟩ := List.cons.inj h
      exact ⟨_, hstops.2⟩
    · next hstops =>
      rw [if_neg hstops] at h
      exact ih h

theorem Settled.of_atName (h : S.Settled form n) (hreach : Cursor.Reaches c n)
    (hle : S.old.length ≤ n.remaining) (hlast : c.remaining = S.old.length + 1)
    (hname : c.atName = true) : S.Detached := by
  rcases Nat.lt_or_eq_of_le hle with hlt | heq
  · have hremaining := hreach.remaining_le
    have hsame : n = c := hreach.eq_of_remaining (.refl c) (by omega)
    refine h.near (hsame ▸ hlast) ?_
    rw [hsame]
    cases hmark : c.atMark .semicolon with
    | false => rfl
    | true => simp [Cursor.atName, Cursor.kind_of_atMark hmark, TokenKind.isName] at hname
  · exact h.detached heq.symm

theorem Matches.followingKind_beq [S.AtStatement] (h : S.Matches c c')
    (hinside : S.old.length < c.remaining)
    (hend : c.remaining = S.old.length + 1 → S.Detached) {kind : TokenKind}
    (hkind : kind ∈ continuations) : (c'.followingKind == kind) = (c.followingKind == kind) := by
  rcases Nat.lt_or_eq_of_le (Nat.succ_le_of_lt hinside) with hlt | heq
  · rw [h.followingKind_eq hlt]
  · have hadvance := Cursor.remaining_advance c
    have hold := (h.advance hinside).kind_ne_of_outside (by omega) hkind
    have hnew := (hend heq.symm).kind _ hkind
    rw [h.followingKind_eq_nextKind heq.symm, Cursor.followingKind_eq, beq_false_of_ne hold,
      beq_false_of_ne hnew]

theorem Matches.asyncModifiesFunction_of_detached [S.AtStatement] (h : S.Matches c c')
    (hinside : S.old.length < c.remaining)
    (hend : c.remaining = S.old.length + 1 → c.atName = true → S.Detached) :
    c'.asyncModifiesFunction = c.asyncModifiesFunction := by
  unfold Cursor.asyncModifiesFunction
  rw [h.atWord_eq hinside]
  cases hasync : c.atWord .asyncWord with
  | false => rfl
  | true =>
    have hname : c.atName = true := by simp [Cursor.atName, Cursor.kind_of_atWord hasync, TokenKind.isName]
    rw [h.followingKind_beq hinside (fun hlast => hend hlast hname) (by decide)]

theorem Matches.atClass_eq [S.AtStatement] (h : S.Matches c c')
    (hinside : S.old.length < c.remaining)
    (hend : c.remaining = S.old.length + 1 → c.atName = true → S.Detached) :
    c'.atClass = c.atClass := by
  unfold Cursor.atClass
  rw [h.atWord_eq hinside, h.atWord_eq hinside]
  cases habstract : c.atWord .abstractWord with
  | false => rfl
  | true =>
    have hname : c.atName = true := by
      simp [Cursor.atName, Cursor.kind_of_atWord habstract, TokenKind.isName]
    rw [h.followingKind_beq hinside (fun hlast => hend hlast hname) (by decide)]

/-- The end of a name that is not the whole expression is not at the seam. -/
theorem Settled.atLoneName [S.AtStatement] (hsettled : S.Settled form n) (h : S.Matches c c')
    (hlast : c.remaining = S.old.length + 1) (hname : c.atName = true)
    (hn : n = if c.atLoneName then c.advance else c.skipExpression)
    (hle : S.old.length ≤ n.remaining) : c.atLoneName = true ∧ c'.atLoneName = true := by
  have hinside : S.old.length < c.remaining := by omega
  have hadvance := Cursor.remaining_advance c
  have hprevious := previous_advance (Cursor.kind_ne_of_atName hname)
  obtain ⟨hold, hnew⟩ := h.peek_outside 0 hlast
  have hends : c.current.kind.endsExpression = true := by
    have hname : c.current.kind.isName = true := hname
    cases hk : c.current.kind <;> simp_all [TokenKind.endsExpression, TokenKind.isName]
  have hlone : c.atLoneName = true := by
    cases hfirst : S.old with
    | nil => simp [Cursor.atLoneName, hname, hold, hfirst, Token.endOfInput]
    | cons t rest =>
      have hpeek : c.peek 1 = t := by simpa [hfirst] using hold
      refine Decidable.byContradiction fun hlone => ?_
      rw [if_neg hlone] at hn
      have hreach := Cursor.reaches_skipExpression c
      have hskip := hreach.remaining_le
      have hline : c.current.line < t.line := by
        rcases Nat.lt_or_eq_of_le hle with hlt | heq
        · have hsame : n = c := hn ▸ hreach.eq_of_remaining (.refl c) (by rw [← hn] at hskip ⊢; omega)
          have hbroken := hsettled.broken (by rw [hsame]; omega) (by rwa [hsame]) t (by simp [hfirst])
          rwa [hsame] at hbroken
        · have hsame : n = c.advance :=
            hn ▸ hreach.eq_of_remaining (Cursor.reaches_advance c) (by rw [← hn]; omega)
          have hahead := ((h.advance hinside).outside (by omega)).1
          rw [← hsame, hn, hfirst] at hahead
          obtain ⟨angles, hstops⟩ := stopsExpression_of_expressionFrom hahead
          have hends := endsStatement_of_stopsExpression (S := S) (by simp [hfirst]) hstops
          rw [← Cursor.skipExpression, ← hn, hsame, hprevious] at hends
          simp only [Reach.endsStatement, Bool.and_eq_true, decide_eq_true_eq] at hends
          exact hends.1.1
      exact hlone (by simp [Cursor.atLoneName, hname, hpeek, hline])
  refine ⟨hlone, ?_⟩
  rw [if_pos hlone] at hn
  have hcarries := hsettled.carries (by rw [hn]; omega)
  rw [hn, hprevious] at hcarries
  have hsame := h.same hinside
  have hname' : c'.atName = true := by rwa [h.atName_eq hinside]
  have hplain : ∀ t ∈ some c.current, t.kind ≠ .mark .semicolon := by
    rintro t ht hkind
    obtain rfl : c.current = t := by simpa using ht
    simp [Cursor.atName, Cursor.kind, hkind, TokenKind.isName] at hname
  have hfresh := hcarries (fun t ht => ?_) hplain (some c'.current) (.some hsame)
  · cases hfirst : S.new with
    | nil => simp [Cursor.atLoneName, hname', hnew, hfirst, Token.endOfInput]
    | cons t rest =>
      have hends := hfresh t (by simp [hfirst])
      simp only [Reach.endsStatement, Bool.and_eq_true, decide_eq_true_eq] at hends
      have hpeek : c'.peek 1 = t := by simpa [hfirst] using hnew
      simp [Cursor.atLoneName, hname', hpeek, hends.1.1]
  · obtain ⟨rest, hfirst⟩ : ∃ rest, S.old = t :: rest := by
      cases hfirst : S.old with
      | nil => simp [hfirst] at ht
      | cons u rest =>
        simp only [hfirst, List.head?_cons, Option.mem_def, Option.some.injEq] at ht
        exact ⟨rest, by rw [ht]⟩
    have hpeek : c.peek 1 = t := by simpa [hfirst] using hold
    rcases AtStatement.begins t ht with hk | hk <;>
      simpa [Cursor.atLoneName, hname, hpeek, hk, Reach.endsStatement, hends, TokenKind.isName]
        using hlone

theorem defaultExported_of_kind (hc : c.kind = .endOfInput ∨ c.kind = .keyword .importWord ∨
    c.kind = .keyword .exportWord) : c.defaultExported default =
      if c.atLoneName then .ok (.defaultName default c.current.value, c.advance)
      else .ok (.defaultExpression (some default) none, c.skipExpression) := by
  rcases hc with hk | hk | hk <;>
    simp [Cursor.defaultExported, Cursor.asyncModifiesFunction, Cursor.atClass, Cursor.atWord, hk]

/-- The word `default` at the seam exports nothing, which the other stream has to end with too. -/
theorem Matches.defaultExported_of_outside [S.AtStatement] (h : S.Matches c c')
    (hdefault : S.Same default default') (hprevious : c.previous = some default)
    (hplain : default.kind ≠ .mark .semicolon)
    (hat : c.remaining = S.old.length)
    (hok : c.defaultExported default = .ok (form, n)) (hle : S.old.length ≤ n.remaining)
    (hsettled : S.Settled form n) (hbalanced : S.Balanced c) :
    ∃ form' n', c'.defaultExported default' = .ok (form', n') ∧ S.SameForm form form' ∧
      S.Matches n n' := by
  rw [defaultExported_of_kind (h.kind_outside (Nat.le_of_eq hat))] at hok
  split at hok
  · next hlone =>
    cases hok
    have hname : c.atName = true := by
      simp only [Cursor.atLoneName, Bool.and_eq_true] at hlone
      exact hlone.1
    have := Cursor.remaining_advance_lt (Cursor.kind_ne_of_atName hname)
    omega
  · cases hok
    have hskip := Cursor.remaining_skipExpression_le c
    have hsame : c.skipExpression = c :=
      (Cursor.reaches_skipExpression c).eq_of_remaining (.refl c) (by omega)
    have hnew : S.new = [] := by
      refine Decidable.byContradiction fun hnew => ?_
      exact (hsettled.complete rfl (by omega) hnew).1 (by rw [hsame, hprevious]; rfl)
    have hend : c'.kind = .endOfInput := by
      rw [h.kind_eq_nextKind (Nat.le_of_eq hat), nextKind, hnew]
      rfl
    refine ⟨_, _, ?_, .defaultExpression (.some hdefault) .none,
      h.skipExpression hle hsettled.carries (by simpa [hprevious] using hplain) hbalanced⟩
    rw [defaultExported_of_kind (.inl hend), if_neg]
    simp [Cursor.atLoneName, Cursor.atName, hend, TokenKind.isName]

/-- Whether a default name stands alone is the same in both streams, also in front of the seam. -/
theorem Matches.atLoneName_eq [S.AtStatement] (h : S.Matches c c')
    (hinside : S.old.length < c.remaining)
    (hn : n = if c.atLoneName then c.advance else c.skipExpression)
    (hle : S.old.length ≤ n.remaining) (hsettled : S.Settled form n) :
    c'.atLoneName = c.atLoneName := by
  rcases Nat.lt_or_eq_of_le (Nat.succ_le_of_lt hinside) with hlt | hlast
  · have hpeek := h.peek (by omega : S.old.length + 1 < c.remaining)
    have hsame := h.same hinside
    simp only [Cursor.atLoneName, h.atName_eq hinside, hpeek.kind, hsame.line_lt hpeek]
  · cases hname : c.atName with
    | false => simp [Cursor.atLoneName, h.atName_eq hinside, hname]
    | true =>
      obtain ⟨hlone, hlone'⟩ := hsettled.atLoneName h hlast.symm hname hn hle
      rw [hlone, hlone']

theorem Matches.defaultExported [S.AtStatement] (h : S.Matches c c')
    (hdefault : S.Same default default') (hprevious : c.previous = some default)
    (hplain : default.kind ≠ .mark .semicolon)
    (hok : c.defaultExported default = .ok (form, n)) (hle : S.old.length ≤ n.remaining)
    (hsettled : S.Settled form n) (hbalanced : S.Balanced c) :
    ∃ form' n', c'.defaultExported default' = .ok (form', n') ∧ S.SameForm form form' ∧
      S.Matches n n' := by
  rcases Nat.lt_or_eq_of_le h.length_le with hinside | hat
  swap
  · exact h.defaultExported_of_outside hdefault hprevious hplain hat.symm hok hle hsettled hbalanced
  have hend : c.remaining = S.old.length + 1 → c.atName = true → S.Detached :=
    hsettled.of_atName (Cursor.reaches_of_defaultExported hok) hle
  -- both streams begin alike, so the same words decide how the export is read
  unfold Cursor.defaultExported at hok ⊢
  rw [h.asyncModifiesFunction_of_detached hinside hend, h.atClass_eq hinside hend,
    h.atWord_eq hinside, h.atWord_eq hinside, h.atWord_eq hinside, h.atWord_eq hinside]
  split at hok
  · next modifies =>
    have hfunction : c.advance.atWord .functionWord = true :=
      beq_iff_eq.2 (Cursor.asyncModifiesFunction_iff.1 modifies).2
    obtain ⟨rfl, rfl⟩ := Prod.ext_iff.1 (Except.ok.inj hok)
    obtain ⟨hsame, hmatches⟩ := (h.advance hinside).defaultFunction hdefault
      (.some (h.same hinside)) hfunction hle hsettled
    exact ⟨_, _, if_pos modifies, hsame, hmatches⟩
  next plain =>
  rw [if_neg plain]
  split at hok
  · next word =>
    obtain ⟨rfl, rfl⟩ := Prod.ext_iff.1 (Except.ok.inj hok)
    obtain ⟨hsame, hmatches⟩ := h.defaultFunction hdefault .none word hle hsettled
    exact ⟨_, _, if_pos word, hsame, hmatches⟩
  next other =>
  rw [if_neg other]
  split at hok
  · next begins =>
    obtain ⟨rfl, rfl⟩ := Prod.ext_iff.1 (Except.ok.inj hok)
    have hword : (c.advanceIf (c.atWord .abstractWord)).atWord .classWord = true :=
      beq_iff_eq.2 (Cursor.kind_of_atClass begins)
    obtain ⟨hsame, hmatches⟩ := (h.advanceIf (c.atWord .abstractWord) fun _ => hinside).defaultClass
      hdefault hword hle hsettled
    exact ⟨_, _, if_pos begins, hsame, hmatches⟩
  next other =>
  rw [if_neg other]
  split at hok
  · next word =>
    obtain ⟨⟨name, c₁⟩, hname, hok⟩ := bind_eq_ok.1 hok
    cases hok
    obtain ⟨name', n', hname', -, hn⟩ := (h.advance hinside).expectName hname hle
    rw [if_pos word]
    exact ⟨_, n', bind_eq_ok.2 ⟨_, hname', rfl⟩, .defaultInterface, hn⟩
  next other =>
  have hn : n = if c.atLoneName then c.advance else c.skipExpression := by
    split at hok
    · next lone =>
      cases hok
      rw [if_pos lone]
    · next more =>
      cases hok
      rw [if_neg more]
  rw [if_neg other, h.atLoneName_eq hinside hn hle hsettled]
  split at hok
  · next lone =>
    cases hok
    exact ⟨_, _, by rw [if_pos lone, h.value_eq hinside], .defaultName hdefault, h.advance hinside⟩
  · next more =>
    cases hok
    refine ⟨_, _, if_neg more, .defaultExpression (.some hdefault) ?_,
      h.skipExpression hle hsettled.carries (by simpa [hprevious] using hplain) hbalanced⟩
    split
    · exact .some (h.same hinside)
    · exact .none

theorem Matches.exportDefault [S.AtStatement] (h : S.Matches c c')
    (hok : c.exportDefault = .ok (form, n)) (hle : S.old.length ≤ n.remaining)
    (hsettled : S.Settled form n) (hbalanced : S.Balanced c) :
    ∃ form' n', c'.exportDefault = .ok (form', n') ∧ S.SameForm form form' ∧ S.Matches n n' := by
  obtain ⟨⟨default, c₁⟩, hdefault, hok⟩ := bind_eq_ok.1 hok
  have hle₁ := Cursor.remaining_le_of_defaultExported hok
  obtain ⟨hpass, -, hkind⟩ := Cursor.passes_of_expect (by simp) hdefault
  obtain ⟨default', c₁', hdefault', hsame, h₁⟩ := h.expect (by simp) hdefault (by omega)
  obtain ⟨form', n', hok', hform, hn⟩ := h₁.defaultExported hsame (by simp [hpass.previous])
    (by simp [hkind]) hok hle hsettled (hbalanced.reaches hpass.reaches)
  exact ⟨form', n', bind_eq_ok.2 ⟨_, hdefault', hok'⟩, hform, hn⟩

end Default

section Statement

variable {form : ExportForm} {typeOnly : Bool}

theorem remaining_lt_of_exportEverything (hok : c.exportEverything typeOnly = .ok (form, n)) :
    n.remaining < c.remaining := by
  obtain ⟨⟨star, c₁⟩, hstar, hok⟩ := bind_eq_ok.1 hok
  have hlt := Cursor.remaining_lt_of_expect (by simp) hstar
  simp only at hok
  split at hok
  · obtain ⟨⟨name, c₂⟩, hname, hok⟩ := bind_eq_ok.1 hok
    obtain ⟨⟨word, c₃⟩, hword, hok⟩ := bind_eq_ok.1 hok
    obtain ⟨⟨source, c₄⟩, hsource, hok⟩ := bind_eq_ok.1 hok
    have := Cursor.remaining_advance_le c₁
    have := Cursor.remaining_lt_of_expectModuleName hname
    have := Cursor.remaining_lt_of_expect (by simp) hword
    have := Cursor.remaining_lt_of_expect (by simp) hsource
    cases hok
    simp only at *
    omega
  · obtain ⟨⟨word, c₂⟩, hword, hok⟩ := bind_eq_ok.1 hok
    obtain ⟨⟨source, c₃⟩, hsource, hok⟩ := bind_eq_ok.1 hok
    have := Cursor.remaining_lt_of_expect (by simp) hword
    have := Cursor.remaining_lt_of_expect (by simp) hsource
    cases hok
    simp only at *
    omega

theorem remaining_lt_of_exportList (hok : c.exportList typeOnly = .ok (form, n)) :
    n.remaining < c.remaining := by
  obtain ⟨⟨specifiers, c₁⟩, hspecifiers, hok⟩ := bind_eq_ok.1 hok
  have hlt := Cursor.remaining_lt_of_clause hspecifiers
  simp only at hok
  split at hok
  · obtain ⟨⟨source, c₂⟩, hsource, hok⟩ := bind_eq_ok.1 hok
    have := Cursor.remaining_lt_of_expect (by simp) hsource
    have := Cursor.remaining_advance_le c₁
    cases hok
    simp only at *
    omega
  · cases hok
    exact hlt

/-- Something follows the word `export`, and more than one token if that is `type`. -/
theorem remaining_of_exportForm (hok : c.exportForm = .ok (form, n)) :
    n.remaining < c.remaining ∧ (c.atWord .typeWord = true → n.remaining + 2 ≤ c.remaining) := by
  have hadvance := Cursor.remaining_advance c
  have htype : ∀ {k : TokenKind}, c.kind = k → k ≠ .keyword .typeWord →
      c.atWord .typeWord = true → n.remaining + 2 ≤ c.remaining := by
    intro k hk hne hword
    exact absurd (hk.symm.trans (Cursor.kind_of_atWord hword)) hne
  unfold Cursor.exportForm at hok
  split at hok
  · next hword =>
    obtain ⟨⟨default, c₁⟩, hdefault, hok⟩ := bind_eq_ok.1 hok
    have := Cursor.remaining_lt_of_expect (by simp) hdefault
    have := Cursor.remaining_le_of_defaultExported hok
    exact ⟨by omega, htype (Cursor.kind_of_atWord hword) (by simp)⟩
  split at hok
  · next hmark =>
    have := remaining_lt_of_exportEverything hok
    exact ⟨by omega, htype (Cursor.kind_of_atMark hmark) (by simp)⟩
  split at hok
  · next hmark =>
    have := remaining_lt_of_exportList hok
    exact ⟨by omega, htype (Cursor.kind_of_atMark hmark) (by simp)⟩
  split at hok
  · have := remaining_lt_of_exportList hok
    exact ⟨by omega, fun _ => by omega⟩
  split at hok
  · have := remaining_lt_of_exportEverything hok
    exact ⟨by omega, fun _ => by omega⟩
  split at hok
  · next hmark =>
    cases hok
    have := Cursor.remaining_lt_of_atMark hmark
    have := Cursor.remaining_skipExpression_le c.advance
    exact ⟨by omega, htype (Cursor.kind_of_atMark hmark) (by simp)⟩
  split at hok
  · next hword =>
    obtain ⟨⟨word, c₁⟩, hname, hok⟩ := bind_eq_ok.1 hok
    obtain ⟨⟨name, c₂⟩, hname', hok⟩ := bind_eq_ok.1 hok
    have := Cursor.remaining_lt_of_expectName hname
    have := Cursor.remaining_lt_of_expectName hname'
    cases hok
    simp only at *
    exact ⟨by omega, fun _ => by omega⟩
  · have := Cursor.remaining_of_declared hok
    have := Cursor.remaining_modifiersFrom_le ⟨false, none⟩ c
    simp only [Cursor.modifiers] at *
    exact ⟨by omega, fun _ => by omega⟩

end Statement

end Seam

namespace Cursor

/-- An export of variables that the text ends inside of, in one of their types. -/
def LeavesTypeOpen (c : Cursor) : Prop :=
  (variableKind? c.modifiers.2.kind).isSome = true ∧ c.modifiers.2.atEnumeration = false ∧
    c.modifiers.2.advance.EndsInsideType

end Cursor

namespace Seam

variable {S : Seam} {c c' n : Cursor}

section Statement

variable {form : ExportForm}

theorem Matches.exportForm [S.AtStatement] (h : S.Matches c c')
    (hok : c.exportForm = .ok (form, n)) (hle : S.old.length ≤ n.remaining)
    (hsettled : S.Settled form n) (hbalanced : S.Balanced c)
    (hclosed : S.Extends → ¬ c.LeavesTypeOpen) :
    ∃ form' n', c'.exportForm = .ok (form', n') ∧ S.SameForm form form' ∧ S.Matches n n' := by
  obtain ⟨hlt, htype⟩ := remaining_of_exportForm hok
  have hadvance := Cursor.remaining_advance c
  have hinside : S.old.length < c.remaining := by omega
  have hnext := h.advance hinside
  have hfollowing : ∀ kind, (c'.atWord .typeWord && c'.followingKind == kind) =
      (c.atWord .typeWord && c.followingKind == kind) := by
    intro kind
    rw [h.atWord_eq hinside]
    cases hword : c.atWord .typeWord with
    | false => rfl
    | true =>
      have := htype hword
      rw [h.followingKind_eq (by omega)]
  unfold Cursor.exportForm at hok ⊢
  rw [h.atWord_eq hinside, h.atMark_eq hinside, h.atMark_eq hinside, hfollowing, hfollowing,
    h.atMark_eq hinside, h.atWord_eq hinside]
  split at hok
  · next hdefault =>
    rw [if_pos hdefault]
    exact h.exportDefault hok hle hsettled hbalanced
  rename_i hdefault
  rw [if_neg hdefault]
  split at hok
  · next hstar =>
    rw [if_pos hstar]
    exact h.exportEverything hok hle
  rename_i hstar
  rw [if_neg hstar]
  split at hok
  · next hbrace =>
    rw [if_pos hbrace]
    exact h.exportList hok hle hsettled.detached
  rename_i hbrace
  rw [if_neg hbrace]
  split at hok
  · next htyped =>
    rw [if_pos htyped]
    exact hnext.exportList hok hle hsettled.detached
  rename_i htyped
  rw [if_neg htyped]
  split at hok
  · next hstarred =>
    rw [if_pos hstarred]
    exact hnext.exportEverything hok hle
  rename_i hstarred
  rw [if_neg hstarred]
  split at hok
  · next hequals =>
    rw [if_pos hequals]
    cases hok
    exact ⟨_, _, rfl, .defaultExpression .none .none, hnext.skipExpression hle hsettled.carries
      (not_semicolon_of_atMark hequals (by simp)) (hbalanced.reaches (Cursor.reaches_advance c))⟩
  rename_i hequals
  rw [if_neg hequals]
  split at hok
  · next has =>
    rw [if_pos has]
    obtain ⟨⟨word, c₁⟩, hword, hok⟩ := bind_eq_ok.1 hok
    obtain ⟨⟨name, c₂⟩, hname, hok⟩ := bind_eq_ok.1 hok
    cases hok
    have := Cursor.remaining_lt_of_expectName hname
    simp only at *
    obtain ⟨word', c₁', hword', -, h₁⟩ := hnext.expectName hword (by omega)
    obtain ⟨name', n', hname', -, hn⟩ := h₁.expectName hname hle
    exact ⟨_, n', bind_eq_ok.2 ⟨_, hword', bind_eq_ok.2 ⟨_, hname', rfl⟩⟩, .globalName, hn⟩
  · next has =>
    rw [if_neg has]
    have hlt₁ := Cursor.remaining_of_declared hok
    obtain ⟨hambient, hasync, hmodified⟩ := h.modifiersFrom ⟨false, none⟩ ⟨false, none⟩ rfl .none
      (by simp only [Cursor.modifiers] at hlt₁; omega)
    exact hmodified.declared hambient hasync hok hle hsettled.detached hsettled.carries
      (hbalanced.reaches (Cursor.reaches_modifiersFrom _ c)) fun hextends hvariable hlist hinside =>
        hclosed hextends ⟨hvariable, hlist, hinside⟩

theorem SameForm.takesSemicolon {form' : ExportForm} (h : S.SameForm form form') :
    form'.takesSemicolon = form.takesSemicolon := by
  cases h <;> rfl

/-- The same export, read from both streams. -/
structure SameExport (S : Seam) (s s' : ExportStatement) : Prop where
  form : S.SameForm s.form s'.form
  terminated : s'.terminated = s.terminated
  span : S.SameSpan s.span s'.span

/-- What an export that has been read up to a place asks of a seam there, after its semicolon. -/
structure Concluded (S : Seam) (s : ExportStatement) (n : Cursor) : Prop where
  detached : s.terminated = false → n.remaining ≤ S.old.length + 1 → S.Detached
  carries : s.terminated = false → n.remaining = S.old.length → S.Carries n.previous
  broken : n.remaining = S.old.length + 1 → n.atName = true →
    ∀ t ∈ S.old.head?, n.current.line < t.line
  complete : s.form.isDefault = true → s.terminated = false → n.remaining = S.old.length →
    S.new ≠ [] → n.previous ≠ s.form.defaultToken ∧ n.previous ≠ s.form.declarationToken ∧
      ∀ p ∈ n.previous, p.kind ≠ .mark .star

theorem exportEnding_cases (form : ExportForm) (c : Cursor) :
    (c.exportEnding form = (true, c.advance) ∧ c.atMark .semicolon = true ∧
        c.advance.remaining + 1 = c.remaining) ∨
      (c.exportEnding form = (false, c)) := by
  unfold Cursor.exportEnding
  split
  · rcases c.takeSemicolon_cases with ⟨htake, hmark, -, hremaining⟩ | ⟨htake, -⟩
    · exact .inl ⟨htake, hmark, hremaining⟩
    · exact .inr htake
  · exact .inr rfl

/-- An export in front of a seam is the same in both streams. -/
theorem Tied.exportStatement [S.AtStatement] {s : ExportStatement}
    (h : S.Tied c.ahead c'.ahead)
    (hok : c.exportStatement = .ok (s, n)) (hle : S.old.length ≤ n.remaining)
    (hconcluded : S.Concluded s n) (hbalanced : S.Balanced c)
    (hclosed : S.Extends → ¬ c.advance.LeavesTypeOpen) :
    ∃ s' n', c'.exportStatement = .ok (s', n') ∧ S.SameExport s s' ∧ S.Matches n n' := by
  obtain ⟨⟨start, c₁⟩, hstart, hok⟩ := bind_eq_ok.1 hok
  obtain ⟨⟨form, c₂⟩, hform, hok⟩ := bind_eq_ok.1 hok
  cases hok
  obtain ⟨hpass, -⟩ := Cursor.passes_of_expect (by simp) hstart
  have hnext : c₁ = c.advance := by
    unfold Cursor.expect at hstart
    split at hstart
    · cases hstart
      rfl
    · cases hstart
  have hle₁ := (remaining_of_exportForm hform).1
  have hle₂ := Cursor.remaining_exportEnding_le form c₂
  simp only at *
  obtain ⟨start', c₁', hstart', hsame, h₁⟩ := h.expect (by simp) hstart (by omega)
  have hsettled : S.Settled form c₂ := by
    rcases exportEnding_cases form c₂ with ⟨hending, hmark, hremaining⟩ | hending
    · have hne : c₂.remaining ≠ S.old.length := by
        rw [hending] at hle
        simp only at hle
        omega
      refine ⟨fun heq => absurd heq hne, fun _ hmark' => ?_, fun heq => absurd heq hne,
        fun _ hname => ?_, fun _ heq => absurd heq hne⟩
      · simp [hmark] at hmark'
      · simp [Cursor.atName, Cursor.kind_of_atMark hmark, TokenKind.isName] at hname
    · rw [hending] at hconcluded
      exact ⟨fun heq => hconcluded.detached rfl (by simp only; omega),
        fun heq _ => hconcluded.detached rfl (by simp only; omega), hconcluded.carries rfl,
        hconcluded.broken, fun hdefault => hconcluded.complete hdefault rfl⟩
  obtain ⟨form', c₂', hform', hsameForm, h₂⟩ := h₁.exportForm hform (by omega) hsettled
    (hbalanced.reaches hpass.reaches) (hnext ▸ hclosed)
  have hending : (c₂'.exportEnding form').1 = (c₂.exportEnding form).1 ∧
      S.Matches (c₂.exportEnding form).2 (c₂'.exportEnding form').2 := by
    unfold Cursor.exportEnding at hle ⊢
    rw [hsameForm.takesSemicolon]
    split
    · next htakes =>
      rw [if_pos htakes] at hle
      exact h₂.takeSemicolon hle fun _ heq => (hsettled.detached heq).kind _ (by decide)
    · exact ⟨rfl, h₂⟩
  have hsome : (c₂.exportEnding form).2.previous.isSome = true := by
    obtain ⟨passed, hpass'⟩ := (Cursor.reaches_of_exportForm hform).trans
      (Cursor.reaches_exportEnding form c₂)
    rw [hpass'.previous, hpass.previous]
    cases passed.getLast? <;> rfl
  exact ⟨_, _, bind_eq_ok.2 ⟨_, hstart', bind_eq_ok.2 ⟨_, hform', rfl⟩⟩,
    ⟨hsameForm, hending.1, hsame.start, hending.2.passedOffset hsome⟩, hending.2⟩

end Statement

end Seam

end ComponentRegistry
