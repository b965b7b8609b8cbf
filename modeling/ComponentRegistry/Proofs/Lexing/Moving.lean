import Mathlib.Data.List.Forall2
import ComponentRegistry.Proofs.Lexing.Locality

/-! # Reading the same text at another place

The tokens of a text do not depend on where it stands, as long as the braces around it began the
same and a slash at its beginning would mean the same.
-/

namespace ComponentRegistry

namespace Lexer

/-- The same token, as far from one place as from another. -/
def Moved (here here' : Position) (t t' : Token) : Prop :=
  ∃ passed, t.start = here.advance passed ∧ t' = { t with start := here'.advance passed }

variable {p p' : Option Token} {e e' : List Enclosure} {h h' : Position} {c : Char}
  {after : List Char} {s : Step}

/-- The same step from another place. -/
structure Step.Like (s s' : Step) : Prop where
  found : s'.found = s.found
  lexeme : s'.lexeme = s.lexeme
  rest : s'.rest = s.rest
  brackets : s'.enclosures.map Enclosure.bracket = s.enclosures.map Enclosure.bracket

theorem templateStep_like {opened opened' : Position} {lead : Char}
    (hstep : templateStep opened lead after e = .ok s)
    (hbrackets : e'.map Enclosure.bracket = e.map Enclosure.bracket) :
    ∃ s', templateStep opened' lead after e' = .ok s' ∧ s.Like s' := by
  unfold templateStep at hstep ⊢
  split at hstep
  · cases hstep
  · next body ending rest hbody =>
    cases hstep
    refine ⟨_, rfl, rfl, rfl, rfl, ?_⟩
    cases ending with
    | closed => exact hbrackets
    | substitution => simp [hbrackets]

theorem closeBraceStep_like (hstep : closeBraceStep h after e = .ok s)
    (hbrackets : e'.map Enclosure.bracket = e.map Enclosure.bracket) :
    ∃ s', closeBraceStep h' after e' = .ok s' ∧ s.Like s' := by
  match e, e' with
  | [], _ => simp [closeBraceStep] at hstep
  | _ :: _, [] => simp at hbrackets
  | ⟨bracket, opened⟩ :: outer, ⟨bracket', opened'⟩ :: outer' =>
    obtain ⟨rfl, houter⟩ : bracket' = bracket ∧ _ := by simpa using hbrackets
    cases bracket' with
    | block =>
      simp only [closeBraceStep, Except.ok.injEq] at hstep
      subst hstep
      exact ⟨_, rfl, rfl, rfl, rfl, houter⟩
    | substitution => exact templateStep_like hstep houter

theorem skipped_like {taken rest : List Char}
    (hbrackets : e'.map Enclosure.bracket = e.map Enclosure.bracket) :
    (skipped taken rest e).Like (skipped taken rest e') :=
  ⟨rfl, rfl, rfl, hbrackets⟩

theorem verbatim_like {kind : TokenKind} {taken rest : List Char}
    (hbrackets : e'.map Enclosure.bracket = e.map Enclosure.bracket) :
    (verbatim kind taken rest e).Like (verbatim kind taken rest e') :=
  ⟨rfl, rfl, rfl, hbrackets⟩

theorem slashStep_like (hbrackets : e'.map Enclosure.bracket = e.map Enclosure.bracket)
    (hfollow : regexMayFollow p' = regexMayFollow p) :
    (slashStep p after e).Like (slashStep p' after e') := by
  unfold slashStep
  rw [hfollow]
  split <;> exact ⟨rfl, rfl, rfl, hbrackets⟩

theorem quoteStep_like (hbrackets : e'.map Enclosure.bracket = e.map Enclosure.bracket) :
    (quoteStep c after e).Like (quoteStep c after e') := by
  unfold quoteStep
  split <;> exact ⟨rfl, rfl, rfl, hbrackets⟩

theorem singleStep_like (hbrackets : e'.map Enclosure.bracket = e.map Enclosure.bracket) :
    (singleStep c after e).Like (singleStep c after e') := by
  unfold singleStep
  split <;> exact ⟨rfl, rfl, rfl, hbrackets⟩

/-- Whether a slash divides can be told by what was read. -/
theorem found_slashStep (p : Option Token) (after : List Char) (e : List Enclosure) :
    ∃ found, (slashStep p after e).found = some found ∧
      (found.1 = .mark .slash ∨ found.1 = .regex) := by
  unfold slashStep
  split
  · exact ⟨_, rfl, .inr rfl⟩
  · exact ⟨_, rfl, .inl rfl⟩

theorem Step.Like.of_ok {s₁ s₁' : Step} (hlike : s₁.Like s₁')
    (hstep : (.ok s₁ : Except Fault Step) = .ok s) :
    ∃ s', (.ok s₁' : Except Fault Step) = .ok s' ∧ s.Like s' := by
  cases hstep
  exact ⟨s₁', rfl, hlike⟩

/-- Two choices by the same condition, of which the second takes a step like that of the first. -/
theorem ite_like {P : Prop} [Decidable P] {x y x' y' : Except Fault Step}
    (hstep : (if P then x else y) = .ok s)
    (hthen : P → x = .ok s → ∃ s', x' = .ok s' ∧ s.Like s')
    (helse : ¬P → y = .ok s → ∃ s', y' = .ok s' ∧ s.Like s') :
    ∃ s', (if P then x' else y') = .ok s' ∧ s.Like s' := by
  by_cases hP : P
  · rw [if_pos hP] at hstep ⊢
    exact hthen hP hstep
  · rw [if_neg hP] at hstep ⊢
    exact helse hP hstep

theorem step_like (p' : Option Token) (h' : Position) (hstep : step p e h c after = .ok s)
    (hbrackets : e'.map Enclosure.bracket = e.map Enclosure.bracket)
    (hfollow : ∀ found ∈ s.found, found.1 = .mark .slash ∨ found.1 = .regex →
      regexMayFollow p' = regexMayFollow p) :
    ∃ s', step p' e' h' c after = .ok s' ∧ s.Like s' := by
  rw [step_eq] at hstep ⊢
  -- The cases come in the order in which the first characters are looked at.
  refine ite_like hstep (fun _ => (skipped_like hbrackets).of_ok) fun _ hstep => ?_
  refine ite_like hstep (fun _ => (skipped_like hbrackets).of_ok) fun _ hstep => ?_
  refine ite_like hstep (fun _ hs => ?blockComment) fun _ hstep => ?_
  case blockComment =>
    split at hs
    · exact (skipped_like hbrackets).of_ok hs
    · cases hs
  refine ite_like hstep (fun _ => (quoteStep_like hbrackets).of_ok) fun _ hstep => ?_
  refine ite_like hstep (fun _ hs => templateStep_like hs hbrackets) fun _ hstep => ?_
  refine ite_like hstep (fun _ hs => ?slash) fun _ hstep => ?_
  case slash =>
    cases hs
    obtain ⟨found, hfound, hkind⟩ := found_slashStep p after e
    exact ⟨_, rfl, slashStep_like hbrackets (hfollow found hfound hkind)⟩
  refine ite_like hstep (fun _ hs => ?openBrace) fun _ hstep => ?_
  case openBrace => exact (verbatim_like (by simp [hbrackets])).of_ok hs
  refine ite_like hstep (fun _ hs => closeBraceStep_like hs hbrackets) fun _ hstep => ?_
  -- No lexeme from here on looks at the braces or at the token before it.
  refine ite_like hstep (fun _ => (verbatim_like hbrackets).of_ok) fun _ hstep => ?_
  refine ite_like hstep (fun _ => (verbatim_like hbrackets).of_ok) fun _ hstep => ?_
  refine ite_like hstep (fun _ => (verbatim_like hbrackets).of_ok) fun _ hstep => ?_
  refine ite_like hstep (fun _ => Step.Like.of_ok ⟨rfl, rfl, rfl, hbrackets⟩) fun _ hstep => ?_
  refine ite_like hstep (fun _ => (verbatim_like hbrackets).of_ok) fun _ hstep => ?_
  refine ite_like hstep (fun _ => (verbatim_like hbrackets).of_ok) fun _ hstep => ?_
  exact (singleStep_like hbrackets).of_ok hstep

theorem regexMayFollow_moved {t t' : Token} (hmoved : Moved h h' t t') :
    regexMayFollow (some t') = regexMayFollow (some t) := by
  obtain ⟨passed, -, rfl⟩ := hmoved
  rfl

theorem Moved.later {t t' : Token} {passed : List Char}
    (hmoved : Moved (h.advance passed) (h'.advance passed) t t') : Moved h h' t t' := by
  obtain ⟨more, hstart, rfl⟩ := hmoved
  exact ⟨passed ++ more, by rw [hstart, Position.advance_append],
    by rw [Position.advance_append]⟩

theorem Step.Like.token? {s' : Step} (hlike : s.Like s') :
    Option.Rel (Moved h h') (s.token? h) (s'.token? h') := by
  unfold Step.token?
  rw [hlike.found, hlike.lexeme]
  cases s.found with
  | none => exact .none
  | some found => exact .some ⟨[], rfl, rfl⟩

/-- A run from one place goes on in the same way from another place, unless it begins with a slash
that would mean something else there. -/
theorem Reads.moved {s t : Scan} {ts : List Token} (s' : Scan) (hrun : Reads s ts t)
    (hrest : s'.rest = s.rest)
    (hbrackets : s'.enclosures.map Enclosure.bracket = s.enclosures.map Enclosure.bracket)
    (hfollow : regexMayFollow s'.previous = regexMayFollow s.previous ∨
      ∀ u ∈ ts.head?, u.kind ≠ .mark .slash ∧ u.kind ≠ .regex) :
    ∃ ts' t', Reads s' ts' t' ∧ List.Forall₂ (Moved s.here s'.here) ts ts' ∧ t'.rest = t.rest ∧
      t'.enclosures.map Enclosure.bracket = t.enclosures.map Enclosure.bracket ∧
      ∃ passed, t.here = s.here.advance passed ∧ t'.here = s'.here.advance passed := by
  induction hrun generalizing s' with
  | done s => exact ⟨[], s', .done s', .nil, hrest, hbrackets, [], rfl, rfl⟩
  | @step p e h c after st ts t first others ih =>
    obtain ⟨p', e', h', rest'⟩ := s'
    simp only at hrest hbrackets hfollow
    subst hrest
    obtain ⟨st', first', hlike⟩ := step_like p' h' first hbrackets
      fun found hfound hkind => by
        rcases hfollow with hfollow | hfollow
        · exact hfollow
        · obtain ⟨kind, value⟩ := found
          have htoken : st.token? h = some ⟨kind, String.ofList value, String.ofList st.lexeme, h⟩ := by
            rw [Step.token?, hfound]
            rfl
          have := hfollow _ (by rw [htoken]; rfl)
          rcases hkind with hkind | hkind
          · exact absurd hkind this.1
          · exact absurd hkind this.2
    have htoken : Option.Rel (Moved h h') (st.token? h) (st'.token? h') := hlike.token?
    obtain ⟨ts', t', others', hmoved, hrest', hbrackets', passed, hhere, hhere'⟩ :=
      @ih (st'.next p' h') hlike.rest hlike.brackets (by
        simp only [Step.next]
        cases hfound : st.token? h with
        | none =>
          rw [hfound] at htoken hfollow
          cases hfound' : st'.token? h' with
          | none => exact hfollow
          | some u' =>
            rw [hfound'] at htoken
            cases htoken
        | some u =>
          rw [hfound] at htoken
          cases hfound' : st'.token? h' with
          | none =>
            rw [hfound'] at htoken
            cases htoken
          | some u' =>
            rw [hfound'] at htoken
            cases htoken with
            | some hmoved => exact .inl (regexMayFollow_moved hmoved))
    refine ⟨(st'.token? h').toList ++ ts', t', .step first' others', ?_, hrest', hbrackets',
      st.lexeme ++ passed, ?_, ?_⟩
    · refine List.rel_append ?_ (hmoved.imp fun _ _ hmoved => ?_)
      · generalize st.token? h = token, st'.token? h' = token' at htoken
        cases htoken with
        | none => exact .nil
        | some hmoved => exact .cons hmoved .nil
      · simp only [Step.next, hlike.lexeme] at hmoved
        exact hmoved.later
    · rw [Position.advance_append]
      exact hhere
    · rw [Position.advance_append, ← hlike.lexeme]
      exact hhere'

end Lexer

end ComponentRegistry
