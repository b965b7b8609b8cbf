import ComponentRegistry.Proofs.Seam.Skipping

/-! # Binding patterns in front of a seam

Inside of a pattern the seam is still ahead, since the closing bracket has to come first. Only the
last token of a pattern may stand just before it.
-/

namespace ComponentRegistry

namespace PatternState

variable {frames : List PatternFrame} {names : List String} {c n : Cursor} {s t : PatternState}

theorem frames_of_stepSeparator {closer : Mark} {cause : FaultCause}
    (h : stepSeparator closer cause frames names c = .ok t) : t.frames = frames := by
  unfold stepSeparator at h
  split at h
  · cases h
    rfl
  split at h
  · cases h
    rfl
  · cases h

theorem frames_ne_of_stepBound {frame : PatternFrame}
    (h : stepBound frame frames names c = .ok t) : t.frames ≠ [] := by
  unfold stepBound at h
  split at h <;> simp [frames_of_stepSeparator h]

/-- A pattern is left only past its closing bracket. -/
theorem frames_ne_or_remaining_lt (h : s.step = .ok (some t)) (hs : s.frames ≠ []) :
    t.frames ≠ [] ∨ t.cursor.remaining < s.cursor.remaining := by
  obtain ⟨task, frames, names, c⟩ := s
  unfold step at h
  simp only at h hs
  split at h
  · obtain ⟨t', ht, heq⟩ := map_eq_ok.1 h
    cases heq
    exact .inr (remaining_lt_of_stepBind ht)
  · obtain ⟨t', ht, heq⟩ := map_eq_ok.1 h
    cases heq
    unfold stepElement at ht
    split at ht
    · next hclose =>
      cases ht
      exact .inr (Cursor.remaining_lt_of_atMark hclose)
    split at ht
    · cases ht
      exact .inl (by simp)
    split at ht
    · cases ht
      exact .inl (by simp)
    · cases ht
      exact .inl (by simp)
  · obtain ⟨t', ht, heq⟩ := map_eq_ok.1 h
    cases heq
    exact .inr (remaining_lt_of_stepMember ht)
  · cases h
  · next frame frames' =>
    obtain ⟨t', ht, heq⟩ := map_eq_ok.1 h
    cases heq
    exact .inl (frames_ne_of_stepBound ht)
  · cases h

/-- The machine stands still when no pattern is open and there is nothing left to bind. -/
theorem step_eq_none : s.step = .ok none ↔ s.frames = [] ∧ s.task ≠ .bind := by
  obtain ⟨task, frames, names, c⟩ := s
  constructor
  · intro hstep
    unfold step at hstep
    simp only at hstep ⊢
    split at hstep
    · obtain ⟨t, -, heq⟩ := map_eq_ok.1 hstep
      cases heq
    · obtain ⟨t, -, heq⟩ := map_eq_ok.1 hstep
      cases heq
    · obtain ⟨t, -, heq⟩ := map_eq_ok.1 hstep
      cases heq
    · simp
    · obtain ⟨t, -, heq⟩ := map_eq_ok.1 hstep
      cases heq
    · simp
  · rintro ⟨hframes, htask⟩
    simp only at hframes htask
    subst hframes
    cases task with
    | bind => exact absurd rfl htask
    | part => rfl
    | bound => rfl

theorem remaining_lt_of_run (h : s.run = .ok (names, n)) (hs : s.frames ≠ []) :
    n.remaining < s.cursor.remaining := by
  fun_induction run s with
  | case1 => cases h
  | case2 s hstep => exact absurd (step_eq_none.1 hstep).1 hs
  | case3 s t hstep ih =>
    have hle := (remaining_le_of_step hstep).1
    rcases frames_ne_or_remaining_lt hstep hs with hframes | hlt
    · exact Nat.lt_of_lt_of_le (ih h hframes) hle
    · exact Nat.lt_of_le_of_lt (remaining_le_of_run h) hlt

end PatternState

namespace Seam

open PatternState

variable {S : Seam} {c c' n : Cursor} {frames : List PatternFrame} {names : List String}
  {s t : PatternState}

/-- The same state of the machine, over the other stream. -/
def moved (t : PatternState) (c : Cursor) : PatternState := ⟨t.task, t.frames, t.names, c⟩

theorem Matches.skipInitializer_of_lt (h : S.Matches c c')
    (hlt : S.old.length < (skipInitializer c).remaining) :
    S.Matches (skipInitializer c) (skipInitializer c') := by
  have hle := remaining_skipInitializer_le c
  unfold skipInitializer at hlt ⊢
  rw [h.atMark_eq (by unfold skipInitializer at hle; omega)]
  split
  · next hequals =>
    rw [if_pos hequals] at hlt
    have := Cursor.remaining_skipExpression_le c.advance
    have := Cursor.remaining_advance_le c
    exact (h.advance (by omega)).skipExpression_of_lt hlt
  · exact h

theorem Matches.stepBind (h : S.Matches c c') (hok : PatternState.stepBind frames names c = .ok t)
    (hle : S.old.length ≤ t.cursor.remaining) :
    ∃ n', PatternState.stepBind frames names c' = .ok (moved t n') ∧ S.Matches t.cursor n' := by
  have hlt := remaining_lt_of_stepBind hok
  unfold PatternState.stepBind at hok ⊢
  rw [h.atMark_eq (by omega), h.atMark_eq (by omega)]
  split at hok
  · next hbrace =>
    cases hok
    exact ⟨c'.advance, by rw [if_pos hbrace]; rfl, h.advance (by omega)⟩
  split at hok
  · next hbrace hbracket =>
    cases hok
    exact ⟨c'.advance, by rw [if_neg hbrace, if_pos hbracket]; rfl, h.advance (by omega)⟩
  · next hbrace hbracket =>
    obtain ⟨⟨name, c₁⟩, hname, hok⟩ := bind_eq_ok.1 hok
    cases hok
    obtain ⟨name', n', hname', hsame, hn⟩ := h.expectName hname hle
    refine ⟨n', ?_, hn⟩
    rw [if_neg hbrace, if_neg hbracket]
    refine bind_eq_ok.2 ⟨_, hname', ?_⟩
    simp only [moved, hsame.value]

theorem Matches.stepKey (h : S.Matches c c') (hok : PatternState.stepKey frames names c = .ok t)
    (hlt : S.old.length < t.cursor.remaining) :
    ∃ n', PatternState.stepKey frames names c' = .ok (moved t n') ∧ S.Matches t.cursor n' := by
  have hlt₁ := remaining_lt_of_stepKey hok
  unfold PatternState.stepKey at hok ⊢
  rw [h.atMark_eq (by omega)]
  split at hok
  · next hbracket =>
    simp only at hok
    split at hok
    · next hcolon =>
      cases hok
      have hadvance := Cursor.remaining_advance_le c.skipGroup
      simp only at hlt
      have hgroup := h.skipGroup (by omega)
      refine ⟨c'.skipGroup.advance, ?_, hgroup.advance (by omega)⟩
      rw [if_pos hbracket]
      simp only
      rw [hgroup.atMark_eq (by omega), if_pos hcolon]
      rfl
    · cases hok
  · next hbracket =>
    obtain ⟨⟨key, c₁⟩, hkey, hok⟩ := bind_eq_ok.1 hok
    have hadvance := Cursor.remaining_advance_le c₁
    have hlt₂ : S.old.length < c₁.remaining := by
      simp only at hok
      split at hok <;> cases hok <;> simp only at hlt <;> omega
    obtain ⟨key', c₁', hkey', hsame, h₁⟩ := h.expectModuleName hkey (by omega)
    simp only at hok
    split at hok
    · next hcolon =>
      cases hok
      refine ⟨c₁'.advance, ?_, h₁.advance hlt₂⟩
      rw [if_neg hbracket]
      refine bind_eq_ok.2 ⟨_, hkey', ?_⟩
      simp only [h₁.atMark_eq hlt₂, if_pos hcolon]
      rfl
    · next hcolon =>
      cases hok
      refine ⟨c₁', ?_, h₁⟩
      rw [if_neg hbracket]
      refine bind_eq_ok.2 ⟨_, hkey', ?_⟩
      simp only [h₁.atMark_eq hlt₂, if_neg hcolon, hsame.value]
      rfl

theorem Matches.stepMember (h : S.Matches c c')
    (hok : PatternState.stepMember frames names c = .ok t) (hle : S.old.length ≤ t.cursor.remaining)
    (hlt : t.frames ≠ [] → S.old.length < t.cursor.remaining) :
    ∃ n', PatternState.stepMember frames names c' = .ok (moved t n') ∧ S.Matches t.cursor n' := by
  have hlt₁ := remaining_lt_of_stepMember hok
  unfold PatternState.stepMember at hok ⊢
  rw [h.atMark_eq (by omega), h.atMark_eq (by omega)]
  split at hok
  · next hclose =>
    cases hok
    exact ⟨c'.advance, by rw [if_pos hclose]; rfl, h.advance (by omega)⟩
  split at hok
  · next hclose hellipsis =>
    cases hok
    exact ⟨c'.advance, by rw [if_neg hclose, if_pos hellipsis]; rfl, h.advance (by omega)⟩
  · next hclose hellipsis =>
    have hframes : t.frames ≠ [] := by
      have hkey := hok
      unfold PatternState.stepKey at hkey
      split at hkey
      · simp only at hkey
        split at hkey <;> cases hkey
        simp
      · obtain ⟨⟨key, c₁⟩, -, hkey⟩ := bind_eq_ok.1 hkey
        simp only at hkey
        split at hkey <;> cases hkey <;> simp
    rw [if_neg hclose, if_neg hellipsis]
    exact h.stepKey hok (hlt hframes)

theorem Matches.stepElement (h : S.Matches c c')
    (hok : PatternState.stepElement frames names c = .ok t) (hinside : S.old.length < c.remaining) :
    ∃ n', PatternState.stepElement frames names c' = .ok (moved t n') ∧ S.Matches t.cursor n' := by
  unfold PatternState.stepElement at hok ⊢
  rw [h.atMark_eq hinside, h.atMark_eq hinside, h.atMark_eq hinside]
  split at hok
  · next hclose =>
    cases hok
    exact ⟨c'.advance, by rw [if_pos hclose]; rfl, h.advance hinside⟩
  split at hok
  · next hclose hcomma =>
    cases hok
    exact ⟨c'.advance, by rw [if_neg hclose, if_pos hcomma]; rfl, h.advance hinside⟩
  split at hok
  · next hclose hcomma hellipsis =>
    cases hok
    refine ⟨c'.advance, ?_, h.advance hinside⟩
    rw [if_neg hclose, if_neg hcomma, if_pos hellipsis]
    rfl
  · next hclose hcomma hellipsis =>
    cases hok
    exact ⟨c', by rw [if_neg hclose, if_neg hcomma, if_neg hellipsis]; rfl, h⟩

theorem Matches.stepSeparator {closer : Mark} {cause : FaultCause} (h : S.Matches c c')
    (hok : PatternState.stepSeparator closer cause frames names c = .ok t)
    (hinside : S.old.length < c.remaining) :
    ∃ n', PatternState.stepSeparator closer cause frames names c' = .ok (moved t n') ∧
      S.Matches t.cursor n' := by
  unfold PatternState.stepSeparator at hok ⊢
  rw [h.atMark_eq hinside, h.atMark_eq hinside]
  split at hok
  · next hcomma =>
    cases hok
    exact ⟨c'.advance, by rw [if_pos hcomma]; rfl, h.advance hinside⟩
  split at hok
  · next hcomma hclose =>
    cases hok
    exact ⟨c', by rw [if_neg hcomma, if_pos hclose]; rfl, h⟩
  · cases hok

theorem Matches.stepBound {frame : PatternFrame} (h : S.Matches c c')
    (hok : PatternState.stepBound frame frames names c = .ok t)
    (hlt : S.old.length < t.cursor.remaining) :
    ∃ n', PatternState.stepBound frame frames names c' = .ok (moved t n') ∧
      S.Matches t.cursor n' := by
  have hle := (stepBound_progress hok).1
  unfold PatternState.stepBound at hok ⊢
  split at hok
  · have := (stepSeparator_progress hok).1
    exact (h.skipInitializer_of_lt (by omega)).stepSeparator hok (by omega)
  · exact h.stepSeparator hok (by omega)
  · have := (stepSeparator_progress hok).1
    exact (h.skipInitializer_of_lt (by omega)).stepSeparator hok (by omega)

/-- A step of the machine in front of the seam is the same over both streams. -/
theorem Matches.step (h : S.Matches s.cursor c') (hok : s.step = .ok (some t))
    (hle : S.old.length ≤ t.cursor.remaining)
    (hlt : t.frames ≠ [] → S.old.length < t.cursor.remaining)
    (hinside : S.old.length < s.cursor.remaining) :
    ∃ n', (moved s c').step = .ok (some (moved t n')) ∧ S.Matches t.cursor n' := by
  obtain ⟨task, frames, names, c⟩ := s
  unfold PatternState.step at hok
  simp only at hok h hinside
  split at hok
  · obtain ⟨t', ht, heq⟩ := map_eq_ok.1 hok
    cases heq
    obtain ⟨n', ht', hn⟩ := h.stepBind ht hle
    exact ⟨n', by simp [moved, PatternState.step, ht', Except.map], hn⟩
  · obtain ⟨t', ht, heq⟩ := map_eq_ok.1 hok
    cases heq
    obtain ⟨n', ht', hn⟩ := h.stepElement ht hinside
    exact ⟨n', by simp [moved, PatternState.step, ht', Except.map], hn⟩
  · next frame frames' hframe =>
    obtain ⟨t', ht, heq⟩ := map_eq_ok.1 hok
    cases heq
    obtain ⟨n', ht', hn⟩ := h.stepMember ht hle hlt
    refine ⟨n', ?_, hn⟩
    cases frame <;> first
      | exact absurd rfl hframe
      | simp [moved, PatternState.step, ht', Except.map]
  · cases hok
  · next frame frames' =>
    obtain ⟨t', ht, heq⟩ := map_eq_ok.1 hok
    cases heq
    obtain ⟨n', ht', hn⟩ := h.stepBound ht (hlt (frames_ne_of_stepBound ht))
    exact ⟨n', by simp [moved, PatternState.step, ht', Except.map], hn⟩
  · cases hok

theorem Matches.run (h : S.Matches s.cursor c') (hok : s.run = .ok (names, n))
    (hle : S.old.length ≤ n.remaining) :
    ∃ n', (moved s c').run = .ok (names, n') ∧ S.Matches n n' := by
  fun_induction PatternState.run s generalizing c' with
  | case1 => cases hok
  | case2 s hstep =>
    cases hok
    refine ⟨c', ?_, h⟩
    obtain ⟨hframes, htask⟩ := step_eq_none.1 hstep
    have hstep' : (moved s c').step = .ok none := step_eq_none.2 ⟨hframes, htask⟩
    rw [PatternState.run]
    split
    · next hfault => simp [hstep'] at hfault
    · rfl
    · next hsome => simp [hstep'] at hsome
  | case3 s t hstep ih =>
    have hle₁ := remaining_le_of_step hstep
    have hle₂ := remaining_le_of_run hok
    have hinside : S.old.length < s.cursor.remaining := by
      by_cases hframes : s.frames = []
      · have htask : s.task = .bind := by
          refine Decidable.byContradiction fun htask => ?_
          simp [step_eq_none.2 ⟨hframes, htask⟩] at hstep
        have := hle₁.2.1 htask
        omega
      · rcases frames_ne_or_remaining_lt hstep hframes with hopen | hlt
        · have := remaining_lt_of_run hok hopen
          omega
        · omega
    obtain ⟨c₁', hstep', h₁⟩ := h.step hstep (by omega)
      (fun hopen => Nat.lt_of_le_of_lt hle (remaining_lt_of_run hok hopen)) hinside
    obtain ⟨n', hrun', hn⟩ := ih h₁ hok
    refine ⟨n', ?_, hn⟩
    rw [PatternState.run]
    split
    · next hfault => simp [hstep'] at hfault
    · next hnone => simp [hstep'] at hnone
    · next t' hsome =>
      rw [hstep', Except.ok.injEq, Option.some.injEq] at hsome
      rwa [← hsome]

theorem Matches.bindingNames (h : S.Matches c c') (hok : c.bindingNames = .ok (names, n))
    (hle : S.old.length ≤ n.remaining) :
    ∃ n', c'.bindingNames = .ok (names, n') ∧ S.Matches n n' := by
  have hstart : S.Matches (PatternState.start c).cursor c' := h
  exact hstart.run hok hle

end Seam

end ComponentRegistry
