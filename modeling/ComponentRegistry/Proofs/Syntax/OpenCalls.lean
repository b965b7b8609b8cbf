import ComponentRegistry.Proofs.Outcome
import ComponentRegistry.Proofs.Syntax.Concatenation
import ComponentRegistry.Syntax.OpenCalls

/-! # How much room reading takes

A pattern is entered at a bracket, so there are never more patterns open than brackets were passed.
With room for two calls to each brace and bracket of a text, and one more, the text is read as in
unlimited room. With less room the calls may become too many, and then nothing is read.
-/

namespace ComponentRegistry

variable {α β : Type} {bound : Nat}

/-- In room for so many calls a reader does what another one does in unlimited room, and in less it is
exhausted. -/
def Needs (calls : Nat) (within : Nat → Except Halt α) (read : Except Fault α) : Prop :=
  ∀ room, within room = if calls ≤ room then read.mapError .fault else .error .exhausted

/-- The calls that a reader needs are at most so many. -/
def NeedsAtMost (bound : Nat) (within : Nat → Except Halt α) (read : Except Fault α) : Prop :=
  ∃ calls ≤ bound, Needs calls within read

namespace NeedsAtMost

/-- What is read in limited room is read in any. -/
theorem eq_ok {room : Nat} {within : Nat → Except Halt α} {read : Except Fault α}
    (h : NeedsAtMost bound within read) {a : α} (hok : within room = .ok a) : read = .ok a := by
  obtain ⟨calls, -, h⟩ := h
  rw [h room] at hok
  split at hok
  · exact mapError_eq_ok.1 hok
  · cases hok

theorem plain (read : Except Fault α) :
    NeedsAtMost bound (fun _ => read.mapError .fault) read :=
  ⟨0, Nat.zero_le _, fun room => by rw [if_pos (Nat.zero_le _)]⟩

/-- Of two readers in turn the one that needs more tells what both need. -/
theorem bind {x : Nat → Except Halt α} {x' : Except Fault α} {f : Nat → α → Except Halt β}
    {f' : α → Except Fault β} (hx : NeedsAtMost bound x x')
    (hf : ∀ a, x' = .ok a → NeedsAtMost bound (fun room => f room a) (f' a)) :
    NeedsAtMost bound (fun room => x room >>= f room) (x' >>= f') := by
  obtain ⟨calls, hcalls, hx⟩ := hx
  cases x' with
  | error fault =>
    refine ⟨calls, hcalls, fun room => ?_⟩
    dsimp only
    rw [hx room]
    split <;> rfl
  | ok a =>
    obtain ⟨more, hmore, hf⟩ := hf a rfl
    refine ⟨max calls more, by omega, fun room => ?_⟩
    have hfirst : x room = if calls ≤ room then .ok a else .error .exhausted := hx room
    dsimp only
    rw [hfirst]
    by_cases hroom : calls ≤ room
    · have hsame : max calls more ≤ room ↔ more ≤ room := by omega
      simp only [if_pos hroom, hsame]
      exact hf room
    · rw [if_neg hroom, if_neg (by omega)]
      rfl

theorem map {x : Nat → Except Halt α} {x' : Except Fault α} (hx : NeedsAtMost bound x x')
    (f : α → β) : NeedsAtMost bound (fun room => (x room).map f) (x'.map f) := by
  obtain ⟨calls, hcalls, hx⟩ := hx
  refine ⟨calls, hcalls, fun room => ?_⟩
  dsimp only
  rw [hx room]
  cases x' <;> split <;> rfl

end NeedsAtMost

/-- The brackets ahead at which a pattern may be entered. -/
def Cursor.openers (c : Cursor) : Nat :=
  c.ahead.countP (·.kind ∈ ([.mark .openBrace, .mark .openBracket] : List TokenKind))

theorem Cursor.Reaches.openers_le {c n : Cursor} (h : Reaches c n) : n.openers ≤ c.openers :=
  h.suffix.sublist.countP_le

theorem Cursor.openers_advance {c : Cursor}
    (h : c.kind ∈ ([.mark .openBrace, .mark .openBracket] : List TokenKind)) :
    c.openers = c.advance.openers + 1 := by
  obtain ⟨rest, hrest⟩ := exists_cons_of_kind (c := c) (by rintro hk; simp [hk] at h)
  rw [openers, openers, ahead_advance hrest, hrest, List.countP_cons_of_pos (by simpa [kind] using h)]

namespace PatternState

variable {s t : PatternState} {frames : List PatternFrame} {names : List String} {c : Cursor}

/-- Patterns that are open, and those that may still be entered. -/
def patterns (s : PatternState) : Nat := s.frames.length + s.cursor.openers

theorem patterns_le_of_stepBind (h : stepBind frames names c = .ok t) :
    t.patterns ≤ frames.length + c.openers := by
  unfold stepBind at h
  split at h
  · next hb =>
    cases h
    have := Cursor.openers_advance (c := c) (by simp [Cursor.kind_of_atMark hb])
    simp only [patterns, List.length_cons]
    omega
  · split at h
    · next hb =>
      cases h
      have := Cursor.openers_advance (c := c) (by simp [Cursor.kind_of_atMark hb])
      simp only [patterns, List.length_cons]
      omega
    · obtain ⟨⟨name, n⟩, hname, h⟩ := bind_eq_ok.1 h
      cases h
      have := (Cursor.passes_of_expectName hname).1.reaches.openers_le
      simp only [patterns]
      omega

/-- The place of a step inside of a pattern goes forward, and the pattern is left or stays. -/
theorem patterns_le_of_length (hreach : Cursor.Reaches c t.cursor)
    (hlength : t.frames.length ≤ frames.length + 1) :
    t.patterns ≤ frames.length + 1 + c.openers := by
  have := hreach.openers_le
  simp only [patterns]
  omega

theorem length_of_stepKey (h : stepKey frames names c = .ok t) :
    t.frames.length ≤ frames.length + 1 := by
  unfold stepKey at h
  split at h
  · dsimp only at h
    split at h <;> cases h
    simp
  · obtain ⟨⟨key, n⟩, -, h⟩ := bind_eq_ok.1 h
    dsimp only at h
    split at h <;> cases h <;> simp

theorem length_of_stepMember (h : stepMember frames names c = .ok t) :
    t.frames.length ≤ frames.length + 1 := by
  unfold stepMember at h
  split at h
  · cases h
    simp
  · split at h
    · cases h
      simp
    · exact length_of_stepKey h

theorem length_of_stepElement (h : stepElement frames names c = .ok t) :
    t.frames.length ≤ frames.length + 1 := by
  unfold stepElement at h
  split at h
  · cases h
    simp
  · split at h
    · cases h
      simp
    · split at h <;> cases h <;> simp

theorem length_of_stepSeparator {closer : Mark} {cause : FaultCause}
    (h : stepSeparator closer cause frames names c = .ok t) : t.frames = frames := by
  unfold stepSeparator at h
  split at h
  · cases h
    rfl
  · split at h <;> cases h
    rfl

theorem length_of_stepBound {frame : PatternFrame} (h : stepBound frame frames names c = .ok t) :
    t.frames.length ≤ frames.length + 1 := by
  unfold stepBound at h
  split at h <;> simp [length_of_stepSeparator h]

/-- No step makes more of the patterns that are open or may be entered. -/
theorem patterns_le_of_step (h : s.step = .ok (some t)) : t.patterns ≤ s.patterns := by
  have hreach := reaches_of_step h
  obtain ⟨task, frames, names, c⟩ := s
  unfold step at h
  simp only at h hreach
  split at h
  · cases hstep : stepBind frames names c <;> rw [hstep] at h <;> cases h
    exact patterns_le_of_stepBind hstep
  · next frames' =>
    cases hstep : stepElement frames' names c <;> rw [hstep] at h <;> cases h
    exact patterns_le_of_length hreach (length_of_stepElement hstep)
  · next frame frames' _ =>
    cases hstep : stepMember frames' names c <;> rw [hstep] at h <;> cases h
    exact patterns_le_of_length hreach (length_of_stepMember hstep)
  · cases h
  · next frame frames' =>
    cases hstep : stepBound frame frames' names c <;> rw [hstep] at h <;> cases h
    exact patterns_le_of_length hreach (length_of_stepBound hstep)
  · cases h

theorem openCalls_le (s : PatternState) : s.openCalls ≤ 2 * s.patterns + 1 := by
  simp only [openCalls, patterns]
  split <;> omega

/-- The machine needs as many calls as are open at any of its steps. -/
theorem needsAtMost_run (s : PatternState) (h : 2 * s.patterns + 1 ≤ bound) :
    NeedsAtMost bound (fun room => s.runWithin room) s.run := by
  have hcalls := s.openCalls_le
  fun_induction run s with
  | case1 s fault hstep =>
    refine ⟨s.openCalls, by omega, fun room => ?_⟩
    dsimp only
    rw [runWithin]
    split
    · split <;> rename_i heq <;> rw [hstep] at heq <;> cases heq
      rfl
    · rfl
  | case2 s hstep =>
    refine ⟨s.openCalls, by omega, fun room => ?_⟩
    dsimp only
    rw [runWithin]
    split
    · split <;> rename_i heq <;> rw [hstep] at heq <;> cases heq
      rfl
    · rfl
  | case3 s t hstep ih =>
    have hpatterns := patterns_le_of_step hstep
    obtain ⟨calls, hle, hneeds⟩ := ih (by omega) t.openCalls_le
    refine ⟨max s.openCalls calls, by omega, fun room => ?_⟩
    have hlater : t.runWithin room =
        if calls ≤ room then t.run.mapError .fault else .error .exhausted := hneeds room
    dsimp only
    rw [runWithin]
    by_cases hroom : s.openCalls ≤ room
    · have hsame : max s.openCalls calls ≤ room ↔ calls ≤ room := by omega
      rw [if_pos hroom]
      split <;> rename_i heq <;> rw [hstep] at heq <;> cases heq
      simp only [hlater, hsame]
    · rw [if_neg hroom, if_neg (by omega)]

end PatternState

namespace Cursor

variable {c n : Cursor}

theorem needsAtMost_bindingNames (c : Cursor) (h : 2 * c.openers + 1 ≤ bound) :
    NeedsAtMost bound (fun room => c.bindingNamesWithin room) c.bindingNames :=
  PatternState.needsAtMost_run _ (by simpa [PatternState.patterns, PatternState.start] using h)

theorem declarators_eq_bind (c : Cursor) : c.declarators = c.bindingNames >>= fun bound =>
    if bound.2.skipDeclaratorRest.atMark .comma then
      bound.2.skipDeclaratorRest.advance.declarators.map fun found =>
        ((bound.1 ++ found.1.1, (Cursor.skipAnnotation bound.2).asyncInitializer), found.2)
    else .ok ((bound.1, (Cursor.skipAnnotation bound.2).asyncInitializer),
      bound.2.skipDeclaratorRest) := by
  rw [declarators]
  split <;> rename_i heq <;> rw [heq] <;> rfl

theorem declaratorsWithin_eq_bind (room : Nat) (c : Cursor) :
    c.declaratorsWithin room = c.bindingNamesWithin room >>= fun bound =>
      if bound.2.skipDeclaratorRest.atMark .comma then
        (bound.2.skipDeclaratorRest.advance.declaratorsWithin room).map fun found =>
          ((bound.1 ++ found.1.1, (Cursor.skipAnnotation bound.2).asyncInitializer), found.2)
      else .ok ((bound.1, (Cursor.skipAnnotation bound.2).asyncInitializer),
      bound.2.skipDeclaratorRest) := by
  rw [declaratorsWithin]
  split <;> rename_i heq <;> rw [heq] <;> rfl

theorem needsAtMost_declarators (c : Cursor) (h : 2 * c.openers + 1 ≤ bound) :
    NeedsAtMost bound (fun room => c.declaratorsWithin room) c.declarators := by
  induction hn : c.remaining using Nat.strongRecOn generalizing c with
  | ind k ih =>
    rw [funext fun room => declaratorsWithin_eq_bind room c, declarators_eq_bind c]
    refine (needsAtMost_bindingNames c h).bind fun found hfound => ?_
    obtain ⟨names, m⟩ := found
    split
    · have hlt := remaining_lt_of_bindingNames hfound
      have hrest := remaining_skipDeclaratorRest_le m
      have hadvance := remaining_advance_le m.skipDeclaratorRest
      have hreach := ((reaches_of_bindingNames hfound).trans (reaches_skipDeclaratorRest m)).trans
        (reaches_advance _)
      have hopeners := hreach.openers_le
      exact (ih _ (by omega) m.skipDeclaratorRest.advance (by omega) rfl).map _
    · exact .plain (.ok _)

theorem needsAtMost_exportForm (c : Cursor) (h : 2 * c.openers + 1 ≤ bound) :
    NeedsAtMost bound (fun room => c.exportFormWithin room) c.exportForm := by
  simp only [exportFormWithin]
  split
  · next kind hkind hlist =>
    rw [exportForm_of_variable (by rw [hkind]; rfl), exportDeclaration,
      declared_of_variable hkind hlist]
    have hreach := (reaches_modifiersFrom ⟨false, none⟩ c).trans (reaches_advance _)
    have hopeners := hreach.openers_le
    exact (needsAtMost_declarators _ (by simp only [modifiers]; omega)).bind fun found _ =>
      .plain (.ok _)
  · exact .plain _

theorem needsAtMost_exportStatement (c : Cursor) (h : 2 * c.openers + 1 ≤ bound) :
    NeedsAtMost bound (fun room => c.exportStatementWithin room) c.exportStatement := by
  simp only [exportStatementWithin, exportStatement]
  refine (NeedsAtMost.plain (c.expect (.keyword .exportWord))).bind fun first hfirst => ?_
  have hopeners := (passes_of_expect (by simp) hfirst).1.reaches.openers_le
  refine (needsAtMost_exportForm first.2 (by omega)).bind fun form _ => ?_
  exact .plain (.ok _)

theorem outlineFrom_eq_bind (depth : Nat) (c : Cursor) : c.outlineFrom depth =
    if c.kind = .endOfInput then .ok ⟨[], []⟩
    else if depth = 0 ∧ c.startsImport then
      c.importStatement >>= fun found => (found.2.outlineFrom 0).map fun rest =>
        { rest with imports := found.1.toList ++ rest.imports }
    else if depth = 0 ∧ c.startsExport then
      c.exportStatement >>= fun found => (found.2.outlineFrom 0).map fun rest =>
        { rest with exports := found.1 :: rest.exports }
    else c.advance.outlineFrom (Reach.depthAfter depth c.current) := by
  rw [outlineFrom]
  split
  · rfl
  split
  · split <;> rename_i heq <;> rw [heq] <;> rfl
  split
  · split <;> rename_i heq <;> rw [heq] <;> rfl
  · rfl

theorem outlineFromWithin_eq_bind (room depth : Nat) (c : Cursor) : c.outlineFromWithin room depth =
    if c.kind = .endOfInput then .ok ⟨[], []⟩
    else if depth = 0 ∧ c.startsImport then
      c.importStatement.mapError .fault >>= fun found => (found.2.outlineFromWithin room 0).map
        fun rest => { rest with imports := found.1.toList ++ rest.imports }
    else if depth = 0 ∧ c.startsExport then
      c.exportStatementWithin room >>= fun found => (found.2.outlineFromWithin room 0).map
        fun rest => { rest with exports := found.1 :: rest.exports }
    else c.advance.outlineFromWithin room (Reach.depthAfter depth c.current) := by
  rw [outlineFromWithin]
  split
  · rfl
  split
  · split <;> rename_i heq <;> rw [heq] <;> rfl
  split
  · split <;> rename_i heq <;> rw [heq] <;> rfl
  · rfl

/-- The search for statements needs no more than its patterns do. -/
theorem needsAtMost_outlineFrom (depth : Nat) (c : Cursor) (h : 2 * c.openers + 1 ≤ bound) :
    NeedsAtMost bound (fun room => c.outlineFromWithin room depth) (c.outlineFrom depth) := by
  induction hn : c.remaining using Nat.strongRecOn generalizing depth c with
  | ind k ih =>
    rw [funext fun room => outlineFromWithin_eq_bind room depth c, outlineFrom_eq_bind]
    split
    · exact .plain (.ok _)
    split
    · refine (NeedsAtMost.plain c.importStatement).bind fun found hfound => ?_
      have hopeners := (reaches_of_importStatement hfound).1.openers_le
      have hlt := remaining_lt_of_importStatement hfound
      exact (ih _ (by omega) 0 found.2 (by omega) rfl).map _
    split
    · refine (needsAtMost_exportStatement c h).bind fun found hfound => ?_
      have hopeners := (reaches_of_exportStatement hfound).1.openers_le
      have hlt := remaining_lt_of_exportStatement hfound
      exact (ih _ (by omega) 0 found.2 (by omega) rfl).map _
    · next hend _ _ =>
      have hopeners := (reaches_advance c).openers_le
      have hlt := remaining_advance_lt hend
      exact ih _ (by omega) _ c.advance (by omega) rfl

end Cursor

/-- The room that a text takes is bounded by its brackets. -/
theorem needsAtMost_outline {text : List Char} {s : TokenStream} (hs : tokenize text = .ok s)
    (h : 2 * (Cursor.ofStream s).openers + 1 ≤ bound) :
    NeedsAtMost bound (fun room => outlineWithin room text) (outline text) := by
  simp only [outlineWithin, outline, hs]
  exact Cursor.needsAtMost_outlineFrom 0 _ h

end ComponentRegistry
