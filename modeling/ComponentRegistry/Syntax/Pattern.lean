import ComponentRegistry.Syntax.Reach

/-! # Binding patterns

The names that the left side of a declaration binds. There are three readers, which call each other:
one for whatever is bound, one for objects and one for arrays. They are taken together here into one
machine, which keeps the patterns that are open on a stack where the readers have their calls. Each
step takes a token or turns to a task that will, so the machine stops on every input. It has all the
room that it needs; how deep the calls are, and what comes of it if there is no room for them, is told
in `ComponentRegistry.Syntax.OpenCalls`.
-/

namespace ComponentRegistry

/-- A pattern that is open, and what may follow the part that is read in it. A frame stands for two
open calls: that of the reader of whatever is bound, and that of the reader of an object or an array
which it has called. -/
inductive PatternFrame where
  /-- Braces around a member, which may have an initializer. -/
  | member
  /-- Braces around the rest of an object, which has no initializer. -/
  | objectRest
  /-- Brackets around an element, which may have an initializer. -/
  | element
  deriving Repr, DecidableEq

/-- What the machine does next. -/
inductive PatternTask where
  /-- Read a name or enter a pattern. -/
  | bind
  /-- Read the next part of the innermost pattern, or leave it. -/
  | part
  /-- Read what follows a part: an initializer and a separator. -/
  | bound
  deriving Repr, DecidableEq

/-- A state of the machine. -/
structure PatternState where
  /-- What to do next. -/
  task : PatternTask
  /-- The brackets around the place, innermost first. -/
  frames : List PatternFrame
  /-- The names bound so far. -/
  names : List String
  /-- Where the reading has come to. -/
  cursor : Cursor
  deriving Repr, DecidableEq

namespace PatternState

/-- The start of a pattern. -/
def start (c : Cursor) : PatternState := ⟨.bind, [], [], c⟩

/-- Read a name or enter a pattern. -/
def stepBind (frames : List PatternFrame) (names : List String) (c : Cursor) :
    Except Fault PatternState :=
  if c.atMark .openBrace then .ok ⟨.part, .member :: frames, names, c.advance⟩
  else if c.atMark .openBracket then .ok ⟨.part, .element :: frames, names, c.advance⟩
  else do
    let (name, c) ← c.expectName
    .ok ⟨.bound, frames, names ++ [name.value], c⟩

/-- Read the key of a member, with what it is renamed to. A computed key has to be renamed. -/
def stepKey (frames : List PatternFrame) (names : List String) (c : Cursor) :
    Except Fault PatternState :=
  if c.atMark .openBracket then
    let c := c.skipGroup
    if c.atMark .colon then .ok ⟨.bind, .member :: frames, names, c.advance⟩
    else .error (c.fault fun _ => .unboundComputedProperty)
  else do
    let (key, c) ← c.expectModuleName
    if c.atMark .colon then .ok ⟨.bind, .member :: frames, names, c.advance⟩
    else .ok ⟨.bound, .member :: frames, names ++ [key.value], c⟩

/-- Read the next part of an object pattern, or leave it. -/
def stepMember (frames : List PatternFrame) (names : List String) (c : Cursor) :
    Except Fault PatternState :=
  if c.atMark .closeBrace then .ok ⟨.bound, frames, names, c.advance⟩
  else if c.atMark .ellipsis then .ok ⟨.bind, .objectRest :: frames, names, c.advance⟩
  else stepKey frames names c

/-- Read the next part of an array pattern, or leave it. A comma alone leaves a hole. -/
def stepElement (frames : List PatternFrame) (names : List String) (c : Cursor) :
    Except Fault PatternState :=
  if c.atMark .closeBracket then .ok ⟨.bound, frames, names, c.advance⟩
  else if c.atMark .comma then .ok ⟨.part, .element :: frames, names, c.advance⟩
  else if c.atMark .ellipsis then .ok ⟨.bind, .element :: frames, names, c.advance⟩
  else .ok ⟨.bind, .element :: frames, names, c⟩

/-- Move past an initializer if there is one. -/
def skipInitializer (c : Cursor) : Cursor :=
  if c.atMark .equals then c.advance.skipExpression else c

/-- Read the separator after a part, or see the closing bracket. -/
def stepSeparator (closer : Mark) (cause : FaultCause) (frames : List PatternFrame)
    (names : List String) (c : Cursor) : Except Fault PatternState :=
  if c.atMark .comma then .ok ⟨.part, frames, names, c.advance⟩
  else if c.atMark closer then .ok ⟨.part, frames, names, c⟩
  else .error (c.fault fun _ => cause)

/-- Read what follows a part of the innermost pattern. -/
def stepBound (frame : PatternFrame) (frames : List PatternFrame) (names : List String)
    (c : Cursor) : Except Fault PatternState :=
  match frame with
  | .member =>
    stepSeparator .closeBrace .expectedMemberSeparator (.member :: frames) names
      (skipInitializer c)
  | .objectRest => stepSeparator .closeBrace .expectedMemberSeparator (.member :: frames) names c
  | .element =>
    stepSeparator .closeBracket .expectedElementSeparator (.element :: frames) names
      (skipInitializer c)

/-- One step of the machine. It stands still only when the whole pattern is read. -/
def step (s : PatternState) : Except Fault (Option PatternState) :=
  match s.task, s.frames with
  | .bind, frames => (stepBind frames s.names s.cursor).map some
  | .part, .element :: frames => (stepElement frames s.names s.cursor).map some
  | .part, _ :: frames => (stepMember frames s.names s.cursor).map some
  | .part, [] => .ok none
  | .bound, frame :: frames => (stepBound frame frames s.names s.cursor).map some
  | .bound, [] => .ok none

/-- How soon a task takes a token. -/
def patience : PatternTask → Nat
  | .bind => 0
  | .part => 1
  | .bound => 2

/-- Tokens left, each worth more than any change of task. -/
def measure (s : PatternState) : Nat := 3 * s.cursor.remaining + patience s.task

theorem measure_lt_of_remaining_lt {s t : PatternState}
    (h : t.cursor.remaining < s.cursor.remaining) : t.measure < s.measure := by
  have : patience t.task ≤ 2 := by cases t.task <;> simp [patience]
  simp only [measure]
  omega

/-- Binding takes a token. -/
theorem remaining_lt_of_stepBind {frames : List PatternFrame} {names : List String} {c : Cursor}
    {t : PatternState} (h : stepBind frames names c = .ok t) :
    t.cursor.remaining < c.remaining := by
  unfold stepBind at h
  split at h
  · next hb =>
    cases h
    exact Cursor.remaining_lt_of_atMark hb
  · split at h
    · next hb =>
      cases h
      exact Cursor.remaining_lt_of_atMark hb
    · obtain ⟨⟨name, next⟩, hname, hok⟩ := bind_eq_ok.1 h
      cases hok
      exact Cursor.remaining_lt_of_expectName hname

/-- So does a part of an object pattern. -/
theorem remaining_lt_of_stepKey {frames : List PatternFrame} {names : List String} {c : Cursor}
    {t : PatternState} (h : stepKey frames names c = .ok t) : t.cursor.remaining < c.remaining := by
  unfold stepKey at h
  split at h
  · next hb =>
    have hskip := Cursor.remaining_skipGroup_lt (c := c) (by
      rw [Cursor.kind_of_atMark hb]
      rfl)
    simp only at h
    split at h
    · cases h
      have := Cursor.remaining_advance_le c.skipGroup
      simp only
      omega
    · cases h
  · obtain ⟨⟨key, next⟩, hkey, hok⟩ := bind_eq_ok.1 h
    have hlt := Cursor.remaining_lt_of_expectModuleName hkey
    simp only at hok
    split at hok
    · cases hok
      have := Cursor.remaining_advance_le next
      simp only
      omega
    · cases hok
      exact hlt

theorem remaining_lt_of_stepMember {frames : List PatternFrame} {names : List String} {c : Cursor}
    {t : PatternState} (h : stepMember frames names c = .ok t) :
    t.cursor.remaining < c.remaining := by
  unfold stepMember at h
  split at h
  · next hb =>
    cases h
    exact Cursor.remaining_lt_of_atMark hb
  · split at h
    · next hb =>
      cases h
      exact Cursor.remaining_lt_of_atMark hb
    · exact remaining_lt_of_stepKey h

/-- A part of an array pattern takes a token, or turns to binding. -/
theorem stepElement_progress {frames : List PatternFrame} {names : List String} {c : Cursor}
    {t : PatternState} (h : stepElement frames names c = .ok t) :
    t.cursor.remaining < c.remaining ∨ (t.cursor = c ∧ t.task = .bind) := by
  unfold stepElement at h
  split at h
  · next hb =>
    cases h
    exact .inl (Cursor.remaining_lt_of_atMark hb)
  · split at h
    · next hb =>
      cases h
      exact .inl (Cursor.remaining_lt_of_atMark hb)
    · split at h
      · next hb =>
        cases h
        exact .inl (Cursor.remaining_lt_of_atMark hb)
      · cases h
        exact .inr ⟨rfl, rfl⟩

theorem remaining_skipInitializer_le (c : Cursor) :
    (skipInitializer c).remaining ≤ c.remaining := by
  unfold skipInitializer
  split
  · exact Nat.le_trans (Cursor.remaining_skipExpression_le _) (Cursor.remaining_advance_le _)
  · exact Nat.le_refl _

theorem stepSeparator_progress {closer : Mark} {cause : FaultCause} {frames : List PatternFrame}
    {names : List String} {c : Cursor} {t : PatternState}
    (h : stepSeparator closer cause frames names c = .ok t) :
    t.cursor.remaining ≤ c.remaining ∧ t.task = .part := by
  unfold stepSeparator at h
  split at h
  · cases h
    exact ⟨Cursor.remaining_advance_le _, rfl⟩
  · split at h
    · cases h
      exact ⟨Nat.le_refl _, rfl⟩
    · cases h

/-- What follows a part is read before the next part. -/
theorem stepBound_progress {frame : PatternFrame} {frames : List PatternFrame}
    {names : List String} {c : Cursor} {t : PatternState}
    (h : stepBound frame frames names c = .ok t) :
    t.cursor.remaining ≤ c.remaining ∧ t.task = .part := by
  unfold stepBound at h
  split at h
  · have := stepSeparator_progress h
    have := remaining_skipInitializer_le c
    exact ⟨by omega, by simp_all⟩
  · exact stepSeparator_progress h
  · have := stepSeparator_progress h
    have := remaining_skipInitializer_le c
    exact ⟨by omega, by simp_all⟩

/-- A step never gives a token back, and a binding step takes one. -/
theorem remaining_le_of_step {s t : PatternState} (h : s.step = .ok (some t)) :
    t.cursor.remaining ≤ s.cursor.remaining ∧
      (s.task = .bind → t.cursor.remaining < s.cursor.remaining) ∧ t.measure < s.measure := by
  obtain ⟨task, frames, names, c⟩ := s
  unfold step at h
  simp only at h
  split at h
  · cases hstep : stepBind frames names c <;> rw [hstep] at h <;> cases h
    have hlt := remaining_lt_of_stepBind hstep
    exact ⟨Nat.le_of_lt hlt, fun _ => hlt, measure_lt_of_remaining_lt hlt⟩
  · next frames' =>
    cases hstep : stepElement frames' names c <;> rw [hstep] at h <;> cases h
    rcases stepElement_progress hstep with hlt | ⟨heq, htask⟩
    · exact ⟨Nat.le_of_lt hlt, nofun, measure_lt_of_remaining_lt hlt⟩
    · refine ⟨by simp [heq], nofun, ?_⟩
      simp [measure, heq, htask, patience]
  · next frame frames' _ =>
    cases hstep : stepMember frames' names c <;> rw [hstep] at h <;> cases h
    have hlt := remaining_lt_of_stepMember hstep
    exact ⟨Nat.le_of_lt hlt, nofun, measure_lt_of_remaining_lt hlt⟩
  · cases h
  · next frame frames' =>
    cases hstep : stepBound frame frames' names c <;> rw [hstep] at h <;> cases h
    obtain ⟨hle, htask⟩ := stepBound_progress hstep
    refine ⟨hle, nofun, ?_⟩
    simp only [measure, htask, patience]
    omega
  · cases h

/-- Run the machine to its end: the names in the order of the text, and where the pattern ends. -/
def run (s : PatternState) : Except Fault (List String × Cursor) :=
  match _h : s.step with
  | .error fault => .error fault
  | .ok none => .ok (s.names, s.cursor)
  | .ok (some t) => run t
termination_by s.measure
decreasing_by exact (remaining_le_of_step _h).2.2

theorem remaining_le_of_run {s : PatternState} {names : List String} {next : Cursor}
    (h : s.run = .ok (names, next)) : next.remaining ≤ s.cursor.remaining := by
  fun_induction run s with
  | case1 => cases h
  | case2 =>
    cases h
    exact Nat.le_refl _
  | case3 s t hstep ih => exact Nat.le_trans (ih h) (remaining_le_of_step hstep).1

end PatternState

namespace Cursor

/-- Move past a name or a pattern, and list the names that it binds. -/
def bindingNames (c : Cursor) : Except Fault (List String × Cursor) := (PatternState.start c).run

theorem remaining_lt_of_bindingNames {c next : Cursor} {names : List String}
    (h : c.bindingNames = .ok (names, next)) : next.remaining < c.remaining := by
  unfold bindingNames at h
  rw [PatternState.run] at h
  split at h
  · cases h
  · next hstep =>
    simp only [PatternState.start, PatternState.step] at hstep
    cases hb : PatternState.stepBind [] [] c <;> rw [hb] at hstep <;> cases hstep
  · next t hstep =>
    have hlt := (PatternState.remaining_le_of_step hstep).2.1 rfl
    exact Nat.lt_of_le_of_lt (PatternState.remaining_le_of_run h) hlt

end Cursor

end ComponentRegistry
