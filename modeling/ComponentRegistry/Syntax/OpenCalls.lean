import ComponentRegistry.Syntax.Outline

/-! # Reading with limited room for calls

Patterns are read by three readers that call each other: one for whatever is bound, which leaves
objects and arrays to the other two, and these call it for each of their parts. A call stays open
until all that it calls are done, and the program stops when more calls are open than it has room
for. The frames of `PatternState` are the patterns that are open, so that they tell how many calls
are. No other reader calls itself.
-/

namespace ComponentRegistry

/-- Why a text has no outline when the room for calls is limited. -/
inductive Halt where
  | fault (fault : Fault)
  /-- There is no room for another call. -/
  | exhausted
  deriving Repr, DecidableEq

namespace PatternState

/-- How many calls are open: for each pattern around the place, one for what is bound there and one
for the object or the array, and one more where something is about to be bound. -/
def openCalls (s : PatternState) : Nat :=
  2 * s.frames.length + if s.task = .bind then 1 else 0

/-- Run the machine to its end, or to where there is no room for its calls. -/
def runWithin (room : Nat) (s : PatternState) : Except Halt (List String × Cursor) :=
  if s.openCalls ≤ room then
    match _h : s.step with
    | .error fault => .error (.fault fault)
    | .ok none => .ok (s.names, s.cursor)
    | .ok (some t) => runWithin room t
  else .error .exhausted
termination_by s.measure
decreasing_by exact (remaining_le_of_step _h).2.2

/-- What the machine reads in limited room, it reads in any. -/
theorem run_of_runWithin {room : Nat} {s : PatternState} {result : List String × Cursor}
    (h : s.runWithin room = .ok result) : s.run = .ok result := by
  fun_induction runWithin room s with
  | case1 => cases h
  | case2 s _ hstep =>
    rw [run]
    split <;> rename_i heq <;> rw [hstep] at heq <;> cases heq
    cases h
    rfl
  | case3 s _ t hstep ih =>
    rw [run]
    split <;> rename_i heq <;> rw [hstep] at heq <;> cases heq
    exact ih h
  | case4 => cases h

end PatternState

namespace Cursor

variable {room : Nat} {c next : Cursor}

/-- Move past a name or a pattern in limited room, and list the names that it binds. -/
def bindingNamesWithin (room : Nat) (c : Cursor) : Except Halt (List String × Cursor) :=
  (PatternState.start c).runWithin room

/-- The names that a list of declarators binds, as in `declarators`, in limited room. -/
def declaratorsWithin (room : Nat) (c : Cursor) :
    Except Halt ((List String × Option Token) × Cursor) :=
  match _names : c.bindingNamesWithin room with
  | .error halt => .error halt
  | .ok (names, next) =>
    if next.skipDeclaratorRest.atMark .comma then
      (declaratorsWithin room next.skipDeclaratorRest.advance).map fun ((more, _), c) =>
        ((names ++ more, next.skipAnnotation.asyncInitializer), c)
    else .ok ((names, next.skipAnnotation.asyncInitializer), next.skipDeclaratorRest)
termination_by c.remaining
decreasing_by
  have := remaining_lt_of_bindingNames (PatternState.run_of_runWithin _names)
  have := remaining_skipDeclaratorRest_le next
  have := remaining_advance_le next.skipDeclaratorRest
  omega

theorem remaining_lt_of_declaratorsWithin {found : List String × Option Token}
    (h : c.declaratorsWithin room = .ok (found, next)) : next.remaining < c.remaining := by
  fun_induction declaratorsWithin room c generalizing found with
  | case1 => cases h
  | case2 c names c₁ hnames _ ih =>
    have := remaining_lt_of_bindingNames (PatternState.run_of_runWithin hnames)
    have := remaining_skipDeclaratorRest_le c₁
    have := remaining_advance_le c₁.skipDeclaratorRest
    obtain ⟨⟨found', c₂⟩, hrest, h⟩ := map_eq_ok.1 h
    cases h
    have := ih hrest
    omega
  | case3 c names c₁ hnames _ =>
    have := remaining_lt_of_bindingNames (PatternState.run_of_runWithin hnames)
    have := remaining_skipDeclaratorRest_le c₁
    cases h
    omega

/-- What stands after the word `export`, in limited room. Patterns are read in declarations of
variables only. -/
def exportFormWithin (room : Nat) (c : Cursor) : Except Halt (ExportForm × Cursor) :=
  let m := c.modifiers.1
  let d := c.modifiers.2
  match variableKind? d.kind, d.atEnumeration with
  | some kind, false => do
    let (found, next) ← d.advance.declaratorsWithin room
    .ok (.declaration kind d.current (m.async <|> found.2) found.1 m.ambient, next)
  | _, _ => c.exportForm.mapError .fault

theorem remaining_le_of_exportFormWithin {form : ExportForm}
    (h : c.exportFormWithin room = .ok (form, next)) : next.remaining ≤ c.remaining := by
  unfold exportFormWithin at h
  dsimp only at h
  split at h
  · obtain ⟨⟨found, n⟩, hfound, h⟩ := bind_eq_ok.1 h
    cases h
    have hlt : n.remaining < c.modifiers.2.advance.remaining :=
      remaining_lt_of_declaratorsWithin hfound
    have := remaining_advance_le c.modifiers.2
    have : c.modifiers.2.remaining ≤ c.remaining := remaining_modifiersFrom_le _ c
    change n.remaining ≤ c.remaining
    omega
  · cases hform : c.exportForm <;> rw [hform] at h <;> cases h
    exact remaining_le_of_exportForm hform

/-- A whole export statement, in limited room. -/
def exportStatementWithin (room : Nat) (c : Cursor) : Except Halt (ExportStatement × Cursor) := do
  let (start, c) ← (c.expect (.keyword .exportWord)).mapError .fault
  let (form, c) ← c.exportFormWithin room
  let ending := c.exportEnding form
  .ok (⟨form, ending.1, ⟨start.start, ending.2.passedOffset⟩⟩, ending.2)

theorem remaining_lt_of_exportStatementWithin {s : ExportStatement}
    (h : c.exportStatementWithin room = .ok (s, next)) : next.remaining < c.remaining := by
  obtain ⟨⟨start, c₁⟩, hstart, h⟩ := bind_eq_ok.1 h
  obtain ⟨⟨form, c₂⟩, hform, h⟩ := bind_eq_ok.1 h
  cases hexpect : c.expect (.keyword .exportWord) <;> rw [hexpect] at hstart <;> cases hstart
  have := remaining_lt_of_expect (by simp) hexpect
  have := remaining_le_of_exportFormWithin hform
  have := remaining_exportEnding_le form c₂
  cases h
  omega

/-- The statements from here on, inside of `depth` brackets, in limited room. -/
def outlineFromWithin (room depth : Nat) (c : Cursor) : Except Halt Outline :=
  if _done : c.kind = .endOfInput then .ok ⟨[], []⟩
  else if depth = 0 ∧ c.startsImport then
    match _statement : c.importStatement with
    | .error fault => .error (.fault fault)
    | .ok (statement, next) =>
      (outlineFromWithin room 0 next).map fun rest =>
        { rest with imports := statement.toList ++ rest.imports }
  else if depth = 0 ∧ c.startsExport then
    match _statement : c.exportStatementWithin room with
    | .error halt => .error halt
    | .ok (statement, next) =>
      (outlineFromWithin room 0 next).map fun rest =>
        { rest with exports := statement :: rest.exports }
  else outlineFromWithin room (Reach.depthAfter depth c.current) c.advance
termination_by c.remaining
decreasing_by
  · exact remaining_lt_of_importStatement _statement
  · exact remaining_lt_of_exportStatementWithin _statement
  · exact remaining_advance_lt _done

end Cursor

/-- The import and export statements of a text, with room for a number of calls that read
patterns. -/
def outlineWithin (room : Nat) (text : List Char) : Except Halt Outline := do
  let stream ← (tokenize text).mapError .fault
  (Cursor.ofStream stream).outlineFromWithin room 0

end ComponentRegistry
