import Mathlib.Logic.Relation
import ComponentRegistry.Proofs.Syntax.Passing

/-! # Loops that move on

Every turn of a loop takes a token or is the last one, on malformed texts as well. So a loop is left
after at most one turn for each token ahead, and one more. The machine that reads patterns may turn
to other tasks in between, but it does not come to the next part of a pattern without taking a token.
-/

namespace ComponentRegistry

/-- What one turn of a loop does. -/
inductive Turn (σ α : Type) where
  /-- It leaves the loop with this result. -/
  | last (result : Except Fault α)
  /-- The next turn begins in this state, and this is made of what comes of it. -/
  | next (state : σ) (collect : α → α)

/-- A loop goes round a number of times, the last time from a certain state, and has a result. -/
inductive Turn.Runs {σ α : Type} (turn : σ → Turn σ α) : σ → Nat → σ → Except Fault α → Prop where
  | last {s : σ} {result : Except Fault α} (left : turn s = .last result) :
      Runs turn s 1 s result
  | next {s t u : σ} {collect : α → α} {turns : Nat} {result : Except Fault α}
      (again : turn s = .next t collect) (later : Runs turn t turns u result) :
      Runs turn s (turns + 1) u (result.map collect)

/-- Passing over some tokens, at least one. -/
def Cursor.MovesOn (c n : Cursor) : Prop := ∃ t passed, Passes c n (t :: passed)

/-- A function is a loop of which every turn takes a token or is the last. -/
structure IsLoop {σ α : Type} (place : σ → Cursor) (f : σ → Except Fault α) (turn : σ → Turn σ α) :
    Prop where
  unfolds : ∀ s, f s = match turn s with
    | .last result => result
    | .next t collect => (f t).map collect
  moves : ∀ s t collect, turn s = .next t collect → (place s).MovesOn (place t)

namespace Cursor

variable {c n m : Cursor}

theorem MovesOn.reaches (h : c.MovesOn n) : Reaches c n :=
  let ⟨_, _, h⟩ := h
  h.reaches

theorem MovesOn.remaining_lt (h : c.MovesOn n) : n.remaining < c.remaining := by
  obtain ⟨t, passed, hpass⟩ := h
  simp only [remaining, hpass.ahead, List.length_append, List.length_cons]
  omega

/-- A reader that goes forward and leaves fewer tokens has taken one. -/
theorem Reaches.movesOn (h : Reaches c n) (hlt : n.remaining < c.remaining) : c.MovesOn n := by
  obtain ⟨passed, hpass⟩ := h
  cases passed with
  | nil =>
    rw [hpass.eq_of_nil] at hlt
    exact absurd hlt (Nat.lt_irrefl _)
  | cons t passed => exact ⟨t, passed, hpass⟩

theorem MovesOn.trans (h : c.MovesOn n) (later : Reaches n m) : c.MovesOn m :=
  (h.reaches.trans later).movesOn (Nat.lt_of_le_of_lt later.remaining_le h.remaining_lt)

theorem Reaches.trans_movesOn (h : Reaches c n) (later : n.MovesOn m) : c.MovesOn m :=
  (h.trans later.reaches).movesOn (Nat.lt_of_lt_of_le later.remaining_lt h.remaining_le)

theorem movesOn_advance (h : c.kind ≠ .endOfInput) : c.MovesOn c.advance := ⟨_, _, passes_advance h⟩

theorem movesOn_of_cons {t : Token} {rest : List Token} (h : c.ahead = t :: rest) :
    c.MovesOn c.advance := ⟨t, [], passes_cons h⟩

end Cursor

/-- A loop of which every turn takes a token is left in time. -/
theorem IsLoop.exists_run {σ α : Type} {place : σ → Cursor} {f : σ → Except Fault α}
    {turn : σ → Turn σ α} (h : IsLoop place f turn) (s : σ) :
    ∃ turns last, Turn.Runs turn s turns last (f s) ∧ turns ≤ (place s).remaining + 1 ∧
      Cursor.Reaches (place s) (place last) := by
  -- the tokens ahead get fewer from turn to turn
  induction hn : (place s).remaining using Nat.strongRecOn generalizing s with
  | ind n ih =>
    have hunfold := h.unfolds s
    cases hturn : turn s with
    | last result =>
      rw [hturn] at hunfold
      rw [hunfold]
      exact ⟨1, s, .last hturn, by omega, .refl _⟩
    | next t collect =>
      rw [hturn] at hunfold
      have hmoves := h.moves s t collect hturn
      have hlt := hmoves.remaining_lt
      obtain ⟨turns, last, hrun, hle, hreaches⟩ := ih _ (hn ▸ hlt) t rfl
      rw [hunfold]
      exact ⟨turns + 1, last, .next hturn hrun, by omega, hmoves.reaches.trans hreaches⟩

/-- The state from which a loop is left tells the result, but for what the turns before it add. -/
theorem Turn.Runs.exists_last {σ α : Type} {turn : σ → Turn σ α} {s last : σ} {turns : Nat}
    {result : Except Fault α} (h : Turn.Runs turn s turns last result) {a : α}
    (hok : result = .ok a) : ∃ b, turn last = .last (.ok b) := by
  induction h generalizing a with
  | last left => exact ⟨a, by rw [left, hok]⟩
  | next _ _ ih =>
    obtain ⟨b, hb, -⟩ := map_eq_ok.1 hok
    exact ih hb

namespace Reach

/-- One turn of passing over tokens. At the end of the text nothing is left to pass over, and a token
may stop the loop, which is then left from where it stands or from behind the token. -/
def passTurn {σ : Type} (stops : σ → Option Token → Token → Bool)
    (after : σ → Option Token → Token → σ) (leave : Cursor → Cursor) :
    σ × Cursor → Turn (σ × Cursor) Cursor
  | (state, c) =>
    match c.ahead with
    | [] => .last (.ok c)
    | token :: _ =>
      if stops state c.previous token then .last (.ok (leave c))
      else .next (after state c.previous token, c.advance) id

/-- One turn of passing over an expression, inside of brackets and lists of type arguments. -/
def expressionTurn : (Nat × Nat) × Cursor → Turn ((Nat × Nat) × Cursor) Cursor :=
  passTurn
    (fun (depth, angles) previous token =>
      depth == 0 && stopsExpression (anglesAfter angles previous token) previous token)
    (fun (depth, angles) previous token =>
      (depthAfter depth token, anglesAfter angles previous token)) id

/-- One turn of passing over a type, inside of brackets. -/
def typeTurn : Int × Cursor → Turn (Int × Cursor) Cursor :=
  passTurn (fun depth previous token => depth == 0 && stopsType previous token)
    (fun depth _ token => typeDepthAfter depth token) id

/-- One turn of passing over a bracketed group. -/
def groupTurn : Nat × Cursor → Turn (Nat × Cursor) Cursor :=
  passTurn (fun depth _ token => token.kind.isCloser && decide (depth ≤ 1))
    (fun depth _ token => depthAfter depth token) Cursor.advance

/-- One turn of passing over what stands in front of a token of a kind. -/
def kindTurn (kind : TokenKind) : Unit × Cursor → Turn (Unit × Cursor) Cursor :=
  passTurn (fun _ _ token => decide (token.kind = kind)) (fun _ _ _ => ()) id

end Reach

namespace Cursor

/-- One turn of the search for statements. -/
def outlineTurn : Nat × Cursor → Turn (Nat × Cursor) Outline
  | (depth, c) =>
    if c.kind = .endOfInput then .last (.ok ⟨[], []⟩)
    else if depth = 0 ∧ c.startsImport then
      match c.importStatement with
      | .error fault => .last (.error fault)
      | .ok (statement, next) =>
        .next (0, next) fun rest => { rest with imports := statement.toList ++ rest.imports }
    else if depth = 0 ∧ c.startsExport then
      match c.exportStatement with
      | .error fault => .last (.error fault)
      | .ok (statement, next) =>
        .next (0, next) fun rest => { rest with exports := statement :: rest.exports }
    else .next (Reach.depthAfter depth c.current, c.advance) id

/-- One turn of reading the names of a dotted name. -/
def dottedTurn (c : Cursor) : Turn Cursor Cursor :=
  if c.atMark .dot then
    match c.advance.expectName with
    | .error fault => .last (.error fault)
    | .ok (_, next) => .next next id
  else .last (.ok c)

/-- One turn of reading the entries of a clause. -/
def clauseTurn (typeOnly : Bool) (c : Cursor) : Turn Cursor (List Specifier × Cursor) :=
  if c.atMark .closeBrace then .last (.ok ([], c.advance))
  else
    match c.specifier typeOnly with
    | .error fault => .last (.error fault)
    | .ok (entry, next) =>
      if next.atMark .comma then .next next.advance fun (entries, c) => (entry :: entries, c)
      else if next.atMark .closeBrace then .last (.ok ([entry], next.advance))
      else .last (.error (next.fault .expectedClauseSeparator))

/-- One turn of reading the modifiers of a declaration. -/
def modifiersTurn : Modifiers × Cursor → Turn (Modifiers × Cursor) (Modifiers × Cursor)
  | (found, c) =>
    if c.atWord .declareWord then .next ({ found with ambient := true }, c.advance) id
    else if c.atWord .abstractWord then .next (found, c.advance) id
    else if c.asyncModifiesFunction then
      .next ({ found with async := some c.current }, c.advance) id
    else .last (.ok (found, c))

/-- One turn of reading declarators. -/
def declaratorsTurn (c : Cursor) : Turn Cursor ((List String × Option Token) × Cursor) :=
  match c.bindingNames with
  | .error fault => .last (.error fault)
  | .ok (names, next) =>
    let async := next.skipAnnotation.asyncInitializer
    if next.skipDeclaratorRest.atMark .comma then
      .next next.skipDeclaratorRest.advance fun ((more, _), c) => ((names ++ more, async), c)
    else .last (.ok ((names, async), next.skipDeclaratorRest))

end Cursor

section Loops

open Cursor Reach

/-- A function that passes over tokens, told by what it does at the end of the text and at a token,
is a loop. -/
theorem isLoop_of_passTurn {σ : Type} {stops : σ → Option Token → Token → Bool}
    {after : σ → Option Token → Token → σ} {leave : Cursor → Cursor} {f : σ × Cursor → Cursor}
    (atEnd : ∀ state previous finish, f (state, ⟨previous, [], finish⟩) = ⟨previous, [], finish⟩)
    (atToken : ∀ state previous token rest finish, f (state, ⟨previous, token :: rest, finish⟩) =
      if stops state previous token then leave ⟨previous, token :: rest, finish⟩
      else f (after state previous token, ⟨some token, rest, finish⟩)) :
    IsLoop Prod.snd (fun s => .ok (f s)) (passTurn stops after leave) where
  unfolds := by
    rintro ⟨state, ⟨previous, ahead, finish⟩⟩
    cases ahead with
    | nil => exact congrArg _ (atEnd state previous finish)
    | cons token rest =>
      dsimp only [passTurn]
      rw [atToken]
      split <;> rfl
  moves := by
    rintro ⟨state, c⟩ t collect h
    unfold passTurn at h
    dsimp only at h
    split at h
    · cases h
    next hc =>
    split at h
    · cases h
    · cases h
      exact movesOn_of_cons hc

theorem isLoop_expressionFrom : IsLoop Prod.snd
    (fun s => .ok (expressionFrom s.2.finish s.1.1 s.1.2 s.2.previous s.2.ahead))
    expressionTurn := by
  apply isLoop_of_passTurn
  · intro state previous finish
    rfl
  · rintro ⟨depth, angles⟩ previous token rest finish
    simp only [expressionFrom, Bool.and_eq_true, beq_iff_eq, id]

theorem isLoop_typeFrom : IsLoop Prod.snd
    (fun s => .ok (typeFrom s.2.finish s.1 s.2.previous s.2.ahead)) typeTurn := by
  apply isLoop_of_passTurn
  · intro depth previous finish
    rfl
  · intro depth previous token rest finish
    simp only [typeFrom, Bool.and_eq_true, beq_iff_eq, id]

theorem isLoop_groupFrom : IsLoop Prod.snd
    (fun s => .ok (groupFrom s.2.finish s.1 s.2.previous s.2.ahead)) groupTurn := by
  apply isLoop_of_passTurn
  · intro depth previous finish
    rfl
  · intro depth previous token rest finish
    simp only [groupFrom, Bool.and_eq_true, decide_eq_true_eq, advance]

theorem isLoop_skipTo (kind : TokenKind) :
    IsLoop Prod.snd (fun s => .ok (s.2.skipTo kind)) (kindTurn kind) := by
  apply isLoop_of_passTurn
  · intro state previous finish
    rfl
  · intro state previous token rest finish
    simp only [skipTo, upToKind, decide_eq_true_eq, id]

theorem isLoop_outlineFrom : IsLoop Prod.snd (fun s => s.2.outlineFrom s.1) outlineTurn where
  unfolds := by
    rintro ⟨depth, c⟩
    simp only [outlineTurn]
    rw [outlineFrom]
    split
    · rfl
    split
    · cases c.importStatement <;> rfl
    split
    · cases c.exportStatement <;> rfl
    · dsimp only
      rw [Except.map_id]
      rfl
  moves := by
    rintro ⟨depth, c⟩ t collect h
    unfold outlineTurn at h
    dsimp only at h
    split at h
    · cases h
    next hmore =>
    split at h
    · split at h
      · cases h
      · next hstatement =>
        cases h
        exact (reaches_of_importStatement hstatement).1.movesOn
          (remaining_lt_of_importStatement hstatement)
    split at h
    · split at h
      · cases h
      · next hstatement =>
        cases h
        exact (reaches_of_exportStatement hstatement).1.movesOn
          (remaining_lt_of_exportStatement hstatement)
    · cases h
      exact movesOn_advance hmore

theorem isLoop_dottedNames : IsLoop id dottedNames dottedTurn where
  unfolds := by
    intro c
    rw [dottedNames, dottedTurn]
    split
    · cases c.advance.expectName with
      | error fault => rfl
      | ok named =>
        dsimp only
        rw [Except.map_id]
        rfl
    · rfl
  moves := by
    intro c t collect h
    unfold dottedTurn at h
    split at h
    · split at h
      · cases h
      · next hname =>
        cases h
        exact (reaches_advance c).trans_movesOn ⟨_, _, (passes_of_expectName hname).1⟩
    · cases h

theorem isLoop_clauseEntries (typeOnly : Bool) :
    IsLoop id (clauseEntries typeOnly) (clauseTurn typeOnly) where
  unfolds := by
    intro c
    rw [clauseEntries, clauseTurn]
    split
    · rfl
    cases c.specifier typeOnly with
    | error fault => rfl
    | ok read =>
      dsimp only
      split
      · rfl
      split <;> rfl
  moves := by
    intro c t collect h
    unfold clauseTurn at h
    split at h
    · cases h
    split at h
    · cases h
    next hentry =>
    split at h
    · cases h
      have hmoves := (reaches_of_specifier hentry).movesOn (remaining_lt_of_specifier hentry)
      exact hmoves.trans (reaches_advance _)
    split at h <;> cases h

theorem isLoop_modifiersFrom :
    IsLoop Prod.snd (fun s => .ok (modifiersFrom s.1 s.2)) modifiersTurn where
  unfolds := by
    rintro ⟨found, c⟩
    dsimp only [modifiersTurn]
    rw [modifiersFrom]
    split
    · rfl
    split
    · rfl
    split <;> rfl
  moves := by
    rintro ⟨found, c⟩ t collect h
    unfold modifiersTurn at h
    dsimp only at h
    split at h
    · next hword =>
      cases h
      exact movesOn_advance (by simp [kind_of_atWord hword])
    split at h
    · next hword =>
      cases h
      exact movesOn_advance (by simp [kind_of_atWord hword])
    split at h
    · next hasync =>
      cases h
      exact movesOn_advance (by simp [(asyncModifiesFunction_iff.1 hasync).1])
    · cases h

theorem isLoop_declarators : IsLoop id declarators declaratorsTurn where
  unfolds := by
    intro c
    rw [declarators, declaratorsTurn]
    cases c.bindingNames with
    | error fault => rfl
    | ok read =>
      dsimp only
      split <;> rfl
  moves := by
    intro c t collect h
    unfold declaratorsTurn at h
    split at h
    · cases h
    next hnames =>
    dsimp only at h
    split at h
    · cases h
      have hmoves := (reaches_of_bindingNames hnames).movesOn (remaining_lt_of_bindingNames hnames)
      exact hmoves.trans ((reaches_skipDeclaratorRest _).trans (reaches_advance _))
    · cases h

end Loops

namespace PatternState

variable {s t : PatternState}

/-- One step of the machine that reads patterns. -/
def Steps (s t : PatternState) : Prop := s.step = .ok (some t)

/-- The machine stops: it fails, or it has read a pattern. -/
theorem exists_stop (s : PatternState) : ∃ last, Relation.ReflTransGen Steps s last ∧
    ((∃ fault, last.step = .error fault ∧ s.run = .error fault) ∨
      last.step = .ok none ∧ s.run = .ok (last.names, last.cursor)) := by
  fun_induction run s with
  | case1 s fault hstep => exact ⟨s, .refl, .inl ⟨fault, hstep, rfl⟩⟩
  | case2 s hstep => exact ⟨s, .refl, .inr ⟨hstep, rfl⟩⟩
  | case3 s t hstep ih =>
    obtain ⟨last, hsteps, hstop⟩ := ih
    exact ⟨last, .head hstep hsteps, hstop⟩

/-- A step from a part of a pattern takes a token, or it turns to a binding at the same place. -/
theorem Steps.movesOn_or (h : Steps s t) (hpart : s.task = .part) :
    s.cursor.MovesOn t.cursor ∨ (t.cursor = s.cursor ∧ t.task = .bind) := by
  have hreaches := reaches_of_step h
  obtain ⟨task, frames, names, c⟩ := s
  obtain rfl : task = .part := hpart
  unfold Steps step at h
  dsimp only at h hreaches
  split at h
  · next hbind => cases hbind
  · obtain ⟨t', ht, heq⟩ := map_eq_ok.1 h
    cases heq
    exact (stepElement_progress ht).imp_left hreaches.movesOn
  · obtain ⟨t', ht, heq⟩ := map_eq_ok.1 h
    cases heq
    exact .inl (hreaches.movesOn (remaining_lt_of_stepMember ht))
  · cases h
  · contradiction
  · cases h

/-- Steps that lead from a part of a pattern to another part take a token. -/
theorem movesOn_of_parts (h : Relation.TransGen Steps s t) (hs : s.task = .part)
    (ht : t.task = .part) : s.cursor.MovesOn t.cursor := by
  -- without a token the machine can only have turned to a binding
  have hprogress : s.cursor.MovesOn t.cursor ∨ (t.cursor = s.cursor ∧ t.task = .bind) := by
    clear ht
    induction h with
    | single first => exact first.movesOn_or hs
    | tail _ last ih =>
      rcases ih with hmoved | ⟨hsame, hbind⟩
      · exact .inl (hmoved.trans (reaches_of_step last))
      · rw [← hsame]
        exact .inl ((reaches_of_step last).movesOn ((remaining_le_of_step last).2.1 hbind))
  rcases hprogress with hmoved | ⟨-, hbind⟩
  · exact hmoved
  · rw [ht] at hbind
    cases hbind

end PatternState

end ComponentRegistry
