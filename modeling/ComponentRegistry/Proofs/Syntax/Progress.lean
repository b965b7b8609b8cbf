import ComponentRegistry.Proofs.Lexing.Concatenation
import ComponentRegistry.Proofs.Syntax.Loops
import ComponentRegistry.Proofs.Syntax.OpenCalls

/-! # Reading comes to an end

The places of a token stream are numbered by the tokens in front of them, and the last one is at the
end of the text. No reader leads past it, readers that succeed lead to a later place, and the loops
move on. So a text has an outline or a fault, and an outline only after all of its tokens. Where the
room for calls is limited, it has neither if patterns are nested too deeply for it.
-/

namespace ComponentRegistry

open Cursor

namespace TokenStream

/-- The place that has a number of tokens in front of it. -/
def place (s : TokenStream) (k : Nat) : Cursor :=
  ⟨(s.tokens.take k).getLast?, s.tokens.drop k, s.finish⟩

/-- From the place `k` to a later one, not past the end of the text. -/
def Later (s : TokenStream) (k : Nat) (n : Cursor) : Prop :=
  ∃ m, k < m ∧ m ≤ s.tokens.length ∧ n = s.place m

/-- From the place `k` to the same or a later one, not past the end of the text. -/
def NotBefore (s : TokenStream) (k : Nat) (n : Cursor) : Prop :=
  ∃ m, k ≤ m ∧ m ≤ s.tokens.length ∧ n = s.place m

/-- What readers do from the place `k` on. -/
structure ReadsOn (s : TokenStream) (k : Nat) : Prop where
  importing : ∀ i n, (s.place k).importStatement = .ok (i, n) → s.Later k n
  exporting : ∀ e n, (s.place k).exportStatement = .ok (e, n) → s.Later k n
  clause : ∀ typeOnly entries n, (s.place k).clause typeOnly = .ok (entries, n) → s.Later k n
  declaring : ∀ found n, (s.place k).declarators = .ok (found, n) → s.Later k n
  binding : ∀ names n, (s.place k).bindingNames = .ok (names, n) → s.Later k n
  group : (s.place k).kind.isOpener = true → s.Later k (s.place k).skipGroup
  /-- Moving past the next token leads to the next place, but for the end of the text. -/
  advancing : (s.place k).advance = if k < s.tokens.length then s.place (k + 1) else s.place k
  expression : s.NotBefore k (s.place k).skipExpression
  type : s.NotBefore k (s.place k).skipType
  attributes : ∀ source n, (s.place k).skipAttributes source = .ok n → s.NotBefore k n
  dots : ∀ n, (s.place k).dottedNames = .ok n → s.NotBefore k n
  modifiers : s.NotBefore k (s.place k).modifiers.2

/-- What readers do from the place `k` on if the room for calls is limited. -/
structure ReadsWithin (s : TokenStream) (room k : Nat) : Prop where
  exporting : ∀ e n, (s.place k).exportStatementWithin room = .ok (e, n) → s.Later k n
  declaring : ∀ found n, (s.place k).declaratorsWithin room = .ok (found, n) → s.Later k n
  binding : ∀ names n, (s.place k).bindingNamesWithin room = .ok (names, n) → s.Later k n

variable {s : TokenStream} {k : Nat} {n : Cursor}

theorem placeIn_place (s : TokenStream) (k : Nat) : PlaceIn s (s.tokens.take k) (s.place k) :=
  ⟨(List.take_append_drop k s.tokens).symm, rfl, rfl⟩

theorem eq_place {front : List Token} (h : PlaceIn s front n) : n = s.place front.length := by
  obtain ⟨previous, ahead, finish⟩ := n
  obtain ⟨tokens, rfl, rfl⟩ := h
  simp [place, tokens]

theorem notBefore_of_reaches (hk : k ≤ s.tokens.length) (h : Reaches (s.place k) n) :
    s.NotBefore k n := by
  obtain ⟨passed, hpass⟩ := h
  have hplace := (placeIn_place s k).passes hpass
  have hlength := congrArg List.length hplace.tokens
  simp only [List.length_append, List.length_take] at hlength
  refine ⟨_, ?_, ?_, eq_place hplace⟩ <;> simp only [List.length_append, List.length_take] <;> omega

theorem later_of_movesOn (hk : k ≤ s.tokens.length) (h : (s.place k).MovesOn n) :
    s.Later k n := by
  obtain ⟨m, hle, hm, rfl⟩ := notBefore_of_reaches hk h.reaches
  have hlt := h.remaining_lt
  simp only [place, remaining, List.length_drop] at hlt
  exact ⟨m, by omega, hm, rfl⟩

theorem advance_place (s : TokenStream) (k : Nat) :
    (s.place k).advance = if k < s.tokens.length then s.place (k + 1) else s.place k := by
  split
  · next hlt =>
    have hcons : (s.place k).ahead = s.tokens[k] :: s.tokens.drop (k + 1) :=
      List.drop_eq_getElem_cons hlt
    have hplace := (placeIn_place s k).passes (passes_cons hcons)
    have hlength : (s.tokens.take k ++ [s.tokens[k]]).length = k + 1 := by
      rw [List.length_append, List.length_take, Nat.min_eq_left (Nat.le_of_lt hlt)]
      rfl
    rw [eq_place hplace, hlength]
  · next hend =>
    have hnil : (s.place k).ahead = [] := List.drop_eq_nil_of_le (Nat.le_of_not_lt hend)
    rw [advance, hnil]

/-- From every place of a token stream, readers that succeed move on. -/
theorem readsOn (hk : k ≤ s.tokens.length) : s.ReadsOn k where
  importing _ _ h := later_of_movesOn hk
    ((reaches_of_importStatement h).1.movesOn (remaining_lt_of_importStatement h))
  exporting _ _ h := later_of_movesOn hk
    ((reaches_of_exportStatement h).1.movesOn (remaining_lt_of_exportStatement h))
  clause _ _ _ h := later_of_movesOn hk ((reaches_of_clause h).movesOn (remaining_lt_of_clause h))
  declaring _ _ h := later_of_movesOn hk
    ((reaches_of_declarators h).movesOn (remaining_lt_of_declarators h))
  binding _ _ h := later_of_movesOn hk
    ((reaches_of_bindingNames h).movesOn (remaining_lt_of_bindingNames h))
  group h := later_of_movesOn hk ((reaches_skipGroup _).movesOn (remaining_skipGroup_lt h))
  advancing := advance_place s k
  expression := notBefore_of_reaches hk (reaches_skipExpression _)
  type := notBefore_of_reaches hk (reaches_skipType _)
  attributes _ _ h := notBefore_of_reaches hk (reaches_of_skipAttributes h)
  dots _ h := notBefore_of_reaches hk (reaches_of_dottedNames h)
  modifiers := notBefore_of_reaches hk (reaches_modifiersFrom _ _)

/-- What is read in limited room is read in any. -/
theorem ReadsOn.within (h : s.ReadsOn k) (room : Nat) : s.ReadsWithin room k where
  exporting e n hok := h.exporting e n ((needsAtMost_exportStatement _ (Nat.le_refl _)).eq_ok hok)
  declaring found n hok :=
    h.declaring found n ((needsAtMost_declarators _ (Nat.le_refl _)).eq_ok hok)
  binding names n hok :=
    h.binding names n ((needsAtMost_bindingNames _ (Nat.le_refl _)).eq_ok hok)

end TokenStream

/-- Every turn of a loop of the reader takes a token or is the last one. -/
structure LoopsMoveOn : Prop where
  outline : IsLoop Prod.snd (fun s => s.2.outlineFrom s.1) outlineTurn
  clause : ∀ typeOnly, IsLoop id (clauseEntries typeOnly) (clauseTurn typeOnly)
  declarators : IsLoop id declarators declaratorsTurn
  modifiers : IsLoop Prod.snd (fun s => .ok (modifiersFrom s.1 s.2)) modifiersTurn
  dots : IsLoop id dottedNames dottedTurn
  expression : IsLoop Prod.snd
    (fun s => .ok (Reach.expressionFrom s.2.finish s.1.1 s.1.2 s.2.previous s.2.ahead))
    Reach.expressionTurn
  type : IsLoop Prod.snd (fun s => .ok (Reach.typeFrom s.2.finish s.1 s.2.previous s.2.ahead))
    Reach.typeTurn
  group : IsLoop Prod.snd (fun s => .ok (Reach.groupFrom s.2.finish s.1 s.2.previous s.2.ahead))
    Reach.groupTurn
  attributes : ∀ kind, IsLoop Prod.snd (fun s => .ok (s.2.skipTo kind)) (Reach.kindTurn kind)
  /-- The loops over the parts of patterns are those of the machine. Whatever leads from one part to
  another takes a token. -/
  parts : ∀ s t, Relation.TransGen PatternState.Steps s t → s.task = .part → t.task = .part →
    s.cursor.MovesOn t.cursor
  /-- The machine stops. -/
  patterns : ∀ s, ∃ last, Relation.ReflTransGen PatternState.Steps s last ∧
    ((∃ fault, last.step = .error fault ∧ s.run = .error fault) ∨
      last.step = .ok none ∧ s.run = .ok (last.names, last.cursor))

theorem loopsMoveOn : LoopsMoveOn where
  outline := isLoop_outlineFrom
  clause := isLoop_clauseEntries
  declarators := isLoop_declarators
  modifiers := isLoop_modifiersFrom
  dots := isLoop_dottedNames
  expression := isLoop_expressionFrom
  type := isLoop_typeFrom
  group := isLoop_groupFrom
  attributes := isLoop_skipTo
  parts _ _ := PatternState.movesOn_of_parts
  patterns := PatternState.exists_stop

/-- The search for statements is left with an outline at the end of the text only. -/
theorem kind_of_outlineTurn {d : Nat} {c : Cursor} {o : Outline}
    (h : outlineTurn (d, c) = .last (.ok o)) : c.kind = .endOfInput := by
  unfold outlineTurn at h
  dsimp only at h
  split at h
  · assumption
  split at h
  · split at h <;> cases h
  split at h
  · split at h <;> cases h
  · cases h

/-- A text that has tokens is searched from the first place of them on, in at most one turn for each
token and one more. On the way no reader leads past the end of the text, readers that succeed take
tokens, and so does every turn of every loop that is not the last one. Of a text with an outline all
tokens were taken. There is a number of calls, at most two for each brace and bracket and one more,
such that in room for so many the text has its outline or its fault, and in less it has neither. -/
theorem outline_moves_on (text : List Char) :
    (∀ fault, tokenize text = .error fault → outline text = .error fault ∧
      ∀ room, outlineWithin room text = .error (.fault fault)) ∧
    ∀ s, tokenize text = .ok s →
      (∀ t ∈ s.tokens, t.kind ≠ .endOfInput) ∧
      (∀ k ≤ s.tokens.length, s.ReadsOn k ∧ ∀ room, s.ReadsWithin room k) ∧ LoopsMoveOn ∧
      (∃ turns depth k,
        Turn.Runs outlineTurn (0, s.place 0) turns (depth, s.place k) (outline text) ∧
        turns ≤ s.tokens.length + 1 ∧ k ≤ s.tokens.length ∧
        ∀ o, outline text = .ok o → k = s.tokens.length) ∧
      ∃ calls ≤ 2 * (s.place 0).openers + 1, ∀ room, outlineWithin room text =
        if calls ≤ room then (outline text).mapError .fault else .error .exhausted := by
  constructor
  · intro fault hfault
    constructor
    · rw [outline, hfault]
      rfl
    · intro room
      rw [outlineWithin, hfault]
      rfl
  intro s hs
  have hkinds : ∀ t ∈ s.tokens, t.kind ≠ .endOfInput := by
    obtain ⟨⟨q, reads⟩, -⟩ := Lexer.reads_of_tokenize hs
    intro t ht
    exact reads.kind_ne ht
  have hreads : ∀ k ≤ s.tokens.length, s.ReadsOn k ∧ ∀ room, s.ReadsWithin room k := fun k hk =>
    have h := TokenStream.readsOn hk
    ⟨h, h.within⟩
  refine ⟨hkinds, hreads, loopsMoveOn, ?_, needsAtMost_outline hs (Nat.le_refl _)⟩
  have hread : outline text = (s.place 0).outlineFrom 0 := by
    rw [outline, hs]
    rfl
  obtain ⟨turns, ⟨depth, c⟩, hrun, hturns, hreaches⟩ := isLoop_outlineFrom.exists_run (0, s.place 0)
  obtain ⟨k, -, hk, rfl⟩ := TokenStream.notBefore_of_reaches (Nat.zero_le _) hreaches
  rw [← hread] at hrun
  refine ⟨turns, depth, k, hrun, hturns, hk, fun o ho => ?_⟩
  -- the search was not left in front of a token
  obtain ⟨o', hlast⟩ := hrun.exists_last ho
  have hend := kind_of_outlineTurn hlast
  by_contra hne
  have hlt : k < s.tokens.length := by omega
  have hcons : (s.place k).ahead = s.tokens[k] :: s.tokens.drop (k + 1) :=
    List.drop_eq_getElem_cons hlt
  rw [kind, current_eq_of_cons hcons] at hend
  exact hkinds _ (List.getElem_mem hlt) hend

/-- A clause, patterns inside of each other, a type and two initializers are all read up to the end of
the text, in room for seven calls. -/
theorem outline_moves_on_patterns :
    let text := ("import \x7b a as b, type C \x7d from 'x'\n" ++
      "export const \x7b d: [e, ...f], g = 1 \x7d = h, i: T<J> = k").toList
    ∃ s o turns depth, tokenize text = .ok s ∧ s.tokens.length = 38 ∧ outline text = .ok o ∧
      (∀ k ≤ 38, s.ReadsOn k ∧ ∀ room, s.ReadsWithin room k) ∧
      Turn.Runs outlineTurn (0, s.place 0) turns (depth, s.place 38) (.ok o) ∧ turns ≤ 39 ∧
      outlineWithin 7 text = .ok o := by
  intro text
  let s := (tokenize text).toOption.getD ⟨[], .start⟩
  let o := (outline text).toOption.getD ⟨[], []⟩
  obtain ⟨htokens, houtline, hlength, hopeners⟩ :
      (tokenize text).toOption.isSome = true ∧ (outline text).toOption.isSome = true ∧
        s.tokens.length = 38 ∧ (s.place 0).openers = 3 := by
    decide +kernel
  have hs : tokenize text = .ok s := eq_ok_getD htokens _
  have ho : outline text = .ok o := eq_ok_getD houtline _
  obtain ⟨-, hreads, -, ⟨turns, depth, k, hrun, hturns, -, hend⟩, calls, hcalls, hwithin⟩ :=
    (outline_moves_on text).2 s hs
  obtain rfl : k = s.tokens.length := hend o ho
  rw [hlength] at hreads hrun hturns
  rw [ho] at hrun
  rw [hopeners] at hcalls
  have hroom : outlineWithin 7 text = .ok o := by
    rw [hwithin, if_pos hcalls, ho]
    rfl
  exact ⟨s, o, turns, depth, hs, hlength, ho, hreads, hrun, hturns, hroom⟩

/-- Five hundred brackets inside of each other take more than a thousand calls. -/
theorem outline_exhausted_brackets :
    let text := "export const ".toList ++ List.replicate 500 '[' ++ ['a'] ++
      List.replicate 500 ']' ++ " = 1".toList
    (outline text).toOption.map (fun o => o.exports.map (·.names)) = some [["a"]] ∧
      outlineWithin 1000 text = .error .exhausted := by
  decide +kernel

end ComponentRegistry
