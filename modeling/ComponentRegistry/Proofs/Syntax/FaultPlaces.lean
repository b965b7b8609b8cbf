import ComponentRegistry.Proofs.Lexing.Places
import ComponentRegistry.Proofs.Likeness.Export
import ComponentRegistry.Proofs.Text.Excerpt

/-! # Where faults are shown

Every fault is placed at a character of the text or right behind a line of it, those of the lexer
and those of the grammar. So its message shows the line of the fault, with the lines around it, and
points at the fault.
-/

namespace ComponentRegistry

/-- A place on a line of a text, at most right behind its last character. -/
structure Position.OnLine (text : List Char) (p : Position) : Prop where
  first : 1 ≤ p.line
  last : p.line ≤ (Lines.split text).length
  column : 1 ≤ p.column
  within : ∃ content, (Lines.split text)[p.line - 1]? = some content ∧ p.column ≤ content.length + 1

theorem Position.Exact.onLine {text : List Char} {p : Position} (h : p.Exact text) :
    p.OnLine text := by
  obtain ⟨begins, ⟨hle, hbehind, hplain⟩, hcolumn⟩ := h.column
  have hline := h.line
  have hslice := Lexer.take_append_slice text hle
  have hsplit : text.take begins ++ (Lexer.slice text begins p.offset ++ text.drop p.offset) =
      text := by
    rw [← List.append_assoc, hslice, List.take_append_drop]
  have hcount : (text.take p.offset).count '\n' = (text.take begins).count '\n' := by
    rw [← hslice, List.count_append, List.count_eq_zero_of_not_mem hplain, Nat.add_zero]
  have hfront : text.take begins = [] ∨ (text.take begins).getLast? = some '\n' := by
    rcases hbehind with rfl | hbehind
    · exact .inl rfl
    · rcases Nat.eq_zero_or_pos begins with rfl | hpos
      · exact .inl rfl
      · right
        rw [List.getLast?_take, if_neg (Nat.ne_of_gt hpos), hbehind]
        rfl
  obtain ⟨more, hcontent⟩ := Lines.getElem?_splitAt_count hfront hplain (text.drop p.offset)
  rw [hsplit, ← hcount, show (text.take p.offset).count '\n' = p.line - 1 by omega] at hcontent
  have hlt := (List.getElem?_eq_some_iff.1 hcontent).1
  have hlength : (Lexer.slice text begins p.offset).length = p.offset - begins := by
    rw [Lexer.slice, List.length_drop, List.length_take_of_le h.le]
  refine ⟨by omega, ?_, by omega, _, hcontent, ?_⟩
  · rw [Lines.split]
    omega
  · rw [hcolumn, List.length_append, hlength]
    omega

/-- A program is like itself, with a fact about the places of its tokens. -/
def Likeness.itself (P : Position → Prop) : Likeness where
  place p p' := p' = p ∧ P p
  token t t' := t' = t ∧ P t.start
  line_lt hp hq := by rw [hp.1, hq.1]
  start h := ⟨by rw [h.1], h.2⟩
  kind h := by rw [h.1]
  value h _ := by rw [h.1]
  word h _ _ := by rw [h.1]
  lexeme h _ := by rw [h.1]
  adjoins hp ht _ := by rw [hp.1, ht.1]
  last h := ⟨by rw [h.1], h.2⟩

/-- Whether the lexer or the grammar finds a fault, its line and its column follow from the text. -/
theorem exact_of_outline_error {text : List Char} {fault : Fault}
    (h : outline text = .error fault) :
    fault.place.Exact text := by
  rcases bind_eq_error.1 h with hlexer | ⟨s, hs, hgrammar⟩
  · exact (Lexer.blames_of_tokenize hlexer).1
  · have hexact := fun t => Lexer.start_exact_of_tokenize (t := t) hs
    have along : (Likeness.itself fun p => p.Exact text).Along (.ofStream s) (.ofStream s) := by
      refine ⟨.none, ?_, rfl, ?_⟩
      · refine List.forall₂_same.2 fun t ht => ⟨rfl, hexact t ?_⟩
        exact List.mem_append_left _ ht
      · exact hexact (Token.endOfInput s.finish)
          (List.mem_append_right _ (List.mem_singleton_self _))
    have halike := along.outlineFrom 0
    rw [hgrammar] at halike
    cases halike with
    | error places => exact places.2

/-- A message about a place of a text that is not empty begins with the place. Then come the lines
around it, each with its number, with a single pointer to the column of the place below its line,
and the message itself. Every fault of a text is at such a place. -/
theorem faults_shown (source text : String) (htext : text ≠ "") :
    (∀ (line column : ℕ) (message : String), 1 ≤ line → line ≤ (Lines.split text.toList).length →
      1 ≤ column → Excerpt.describe source line column (some text) message =
        Excerpt.location source line column ++ "\n" ++
          String.ofList (Lines.join (Excerpt.rows (Lines.split text.toList) line column)) ++ "\n" ++
          message) ∧
    ∀ e, outlineOf source text = .error e →
      e.source = source ∧ e.text = text ∧ e.fault.place.OnLine text.toList := by
  have hne : text.toList ≠ [] := fun hempty => htext (String.toList_eq_nil_iff.1 hempty)
  constructor
  · intro line column message hpos hle hcolumn
    rw [Excerpt.describe, Option.bind_some, Excerpt.render_eq hne hpos hle hcolumn]
  · intro e he
    rw [outlineOf] at he
    cases hfault : outline text.toList with
    | ok o =>
      rw [hfault] at he
      cases he
    | error fault =>
      rw [hfault] at he
      cases he
      exact ⟨rfl, rfl, (exact_of_outline_error hfault).onLine⟩

/-- A comma that is missing in a clause. -/
theorem faults_shown_clause :
    let text :=
      "const a = 1\nconst b = 2\nimport \x7b c d \x7d from './m'\nconst e = 3\nconst f = 4\nx"
    text ≠ "" ∧ ∃ e, outlineOf "card" text = .error e ∧ e.fault.place.OnLine text.toList ∧
      e.message = "card:3:12\n   1 | const a = 1\n   2 | const b = 2\n" ++
        "   3 | import \x7b c d \x7d from './m'\n                  ^^^\n   4 | const e = 3\n" ++
        "   5 | const f = 4\nExpected ',' or '\x7d' in import/export clause, got 'd'" := by
  intro text
  obtain ⟨shown, placed⟩ := faults_shown "card" text (by decide)
  have herror : outlineOf "card" text = .error ⟨"card", text,
      ⟨.expectedClauseSeparator ⟨.identifier, "d", "d", ⟨35, 3, 12⟩⟩, ⟨35, 3, 12⟩⟩⟩ := by
    decide +kernel
  refine ⟨by decide, _, herror, (placed _ herror).2.2, ?_⟩
  refine (shown 3 12 _ (by decide) (by decide +kernel) (by decide)).trans ?_
  decide +kernel

end ComponentRegistry
