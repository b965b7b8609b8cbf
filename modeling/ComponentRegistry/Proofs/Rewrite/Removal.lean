import ComponentRegistry.Proofs.Rewrite.SelfImport
import ComponentRegistry.Proofs.Rewrite.Splicing

/-! # What removing imports changes

A text falls into the imports that bind one of some names and the stretches between them. Removing
the names puts other imports in the places of these, and takes nothing from the stretches but the
rest of a line behind an import that goes altogether.
-/

namespace ComponentRegistry

open Lexer

/-- An import that loses names and the stretch of text up to the next such import, before and
after. -/
structure RemovalPiece where
  /-- The import. -/
  statement : ImportStatement
  /-- The import as it is written. -/
  written : List Char
  /-- What follows it. -/
  gap : List Char
  /-- What is put in the place of the import. -/
  put : List Char
  /-- What is left of what follows it. -/
  left : List Char

namespace RemovalPiece

/-- The stretch of a text that an import and what follows it take up. -/
def before (p : RemovalPiece) : List Char := p.written ++ p.gap

/-- What becomes of that stretch. -/
def after (p : RemovalPiece) : List Char := p.put ++ p.left

/-- An import keeps its entries that bind none of the names, in their order. One with entries left is
written anew with them. One without any goes, with the spaces and tabs behind it and at most one end
of a line. -/
structure Removes (names : List String) (p : RemovalPiece) : Prop where
  rendered : p.statement.kept names ≠ [] →
    p.put = p.statement.render (p.statement.kept names) ∧ p.left = p.gap
  dropped : p.statement.kept names = [] →
    p.put = [] ∧ ∃ rest, p.gap = rest ++ p.left ∧ IsLineRest rest

/-- A piece begins where its import does, and the import takes up its span. -/
structure StandsAt (p : RemovalPiece) (offset : Nat) : Prop where
  start : p.statement.span.start.offset = offset
  stop : p.statement.span.stop = offset + p.written.length

end RemovalPiece

section Removal

variable {text : List Char} {s : TokenStream} {o : Outline} {names : List String}
  {i : ImportStatement} {front back touched : List ImportStatement} {k : Nat}

/-- The edit that removes names from an import, which may reach over the rest of its line. -/
theorem exists_of_removalEdit (text : List Char) (names : List String) (i : ImportStatement) :
    ∃ rest left put, text.drop i.span.stop = rest ++ left ∧ IsLineRest rest ∧
      i.removalEdit text names = ⟨i.span.start.offset, i.span.stop + rest.length, put⟩ ∧
      ∀ written left, RemovalPiece.Removes names ⟨i, written, rest ++ left, put, left⟩ := by
  cases hkept : i.kept names with
  | nil =>
    obtain ⟨rest, left, whole, length, line⟩ := exists_lineRest (text.drop i.span.stop)
    refine ⟨rest, left, [], whole, line, ?_, fun written left => ?_⟩
    · simp [ImportStatement.removalEdit, hkept, length]
    · exact ⟨fun some => absurd hkept some, fun _ => ⟨rfl, rest, rfl, line⟩⟩
  | cons entry others =>
    refine ⟨[], _, i.render (i.kept names), rfl, ⟨[], [], rfl, by simp, by simp⟩, ?_,
      fun written left => ⟨fun _ => ⟨rfl, rfl⟩, fun none => ?_⟩⟩
    · simp [ImportStatement.removalEdit, hkept]
    · simp [hkept] at none

/-- The edits that remove names from imports do not overlap. -/
theorem inOrder_removalEdits (hs : tokenize text = .ok s) (ho : outline text = .ok o)
    (himports : o.imports = front ++ back) (hk : k ≤ text.length)
    (hle : ∀ i ∈ back, k ≤ i.span.start.offset) :
    Edit.InOrder text k (Outline.removalEdits text names back) := by
  induction back generalizing front k with
  | nil => exact hk
  | cons i back ih =>
    have next : o.imports = (front ++ [i]) ++ back := by simp [himports]
    cases binds : i.binds names with
    | false =>
      rw [Outline.removalEdits, List.filter_cons_of_neg (by simp [binds]),
        ← Outline.removalEdits]
      exact ih next hk fun j hj => hle j (List.mem_cons_of_mem i hj)
    | true =>
      rw [Outline.removalEdits, List.filter_cons_of_pos binds, List.map_cons,
        ← Outline.removalEdits]
      have here : i ∈ o.imports := by simp [himports]
      have own := covers_of_mem_imports hs ho here
      have apart := imports_apart_of_outline hs ho
      rw [himports, List.pairwise_append, List.pairwise_cons] at apart
      obtain ⟨rest, left, put, whole, line, edit, -⟩ := exists_of_removalEdit text names i
      rw [edit]
      have long : rest.length ≤ text.length - i.span.stop := by
        rw [← List.length_drop, whole, List.length_append]
        exact Nat.le_add_right ..
      have inside := own.inside
      refine ⟨hle i List.mem_cons_self, own.nonempty.trans_le (Nat.le_add_right ..),
        ih next (by simp only; omega) fun j hj => ?_⟩
      have there : j ∈ o.imports := by simp [himports, hj]
      obtain ⟨t, ht, -, start⟩ := (covers_of_mem_imports hs ho there).first
      have before := (apart.2.1.1 j hj).1
      rw [← start] at before ⊢
      exact TokenStream.add_length_le hs ht before ⟨left, whole.symm⟩ line.isSpace

/-- The imports that lose names, with the stretches of text between them. -/
theorem exists_removalPieces
    (h : Edit.InOrder text k (touched.map (ImportStatement.removalEdit text names)))
    (spans : ∀ i ∈ touched, i.span.start.offset ≤ i.span.stop ∧ i.span.stop ≤ text.length) :
    ∃ lead pieces, pieces.map RemovalPiece.statement = touched ∧
      text.drop k = lead ++ pieces.flatMap RemovalPiece.before ∧
      Edit.splice text k (touched.map (ImportStatement.removalEdit text names)) =
        lead ++ pieces.flatMap RemovalPiece.after ∧
      (∀ p ∈ pieces, p.Removes names) ∧
      ∀ front p back, pieces = front ++ p :: back →
        p.StandsAt (k + (lead ++ front.flatMap RemovalPiece.before).length) := by
  induction touched generalizing k with
  | nil => exact ⟨text.drop k, [], rfl, by simp, by simp [Edit.splice], by simp, by simp⟩
  | cons i touched ih =>
    obtain ⟨first, long, others⟩ := h
    obtain ⟨⟨nonempty, inside⟩, spans⟩ := List.forall_mem_cons.1 spans
    obtain ⟨rest, left, put, whole, line, edit, removes⟩ := exists_of_removalEdit text names i
    rw [edit] at first others
    simp only at first others
    obtain ⟨left', pieces, rfl, before, after, all, places⟩ := ih others spans
    have behind : text.drop (i.span.stop + rest.length) = left := by
      rw [← List.drop_drop, whole, List.drop_left]
    have written : (slice text i.span.start.offset i.span.stop).length =
        i.span.stop - i.span.start.offset := length_slice inside
    have lead : (slice text k i.span.start.offset).length = i.span.start.offset - k :=
      length_slice (nonempty.trans inside)
    refine ⟨slice text k i.span.start.offset,
      ⟨i, slice text i.span.start.offset i.span.stop, rest ++ left', put, left'⟩ :: pieces,
      rfl, ?_, ?_, List.forall_mem_cons.2 ⟨removes _ _, all⟩, ?_⟩
    · rw [← slice_append_drop text first, ← slice_append_drop text nonempty, whole, ← behind,
        before]
      simp [RemovalPiece.before]
    · rw [List.map_cons, edit, Edit.splice, after]
      simp [RemovalPiece.after]
    · intro front p back cut
      cases front with
      | nil =>
        obtain ⟨rfl, -⟩ := List.cons.inj cut
        constructor
        · simp only [List.flatMap_nil, List.append_nil, lead]
          omega
        · simp only [List.flatMap_nil, List.append_nil, lead, written]
          omega
      | cons q front =>
        obtain ⟨rfl, later⟩ := List.cons.inj cut
        have place := places front p back later
        have same : k + (slice text k i.span.start.offset ++
            (RemovalPiece.mk i (slice text i.span.start.offset i.span.stop) (rest ++ left') put
              left' :: front).flatMap RemovalPiece.before).length =
            i.span.stop + rest.length + (left' ++ front.flatMap RemovalPiece.before).length := by
          simp only [List.flatMap_cons, RemovalPiece.before, List.length_append, lead, written]
          omega
        rw [same]
        exact place

end Removal

/-- Removing names from the imports of a module touches nothing but the imports that bind one of
them. Between these the text stays as it is, except that an import that goes takes the rest of its
line with it. The modules it came from are listed, each once and where it first occurs. -/
theorem removeSelfImports_splices {text : List Char} {s : TokenStream} {o : Outline}
    (names : List String) (hs : tokenize text = .ok s) (ho : outline text = .ok o) :
    ∃ lead pieces, pieces.map RemovalPiece.statement =
        o.imports.filter (ImportStatement.binds names) ∧
      text = lead ++ pieces.flatMap RemovalPiece.before ∧
      (∀ front p back, pieces = front ++ p :: back →
        p.StandsAt (lead ++ front.flatMap RemovalPiece.before).length) ∧
      (∀ p ∈ pieces, p.Removes names) ∧
      ∃ removed, removeSelfImports names text =
          .ok ⟨lead ++ pieces.flatMap RemovalPiece.after, removed⟩ ∧
        removed = firstOccurrences (pieces.map fun p => p.statement.source.path) ∧
        removed.Nodup := by
  have ordered : Edit.InOrder text 0 (Outline.removalEdits text names o.imports) :=
    inOrder_removalEdits hs ho (List.nil_append o.imports).symm (Nat.zero_le _) (by simp)
  have spans : ∀ i ∈ o.imports.filter (ImportStatement.binds names),
      i.span.start.offset ≤ i.span.stop ∧ i.span.stop ≤ text.length := fun i hi =>
    have own := covers_of_mem_imports hs ho (List.mem_of_mem_filter hi)
    ⟨own.nonempty.le, own.inside⟩
  rw [Outline.removalEdits] at ordered
  obtain ⟨lead, pieces, touched, before, after, removes, places⟩ :=
    exists_removalPieces ordered spans
  refine ⟨lead, pieces, touched, before, fun front p back cut => ?_, removes, _, ?_, rfl,
    nodup_firstOccurrences _⟩
  · simpa using places front p back cut
  · have paths : pieces.map (fun p => p.statement.source.path) =
        (o.imports.filter (ImportStatement.binds names)).map fun i => i.source.path := by
      rw [← touched, List.map_map]
      rfl
    rw [removeSelfImports, ho, paths, ← after, ← ordered.applyAll_eq_splice]
    rfl

/-- The first import keeps a name, the second goes with its line, and the third ends the text. -/
theorem removeSelfImports_splices_three :
    let text := ("import \x7b Card, Icon \x7d from './ui'; import Card from './card' \t\n" ++
      "export const a = 1\nimport * as Card from './ui' ").toList
    let output := "import \x7b Icon \x7d from './ui'; export const a = 1\n".toList
    ∃ s o lead, ∃ pieces : List RemovalPiece,
      tokenize text = .ok s ∧ outline text = .ok o ∧
      pieces.map (fun p => (p.statement.kept ["Card"]).map Specifier.bound) = [["Icon"], [], []] ∧
      text = lead ++ pieces.flatMap RemovalPiece.before ∧
      (∀ p ∈ pieces, p.Removes ["Card"]) ∧
      output = lead ++ pieces.flatMap RemovalPiece.after ∧
      removeSelfImports ["Card"] text = .ok ⟨output, ["./ui", "./card"]⟩ := by
  intro text output
  let s := (tokenize text).toOption.getD ⟨[], .start⟩
  let o := (outline text).toOption.getD ⟨[], []⟩
  obtain ⟨htokens, houtline, kept, removal⟩ :
      (tokenize text).toOption.isSome = true ∧ (outline text).toOption.isSome = true ∧
        (o.imports.filter (ImportStatement.binds ["Card"])).map
          (fun i => (i.kept ["Card"]).map Specifier.bound) = [["Icon"], [], []] ∧
        (removeSelfImports ["Card"] text).toOption = some ⟨output, ["./ui", "./card"]⟩ := by
    decide +kernel
  have hs : tokenize text = .ok s := eq_ok_getD htokens _
  have ho : outline text = .ok o := eq_ok_getD houtline _
  obtain ⟨lead, pieces, touched, before, -, removes, removed, result, -⟩ :=
    removeSelfImports_splices ["Card"] hs ho
  rw [← touched, List.map_map] at kept
  rw [result] at removal
  obtain ⟨same, rfl⟩ := SelfImportRemoval.mk.inj (Option.some.inj removal)
  exact ⟨s, o, lead, pieces, hs, ho, kept, before, removes, same.symm, same ▸ result⟩

end ComponentRegistry
