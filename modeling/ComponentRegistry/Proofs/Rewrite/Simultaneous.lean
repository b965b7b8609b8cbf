import ComponentRegistry.Proofs.Rewrite.AsyncPlace
import ComponentRegistry.Proofs.Rewrite.DefaultDeclaration
import ComponentRegistry.Proofs.Rewrite.Removal

/-! # Edits at once

Making edits one by one from the back of a text makes all of them at once, in whatever order they are
listed. Everything that a rewrite lists for a module can be made in this way.
-/

namespace ComponentRegistry

open Lexer

/-- Edits whose stretches lie in a text, start in different places and do not overlap replace these
stretches and leave the text between them as it is, in whatever order they are listed. The edits of
each rewrite of a module are such edits. -/
theorem edits_made_at_once :
    (∀ text edits, Edit.Separate text edits →
      ∃ ordered : List Edit, ordered.Perm edits ∧
        (ordered.Pairwise fun e f => e.start < f.start) ∧
        ∀ listed : List Edit, listed.Perm edits →
          Edit.applyAll text listed = Edit.splice text 0 ordered) ∧
    ∀ text o, outline text = .ok o →
      Edit.Separate text o.defaultExportEdits ∧ Edit.Separate text (o.asyncEdits text) ∧
      ∀ names, Edit.Separate text ((o.imports.filter (ImportStatement.binds names)).map
        (ImportStatement.removalEdit text names)) := by
  constructor
  · intro text edits hseparate
    obtain ⟨ordered, hperm, hsorted⟩ := hseparate.exists_ordered
    refine ⟨ordered, hperm, hsorted, fun listed hlisted => ?_⟩
    exact (hseparate.of_perm hlisted).applyAll_eq_splice (hperm.trans hlisted.symm) hsorted
  · intro text o ho
    obtain ⟨s, hs, -⟩ := bind_eq_ok.1 ho
    refine ⟨(inOrder_defaultExportEdits hs ho).separate, (inOrder_asyncEdits hs ho).separate,
      fun names => ?_⟩
    exact (inOrder_removalEdits hs ho (List.nil_append o.imports).symm (Nat.zero_le _)
      fun _ _ => Nat.zero_le _).separate

/-- An insertion in front of one replaced stretch and behind another, listed between the two, and a
module with all kinds of edits. -/
theorem edits_made_at_once_unsorted :
    let edits : List Edit := [⟨4, 6, []⟩, ⟨0, 2, ['x']⟩, ⟨2, 2, ['+']⟩]
    let text := ("import Card from './card'\nexport default async function f() \x7b\x7d\n" ++
      "export const g = async () => 1").toList
    (∀ listed : List Edit, listed.Perm edits →
      Edit.applyAll "abcdef".toList listed = "x+cd".toList) ∧
    ∃ o, outline text = .ok o ∧ o.defaultExportEdits.length = 1 ∧ (o.asyncEdits text).length = 2 ∧
      Edit.Separate text o.defaultExportEdits ∧ Edit.Separate text (o.asyncEdits text) ∧
      Edit.Separate text ((o.imports.filter (ImportStatement.binds ["Card"])).map
        (ImportStatement.removalEdit text ["Card"])) := by
  intro edits text
  let o := (outline text).toOption.getD ⟨[], []⟩
  obtain ⟨houtline, one, two, made⟩ : (outline text).toOption.isSome = true ∧
      o.defaultExportEdits.length = 1 ∧ (o.asyncEdits text).length = 2 ∧
      Edit.applyAll "abcdef".toList edits = "x+cd".toList := by
    decide +kernel
  have ho : outline text = .ok o := eq_ok_getD houtline _
  have hseparate : Edit.Separate "abcdef".toList edits :=
    ⟨by decide, by decide, by decide⟩
  obtain ⟨ordered, -, -, hall⟩ := edits_made_at_once.1 "abcdef".toList edits hseparate
  obtain ⟨hdefault, hasync, himports⟩ := edits_made_at_once.2 text o ho
  refine ⟨fun listed hlisted => ?_, o, ho, one, two, hdefault, hasync, himports ["Card"]⟩
  rw [hall listed hlisted, ← hall edits (List.Perm.refl edits), made]

end ComponentRegistry
