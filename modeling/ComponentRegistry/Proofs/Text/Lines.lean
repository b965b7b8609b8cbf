import Mathlib.Data.List.Basic
import ComponentRegistry.Text.Lines

/-! # Pieces of a text

Cutting a text at a separator, and which piece a place of the text is in.
-/

namespace ComponentRegistry.Lines

variable {separator : Char} {piece : List Char}

theorem splitAt_of_not_mem (h : separator ∉ piece) : splitAt separator piece = [piece] := by
  induction piece with
  | nil => rfl
  | cons c rest ih =>
    simp only [List.mem_cons, not_or] at h
    rw [splitAt, if_neg (Ne.symm h.1), ih h.2]

theorem splitAt_append (h : separator ∉ piece) (rest : List Char) :
    splitAt separator (piece ++ separator :: rest) = piece :: splitAt separator rest := by
  induction piece with
  | nil => simp [splitAt]
  | cons c front ih =>
    simp only [List.mem_cons, not_or] at h
    rw [List.cons_append, splitAt, if_neg (Ne.symm h.1), ih h.2]

theorem splitAt_ne_nil (text : List Char) : splitAt separator text ≠ [] := by
  cases text with
  | nil => simp [splitAt]
  | cons c rest =>
    rw [splitAt]
    split
    · simp
    · split <;> simp

theorem splitAt_eq_cons {text : List Char} {pieces : List (List Char)}
    (h : splitAt separator text = piece :: pieces) :
    separator ∉ piece ∧
      ((pieces = [] ∧ text = piece) ∨
        ∃ rest, text = piece ++ separator :: rest ∧ splitAt separator rest = pieces) := by
  induction text generalizing piece with
  | nil =>
    cases h
    exact ⟨List.not_mem_nil, .inl ⟨rfl, rfl⟩⟩
  | cons c rest ih =>
    rw [splitAt] at h
    split at h
    · next same =>
      cases h
      exact ⟨List.not_mem_nil, .inr ⟨rest, by rw [same]; rfl, rfl⟩⟩
    · next other =>
      split at h
      · next hrest => exact absurd hrest (splitAt_ne_nil rest)
      · next first pieces' hrest =>
        cases h
        obtain ⟨hnot, hcases⟩ := ih hrest
        refine ⟨by simp [Ne.symm other, hnot], ?_⟩
        rcases hcases with ⟨hp, rfl⟩ | ⟨more, rfl, hmore⟩
        · exact .inl ⟨hp, rfl⟩
        · exact .inr ⟨more, rfl, hmore⟩

theorem not_mem_of_mem_splitAt {text piece : List Char} (h : piece ∈ splitAt separator text) :
    separator ∉ piece := by
  induction hsplit : splitAt separator text generalizing text with
  | nil => exact absurd hsplit (splitAt_ne_nil text)
  | cons first pieces ih =>
    obtain ⟨plain, cut⟩ := splitAt_eq_cons hsplit
    rw [hsplit] at h
    rcases List.mem_cons.1 h with rfl | h
    · exact plain
    · rcases cut with ⟨rfl, -⟩ | ⟨rest, -, hrest⟩
      · cases h
      · exact ih (hrest ▸ h) hrest

theorem splitAt_intercalate {pieces : List (List Char)} (given : pieces ≠ [])
    (plain : ∀ piece ∈ pieces, separator ∉ piece) :
    splitAt separator ([separator].intercalate pieces) = pieces := by
  induction pieces with
  | nil => exact absurd rfl given
  | cons piece rest ih =>
    obtain ⟨hpiece, hrest⟩ := List.forall_mem_cons.1 plain
    cases rest with
    | nil => rw [List.intercalate_singleton, splitAt_of_not_mem hpiece]
    | cons next others =>
      rw [List.intercalate_cons_cons, List.append_assoc, List.singleton_append,
        splitAt_append hpiece, ih (by simp) hrest]

/-- There is one piece more than there are separators. -/
theorem length_splitAt (text : List Char) :
    (splitAt separator text).length = text.count separator + 1 := by
  induction hsplit : splitAt separator text generalizing text with
  | nil => exact absurd hsplit (splitAt_ne_nil text)
  | cons piece pieces ih =>
    obtain ⟨plain, ⟨rfl, rfl⟩ | ⟨rest, rfl, hrest⟩⟩ := splitAt_eq_cons hsplit
    · rw [List.count_eq_zero_of_not_mem plain]
      rfl
    · rw [List.length_cons, ih rest hrest, List.count_append, List.count_cons_self,
        List.count_eq_zero_of_not_mem plain, Nat.zero_add]

/-- The first segments of a text are all of it, or a separator follows them. -/
theorem eq_or_of_take_splitAt (separator : Char) (n : Nat) (text : List Char) :
    text = [separator].intercalate ((splitAt separator text).take (n + 1)) ∨
      ∃ rest, text =
        [separator].intercalate ((splitAt separator text).take (n + 1)) ++ separator :: rest := by
  induction n generalizing text with
  | zero =>
    have some : splitAt separator text ≠ [] := splitAt_ne_nil text
    obtain ⟨piece, pieces, hsplit⟩ := List.exists_cons_of_ne_nil some
    obtain ⟨-, ⟨-, rfl⟩ | ⟨rest, rfl, -⟩⟩ := splitAt_eq_cons hsplit
    · left
      simp [hsplit]
    · right
      exact ⟨rest, by simp [hsplit]⟩
  | succ n ih =>
    have some : splitAt separator text ≠ [] := splitAt_ne_nil text
    obtain ⟨piece, pieces, hsplit⟩ := List.exists_cons_of_ne_nil some
    obtain ⟨-, ⟨rfl, rfl⟩ | ⟨rest, rfl, rfl⟩⟩ := splitAt_eq_cons hsplit
    · left
      simp [hsplit]
    · have more : (splitAt separator rest).take (n + 1) ≠ [] := by
        simp [splitAt_ne_nil]
      rw [hsplit, List.take_succ_cons, List.intercalate_cons_of_ne_nil more]
      rcases ih rest with whole | ⟨others, cut⟩
      · left
        rw [← whole]
        simp
      · right
        refine ⟨others, ?_⟩
        rw [List.append_assoc, ← cut]
        simp

/-- Putting the pieces together again undoes the cutting. -/
theorem intercalate_splitAt (text : List Char) :
    [separator].intercalate (splitAt separator text) = text := by
  induction hsplit : splitAt separator text generalizing text with
  | nil => exact absurd hsplit (splitAt_ne_nil text)
  | cons piece pieces ih =>
    obtain ⟨-, ⟨rfl, rfl⟩ | ⟨rest, rfl, rfl⟩⟩ := splitAt_eq_cons hsplit
    · rw [List.intercalate_singleton]
    · rw [List.intercalate_cons_of_ne_nil (splitAt_ne_nil rest), ih rest rfl, List.append_assoc,
        List.singleton_append]

theorem splitAt_append_separator (front back : List Char) :
    splitAt separator (front ++ separator :: back) =
      splitAt separator front ++ splitAt separator back := by
  induction hsplit : splitAt separator front generalizing front with
  | nil => exact absurd hsplit (splitAt_ne_nil front)
  | cons piece pieces ih =>
    obtain ⟨plain, ⟨rfl, rfl⟩ | ⟨rest, rfl, hrest⟩⟩ := splitAt_eq_cons hsplit
    · exact splitAt_append plain back
    · rw [List.append_assoc, List.cons_append, splitAt_append plain, ih rest hrest,
        List.cons_append]

/-- What stands in front of the first separator begins the first piece. -/
theorem exists_splitAt_append (h : separator ∉ piece) (rest : List Char) :
    ∃ more pieces, splitAt separator (piece ++ rest) = (piece ++ more) :: pieces := by
  obtain ⟨first, pieces, hsplit⟩ : ∃ first pieces, splitAt separator rest = first :: pieces :=
    List.exists_cons_of_ne_nil (splitAt_ne_nil rest)
  refine ⟨first, pieces, ?_⟩
  induction piece with
  | nil => exact hsplit
  | cons c front ih =>
    simp only [List.mem_cons, not_or] at h
    rw [List.cons_append, splitAt, if_neg (Ne.symm h.1), ih h.2]
    rfl

/-- The piece after as many separators as a text begins with begins with what stands behind the
last of them. -/
theorem getElem?_splitAt_count {front : List Char}
    (hfront : front = [] ∨ front.getLast? = some separator)
    (h : separator ∉ piece) (rest : List Char) :
    ∃ more, (splitAt separator (front ++ (piece ++ rest)))[front.count separator]? =
      some (piece ++ more) := by
  obtain ⟨more, pieces, hsplit⟩ := exists_splitAt_append h rest
  refine ⟨more, ?_⟩
  rcases hfront with rfl | hlast
  · rw [List.nil_append, hsplit]
    rfl
  · obtain ⟨front, rfl⟩ := List.getLast?_eq_some_iff.1 hlast
    have hlength : (front ++ [separator]).count separator = (splitAt separator front).length := by
      rw [length_splitAt, List.count_append, List.count_singleton_self]
    rw [List.append_assoc, List.singleton_append, splitAt_append_separator, hlength,
      List.getElem?_append_right (Nat.le_refl _), Nat.sub_self, hsplit]
    rfl

end ComponentRegistry.Lines
