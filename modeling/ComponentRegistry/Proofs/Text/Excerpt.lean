import Mathlib.Data.List.GetD
import ComponentRegistry.Proofs.Text.Lines
import ComponentRegistry.Text.Excerpt

/-! # What an excerpt shows

The lines around a place of a text that is not empty, each with its number, and the marker below the
line of the place.
-/

namespace ComponentRegistry.Excerpt

variable {line column number : ℕ} {content : ℕ → List Char} {lines : List (List Char)}

/-- A line of a text with its number in front. -/
def row (lines : List (List Char)) (number : ℕ) : List Char :=
  label number ++ lines.getD (number - 1) []

/-- A marker that begins under a column of a line that has its number in front. -/
def pointer (line column : ℕ) : List Char :=
  List.replicate ((label line).length + (column - 1)) ' ' ++ ['^', '^', '^']

/-- The lines within two of a line, and a pointer below this one. -/
def rows (lines : List (List Char)) (line column : ℕ) : List (List Char) :=
  (List.range' (max 1 (line - 2)) (line - max 1 (line - 2))).map (row lines) ++
    [row lines line, pointer line column] ++
    (List.range' (line + 1) (min lines.length (line + 2) - line)).map (row lines)

theorem marker_eq_pointer (hcolumn : 1 ≤ column) : marker line column = pointer line column := by
  rw [marker, pointer]
  congr 2
  omega

/-- Lines past the marked one are numbered one by one. -/
theorem numbered_of_lt (hlt : line < number)
    (hcontent : ∀ i (h : i < lines.length), content (number + i) = label (number + i) ++ lines[i]) :
    numbered line column number lines = (List.range' number lines.length).map content := by
  induction lines generalizing number with
  | nil => rfl
  | cons first others ih =>
    have hne : ¬ (number : Int) = line := by omega
    have hfirst : content number = label number ++ first := hcontent 0 (Nat.zero_lt_succ _)
    have hrest : ∀ i (h : i < others.length),
        content (number + 1 + i) = label (number + 1 + i) ++ others[i] := fun i h => by
      simpa [Nat.add_assoc, Nat.add_comm 1] using hcontent (i + 1) (Nat.succ_lt_succ h)
    have hothers := ih (by omega) hrest
    rw [numbered, if_neg hne, hothers, List.length_cons, List.range'_succ, List.map_cons, hfirst]

/-- The marker is put below its line. -/
theorem numbered_eq (hle : number ≤ line) (hlt : line < number + lines.length)
    (hcontent : ∀ i (h : i < lines.length), content (number + i) = label (number + i) ++ lines[i]) :
    numbered line column number lines =
      (List.range' number (line - number)).map content ++ [content line, marker line column] ++
        (List.range' (line + 1) (number + lines.length - (line + 1))).map content := by
  induction lines generalizing number with
  | nil =>
    simp only [List.length_nil] at hlt
    omega
  | cons first others ih =>
    have hfirst : content number = label number ++ first := hcontent 0 (Nat.zero_lt_succ _)
    have hrest : ∀ i (h : i < others.length),
        content (number + 1 + i) = label (number + 1 + i) ++ others[i] := fun i h => by
      simpa [Nat.add_assoc, Nat.add_comm 1] using hcontent (i + 1) (Nat.succ_lt_succ h)
    rw [List.length_cons] at hlt ⊢
    rcases Nat.eq_or_lt_of_le hle with rfl | hnext
    · rw [numbered, if_pos rfl, numbered_of_lt (Nat.lt_succ_self _) hrest, Nat.sub_self, hfirst]
      simp [Nat.add_sub_add_left, Nat.add_comm others.length]
    · have hne : ¬ (number : Int) = line := by omega
      have hcount : line - number = line - (number + 1) + 1 := by omega
      have hlength : number + 1 + others.length = number + (others.length + 1) := by omega
      rw [numbered, if_neg hne, ih hnext (by omega) hrest, hcount, hlength, List.range'_succ,
        List.map_cons, hfirst]
      rfl

section Near

variable {text : List Char}

theorem firstLine_eq (line : ℕ) : firstLine line = max 1 (line - 2) := by
  unfold firstLine radius
  omega

theorem near_eq (text : List Char) (line : ℕ) : near text line =
    ((Lines.split text).take (min (Lines.split text).length (line + 2))).drop
      (max 1 (line - 2) - 1) := by
  have hlast : ¬ min ((Lines.split text).length : Int) (line + radius) < 0 := by
    unfold radius
    omega
  simp only [near, firstLine_eq, upTo, if_neg hlast]
  congr 2
  unfold radius
  omega

theorem length_near (text : List Char) (line : ℕ) : (near text line).length =
    min (Lines.split text).length (line + 2) - (max 1 (line - 2) - 1) := by
  rw [near_eq, List.length_drop, List.length_take]
  omega

/-- The lines near a line are not empty, unless the text is. -/
theorem join_near_ne_nil (htext : text ≠ []) (hpos : 1 ≤ line)
    (hle : line ≤ (Lines.split text).length) : Lines.join (near text line) ≠ [] := by
  intro hempty
  have hlength := length_near text line
  have hjoin : ∀ lines : List (List Char), Lines.join lines = [] → lines.length ≤ 1 := by
    rintro (_ | ⟨first, _ | ⟨second, others⟩⟩) h
    · exact Nat.zero_le _
    · exact Nat.le_refl _
    · simp [Lines.join, List.intercalate_cons_cons] at h
  have hone := hjoin _ hempty
  have hlines : (Lines.split text).length = 1 := by omega
  obtain ⟨whole, hwhole⟩ := List.length_eq_one_iff.1 hlines
  have hnear : near text line = Lines.split text := by
    rw [near_eq, List.take_of_length_le (by omega), show max 1 (line - 2) - 1 = 0 by omega,
      List.drop_zero]
  rw [hnear] at hempty
  exact htext ((Lines.intercalate_splitAt text).symm.trans hempty)

theorem render_eq (htext : text ≠ []) (hpos : 1 ≤ line) (hle : line ≤ (Lines.split text).length)
    (hcolumn : 1 ≤ column) :
    render text line column = some (Lines.join (rows (Lines.split text) line column)) := by
  have hlength := length_near text line
  have hcontent : ∀ i (h : i < (near text line).length),
      row (Lines.split text) (max 1 (line - 2) + i) =
        label (max 1 (line - 2) + i) ++ (near text line)[i] := by
    intro i h
    have hget : (near text line)[i] = (Lines.split text).getD (max 1 (line - 2) + i - 1) [] := by
      have hi : max 1 (line - 2) - 1 + i = max 1 (line - 2) + i - 1 := by omega
      simp only [near_eq, List.getElem_drop, List.getElem_take, hi]
      rw [List.getD_eq_getElem]
    rw [row, hget]
  have hnonempty : (Lines.join (near text line)).isEmpty = false := by
    simpa using join_near_ne_nil htext hpos hle
  have hfirst : max 1 (line - 2) ≤ line := by omega
  have hlast : line < max 1 (line - 2) + (near text line).length := by omega
  have hcount : max 1 (line - 2) + (near text line).length - (line + 1) =
      min (Lines.split text).length (line + 2) - line := by omega
  rw [render, hnonempty, firstLine_eq, numbered_eq hfirst hlast hcontent, hcount,
    marker_eq_pointer hcolumn]
  rfl

end Near

end ComponentRegistry.Excerpt
