import Mathlib.Data.List.Basic
import ComponentRegistry.Distinct

/-! # First occurrences

What the items of a list are, each where it first occurs, does not depend on how often it comes
again.
-/

namespace ComponentRegistry

variable [DecidableEq α]

theorem firstOccurrences_append (a b : List α) :
    firstOccurrences (a ++ b) = firstOccurrences a ++ (firstOccurrences b).filter (· ∉ a) := by
  induction a with
  | nil => simp [firstOccurrences]
  | cons x rest ih =>
    simp only [List.cons_append, firstOccurrences, ih, List.filter_append, List.filter_filter,
      List.mem_cons, not_or, List.cons.injEq, true_and, List.append_cancel_left_eq]
    apply List.filter_congr
    intro y _
    simp

theorem firstOccurrences_concat (items : List α) (a : α) :
    firstOccurrences (items ++ [a]) =
      if a ∈ items then firstOccurrences items else firstOccurrences items ++ [a] := by
  rw [firstOccurrences_append]
  split
  · next old => simp [firstOccurrences, old]
  · next new => simp [firstOccurrences, new]

/-- An item that comes again can be left out. -/
theorem firstOccurrences_of_mem {items more : List α} {a : α} (ha : a ∈ items) :
    firstOccurrences (items ++ a :: more) = firstOccurrences (items ++ more) := by
  rw [firstOccurrences_append, firstOccurrences_append items more, firstOccurrences,
    List.filter_cons_of_neg (by simpa using ha), List.filter_filter]
  congr 1
  refine List.filter_congr fun b _ => ?_
  have hne : b ∉ items → b ≠ a := fun hb heq => hb (heq ▸ ha)
  simpa using hne

theorem firstOccurrences_of_nodup {items : List α} (distinct : items.Nodup) :
    firstOccurrences items = items := by
  induction items with
  | nil => rfl
  | cons x rest ih =>
    obtain ⟨new, distinct⟩ := List.nodup_cons.1 distinct
    rw [firstOccurrences, ih distinct, List.filter_eq_self.2]
    intro y hy
    simpa using fun same : y = x => new (same ▸ hy)

theorem firstOccurrences_again (a b : List α) :
    firstOccurrences (firstOccurrences a ++ (a ++ b)) = firstOccurrences (a ++ b) := by
  have old : (firstOccurrences a).filter (· ∉ firstOccurrences a) = [] := by
    simp [List.filter_eq_nil_iff]
  have same : (fun x => decide (x ∉ firstOccurrences a)) = fun x => decide (x ∉ a) := by
    funext x
    simp only [mem_firstOccurrences]
  rw [firstOccurrences_append, firstOccurrences_append a b, List.filter_append, old,
    firstOccurrences_of_nodup (nodup_firstOccurrences a), List.nil_append, same,
    List.filter_filter]
  simp

/-- What comes first in front of an item comes in front of every occurrence of it. -/
theorem mem_of_firstOccurrences_eq {before after front back : List α} {a b : α}
    (h : firstOccurrences (before ++ b :: after) = front ++ b :: back) (ha : a ∈ front) :
    a ∈ before := by
  induction before generalizing front back with
  | nil =>
    cases front with
    | nil => cases ha
    | cons x front =>
      simp only [List.nil_append, firstOccurrences, List.cons_append, List.cons.injEq] at h
      have again : b ∈ (firstOccurrences after).filter (· ≠ b) := by
        rw [h.2]
        simp
      simp at again
  | cons c before ih =>
    cases front with
    | nil => cases ha
    | cons x front =>
      simp only [List.cons_append, firstOccurrences, List.cons.injEq] at h
      obtain ⟨rfl, h⟩ := h
      rcases List.mem_cons.1 ha with rfl | ha
      · exact List.mem_cons_self
      · obtain ⟨kept, rest, split, hkept, hrest⟩ := List.filter_eq_append_iff.1 h
        obtain ⟨skipped, back', hsplit, -, -, -⟩ := List.filter_eq_cons_iff.1 hrest
        have hwhole : firstOccurrences (before ++ b :: after) = kept ++ skipped ++ b :: back' := by
          rw [split, hsplit, List.append_assoc]
        apply List.mem_cons_of_mem
        apply ih hwhole
        rw [← hkept] at ha
        exact List.mem_append_left _ (List.mem_of_mem_filter ha)

end ComponentRegistry
