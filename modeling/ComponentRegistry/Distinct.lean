/-! # Distinct items

Lists without repeats: by first occurrence, and in the order of the items.
-/

namespace ComponentRegistry

/-- The items of a list, each where it first occurs. -/
def firstOccurrences [DecidableEq α] : List α → List α
  | [] => []
  | a :: rest => a :: (firstOccurrences rest).filter (· ≠ a)

/-- Put a name into a sorted list of names, unless it is there. Names are ordered by code points. -/
def insertName (name : String) : List String → List String
  | [] => [name]
  | first :: rest =>
    if name = first then first :: rest
    else if name < first then name :: first :: rest
    else first :: insertName name rest

/-- The names of a list, sorted by code points and each once. -/
def sortedNames (names : List String) : List String := names.foldr insertName []

theorem mem_firstOccurrences [DecidableEq α] {a : α} {items : List α} :
    a ∈ firstOccurrences items ↔ a ∈ items := by
  induction items with
  | nil => simp [firstOccurrences]
  | cons b rest ih =>
    by_cases h : a = b
    · simp [firstOccurrences, h]
    · simp [firstOccurrences, h, ih]

theorem nodup_firstOccurrences [DecidableEq α] (items : List α) :
    (firstOccurrences items).Nodup := by
  induction items with
  | nil => simp [firstOccurrences]
  | cons a rest ih => exact List.nodup_cons.2 ⟨by simp, List.Pairwise.filter _ ih⟩

end ComponentRegistry
