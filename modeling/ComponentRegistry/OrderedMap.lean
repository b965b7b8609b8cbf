/-! # Ordered maps

Maps that remember the order in which their keys were first written. Writing a key again changes
its value and keeps its place.
-/

namespace ComponentRegistry

/-- A map with its pairs in the order of their keys' first writing, each key once. -/
structure OrderedMap (κ : Type u) (α : Type v) where
  /-- The pairs in order. -/
  pairs : List (κ × α)
  /-- No key stands twice. -/
  nodup_keys : (pairs.map Prod.fst).Nodup
  deriving DecidableEq

namespace OrderedMap

variable {κ : Type u} {α : Type v} {β : Type w}

instance [Repr κ] [Repr α] : Repr (OrderedMap κ α) := ⟨fun m n => reprPrec m.pairs n⟩

/-- The map with no keys. -/
def empty : OrderedMap κ α := ⟨[], List.nodup_nil⟩

instance : EmptyCollection (OrderedMap κ α) := ⟨empty⟩

instance : Inhabited (OrderedMap κ α) := ⟨empty⟩

/-- The keys in order. -/
def keys (m : OrderedMap κ α) : List κ := m.pairs.map Prod.fst

/-- The values in the order of their keys. -/
def values (m : OrderedMap κ α) : List α := m.pairs.map Prod.snd

/-- Number of keys. -/
def size (m : OrderedMap κ α) : Nat := m.pairs.length

/-- Whether there are no keys. -/
def isEmpty (m : OrderedMap κ α) : Bool := m.pairs.isEmpty

/-- Apply a function to every value. -/
def map (f : α → β) (m : OrderedMap κ α) : OrderedMap κ β where
  pairs := m.pairs.map fun (k, v) => (k, f v)
  nodup_keys := by
    have : (m.pairs.map fun (k, v) => (k, f v)).map Prod.fst = m.pairs.map Prod.fst := by
      simp [Function.comp_def]
    rw [this]
    exact m.nodup_keys

variable [DecidableEq κ]

/-- The value of a key in a list of pairs. -/
def lookup (key : κ) : List (κ × α) → Option α
  | [] => none
  | (k, v) :: rest => if k = key then some v else lookup key rest

/-- The value of a key. -/
def get? (m : OrderedMap κ α) (key : κ) : Option α := lookup key m.pairs

theorem mem_of_lookup {key : κ} {value : α} {pairs : List (κ × α)}
    (h : lookup key pairs = some value) : (key, value) ∈ pairs := by
  induction pairs with
  | nil => cases h
  | cons p rest ih =>
    obtain ⟨k, v⟩ := p
    simp only [lookup] at h
    split at h
    · next same => cases h; simp [same]
    · exact List.mem_cons_of_mem _ (ih h)

theorem mem_values_of_get? {m : OrderedMap κ α} {key : κ} {value : α}
    (h : m.get? key = some value) : value ∈ m.values :=
  List.mem_map_of_mem (mem_of_lookup h)

/-- Whether a key is present. -/
def contains (m : OrderedMap κ α) (key : κ) : Bool := m.keys.contains key

/-- Write a key in a list of pairs: in its place if it has one, at the end if not. -/
def write (key : κ) (value : α) : List (κ × α) → List (κ × α)
  | [] => [(key, value)]
  | (k, v) :: rest => if k = key then (k, value) :: rest else (k, v) :: write key value rest

theorem keys_write (key : κ) (value : α) (pairs : List (κ × α)) :
    (write key value pairs).map Prod.fst =
      if key ∈ pairs.map Prod.fst then pairs.map Prod.fst else pairs.map Prod.fst ++ [key] := by
  induction pairs with
  | nil => simp [write]
  | cons p rest ih =>
    obtain ⟨k, v⟩ := p
    by_cases h : k = key
    · simp [write, h]
    · have h' : ¬key = k := fun e => h e.symm
      simp only [write, h, ↓reduceIte, List.map_cons, ih, List.mem_cons, h', false_or]
      split <;> simp

/-- Write a key. -/
def insert (m : OrderedMap κ α) (key : κ) (value : α) : OrderedMap κ α where
  pairs := write key value m.pairs
  nodup_keys := by
    rw [keys_write]
    split
    · exact m.nodup_keys
    · next h =>
      rw [List.nodup_append]
      refine ⟨m.nodup_keys, by simp, ?_⟩
      simp only [List.mem_singleton]
      rintro a ha b rfl rfl
      exact h ha

/-- Write all pairs of a list, first to last. -/
def insertAll (m : OrderedMap κ α) (pairs : List (κ × α)) : OrderedMap κ α :=
  pairs.foldl (fun m (k, v) => m.insert k v) m

/-- The map made of a list of pairs, where a key that stands twice keeps its first place and takes
its last value. -/
def ofPairs (pairs : List (κ × α)) : OrderedMap κ α := empty.insertAll pairs

/-- The map that gives every key of a list without repeats its value. -/
def ofKeys (keys : List κ) (nodup : keys.Nodup) (value : κ → α) : OrderedMap κ α where
  pairs := keys.map fun key => (key, value key)
  nodup_keys := by
    have : (keys.map fun key => (key, value key)).map Prod.fst = keys := by
      simp [Function.comp_def]
    rwa [this]

/-- Whether two maps have the same keys with the same values, in whatever order. -/
def sameContent [DecidableEq α] (m n : OrderedMap κ α) : Bool :=
  m.size == n.size && m.pairs.all fun (k, v) => n.get? k == some v

end OrderedMap

end ComponentRegistry
