import ComponentRegistry.Outcome
import ComponentRegistry.Resolution.Catalog

/-! # Closures of dependencies

Everything that some entries need, directly or through others, with its source texts. The search
goes round by round: all new references of one round are read, then their dependencies are looked
at. A reference counts as seen as soon as it is found, so none is read twice, and since a catalog
and the entries that are known beforehand name only finitely many references, the search ends.
-/

namespace ComponentRegistry

/-- An entry of a closure. -/
structure ResolvedEntry where
  /-- The reference that led to it. -/
  identifier : String
  /-- Its source text. -/
  text : String
  /-- The part of the registry that it belongs to. -/
  registry : String
  deriving Repr, DecidableEq

/-- The entries of a closure by reference, in the order of discovery. -/
abbrev ResolvedSet := OrderedMap String ResolvedEntry

/-- In which order the answers of each round come in. -/
structure Schedule where
  /-- The references of a round in the order of their answers. -/
  arrange : Nat → List String → List String
  /-- Every reference is answered. -/
  perm : ∀ round references, (arrange round references).Perm references

/-- Answers that come in the order of the questions. -/
def Schedule.inOrder : Schedule := ⟨fun _ references => references, fun _ _ => .refl _⟩

/-- An entry that was read. -/
structure Found where
  /-- The reference that led to it. -/
  reference : String
  /-- The entry. -/
  entry : Entry
  /-- Its source text. -/
  text : String
  /-- The address that was asked for; nothing for an entry that was known beforehand. -/
  asked : Option Identifier
  deriving Repr

namespace Found

/-- The found entry as part of a closure. -/
def resolved (f : Found) : ResolvedEntry := ⟨f.reference, f.text, f.entry.registry⟩

/-- The references to what an entry depends on. -/
def dependencies (f : Found) : Except RegistryError (List String) :=
  f.entry.internal.pairs.mapM fun (path, value) =>
    if isBlankText value then .error (.blankDependency path f.reference)
    else
      (Identifier.parse (Identifier.canonical f.entry.owner value)).map fun _ =>
        Identifier.canonical f.entry.owner value

end Found

/-- A search for a closure: where it reads, what is known beforehand, and how answers come in. -/
structure Search where
  /-- Where entries are read. -/
  catalog : Catalog
  /-- Entries that need not be asked for, by reference. -/
  known : OrderedMap String Entry
  /-- How answers come in. -/
  schedule : Schedule := .inOrder

namespace Search

/-- Read the entry behind a reference, and its source text. -/
def read (search : Search) (reference : String) : Except RegistryError Found :=
  match search.known.get? reference with
  | some entry => do
    let text ← search.catalog.fetchText reference entry
    pure ⟨reference, entry, text, none⟩
  | none => do
    let identifier ← Identifier.parse reference
    let entry ← search.catalog.fetchEntry reference identifier
    let text ← search.catalog.fetchText reference entry
    pure ⟨reference, entry, text, some identifier⟩

/-- Read all references of a round. The answers are put into the order of the references. -/
def readRound (search : Search) (round : Nat) (references : List String) :
    Except RegistryError (List Found) := do
  let answers ← (search.schedule.arrange round references).mapM search.read
  pure (references.filterMap fun reference => answers.find? fun f => f.reference == reference)

/-- The references of some entries that were not seen before. -/
def unseen (seen : List String) (found : List Found) : Except RegistryError (List String) := do
  let references ← found.mapM Found.dependencies
  pure ((firstOccurrences references.flatten).filter (· ∉ seen))

/-- Every entry that a search can come upon. -/
def entries (search : Search) : List Entry := search.known.values ++ search.catalog.entries.values

/-- Every reference that a search can come upon after its start. -/
def references (search : Search) : List String :=
  search.entries.flatMap fun e => e.internal.values.map (Identifier.canonical e.owner)

theorem entry_mem_of_read {search : Search} {reference : String} {found : Found}
    (h : search.read reference = .ok found) : found.entry ∈ search.entries := by
  unfold read at h
  split at h
  · next known =>
    obtain ⟨text, -, h⟩ := bind_eq_ok.1 h
    cases h
    exact List.mem_append_left _ (OrderedMap.mem_values_of_get? known)
  · obtain ⟨identifier, -, h⟩ := bind_eq_ok.1 h
    obtain ⟨entry, fetched, h⟩ := bind_eq_ok.1 h
    obtain ⟨text, -, h⟩ := bind_eq_ok.1 h
    cases h
    exact List.mem_append_right _ (Catalog.fetchEntry_mem fetched)

theorem entry_mem_of_readRound {search : Search} {round : Nat} {references : List String}
    {found : List Found} (h : search.readRound round references = .ok found) :
    ∀ f ∈ found, f.entry ∈ search.entries := by
  obtain ⟨answers, answered, arranged⟩ := bind_eq_ok.1 h
  cases arranged
  intro f hf
  obtain ⟨reference, -, hf⟩ := List.mem_filterMap.1 hf
  obtain ⟨r, -, hr⟩ := mem_of_mapM_eq_ok answered (List.mem_of_find?_eq_some hf)
  exact entry_mem_of_read hr

theorem mem_values_of_dependencies {f : Found} {references : List String}
    (h : f.dependencies = .ok references) {reference : String} (hr : reference ∈ references) :
    reference ∈ f.entry.internal.values.map (Identifier.canonical f.entry.owner) := by
  obtain ⟨⟨path, value⟩, mem, h⟩ := mem_of_mapM_eq_ok h hr
  simp only at h
  split at h
  · cases h
  · obtain ⟨_, -, rfl⟩ := map_eq_ok.1 h
    exact List.mem_map_of_mem (List.mem_map_of_mem mem)

theorem mem_references_of_unseen {search : Search} {seen : List String} {found : List Found}
    {references : List String} (h : unseen seen found = .ok references)
    (known : ∀ f ∈ found, f.entry ∈ search.entries) :
    ∀ r ∈ references, r ∈ search.references ∧ r ∉ seen := by
  obtain ⟨lists, looked, filtered⟩ := bind_eq_ok.1 h
  cases filtered
  intro r hr
  obtain ⟨hr, isNew⟩ := List.mem_filter.1 hr
  refine ⟨?_, by simpa using isNew⟩
  obtain ⟨list, hl, hr⟩ := List.mem_flatten.1 (mem_firstOccurrences.1 hr)
  obtain ⟨f, hf, h⟩ := mem_of_mapM_eq_ok looked hl
  exact List.mem_flatMap.2 ⟨f.entry, known f hf, mem_values_of_dependencies h hr⟩

/-- How many references are still to be seen. -/
def remaining (search : Search) (seen : List String) : Nat :=
  (search.references.filter (· ∉ seen)).length

theorem length_filter_le {p q : α → Bool} (weaker : ∀ b, p b → q b) (items : List α) :
    (items.filter p).length ≤ (items.filter q).length := by
  rw [← List.countP_eq_length_filter, ← List.countP_eq_length_filter]
  exact List.countP_mono_left fun b _ => weaker b

theorem length_filter_lt {p q : α → Bool} {items : List α} {a : α} (weaker : ∀ b, p b → q b)
    (mem : a ∈ items) (hq : q a) (hp : ¬p a) :
    (items.filter p).length < (items.filter q).length := by
  induction items with
  | nil => cases mem
  | cons b rest ih =>
    rcases List.mem_cons.1 mem with rfl | mem
    · rw [List.filter_cons_of_neg hp, List.filter_cons_of_pos hq, List.length_cons]
      exact Nat.lt_succ_of_le (length_filter_le weaker rest)
    · have lt := ih mem
      by_cases hb : p b
      · rw [List.filter_cons_of_pos hb, List.filter_cons_of_pos (weaker b hb)]
        simpa using lt
      · rw [List.filter_cons_of_neg hb]
        refine Nat.lt_of_lt_of_le lt (List.Sublist.length_le ?_)
        exact (List.sublist_cons_self b rest).filter q

theorem remaining_lt {search : Search} {seen : List String} {next : String} {more : List String}
    (h : ∀ r ∈ next :: more, r ∈ search.references ∧ r ∉ seen) :
    search.remaining (seen ++ next :: more) < search.remaining seen := by
  obtain ⟨mem, new⟩ := h next List.mem_cons_self
  unfold remaining
  refine length_filter_lt ?_ mem (by simpa using new) (by simp)
  intro r hr
  simp only [List.mem_append, decide_not, Bool.not_eq_eq_eq_not, Bool.not_true,
    decide_eq_false_iff_not] at hr ⊢
  exact fun hs => hr (Or.inl hs)

/-- Read the references of a round, and go on with what they depend on. -/
def rounds (search : Search) (round : Nat) (seen references : List String) :
    Except RegistryError (List Found) :=
  match _answered : search.readRound round references with
  | .error e => .error e
  | .ok found =>
    match _looked : unseen seen found with
    | .error e => .error e
    | .ok [] => .ok found
    | .ok (next :: more) =>
      (search.rounds (round + 1) (seen ++ next :: more) (next :: more)).map (found ++ ·)
termination_by search.remaining seen
decreasing_by
  exact remaining_lt (mem_references_of_unseen _looked (entry_mem_of_readRound _answered))

/-- The references that a search starts with: seeds without blanks around them, each once. -/
def start (seeds : List String) : Except RegistryError (List String) :=
  ((seeds.map trimmed).mapM fun seed => (Identifier.parse seed).map fun _ => seed).map
    firstOccurrences

/-- Everything that is found from some seeds, in the order of discovery. -/
def run (search : Search) (seeds : List String) : Except RegistryError (List Found) := do
  let references ← start seeds
  search.rounds 0 references references

end Search

/-- The result of a search. -/
structure Resolution where
  /-- The closure. -/
  resolved : ResolvedSet
  /-- The addresses that were asked for, in the order of discovery. -/
  asked : List Identifier

/-- The result that consists of what was found. -/
def Resolution.ofFound (found : List Found) : Resolution where
  resolved := .ofPairs (found.map fun f => (f.reference, f.resolved))
  asked := found.filterMap Found.asked

/-- Resolve some seeds: all of their closure, or the error that stands in the way. -/
def Search.resolve (search : Search) (seeds : List String) : Except RegistryError Resolution :=
  (search.run seeds).map Resolution.ofFound

end ComponentRegistry
