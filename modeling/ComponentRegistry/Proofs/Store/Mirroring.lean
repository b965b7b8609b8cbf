import ComponentRegistry.Proofs.Store.Table
import ComponentRegistry.Store.Memory
import ComponentRegistry.Store.Session

/-! # Two stores, one registry

A table mirrors a store in memory when it has a row for each entry, in the same order, and the same
source texts. Stores that mirror each other give the same answer to every request, and they still
mirror each other afterwards. The one thing that may differ is the order in which entries are listed.
-/

namespace ComponentRegistry

namespace Row

theorem insertSorted_perm (r : Row) (rows : List Row) : (insertSorted r rows).Perm (r :: rows) := by
  induction rows with
  | nil => exact .refl _
  | cons first rest ih =>
    rw [insertSorted]
    split
    · exact (ih.cons first).trans (.swap r first rest)
    · exact .refl _

theorem foldr_insertSorted_perm (rows : List Row) : (rows.foldr insertSorted []).Perm rows := by
  induction rows with
  | nil => exact .refl _
  | cons r rest ih => exact (insertSorted_perm r _).trans (ih.cons r)

end Row

namespace StoreAnswer

/-- Answers that say the same. A list of entries may come in any order. -/
inductive Agrees : StoreAnswer → StoreAnswer → Prop where
  | same : Agrees a a
  | entries : List.Perm es fs → Agrees (.entries es) (.entries fs)

/-- Two results of a request that are the same failure, or answers that say the same. -/
inductive SameResult : Except Failure StoreAnswer → Except Failure StoreAnswer → Prop where
  | failed : SameResult (.error e) (.error e)
  | answered : Agrees a b → SameResult (.ok a) (.ok b)

theorem SameResult.refl : (r : Except Failure StoreAnswer) → SameResult r r
  | .ok _ => .answered .same
  | .error _ => .failed

end StoreAnswer

open StoreAnswer

variable [RefSupply]

namespace MemoryStore

/-- A store whose source texts have the references that were handed out first. -/
def Numbered (m : MemoryStore) : Prop :=
  m.sources.keys = (List.range m.sources.size).map RefSupply.ref

variable {m : MemoryStore}

/-- References that were handed out before are not handed out again. -/
theorem Numbered.ref_new (h : m.Numbered) : RefSupply.ref m.sources.size ∉ m.sources.keys := by
  rw [h]
  intro hmem
  obtain ⟨n, hn, same⟩ := List.mem_map.1 hmem
  have := RefSupply.ref_inj _ _ same
  rw [List.mem_range] at hn
  omega

theorem Numbered.pairs_putSource (h : m.Numbered) (unit : SourceUnit) :
    (m.sources.insert (RefSupply.ref m.sources.size) unit).pairs =
      m.sources.pairs ++ [(RefSupply.ref m.sources.size, unit)] :=
  OrderedMap.write_of_not_mem h.ref_new

theorem Numbered.putSource (h : m.Numbered) (unit : SourceUnit) :
    (MemoryStore.mk (m.sources.insert (RefSupply.ref m.sources.size) unit) m.entries).Numbered := by
  change (m.sources.insert _ unit).pairs.map Prod.fst =
    (List.range (m.sources.insert _ unit).pairs.length).map RefSupply.ref
  rw [h.pairs_putSource, List.map_append, List.length_append, List.length_singleton,
    List.range_succ, List.map_append]
  exact congrArg (· ++ _) h

end MemoryStore

/-- A table that holds what a store in memory holds. Every source text and every entry stands there
under its own name, and source texts are numbered. -/
structure Mirrors (m : MemoryStore) (t : TableStore) : Prop where
  sources : t.sources = m.sources.values
  named : ∀ p ∈ m.sources.pairs, p.2.ref = p.1
  numbered : m.Numbered
  rows : t.rows = m.entries.values.map Row.ofEntry
  addressed : ∀ p ∈ m.entries.pairs, p.2.identifier = p.1

namespace Mirrors

variable {m : MemoryStore} {t : TableStore}

theorem empty : Mirrors RegistryStore.empty RegistryStore.empty where
  sources := rfl
  named := fun _ h => by cases h
  numbered := rfl
  rows := rfl
  addressed := fun _ h => by cases h

theorem identifiers_eq (h : Mirrors m t) : t.rows.map Row.identifier = m.entries.keys := by
  rw [h.rows, List.map_map, OrderedMap.values, OrderedMap.keys, List.map_map]
  exact List.map_congr_left fun p hp => h.addressed p hp

theorem wellFormed (h : Mirrors m t) : t.WellFormed where
  encoded := by
    intro r hr
    rw [h.rows] at hr
    obtain ⟨e, -, rfl⟩ := List.mem_map.1 hr
    rw [Row.entry_ofEntry]
  keyed := by
    rw [h.identifiers_eq]
    exact m.entries.nodup_keys

theorem getSource?_eq (h : Mirrors m t) (ref : String) :
    RegistryStore.getSource? m ref = RegistryStore.getSource? t ref := by
  change OrderedMap.lookup ref m.sources.pairs = t.sources.find? fun unit => unit.ref == ref
  rw [OrderedMap.lookup_eq_find? h.named, h.sources, OrderedMap.values]

theorem sourceText?_eq (h : Mirrors m t) (ref : String) :
    RegistryStore.sourceText? m ref = RegistryStore.sourceText? t ref := by
  rw [RegistryStore.sourceText?, RegistryStore.sourceText?, h.getSource?_eq]

theorem entryAt?_eq (h : Mirrors m t) (i : Identifier) :
    RegistryStore.entryAt? m i = RegistryStore.entryAt? t i := by
  change OrderedMap.lookup i m.entries.pairs =
    (t.rows.find? fun r => r.identifier == i).map Row.entry
  rw [OrderedMap.lookup_eq_find? h.addressed, h.rows, OrderedMap.values,
    List.find?_map (f := Row.ofEntry), Option.map_map]
  simp only [Function.comp_def, Row.identifier_ofEntry, Row.entry_ofEntry, Option.map_id']

theorem identifier_of_get? (h : Mirrors m t) {i : Identifier} {e : Entry}
    (he : m.entries.get? i = some e) : e.identifier = i :=
  h.addressed (i, e) (OrderedMap.mem_of_lookup he)

/-- Writing an entry anew in memory is replacing its row in the table. -/
theorem replace (h : Mirrors m t) {i : Identifier} {current updated : Entry}
    (he : m.entries.get? i = some current) (haddress : updated.identifier = i) :
    Mirrors { m with entries := m.entries.insert i updated } (t.replace updated) where
  sources := h.sources
  named := h.named
  numbered := h.numbered
  rows := by
    have mem : i ∈ m.entries.keys := List.mem_map.2 ⟨_, OrderedMap.mem_of_lookup he, rfl⟩
    have hvalues := OrderedMap.map_snd_write_of_mem h.addressed updated mem m.entries.nodup_keys
    change t.rows.map _ = ((OrderedMap.write i updated m.entries.pairs).map Prod.snd).map _
    rw [hvalues, h.rows, haddress, ← OrderedMap.values, List.map_map, List.map_map]
    apply List.map_congr_left
    intro e _
    simp only [Function.comp_apply, Row.identifier_ofEntry]
    exact (apply_ite Row.ofEntry _ _ _).symm
  addressed := OrderedMap.named_write h.addressed haddress

theorem contains_eq (h : Mirrors m t) (i : Identifier) :
    m.entries.contains i = (t.selectRow i).isSome := by
  have hiff : i ∈ m.entries.keys ↔ (t.selectRow i).isSome := by
    rw [← h.identifiers_eq, TableStore.selectRow, List.find?_isSome, List.mem_map]
    simp only [beq_iff_eq]
  rw [Bool.eq_iff_iff, ← hiff, OrderedMap.contains, List.contains_iff_mem]

theorem listEntries_perm (h : Mirrors m t) (owner : Option String) :
    (m.listEntries owner).Perm (t.listEntries owner) := by
  have hrows : (t.rows.filter fun r => owner.all (· == r.owner)).map Row.entry =
      m.listEntries owner := by
    rw [MemoryStore.listEntries, h.rows, List.filter_map, List.map_map]
    exact map_eq_self fun e _ => Row.entry_ofEntry e
  rw [← hrows]
  exact ((Row.foldr_insertSorted_perm _).map Row.entry).symm

theorem length_sources (h : Mirrors m t) : t.sources.length = m.sources.size := by
  rw [h.sources, OrderedMap.values, List.length_map, OrderedMap.size]

end Mirrors

/-- Operations that do the same to two stores: they have the same result, and leave a table that
mirrors the store in memory. -/
def Alike (m : MemoryStore) (t : TableStore) (x : StoreM MemoryStore α) (y : StoreM TableStore α) :
    Prop :=
  (x.run m).1 = (y.run t).1 ∧ Mirrors (x.run m).2 (y.run t).2

section Operations

variable {m : MemoryStore} {t : TableStore} {α β : Type}

theorem Mirrors.pure (h : Mirrors m t) (a : α) : Alike m t (pure a) (pure a) := ⟨rfl, h⟩

theorem Mirrors.refuse (h : Mirrors m t) (e : RegistryError) :
    Alike m t (StoreM.refuse e : StoreM _ α) (StoreM.refuse e) := ⟨rfl, h⟩

theorem Mirrors.lift (h : Mirrors m t) (r : Except Failure α) :
    Alike m t (StoreM.lift r) (StoreM.lift r) := by
  unfold Alike
  rw [StoreM.run_lift, StoreM.run_lift]
  exact ⟨rfl, h⟩

theorem Alike.bind {x : StoreM MemoryStore α} {y : StoreM TableStore α}
    {f : α → StoreM MemoryStore β} {g : α → StoreM TableStore β} (h : Alike m t x y)
    (next : ∀ a m' t', Mirrors m' t' → Alike m' t' (f a) (g a)) :
    Alike m t (x >>= f) (y >>= g) := by
  unfold Alike at h next ⊢
  rw [StoreM.run_bind, StoreM.run_bind]
  obtain ⟨hresult, hmirrors⟩ := h
  rcases hx : x.run m with ⟨rx, m'⟩
  rcases hy : y.run t with ⟨ry, t'⟩
  rw [hx, hy] at hresult hmirrors
  simp only at hresult hmirrors
  subst hresult
  cases rx with
  | ok a => exact next a m' t' hmirrors
  | error e => exact ⟨rfl, hmirrors⟩

theorem Alike.sameResult {x : StoreM MemoryStore StoreAnswer} {y : StoreM TableStore StoreAnswer}
    (h : Alike m t x y) : SameResult (x.run m).1 (y.run t).1 ∧ Mirrors (x.run m).2 (y.run t).2 :=
  ⟨h.1 ▸ .refl _, h.2⟩

theorem Alike.get_bind {f : MemoryStore → StoreM MemoryStore α} {g : TableStore → StoreM TableStore α}
    (h : Alike m t (f m) (g t)) : Alike m t (get >>= f) (get >>= g) := by
  unfold Alike at h ⊢
  rw [StoreM.run_bind, StoreM.run_bind]
  exact h

namespace Mirrors

theorem putSource (h : Mirrors m t) (name text : String) :
    Alike m t (RegistryStore.putSource name text) (RegistryStore.putSource name text) := by
  apply Alike.get_bind
  rw [h.length_sources]
  refine ⟨rfl, ?_⟩
  refine ⟨?_, OrderedMap.named_write h.named rfl, h.numbered.putSource _, h.rows, h.addressed⟩
  change t.sources ++ [_] = ((m.sources.insert _ _).pairs).map Prod.snd
  rw [h.numbered.pairs_putSource, List.map_append, h.sources]
  rfl

theorem createEntry (h : Mirrors m t) (e : Entry) :
    Alike m t (RegistryStore.createEntry e) (RegistryStore.createEntry e) := by
  refine (h.lift _).bind fun _ m t h => ?_
  apply Alike.get_bind
  rw [h.contains_eq]
  split
  · exact h.refuse _
  · next free =>
    refine ⟨rfl, ?_⟩
    have new : e.identifier ∉ m.entries.pairs.map Prod.fst := by
      rw [← h.contains_eq, OrderedMap.contains, List.contains_iff_mem] at free
      exact free
    refine ⟨h.sources, h.named, h.numbered, ?_, OrderedMap.named_write h.addressed rfl⟩
    change t.rows ++ [_] = ((OrderedMap.write _ _ m.entries.pairs).map Prod.snd).map Row.ofEntry
    rw [OrderedMap.write_of_not_mem new, List.map_append, List.map_append, h.rows]
    rfl

/-- The whole entry is replaced in memory, and some of its columns are written in the table. -/
theorem updateEntry (h : Mirrors m t) (i : Identifier) (p : EntryPatch) (expected : Int) :
    Alike m t (RegistryStore.updateEntry i p expected) (RegistryStore.updateEntry i p expected) := by
  unfold Alike
  change _ = ((TableStore.updateEntry i p expected).run t).1 ∧
    Mirrors _ ((TableStore.updateEntry i p expected).run t).2
  rw [TableStore.run_updateEntry]
  change ((MemoryStore.updateEntry i p expected).run m).1 = _ ∧
    Mirrors ((MemoryStore.updateEntry i p expected).run m).2 _
  unfold MemoryStore.updateEntry
  rw [StoreM.run_bind, StoreM.run_get]
  have hentry : m.entries.get? i = t.entryAt? i := h.entryAt?_eq i
  simp only [hentry]
  cases hread : t.entryAt? i with
  | none => exact ⟨rfl, h⟩
  | some current =>
    simp only [StoreM.run_bind, StoreM.run_lift]
    cases hp : current.patched p expected with
    | error e => exact ⟨rfl, h⟩
    | ok updated =>
      simp only [TableStore.conditionalUpdate_of_patched h.wellFormed hread hp]
      have he := hentry.trans hread
      exact ⟨rfl, h.replace he ((Entry.identifier_of_patched hp).trans (h.identifier_of_get? he))⟩

theorem publish (h : Mirrors m t) (i : Identifier) (analysis : SubmissionAnalysis)
    (labels : EntryLabels) :
    Alike m t (RegistryStore.publish i analysis labels)
      (RegistryStore.publish i analysis labels) := by
  refine (h.lift _).bind fun _ m t h => ?_
  apply Alike.get_bind
  rw [h.entryAt?_eq]
  split
  · exact h.refuse _
  · refine (h.putSource _ _).bind fun codeRef m t h => ?_
    refine (h.putSource _ _).bind fun demoRef m t h => ?_
    exact (h.lift _).bind fun entry m t h => h.createEntry entry

theorem keepSource (h : Mirrors m t) (ref name text : String) :
    Alike m t (RegistryStore.keepSource ref name text) (RegistryStore.keepSource ref name text) := by
  apply Alike.get_bind
  rw [h.sourceText?_eq]
  split
  · exact h.pure ref
  · exact h.putSource name text

theorem revise (h : Mirrors m t) (settings : AnalysisSettings) (i : Identifier)
    (component demo : String) (slugs : InternalDependencies) (known : OrderedMap String String) :
    Alike m t (RegistryStore.revise settings i component demo slugs known)
      (RegistryStore.revise settings i component demo slugs known) := by
  apply Alike.get_bind
  rw [h.entryAt?_eq]
  cases RegistryStore.entryAt? t i with
  | none => exact h.refuse _
  | some current =>
    refine (h.lift _).bind fun analysis m t h => ?_
    refine (h.lift _).bind fun _ m t h => ?_
    refine (h.keepSource _ _ _).bind fun codeRef m t h => ?_
    refine (h.keepSource _ _ _).bind fun demoRef m t h => ?_
    refine (h.lift _).bind fun changed m t h => ?_
    split
    · exact h.pure current
    · exact h.updateEntry _ _ _

/-- A request gets the same answer from both stores, and they go on alike. -/
theorem answer (h : Mirrors m t) (request : StoreRequest) :
    SameResult (StoreM.run request.answer m).1 (StoreM.run request.answer t).1 ∧
      Mirrors (StoreM.run request.answer m).2 (StoreM.run request.answer t).2 := by
  cases request with
  | putSource name text =>
    exact ((h.putSource name text).bind fun r _ _ h => h.pure (StoreAnswer.ref r)).sameResult
  | getSource ref =>
    refine (Alike.get_bind ?_).sameResult
    rw [h.getSource?_eq]
    exact h.pure _
  | sourceText ref =>
    refine (Alike.get_bind ?_).sameResult
    rw [h.sourceText?_eq]
    exact h.pure _
  | createEntry entry =>
    exact ((h.createEntry entry).bind fun e _ _ h => h.pure (StoreAnswer.entry e)).sameResult
  | entryAt i =>
    refine (Alike.get_bind ?_).sameResult
    rw [h.entryAt?_eq]
    exact h.pure _
  | listEntries owner => exact ⟨.answered (.entries (h.listEntries_perm owner)), h⟩
  | updateEntry i p expected =>
    exact ((h.updateEntry i p expected).bind fun e _ _ h =>
      h.pure (StoreAnswer.entry e)).sameResult
  | publish i analysis labels =>
    exact ((h.publish i analysis labels).bind fun e _ _ h =>
      h.pure (StoreAnswer.entry e)).sameResult
  | revise settings i component demo slugs known =>
    exact ((h.revise settings i component demo slugs known).bind fun e _ _ h =>
      h.pure (StoreAnswer.entry e)).sameResult

theorem session (h : Mirrors m t) (requests : List StoreRequest) :
    List.Forall₂ SameResult (session requests m).1 (session requests t).1 ∧
      Mirrors (session requests m).2 (session requests t).2 := by
  induction requests generalizing m t with
  | nil => exact ⟨.nil, h⟩
  | cons request rest ih =>
    obtain ⟨hresult, hnext⟩ := h.answer request
    obtain ⟨hresults, hlast⟩ := ih hnext
    exact ⟨.cons hresult hresults, hlast⟩

end Mirrors

end Operations

/-- A store in memory and a store in tables that start with nothing in them answer every sequence of
requests alike, one by one: with the same result, down to the order of the pairs in the maps of an
entry, or with the same failure. Only a list of entries may come in another order. -/
theorem stores_agree (requests : List StoreRequest) :
    List.Forall₂ SameResult (session requests (RegistryStore.empty : MemoryStore)).1
      (session requests (RegistryStore.empty : TableStore)).1 :=
  (Mirrors.empty.session requests).1

end ComponentRegistry
