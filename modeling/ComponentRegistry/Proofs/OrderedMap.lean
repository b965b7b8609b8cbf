import Mathlib.Data.List.Basic
import Mathlib.Data.List.Perm.Subperm
import ComponentRegistry.OrderedMap

/-! # Pairs of ordered maps

An ordered map as the list of its pairs: what looking up and writing mean for it.
-/

namespace ComponentRegistry

namespace OrderedMap

variable {κ α : Type}

theorem ext_pairs {m n : OrderedMap κ α} (h : m.pairs = n.pairs) : m = n := by
  obtain ⟨pairs, distinct⟩ := m
  cases h
  rfl

variable [DecidableEq κ]

theorem write_of_not_mem {key : κ} {value : α} {pairs : List (κ × α)}
    (new : key ∉ pairs.map Prod.fst) : write key value pairs = pairs ++ [(key, value)] := by
  induction pairs with
  | nil => rfl
  | cons p rest ih =>
    obtain ⟨k, v⟩ := p
    simp only [List.map_cons, List.mem_cons, not_or] at new
    rw [write, if_neg (Ne.symm new.1), ih new.2, List.cons_append]

theorem pairs_insertAll_of_nodup {m : OrderedMap κ α} {pairs : List (κ × α)}
    (distinct : ((m.pairs ++ pairs).map Prod.fst).Nodup) :
    (m.insertAll pairs).pairs = m.pairs ++ pairs := by
  induction pairs generalizing m with
  | nil => simp [insertAll]
  | cons p rest ih =>
    obtain ⟨k, v⟩ := p
    have new : k ∉ m.pairs.map Prod.fst := by
      intro hk
      rw [List.map_append, List.nodup_append] at distinct
      exact distinct.2.2 k hk k (by simp) rfl
    have hinsert : (m.insert k v).pairs = m.pairs ++ [(k, v)] := write_of_not_mem new
    have hrest := ih (m := m.insert k v) (by rw [hinsert]; simpa using distinct)
    rw [hinsert] at hrest
    simpa [insertAll] using hrest

/-- Pairs whose keys are all different make up a map as they are. -/
theorem pairs_ofPairs_of_nodup {pairs : List (κ × α)} (distinct : (pairs.map Prod.fst).Nodup) :
    (ofPairs pairs).pairs = pairs :=
  pairs_insertAll_of_nodup (m := empty) distinct

theorem ofPairs_pairs (m : OrderedMap κ α) : ofPairs m.pairs = m :=
  ext_pairs (pairs_ofPairs_of_nodup m.nodup_keys)

theorem lookup_eq_some_iff {key : κ} {value : α} {pairs : List (κ × α)}
    (distinct : (pairs.map Prod.fst).Nodup) :
    lookup key pairs = some value ↔ (key, value) ∈ pairs := by
  refine ⟨mem_of_lookup, fun mem => ?_⟩
  induction pairs with
  | nil => cases mem
  | cons p rest ih =>
    obtain ⟨k, v⟩ := p
    obtain ⟨new, distinct⟩ := List.nodup_cons.1 distinct
    rcases List.mem_cons.1 mem with same | mem
    · cases same
      simp [lookup]
    · have hne : k ≠ key := fun same => new (List.mem_map.2 ⟨_, mem, same.symm⟩)
      rw [lookup, if_neg hne, ih distinct mem]

theorem get?_eq_some_iff {m : OrderedMap κ α} {key : κ} {value : α} :
    m.get? key = some value ↔ (key, value) ∈ m.pairs :=
  lookup_eq_some_iff m.nodup_keys

theorem keys_insert (m : OrderedMap κ α) (key : κ) (value : α) :
    (m.insert key value).keys = if key ∈ m.keys then m.keys else m.keys ++ [key] :=
  keys_write key value m.pairs

theorem lookup_write (key k : κ) (value : α) (pairs : List (κ × α)) :
    lookup k (write key value pairs) = if key = k then some value else lookup k pairs := by
  induction pairs with
  | nil => rfl
  | cons p rest ih =>
    obtain ⟨first, v⟩ := p
    rw [write]
    split
    · next same =>
      rw [lookup, lookup, same]
      split <;> rfl
    · next hne =>
      rw [lookup, lookup, ih]
      split
      · next same => rw [if_neg fun h => hne (same.trans h.symm)]
      · rfl

theorem get?_insert (m : OrderedMap κ α) (key k : κ) (value : α) :
    (m.insert key value).get? k = if key = k then some value else m.get? k :=
  lookup_write key k value m.pairs

theorem mem_pairs_insert {m : OrderedMap κ α} {key : κ} {value : α} {p : κ × α}
    (h : p ∈ (m.insert key value).pairs) : p = (key, value) ∨ p ∈ m.pairs := by
  obtain ⟨k, v⟩ := p
  have hget := get?_eq_some_iff.2 h
  rw [get?_insert] at hget
  split at hget
  · next same => exact .inl (Prod.ext same.symm (Option.some_inj.1 hget).symm)
  · exact .inr (get?_eq_some_iff.1 hget)

theorem mem_values_insert {m : OrderedMap κ α} {key : κ} {value v : α}
    (h : v ∈ (m.insert key value).values) : v = value ∨ v ∈ m.values := by
  obtain ⟨p, mem, rfl⟩ := List.mem_map.1 h
  exact (mem_pairs_insert mem).imp (congrArg Prod.snd) List.mem_map_of_mem

theorem mem_pairs_insertAll {m : OrderedMap κ α} {pairs : List (κ × α)} {p : κ × α}
    (h : p ∈ (m.insertAll pairs).pairs) : p ∈ m.pairs ∨ p ∈ pairs := by
  induction pairs generalizing m with
  | nil => exact .inl h
  | cons first rest ih =>
    rcases ih h with h | h
    · rcases mem_pairs_insert h with rfl | h
      · exact .inr List.mem_cons_self
      · exact .inl h
    · exact .inr (List.mem_cons_of_mem _ h)

theorem mem_keys_of_get? {m : OrderedMap κ α} {key : κ} {value : α} (h : m.get? key = some value) :
    key ∈ m.keys :=
  List.mem_map.2 ⟨_, mem_of_lookup h, rfl⟩

theorem get?_eq_none_iff {m : OrderedMap κ α} {key : κ} : m.get? key = none ↔ key ∉ m.keys := by
  constructor
  · intro missing mem
    obtain ⟨p, hp, rfl⟩ := List.mem_map.1 mem
    have found := get?_eq_some_iff.2 hp
    rw [missing] at found
    cases found
  · intro absent
    exact Option.eq_none_iff_forall_ne_some.2 fun _ found => absent (mem_keys_of_get? found)

/-- Writing all pairs of a map is asking that map first. -/
theorem get?_insertAll (m n : OrderedMap κ α) (key : κ) :
    (m.insertAll n.pairs).get? key = (n.get? key).or (m.get? key) := by
  obtain ⟨pairs, distinct⟩ := n
  change (m.insertAll pairs).get? key = (lookup key pairs).or (m.get? key)
  induction pairs generalizing m with
  | nil => rfl
  | cons p rest ih =>
    obtain ⟨k, v⟩ := p
    obtain ⟨new, distinct⟩ := List.nodup_cons.1 distinct
    have later : (m.insertAll ((k, v) :: rest)).get? key =
        (lookup key rest).or ((m.insert k v).get? key) := ih _ distinct
    rw [later, get?_insert, lookup]
    by_cases same : k = key
    · have missing : lookup key rest = none :=
        (get?_eq_none_iff (m := ⟨rest, distinct⟩)).2 (same ▸ new)
      rw [if_pos same, if_pos same, missing, Option.none_or, Option.some_or]
    · rw [if_neg same, if_neg same]

theorem get?_insertAll_of_get? {m n : OrderedMap κ α} {key : κ} {value : α}
    (h : n.get? key = some value) : (m.insertAll n.pairs).get? key = some value := by
  rw [get?_insertAll, h, Option.some_or]

theorem get?_ofKeys {keys : List κ} (distinct : keys.Nodup) (value : κ → α) {key : κ}
    (mem : key ∈ keys) : (ofKeys keys distinct value).get? key = some (value key) :=
  get?_eq_some_iff.2 (List.mem_map_of_mem mem)

/-- A map is what its keys and the values behind them say. -/
theorem eq_ofKeys {m : OrderedMap κ α} {keys : List κ} (distinct : keys.Nodup) {value : κ → α}
    (same : m.keys = keys) (own : ∀ key ∈ keys, m.get? key = some (value key)) :
    m = ofKeys keys distinct value := by
  subst same
  apply ext_pairs
  have each : ∀ p ∈ m.pairs, (p.1, value p.1) = p := by
    intro p hp
    have found : m.get? p.1 = some p.2 := get?_eq_some_iff.2 hp
    rw [own p.1 (List.mem_map_of_mem hp)] at found
    exact Prod.ext rfl (Option.some.inj found)
  calc m.pairs = m.pairs.map fun p => (p.1, value p.1) := by
        rw [List.map_congr_left each, List.map_id']
    _ = m.keys.map fun key => (key, value key) := by
        rw [keys, List.map_map]
        rfl

section SameContent

variable [DecidableEq α] {m n : OrderedMap κ α}

theorem sameContent_self (m : OrderedMap κ α) : m.sameContent m = true := by
  simp only [sameContent, beq_self_eq_true, Bool.true_and, List.all_eq_true]
  rintro ⟨k, v⟩ mem
  exact beq_iff_eq.2 (get?_eq_some_iff.2 mem)

theorem mem_keys_of_sameContent (h : m.sameContent n = true) (k : κ) : k ∈ m.keys ↔ k ∈ n.keys := by
  simp only [sameContent, Bool.and_eq_true, beq_iff_eq, List.all_eq_true] at h
  obtain ⟨hsize, hpairs⟩ := h
  have hsub : m.keys ⊆ n.keys := by
    intro key hkey
    obtain ⟨p, hp, rfl⟩ := List.mem_map.1 hkey
    exact mem_keys_of_get? (hpairs p hp)
  have hlength : n.keys.length ≤ m.keys.length := by
    rw [keys, keys, List.length_map, List.length_map]
    exact Nat.le_of_eq hsize.symm
  have hperm := (List.subperm_of_subset m.nodup_keys hsub).perm_of_length_le hlength
  exact hperm.mem_iff

theorem get?_of_sameContent (h : m.sameContent n = true) (k : κ) : m.get? k = n.get? k := by
  cases found : m.get? k with
  | none =>
    rw [get?_eq_none_iff, mem_keys_of_sameContent h] at found
    exact (get?_eq_none_iff.2 found).symm
  | some v =>
    simp only [sameContent, Bool.and_eq_true, beq_iff_eq, List.all_eq_true] at h
    exact (h.2 (k, v) (get?_eq_some_iff.1 found)).symm

theorem sameContent_iff : m.sameContent n = true ↔ ∀ k, m.get? k = n.get? k := by
  refine ⟨get?_of_sameContent, fun h => ?_⟩
  have hkeys : ∀ k, k ∈ m.keys ↔ k ∈ n.keys := by
    intro k
    rw [← not_iff_not, ← get?_eq_none_iff, ← get?_eq_none_iff, h k]
  have hperm := (List.perm_ext_iff_of_nodup m.nodup_keys n.nodup_keys).2 hkeys
  have hsize : m.size = n.size := by simpa [keys, size] using hperm.length_eq
  simp only [sameContent, hsize, beq_self_eq_true, Bool.true_and, List.all_eq_true, beq_iff_eq]
  rintro ⟨k, v⟩ mem
  rw [← h k, get?_eq_some_iff]
  exact mem

end SameContent

section Named

variable {name : α → κ} {pairs : List (κ × α)} (named : ∀ p ∈ pairs, name p.2 = p.1)

include named

/-- Where values tell their own keys, a key is looked up among the values. -/
theorem lookup_eq_find? (key : κ) :
    lookup key pairs = (pairs.map Prod.snd).find? fun a => name a == key := by
  induction pairs with
  | nil => rfl
  | cons p rest ih =>
    obtain ⟨k, v⟩ := p
    have first : name v = k := named (k, v) List.mem_cons_self
    have others := ih fun q hq => named q (List.mem_cons_of_mem _ hq)
    rw [lookup, List.map_cons, List.find?_cons, first]
    by_cases same : k = key
    · simp [same]
    · rw [if_neg same, others, beq_eq_false_iff_ne.2 same]

theorem map_snd_write_of_mem {key : κ} (value : α) (mem : key ∈ pairs.map Prod.fst)
    (distinct : (pairs.map Prod.fst).Nodup) :
    (write key value pairs).map Prod.snd =
      (pairs.map Prod.snd).map fun a => if name a = key then value else a := by
  induction pairs with
  | nil => cases mem
  | cons p rest ih =>
    obtain ⟨k, v⟩ := p
    have first : name v = k := named (k, v) List.mem_cons_self
    have others : ∀ q ∈ rest, name q.2 = q.1 := fun q hq => named q (List.mem_cons_of_mem _ hq)
    obtain ⟨new, distinct⟩ := List.nodup_cons.1 distinct
    by_cases same : k = key
    · have unchanged : ∀ a ∈ rest.map Prod.snd, (if name a = key then value else a) = a := by
        intro a ha
        obtain ⟨q, hq, rfl⟩ := List.mem_map.1 ha
        apply if_neg
        intro hkey
        apply new
        rw [same, ← hkey, others q hq]
        exact List.mem_map.2 ⟨q, hq, rfl⟩
      rw [write, if_pos same, List.map_cons, List.map_cons, List.map_cons, first, if_pos same,
        List.map_congr_left (g := id) unchanged, List.map_id]
    · have mem : key ∈ rest.map Prod.fst := (List.mem_cons.1 mem).resolve_left (Ne.symm same)
      rw [write, if_neg same, List.map_cons, List.map_cons, List.map_cons, first, if_neg same,
        ih others mem distinct]

theorem named_write {key : κ} {value : α} (hvalue : name value = key) :
    ∀ p ∈ write key value pairs, name p.2 = p.1 := by
  induction pairs with
  | nil => simpa [write] using hvalue
  | cons p rest ih =>
    obtain ⟨k, v⟩ := p
    have others : ∀ q ∈ rest, name q.2 = q.1 := fun q hq => named q (List.mem_cons_of_mem _ hq)
    rw [write]
    split
    · next same =>
      rw [List.forall_mem_cons]
      exact ⟨hvalue.trans same.symm, others⟩
    · rw [List.forall_mem_cons]
      exact ⟨named (k, v) List.mem_cons_self, ih others⟩

end Named

end OrderedMap

end ComponentRegistry
