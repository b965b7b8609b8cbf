import Mathlib.Data.List.Nodup
import ComponentRegistry.Manifest
import ComponentRegistry.Proofs.Resolution.Closure

/-! # Manifests are closures

The closure for a manifest is searched with the root known beforehand, and with what the root
depends on as further seeds. Neither makes a difference: it is the closure of the root alone, in the
same order, and the root is read once like everything else.
-/

namespace ComponentRegistry

namespace Search

variable {s t : Search} {seeds seeds' : List String} {found found' : List Found}

theorem asked_of_read {search : Search} {reference : String} {f : Found}
    (h : search.read reference = .ok f) :
    f.asked = if (search.known.get? reference).isSome then none
      else Identifier.parse? reference := by
  unfold read at h
  split at h
  · next known =>
    obtain ⟨text, -, h⟩ := bind_eq_ok.1 h
    cases h
    simp [known]
  · next unknown =>
    obtain ⟨identifier, hparse, h⟩ := bind_eq_ok.1 h
    obtain ⟨entry, -, h⟩ := bind_eq_ok.1 h
    obtain ⟨text, -, h⟩ := bind_eq_ok.1 h
    cases h
    simp [unknown, Identifier.parse_eq_ok.1 hparse]

/-- Two searches of one catalog that find the same entry behind every reference. -/
structure Agrees (s t : Search) : Prop where
  catalog : s.catalog = t.catalog
  entryOf? : s.entryOf? = t.entryOf?

namespace Agrees

theorem successors (h : s.Agrees t) : s.successors = t.successors := by
  funext reference
  rw [Search.successors, Search.successors, h.entryOf?]

theorem complete_iff (h : s.Agrees t) (reference : String) :
    s.Complete reference ↔ t.Complete reference := by
  constructor
  · rintro ⟨written, stored⟩
    exact ⟨written, by rwa [← h.entryOf?, ← h.catalog]⟩
  · rintro ⟨written, stored⟩
    exact ⟨written, by rwa [h.entryOf?, h.catalog]⟩

theorem resolved_eq (h : s.Agrees t) {reference : String} {f g : Found}
    (hf : s.read reference = .ok f) (hg : t.read reference = .ok g) : f.resolved = g.resolved := by
  obtain ⟨sameReference, entry, text⟩ := read_eq_ok hf
  obtain ⟨sameReference', entry', text'⟩ := read_eq_ok hg
  rw [h.entryOf?, entry'] at entry
  have sameEntry := Option.some.inj entry
  rw [h.catalog, ← sameEntry, text'] at text
  rw [Found.resolved, Found.resolved, sameReference, sameReference', ← sameEntry,
    Option.some.inj text]

theorem map_resolved_eq (h : s.Agrees t) (own : ∀ f ∈ found, s.read f.reference = .ok f)
    (own' : ∀ f ∈ found', t.read f.reference = .ok f)
    (same : found.map Found.reference = found'.map Found.reference) :
    (found.map fun f => (f.reference, f.resolved)) =
      found'.map fun f => (f.reference, f.resolved) := by
  induction found generalizing found' with
  | nil =>
    cases found' with
    | nil => rfl
    | cons => cases same
  | cons f rest ih =>
    cases found' with
    | nil => cases same
    | cons f' rest' =>
      obtain ⟨head, tail⟩ := List.cons.inj same
      have hf := own f List.mem_cons_self
      rw [head] at hf
      rw [List.map_cons, List.map_cons, head,
        h.resolved_eq hf (own' f' List.mem_cons_self),
        ih (fun g hg => own g (List.mem_cons_of_mem f hg))
          (fun g hg => own' g (List.mem_cons_of_mem f' hg)) tail]

end Agrees

theorem map_some_asked (answered : ∀ f ∈ found, f.asked.isSome) :
    (found.filterMap Found.asked).map some = found.map Found.asked := by
  induction found with
  | nil => rfl
  | cons f rest ih =>
    obtain ⟨identifier, hasked⟩ := Option.isSome_iff_exists.1 (answered f List.mem_cons_self)
    rw [List.filterMap_cons_some hasked, List.map_cons, List.map_cons, hasked,
      ih fun g hg => answered g (List.mem_cons_of_mem f hg)]

end Search

namespace Catalog

open Search

/-- A catalog that always answers, and has every entry under its own address. -/
structure IsFaithful (catalog : Catalog) : Prop where
  available : ∀ i, catalog.outage i = none
  own : ∀ i e, catalog.entries.get? i = some e → e.identifier = i

/-- The search that knows nothing beforehand. -/
def search (catalog : Catalog) (schedule : Schedule) : Search :=
  { catalog, known := ∅, schedule }

/-- The search that knows one entry beforehand. -/
def searchFrom (catalog : Catalog) (root : Entry) : Search :=
  { catalog, known := .ofPairs [(root.identifier.text, root)] }

variable {catalog : Catalog} {schedule : Schedule} {i : Identifier} {root : Entry}

theorem fetchRoot_eq_ok (available : ∀ i, catalog.outage i = none) :
    catalog.fetchRoot i = .ok root ↔ catalog.entries.get? i = some root := by
  unfold fetchRoot fetchEntry
  rw [available]
  cases catalog.entries.get? i with
  | none => simp
  | some e => simp

theorem resolveRoot_eq_ok {r : RootedResolution} :
    catalog.resolveRoot i = .ok r ↔ catalog.fetchRoot i = .ok r.root ∧
      (catalog.searchFrom r.root).resolve (seedsOf r.root i.owner) = .ok r.resolution ∧
      r.asked = i :: r.resolution.asked := by
  constructor
  · intro h
    obtain ⟨root, hroot, h⟩ := bind_eq_ok.1 h
    obtain ⟨resolution, hresolve, h⟩ := bind_eq_ok.1 h
    cases h
    exact ⟨hroot, hresolve, rfl⟩
  · rintro ⟨hroot, hresolve, hasked⟩
    refine bind_eq_ok.2 ⟨_, hroot, bind_eq_ok.2 ⟨_, hresolve, ?_⟩⟩
    rw [← hasked]
    rfl

theorem get?_known (reference : String) :
    (catalog.searchFrom root).known.get? reference =
      if root.identifier.text = reference then some root else none :=
  rfl

theorem entryOf?_text (plain : i.IsPlain) :
    (catalog.search schedule).entryOf? i.text = catalog.entries.get? i := by
  show Option.or none _ = _
  rw [Option.none_or, Identifier.parse?_text plain]
  rfl

variable (faithful : catalog.IsFaithful) (plain : i.IsPlain)
include faithful plain

theorem searchFrom_agrees (hroot : catalog.entries.get? i = some root) :
    (catalog.searchFrom root).Agrees (catalog.search schedule) := by
  refine ⟨rfl, ?_⟩
  funext reference
  rw [Search.entryOf?, get?_known, faithful.own i root hroot]
  split
  · next same => rw [← same, entryOf?_text plain, hroot, Option.some_or]
  · rfl

theorem map_trimmed_seedsOf (hroot : catalog.entries.get? i = some root) :
    (seedsOf root i.owner).map trimmed =
      i.text :: firstOccurrences ((catalog.search schedule).successors i.text) := by
  have address := faithful.own i root hroot
  have owner : root.owner = i.owner := by rw [← address]; rfl
  have direct : (catalog.search schedule).successors i.text =
      root.internal.values.map (Identifier.canonical i.owner) := by
    rw [Search.successors, entryOf?_text plain, hroot, ← owner]
  rw [direct, seedsOf, address, List.map_cons, Identifier.trimmed_text plain]
  congr 1
  conv_rhs => rw [← List.map_id (firstOccurrences _)]
  apply List.map_congr_left
  intro reference mem
  obtain ⟨value, -, rfl⟩ := List.mem_map.1 (mem_firstOccurrences.1 mem)
  exact Identifier.trimmed_canonical plain.owner value

theorem reached_seedsOf_iff (hroot : catalog.entries.get? i = some root) {reference : String} :
    Reached ((seedsOf root i.owner).map trimmed) (catalog.search schedule).successors reference ↔
      Reached [i.text] (catalog.search schedule).successors reference := by
  rw [map_trimmed_seedsOf faithful plain hroot]
  constructor
  · intro h
    exact h.of_extra_seeds fun b hb => mem_firstOccurrences.1 hb
  · intro h
    exact h.mono (by simp)

theorem resolves_searchFrom_iff (hroot : catalog.entries.get? i = some root) :
    (∃ r, (catalog.searchFrom root).resolve (seedsOf root i.owner) = .ok r) ↔
      ∃ r, (catalog.search schedule).resolve [i.text] = .ok r := by
  have agrees : (catalog.searchFrom root).Agrees (catalog.search schedule) :=
    searchFrom_agrees faithful plain hroot
  rw [resolves_iff faithful.available, resolves_iff faithful.available, agrees.successors]
  simp only [reached_seedsOf_iff faithful plain hroot, agrees.complete_iff, List.map_cons,
    List.map_nil, Identifier.trimmed_text plain]

theorem manifest_isOk_iff (extension : String) :
    (∃ m, catalog.manifest i extension = .ok m) ↔
      ∃ r, (catalog.search schedule).resolve [i.text] = .ok r := by
  cases hroot : catalog.entries.get? i with
  | some root =>
    rw [← resolves_searchFrom_iff faithful plain hroot]
    have fetched := (fetchRoot_eq_ok faithful.available).2 hroot
    constructor
    · rintro ⟨m, h⟩
      obtain ⟨r, h, -⟩ := map_eq_ok.1 h
      obtain ⟨fetched', resolved, -⟩ := resolveRoot_eq_ok.1 h
      rw [fetched] at fetched'
      cases fetched'
      exact ⟨_, resolved⟩
    · rintro ⟨resolution, h⟩
      exact ⟨_, map_eq_ok.2 ⟨⟨root, resolution, i :: resolution.asked⟩,
        resolveRoot_eq_ok.2 ⟨fetched, h, rfl⟩, rfl⟩⟩
  | none =>
    constructor
    · rintro ⟨m, h⟩
      obtain ⟨r, h, -⟩ := map_eq_ok.1 h
      have fetched := (fetchRoot_eq_ok faithful.available).1 (resolveRoot_eq_ok.1 h).1
      rw [hroot] at fetched
      cases fetched
    · intro h
      have complete := (resolves_iff faithful.available).1 h i.text
        (.seed (by simp [Identifier.trimmed_text plain]))
      obtain ⟨e, text, behind, -⟩ := complete.stored
      rw [entryOf?_text plain, hroot] at behind
      cases behind

/-- Both searches find the same, and the one for a manifest finds the root first. -/
theorem found_eq (hroot : catalog.entries.get? i = some root) {found found' : List Found}
    (h : (catalog.searchFrom root).run (seedsOf root i.owner) = .ok found)
    (h' : (catalog.search schedule).run [i.text] = .ok found') :
    found.map Found.reference = found'.map Found.reference ∧
      ∃ rest, found.map Found.reference = i.text :: rest := by
  have agrees : (catalog.searchFrom root).Agrees (catalog.search schedule) :=
    searchFrom_agrees faithful plain hroot
  have order := (run_eq_ok h).order
  have order' := (run_eq_ok h').order
  rw [List.nil_append, agrees.successors, map_trimmed_seedsOf faithful plain hroot] at order
  rw [List.nil_append, List.map_cons, Identifier.trimmed_text plain, List.map_nil] at order'
  exact ⟨order.of_extra_seeds.unique order', order.exists_eq_cons⟩

/-- The root is read once, and then every other reference of the closure. -/
theorem map_some_asked_searchFrom (hroot : catalog.entries.get? i = some root)
    {found : List Found} {rest : List String}
    (h : (catalog.searchFrom root).run (seedsOf root i.owner) = .ok found)
    (start : found.map Found.reference = i.text :: rest) :
    (i :: (Resolution.ofFound found).asked).map some =
      (found.map Found.reference).map Identifier.parse? := by
  have finds := run_eq_ok h
  have known : ∀ reference, (catalog.searchFrom root).known.get? reference =
      if i.text = reference then some root else none := by
    intro reference
    rw [get?_known, faithful.own i root hroot]
  have distinct : (found.map Found.reference).Nodup := by
    rw [← finds.keys_resolved]
    exact OrderedMap.nodup_keys _
  cases found with
  | nil => cases start
  | cons f others =>
    obtain ⟨first, tail⟩ := List.cons.inj start
    rw [List.map_cons, List.nodup_cons] at distinct
    have unasked : f.asked = none := by
      rw [asked_of_read (finds.own f List.mem_cons_self), known, if_pos first.symm]
      rfl
    have asked : ∀ g ∈ others, g.asked = Identifier.parse? g.reference := by
      intro g hg
      have other : i.text ≠ g.reference := by
        intro same
        rw [first, same] at distinct
        exact distinct.1 (List.mem_map_of_mem hg)
      rw [asked_of_read (finds.own g (List.mem_cons_of_mem f hg)), known, if_neg other]
      rfl
    have answered : ∀ g ∈ others, g.asked.isSome := by
      intro g hg
      rw [asked g hg]
      exact Identifier.isSome_parse?.2 (finds.complete g (List.mem_cons_of_mem f hg)).written
    rw [Resolution.ofFound, List.filterMap_cons_none unasked, List.map_cons, map_some_asked answered,
      List.map_cons, List.map_cons, first, Identifier.parse?_text plain, List.map_map,
      List.map_congr_left asked]
    rfl

omit faithful plain

theorem packages_document (resolved : ResolvedSet) (extension : String) :
    (Manifest.ofResolved root resolved extension).document.get? "dependencies" =
      if root.external.keys = [] then none else some (.strings root.external.keys) := by
  cases h : root.external.keys with
  | nil => simp [Manifest.document, Manifest.ofResolved, h, Value.get?, Value.field?]
  | cons => simp [Manifest.document, Manifest.ofResolved, h, Value.get?, Value.field?]

/-- What is served for an entry with a given closure. -/
structure Serves (catalog : Catalog) (i : Identifier) (extension : String) (closure : Resolution)
    (m : Manifest) : Prop where
  files : m.files = closure.resolved.values.map (Manifest.fileOf extension)
  /-- The file of the entry itself comes first. -/
  first : ∃ root text others, catalog.entries.get? i = some root ∧
    catalog.text? root.codeRef = some text ∧
    m.files = ⟨i.text ++ extension, text, Manifest.kindOf root.registry, ""⟩ :: others
  distinct : (m.files.map ManifestFile.path).Nodup
  /-- Only the packages of the entry itself are listed. -/
  packages : ∃ root, catalog.entries.get? i = some root ∧
    m.document.get? "dependencies" =
      if root.external.keys = [] then none else some (.strings root.external.keys)
  /-- Every reference of the closure is read once, the one to the entry itself included. -/
  reads : ∃ r, catalog.resolveRoot i = .ok r ∧
    r.asked.map some = closure.resolved.keys.map Identifier.parse?
  reachable : ∀ reference, reference ∈ closure.resolved.keys ↔
    Reached [i.text] (catalog.search .inOrder).successors reference
  once : closure.resolved.keys.Nodup

/-- An entry has a manifest exactly when it has a closure, and the manifest serves that closure. -/
theorem manifest_serves_closure (catalog : Catalog) (faithful : catalog.IsFaithful)
    (i : Identifier) (plain : i.IsPlain) (extension : String) (schedule : Schedule) :
    ((∃ m, catalog.manifest i extension = .ok m) ↔
      ∃ closure, (catalog.search schedule).resolve [i.text] = .ok closure) ∧
    ∀ m closure, catalog.manifest i extension = .ok m →
      (catalog.search schedule).resolve [i.text] = .ok closure →
      catalog.Serves i extension closure m := by
  refine ⟨manifest_isOk_iff faithful plain extension, ?_⟩
  intro m closure hmanifest hclosure
  obtain ⟨r, hr, rfl⟩ := map_eq_ok.1 hmanifest
  obtain ⟨fetched, resolved, asked⟩ := resolveRoot_eq_ok.1 hr
  have hroot := (fetchRoot_eq_ok faithful.available).1 fetched
  obtain ⟨found, hrun, ran⟩ := map_eq_ok.1 resolved
  obtain ⟨found', hrun', rfl⟩ := map_eq_ok.1 hclosure
  have finds := run_eq_ok hrun
  have finds' := run_eq_ok hrun'
  obtain ⟨same, rest, start⟩ := found_eq faithful plain hroot hrun hrun'
  have agrees : (catalog.searchFrom r.root).Agrees (catalog.search schedule) :=
    searchFrom_agrees faithful plain hroot
  have sameSet : r.resolution.resolved = (Resolution.ofFound found').resolved := by
    rw [← ran]
    apply OrderedMap.ext_pairs
    rw [finds.pairs_resolved, finds'.pairs_resolved]
    exact agrees.map_resolved_eq finds.own finds'.own same
  have files : (Manifest.ofResolved r.root r.resolution.resolved extension).files =
      (Resolution.ofFound found').resolved.values.map (Manifest.fileOf extension) := by
    rw [← sameSet]
    rfl
  refine ⟨files, ?_, ?_, ⟨r.root, hroot, packages_document _ _⟩, ⟨r, hr, ?_⟩, ?_,
    OrderedMap.nodup_keys _⟩
  · rw [files, ← sameSet, ← ran, finds.values_resolved]
    cases found with
    | nil => cases start
    | cons f others =>
      have first := (List.cons.inj start).1
      obtain ⟨-, behind, text⟩ := read_eq_ok (finds.own f List.mem_cons_self)
      rw [first, agrees.entryOf?, entryOf?_text plain, hroot] at behind
      have entry := Option.some.inj behind
      rw [← entry] at text
      refine ⟨_, _, others.map (Manifest.fileOf extension ∘ Found.resolved), hroot, text, ?_⟩
      rw [List.map_map, List.map_cons]
      simp only [Function.comp_apply, Manifest.fileOf, Found.resolved, first, Manifest.filePath, entry]
  · rw [files, List.map_map, finds'.values_resolved, List.map_map]
    have paths : (found'.map Found.reference).map (· ++ extension) =
        found'.map ((ManifestFile.path ∘ Manifest.fileOf extension) ∘ Found.resolved) := by
      rw [List.map_map]
      rfl
    rw [← paths, ← finds'.keys_resolved]
    refine List.Nodup.map ?_ (OrderedMap.nodup_keys _)
    intro a b h
    exact (String.append_left_inj extension).1 h
  · rw [asked, ← ran, map_some_asked_searchFrom faithful plain hroot hrun start, same,
      finds'.keys_resolved]
  · intro reference
    have closure := finds'.isClosure.mem_keys reference
    rwa [List.map_cons, List.map_nil, Identifier.trimmed_text plain] at closure

/-- Three entries. The first two need each other, and the first one names the second in two ways. -/
def circular : Catalog :=
  let entry (owner slug : String) (internal external : List (String × String)) : Entry :=
    { owner, slug, name := slug, registry := "ui", codeRef := slug, demoRef := "",
      exportedNames := [], demoExportName := "", external := .ofPairs external,
      demoExternal := ∅, internal := .ofPairs internal, description := none, version := 1 }
  { entries := .ofPairs
      [(⟨"ann", "card"⟩, entry "ann" "card"
          [("./button", " button "), ("./again", "ann/button"), ("@/icon", "bob/icon")]
          [("react", "19")]),
        (⟨"ann", "button"⟩, entry "ann" "button" [("../card", "card")] [("clsx", "2")]),
        (⟨"bob", "icon"⟩, entry "bob" "icon" [] [])]
    text? := fun ref => if ref ∈ ["card", "button", "icon"] then some ref else none }

/-- A cycle through the root is served with the root in front. -/
theorem manifest_serves_closure_circular :
    circular.IsFaithful ∧ Identifier.IsPlain ⟨"ann", "card"⟩ ∧
      ∃ m closure, circular.manifest ⟨"ann", "card"⟩ ".tsx" = .ok m ∧
        (circular.search .inOrder).resolve ["ann/card"] = .ok closure ∧
        m.files.map ManifestFile.path = ["ann/card.tsx", "ann/button.tsx", "bob/icon.tsx"] ∧
        circular.Serves ⟨"ann", "card"⟩ ".tsx" closure m := by
  have faithful : circular.IsFaithful := by
    refine ⟨fun _ => rfl, ?_⟩
    intro i e h
    have each : ∀ p ∈ circular.entries.pairs, p.2.identifier = p.1 := by decide +kernel
    exact each (i, e) (OrderedMap.mem_of_lookup h)
  have plain : Identifier.IsPlain ⟨"ann", "card"⟩ :=
    ⟨⟨by decide +kernel, by decide, by decide +kernel⟩,
      ⟨by decide +kernel, by decide, by decide +kernel⟩⟩
  have paths : (circular.manifest ⟨"ann", "card"⟩ ".tsx").toOption.map
      (fun m => m.files.map ManifestFile.path) =
        some ["ann/card.tsx", "ann/button.tsx", "bob/icon.tsx"] := by
    decide +kernel
  obtain ⟨resolves, serves⟩ :=
    manifest_serves_closure circular faithful ⟨"ann", "card"⟩ plain ".tsx" .inOrder
  cases hm : circular.manifest ⟨"ann", "card"⟩ ".tsx" with
  | error e =>
    rw [hm] at paths
    cases paths
  | ok m =>
    rw [hm] at paths
    obtain ⟨closure, hclosure⟩ := resolves.1 ⟨m, hm⟩
    exact ⟨faithful, plain, m, closure, rfl, hclosure, Option.some.inj paths,
      serves m closure hm hclosure⟩

end Catalog

end ComponentRegistry
