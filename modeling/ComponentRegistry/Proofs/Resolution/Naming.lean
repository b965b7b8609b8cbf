import Mathlib.Data.Option.Basic
import ComponentRegistry.Proofs.Resolution.Serving

/-! # Keys of closures

A reference counts as seen under the text that it was found as, and the entry is read at the address
that this text is read as. An address has one text only where no blanks stand beside the slash: then
the keys of a closure are the addresses of its entries, and none of them is asked for twice.
-/

namespace ComponentRegistry

namespace Identifier

variable {written owner value : String} {i : Identifier}

theorem parse?_of_split {owner slug : List Char}
    (split : trimChars written.toList = owner ++ '/' :: slug) (howner : '/' ∉ owner)
    (hslug : '/' ∉ slug) (visibleOwner : trimChars owner ≠ []) (visibleSlug : trimChars slug ≠ []) :
    parse? written = some ⟨String.ofList (trimChars owner), String.ofList (trimChars slug)⟩ := by
  rw [parse?, split, Lines.splitAt_append howner, Lines.splitAt_of_not_mem hslug]
  simp [visibleOwner, visibleSlug]

theorem split_of_parse? (h : parse? written = some i) : ∃ owner slug : List Char,
    trimChars written.toList = owner ++ '/' :: slug ∧ '/' ∉ owner ∧ '/' ∉ slug ∧
      trimChars owner ≠ [] ∧ trimChars slug ≠ [] ∧
      i = ⟨String.ofList (trimChars owner), String.ofList (trimChars slug)⟩ := by
  obtain ⟨owner, slug, split, howner, hslug, visibleOwner, visibleSlug⟩ :=
    isSome_parse?.1 (by rw [h]; rfl)
  rw [parse?_of_split split howner hslug visibleOwner visibleSlug] at h
  exact ⟨owner, slug, split, howner, hslug, visibleOwner, visibleSlug, (Option.some.inj h).symm⟩

theorem isPlainPart_trimChars {part : List Char} (visible : trimChars part ≠ [])
    (single : '/' ∉ part) : IsPlainPart (String.ofList (trimChars part)) where
  trimmed := by rw [trimmed, String.toList_ofList, trimChars_trimChars]
  ne_empty := by simpa using visible
  no_slash := by
    rw [String.toList_ofList]
    intro mem
    have suffix := (List.rdropWhile_prefix CharacterClass.isBlank _).subset mem
    exact single ((List.dropWhile_suffix CharacterClass.isBlank).subset suffix)

theorem isPlain_of_parse? (h : parse? written = some i) : i.IsPlain := by
  obtain ⟨owner, slug, -, howner, hslug, visibleOwner, visibleSlug, rfl⟩ := split_of_parse? h
  exact ⟨isPlainPart_trimChars visibleOwner howner, isPlainPart_trimChars visibleSlug hslug⟩

/-- Whether a text has no blanks beside its slashes, those at its ends aside. -/
def IsTight (written : String) : Prop :=
  ∀ front back : List Char, trimChars written.toList = front ++ '/' :: back →
    trimChars front = front ∧ trimChars back = back

theorem isTight_trimmed : IsTight (trimmed written) ↔ IsTight written := by
  rw [IsTight, IsTight, trimmed, String.toList_ofList, trimChars_trimChars]

theorem isTight_text (plain : i.IsPlain) : IsTight i.text := by
  intro front back same
  have whole : trimChars i.text.toList = i.owner.toList ++ '/' :: i.slug.toList := by
    rw [toList_text, trimChars_append plain.owner.trimChars plain.slug.trimChars
      plain.owner.toList_ne_nil plain.slug.toList_ne_nil]
    simp
  rw [whole, List.append_cons_inj_of_notMem plain.owner.no_slash plain.slug.no_slash] at same
  obtain ⟨rfl, -, rfl⟩ := same
  exact ⟨plain.owner.trimChars, plain.slug.trimChars⟩

/-- The text of an address that has no blanks beside its slash is the written form. -/
theorem isTight_iff (h : parse? written = some i) : IsTight written ↔ trimmed written = i.text := by
  constructor
  · intro tight
    obtain ⟨owner, slug, htext, -, -, -, -, rfl⟩ := split_of_parse? h
    obtain ⟨sameOwner, sameSlug⟩ := tight owner slug htext
    apply String.toList_injective
    simp [trimmed, toList_text, htext, sameOwner, sameSlug]
  · intro same
    rw [← isTight_trimmed, same]
    exact isTight_text (isPlain_of_parse? h)

/-- What a dependency refers to has no blanks beside its slash, if its value has none. -/
theorem isTight_canonical (plain : IsPlainPart owner) :
    IsTight (canonical owner value) ↔ IsTight value := by
  unfold canonical
  simp only
  split
  · exact isTight_trimmed
  · next bare =>
    simp only [Bool.or_eq_true, List.isEmpty_iff, List.contains_iff_mem, not_or] at bare
    obtain ⟨visible, single⟩ := bare
    have slug : IsPlainPart (String.ofList (trimChars value.toList)) := by
      have again : trimChars (trimChars value.toList) ≠ [] := by rwa [trimChars_trimChars]
      have plain := isPlainPart_trimChars again single
      rwa [trimChars_trimChars] at plain
    refine iff_of_true (isTight_text (i := ⟨owner, _⟩) ⟨plain, slug⟩) ?_
    intro front back same
    rw [same] at single
    exact absurd (by simp) single

end Identifier

namespace Catalog

open Search

variable {catalog : Catalog} {schedule : Schedule} {seeds : List String} {found : List Found}
  {reference : String} {f : Found} {r : Resolution}

/-- What a search that knows nothing beforehand asks for is the address that its reference is read
as, and the entry is the one that is stored there. -/
theorem asked_of_search (h : (catalog.search schedule).read reference = .ok f) :
    ∃ i, f.asked = some i ∧ Identifier.parse? reference = some i ∧
      catalog.entries.get? i = some f.entry := by
  have asked : f.asked = Identifier.parse? reference := by
    rw [asked_of_read h]
    rfl
  have behind : (Identifier.parse? reference).bind (catalog.entries.get? ·) = some f.entry :=
    (read_eq_ok h).2.1
  obtain ⟨i, parsed, stored⟩ := Option.bind_eq_some_iff.1 behind
  exact ⟨i, asked.trans parsed, parsed, stored⟩

theorem mem_successors {i : Identifier} {e : Entry} {value : String}
    (parsed : Identifier.parse? reference = some i) (stored : catalog.entries.get? i = some e)
    (mem : value ∈ e.internal.values) :
    Identifier.canonical e.owner value ∈ (catalog.search schedule).successors reference := by
  have behind : (catalog.search schedule).entryOf? reference = some e := by
    show Option.or none _ = _
    rw [Option.none_or, parsed]
    exact stored
  rw [Search.successors, behind]
  exact List.mem_map_of_mem mem

theorem exists_of_mem_successors {next : String}
    (h : next ∈ (catalog.search schedule).successors reference) :
    ∃ i e, Identifier.parse? reference = some i ∧ catalog.entries.get? i = some e ∧
      ∃ value ∈ e.internal.values, next = Identifier.canonical e.owner value := by
  unfold Search.successors at h
  split at h
  · next e behind =>
    have behind : (Identifier.parse? reference).bind (catalog.entries.get? ·) = some e := behind
    obtain ⟨i, parsed, stored⟩ := Option.bind_eq_some_iff.1 behind
    obtain ⟨value, mem, rfl⟩ := List.mem_map.1 h
    exact ⟨i, e, parsed, stored, value, mem, rfl⟩
  · cases h

theorem answer_of_run (h : (catalog.search schedule).run seeds = .ok found) (hf : f ∈ found) :
    ∃ i, f.asked = some i ∧ Identifier.parse? f.reference = some i ∧
      catalog.entries.get? i = some f.entry :=
  asked_of_search ((run_eq_ok h).own f hf)

theorem answer_of_asked (h : (catalog.search schedule).run seeds = .ok found) {i : Identifier}
    (hi : i ∈ (Resolution.ofFound found).asked) :
    ∃ f ∈ found, Identifier.parse? f.reference = some i ∧ catalog.entries.get? i = some f.entry := by
  obtain ⟨f, hf, asked⟩ := List.mem_filterMap.1 hi
  obtain ⟨i', asked', parsed, stored⟩ := answer_of_run h hf
  obtain rfl : i = i' := Option.some.inj (asked.symm.trans asked')
  exact ⟨f, hf, parsed, stored⟩

theorem map_some_asked_of_run (h : (catalog.search schedule).run seeds = .ok found) :
    (Resolution.ofFound found).asked.map some = found.map Found.asked := by
  refine map_some_asked fun f hf => ?_
  obtain ⟨i, asked, -⟩ := answer_of_run h hf
  exact Option.isSome_iff_exists.2 ⟨i, asked⟩

variable (own : ∀ i e, catalog.entries.get? i = some e → e.identifier = i)
include own

theorem isPlainPart_owner {i : Identifier} {e : Entry} (parsed : Identifier.parse? reference = some i)
    (stored : catalog.entries.get? i = some e) : Identifier.IsPlainPart e.owner := by
  have plain := (Identifier.isPlain_of_parse? parsed).owner
  rwa [← own i e stored] at plain

theorem trimmed_of_reached
    (h : Reached (seeds.map trimmed) (catalog.search schedule).successors reference) :
    trimmed reference = reference := by
  obtain ⟨n, h⟩ := h
  induction h with
  | seed mem =>
    obtain ⟨seed, -, rfl⟩ := List.mem_map.1 mem
    rw [trimmed, trimmed, String.toList_ofList, trimChars_trimChars]
  | step _ mem _ =>
    obtain ⟨i, e, parsed, stored, value, -, rfl⟩ := exists_of_mem_successors mem
    exact Identifier.trimmed_canonical (isPlainPart_owner own parsed stored) value

theorem isTight_of_reached (tightSeeds : ∀ seed ∈ seeds, Identifier.IsTight seed)
    (tightValues : ∀ a, Reached (seeds.map trimmed) (catalog.search schedule).successors a →
      ∀ i e, Identifier.parse? a = some i → catalog.entries.get? i = some e →
        ∀ value ∈ e.internal.values, Identifier.IsTight value)
    (h : Reached (seeds.map trimmed) (catalog.search schedule).successors reference) :
    Identifier.IsTight reference := by
  obtain ⟨n, h⟩ := h
  cases h with
  | seed mem =>
    obtain ⟨seed, isSeed, rfl⟩ := List.mem_map.1 mem
    exact Identifier.isTight_trimmed.2 (tightSeeds seed isSeed)
  | step before mem =>
    obtain ⟨i, e, parsed, stored, value, hvalue, rfl⟩ := exists_of_mem_successors mem
    exact (Identifier.isTight_canonical (isPlainPart_owner own parsed stored)).2
      (tightValues _ ⟨_, before⟩ i e parsed stored value hvalue)

/-- The key of a found entry is its address exactly if it has no blanks beside its slash. -/
theorem isTight_iff_text (h : (catalog.search schedule).run seeds = .ok found) (hf : f ∈ found) :
    Identifier.IsTight f.reference ↔ some f.reference = f.asked.map Identifier.text := by
  have same := trimmed_of_reached own ((run_eq_ok h).order.sound _ (List.mem_map_of_mem hf))
  obtain ⟨i, asked, parsed, -⟩ := answer_of_run h hf
  rw [Identifier.isTight_iff parsed, same, asked]
  simp

theorem keys_eq_texts_iff (h : (catalog.search schedule).run seeds = .ok found) :
    (Resolution.ofFound found).resolved.keys =
        (Resolution.ofFound found).asked.map Identifier.text ↔
      ∀ f ∈ found, Identifier.IsTight f.reference := by
  have texts : ((Resolution.ofFound found).asked.map Identifier.text).map some =
      found.map fun f => f.asked.map Identifier.text := by
    have := congrArg (List.map (Option.map Identifier.text)) (map_some_asked_of_run h)
    simpa [List.map_map, Function.comp_def] using this
  rw [← (List.map_injective_iff.2 (Option.some_injective String)).eq_iff, texts,
    (run_eq_ok h).keys_resolved, List.map_map, List.map_inj_left]
  exact forall₂_congr fun f hf => (isTight_iff_text own h hf).symm

/-- All keys are written without blanks beside their slashes exactly if the seeds are, and what the
entries depend on. -/
theorem isTight_found_iff (h : (catalog.search schedule).run seeds = .ok found) :
    (∀ f ∈ found, Identifier.IsTight f.reference) ↔
      (∀ seed ∈ seeds, Identifier.IsTight seed) ∧
      ∀ i ∈ (Resolution.ofFound found).asked, ∀ e, catalog.entries.get? i = some e →
        ∀ value ∈ e.internal.values, Identifier.IsTight value := by
  have reached : ∀ a, Reached (seeds.map trimmed) (catalog.search schedule).successors a ↔
      ∃ f ∈ found, f.reference = a := by
    intro a
    rw [← (run_eq_ok h).order.mem_iff, List.nil_append, List.mem_map]
  constructor
  · intro tight
    refine ⟨fun seed mem => ?_, fun i hi e stored value hvalue => ?_⟩
    · obtain ⟨f, hf, same⟩ := (reached _).1 (.seed (List.mem_map_of_mem mem))
      rw [← Identifier.isTight_trimmed, ← same]
      exact tight f hf
    · obtain ⟨f, hf, parsed, -⟩ := answer_of_asked h hi
      have leads : _ ∈ (catalog.search schedule).successors f.reference :=
        mem_successors parsed stored hvalue
      obtain ⟨g, hg, same⟩ := (reached _).1 (((reached _).2 ⟨f, hf, rfl⟩).step leads)
      rw [← Identifier.isTight_canonical (isPlainPart_owner own parsed stored), ← same]
      exact tight g hg
  · rintro ⟨tightSeeds, tightValues⟩ f hf
    refine isTight_of_reached own tightSeeds ?_ ((reached _).2 ⟨f, hf, rfl⟩)
    intro a ha i e parsed stored
    obtain ⟨g, hg, rfl⟩ := (reached a).1 ha
    obtain ⟨i', asked, parsed', -⟩ := answer_of_run h hg
    obtain rfl : i = i' := Option.some.inj (parsed.symm.trans parsed')
    exact tightValues i (List.mem_filterMap.2 ⟨g, hg, asked⟩) e stored

/-- Whatever a search finds without knowing anything beforehand is asked for at the address that its
key is read as. The keys are the addresses of the entries exactly if no blanks stand beside the
slash of a seed or of a dependency that is found, and then none is asked for twice. -/
theorem resolve_asks_once (h : (catalog.search schedule).resolve seeds = .ok r) :
    r.resolved.keys.map Identifier.parse? = r.asked.map some ∧
      (∀ key ∈ r.resolved.keys, ∃ e text, Identifier.parse? key = some e.identifier ∧
        catalog.entries.get? e.identifier = some e ∧ catalog.text? e.codeRef = some text ∧
        r.resolved.get? key = some ⟨key, text, e.registry⟩) ∧
      (r.resolved.keys = r.asked.map Identifier.text ↔
        (∀ seed ∈ seeds, Identifier.IsTight seed) ∧
        ∀ i ∈ r.asked, ∀ e, catalog.entries.get? i = some e →
          ∀ value ∈ e.internal.values, Identifier.IsTight value) ∧
      (r.resolved.keys = r.asked.map Identifier.text → r.asked.Nodup) := by
  obtain ⟨found, hrun, rfl⟩ := map_eq_ok.1 h
  have keys := (run_eq_ok hrun).keys_resolved
  refine ⟨?_, ?_, ?_, ?_⟩
  · rw [keys, map_some_asked_of_run hrun, List.map_map, List.map_inj_left]
    intro f hf
    obtain ⟨i, asked, parsed, -⟩ := answer_of_run hrun hf
    exact parsed.trans asked.symm
  · intro key hkey
    obtain ⟨e, text, behind, htext, resolved⟩ := (run_eq_ok hrun).isClosure.own key hkey
    rw [keys] at hkey
    obtain ⟨f, hf, rfl⟩ := List.mem_map.1 hkey
    obtain ⟨i, -, parsed, stored⟩ := answer_of_run hrun hf
    obtain rfl : e = f.entry :=
      Option.some.inj (behind.symm.trans (read_eq_ok ((run_eq_ok hrun).own f hf)).2.1)
    rw [← own i _ stored] at parsed stored
    exact ⟨f.entry, text, parsed, stored, htext, resolved⟩
  · exact (keys_eq_texts_iff own hrun).trans (isTight_found_iff own hrun)
  · intro same
    have distinct := (run_eq_ok hrun).nodup
    rw [← keys, same] at distinct
    exact distinct.of_map _

omit own

/-- An entry that depends on another one by two paths, the second time as `value`. -/
def twoPaths (value : String) : Catalog :=
  let entry (owner slug : String) (internal : List (String × String)) : Entry :=
    { owner, slug, name := slug, registry := "ui", codeRef := slug, demoRef := "",
      exportedNames := [], demoExportName := "", external := ∅, demoExternal := ∅,
      internal := .ofPairs internal, description := none, version := 1 }
  { entries := .ofPairs
      [(⟨"ann", "card"⟩, entry "ann" "card" [("./icon", "bob/icon"), ("@/icon", value)]),
        (⟨"bob", "icon"⟩, entry "bob" "icon" [])]
    text? := fun ref => if ref ∈ ["card", "icon"] then some ref else none }

theorem own_twoPaths (value : String) :
    ∀ i e, (twoPaths value).entries.get? i = some e → e.identifier = i := by
  intro i e stored
  have mem := OrderedMap.get?_eq_some_iff.1 stored
  rw [twoPaths, OrderedMap.pairs_ofPairs_of_nodup (by simp)] at mem
  simp only [List.mem_cons, Prod.mk.injEq, List.not_mem_nil, or_false] at mem
  obtain ⟨rfl, rfl⟩ | ⟨rfl, rfl⟩ := mem <;> rfl

/-- Blanks around a dependency make no difference. -/
theorem resolve_asks_once_blanks :
    (∀ i e, (twoPaths " bob/icon\n").entries.get? i = some e → e.identifier = i) ∧
      ∃ r, ((twoPaths " bob/icon\n").search .inOrder).resolve [" ann/card"] = .ok r ∧
        r.resolved.keys = r.asked.map Identifier.text ∧ r.asked.Nodup ∧
        r.resolved.keys = ["ann/card", "bob/icon"] := by
  have keys : (((twoPaths " bob/icon\n").search .inOrder).resolve [" ann/card"]).toOption.map
      (fun r => (r.resolved.keys, r.asked.map Identifier.text)) =
        some (["ann/card", "bob/icon"], ["ann/card", "bob/icon"]) := by
    decide +kernel
  refine ⟨own_twoPaths _, ?_⟩
  cases h : ((twoPaths " bob/icon\n").search .inOrder).resolve [" ann/card"] with
  | error e =>
    rw [h] at keys
    cases keys
  | ok r =>
    rw [h] at keys
    obtain ⟨-, -, -, once⟩ := resolve_asks_once (own_twoPaths _) h
    obtain ⟨resolved, asked⟩ := Prod.mk.inj (Option.some.inj keys)
    exact ⟨r, rfl, resolved.trans asked.symm, once (resolved.trans asked.symm), resolved⟩

/-- Blanks beside the slash of a dependency make it another key, and the entry is asked for again. -/
theorem resolve_asks_twice :
    (∀ i e, (twoPaths "bob / icon").entries.get? i = some e → e.identifier = i) ∧
      (((twoPaths "bob / icon").search .inOrder).resolve ["ann/card"]).toOption.map
        (fun r => (r.resolved.keys, r.asked)) =
          some (["ann/card", "bob/icon", "bob / icon"],
            [⟨"ann", "card"⟩, ⟨"bob", "icon"⟩, ⟨"bob", "icon"⟩]) := by
  refine ⟨own_twoPaths _, ?_⟩
  decide +kernel

end Catalog

end ComponentRegistry
