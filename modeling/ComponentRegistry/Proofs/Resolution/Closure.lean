import ComponentRegistry.Proofs.OrderedMap
import ComponentRegistry.Proofs.Outcome
import ComponentRegistry.Proofs.Resolution.Address
import ComponentRegistry.Proofs.Resolution.Discovery
import ComponentRegistry.Resolution.Closure

/-! # Searches find closures

A search succeeds exactly when everything that can be reached from its seeds is complete, and then
it has found all of that in the order of discovery. The only thing that goes wrong otherwise is that
something is missing: the store is not at fault, and the shape of the graph does not matter.
-/

namespace ComponentRegistry

namespace Search

variable {search : Search}

/-- The entry behind a reference: the one that is known beforehand, or else the one at its
address. -/
def entryOf? (search : Search) (reference : String) : Option Entry :=
  (search.known.get? reference).or
    ((Identifier.parse? reference).bind fun i => search.catalog.entries.get? i)

/-- The references to what the entry behind a reference depends on, in the order of its map. -/
def successors (search : Search) (reference : String) : List String :=
  match search.entryOf? reference with
  | some e => e.internal.values.map (Identifier.canonical e.owner)
  | none => []

/-- Whether a reference can be part of a closure: it is a written address, and the entry behind it
has a source text and no blank dependency. -/
structure Complete (search : Search) (reference : String) : Prop where
  written : Identifier.IsWritten reference
  stored : ∃ e text, search.entryOf? reference = some e ∧ search.catalog.text? e.codeRef = some text ∧
    ∀ value ∈ e.internal.values, isBlankText value = false

theorem text?_of_fetchText {catalog : Catalog} {reference text : String} {entry : Entry}
    (h : catalog.fetchText reference entry = .ok text) :
    catalog.text? entry.codeRef = some text := by
  unfold Catalog.fetchText at h
  split at h
  · cases h
  · split at h
    · next found =>
      cases h
      exact found
    · cases h

theorem fetchText_eq_error {catalog : Catalog} {reference : String} {entry : Entry}
    {e : RegistryError} (available : ∀ i, catalog.outage i = none)
    (h : catalog.fetchText reference entry = .error e) :
    e.IsMissing ∧ catalog.text? entry.codeRef = none := by
  unfold Catalog.fetchText at h
  rw [available] at h
  simp only at h
  split at h
  · cases h
  · next hnone =>
    cases h
    exact ⟨trivial, hnone⟩

theorem get?_of_fetchEntry {catalog : Catalog} {reference : String} {identifier : Identifier}
    {entry : Entry} (h : catalog.fetchEntry reference identifier = .ok entry) :
    catalog.entries.get? identifier = some entry := by
  unfold Catalog.fetchEntry at h
  split at h
  · cases h
  · split at h
    · next found =>
      cases h
      exact found
    · cases h

theorem fetchEntry_eq_error {catalog : Catalog} {reference : String} {identifier : Identifier}
    {e : RegistryError} (available : ∀ i, catalog.outage i = none)
    (h : catalog.fetchEntry reference identifier = .error e) :
    e.IsMissing ∧ catalog.entries.get? identifier = none := by
  unfold Catalog.fetchEntry at h
  rw [available] at h
  simp only at h
  split at h
  · cases h
  · next hnone =>
    cases h
    exact ⟨trivial, hnone⟩

theorem read_eq_ok {reference : String} {found : Found} (h : search.read reference = .ok found) :
    found.reference = reference ∧ search.entryOf? reference = some found.entry ∧
      search.catalog.text? found.entry.codeRef = some found.text := by
  unfold read at h
  unfold entryOf?
  split at h
  · next known =>
    obtain ⟨text, htext, h⟩ := bind_eq_ok.1 h
    cases h
    exact ⟨rfl, by rw [known, Option.some_or], text?_of_fetchText htext⟩
  · next unknown =>
    obtain ⟨identifier, hparse, h⟩ := bind_eq_ok.1 h
    obtain ⟨entry, hentry, h⟩ := bind_eq_ok.1 h
    obtain ⟨text, htext, h⟩ := bind_eq_ok.1 h
    cases h
    refine ⟨rfl, ?_, text?_of_fetchText htext⟩
    rw [unknown, Option.none_or, Identifier.parse_eq_ok.1 hparse, Option.bind_some]
    exact get?_of_fetchEntry hentry

theorem read_eq_error {reference : String} {e : RegistryError}
    (available : ∀ i, search.catalog.outage i = none) (h : search.read reference = .error e) :
    e.IsMissing ∧ ¬ search.Complete reference := by
  unfold read at h
  split at h
  · next entry known =>
    rcases bind_eq_error.1 h with htext | ⟨text, -, h⟩
    · obtain ⟨missing, hnone⟩ := fetchText_eq_error available htext
      refine ⟨missing, ?_⟩
      rintro ⟨-, e', text, hentry, htext, -⟩
      rw [entryOf?, known, Option.some_or] at hentry
      cases hentry
      rw [hnone] at htext
      cases htext
    · cases h
  · next unknown =>
    rcases bind_eq_error.1 h with hparse | ⟨identifier, hparse, h⟩
    · obtain ⟨missing, hnot⟩ := Identifier.parse_eq_error hparse
      exact ⟨missing, fun complete => hnot complete.written⟩
    have hbehind : search.entryOf? reference = search.catalog.entries.get? identifier := by
      rw [entryOf?, unknown, Option.none_or, Identifier.parse_eq_ok.1 hparse, Option.bind_some]
    rcases bind_eq_error.1 h with hentry | ⟨entry, hentry, h⟩
    · obtain ⟨missing, hnone⟩ := fetchEntry_eq_error available hentry
      refine ⟨missing, ?_⟩
      rintro ⟨-, e', text, hentry, -⟩
      rw [hbehind, hnone] at hentry
      cases hentry
    rcases bind_eq_error.1 h with htext | ⟨text, -, h⟩
    · obtain ⟨missing, hnone⟩ := fetchText_eq_error available htext
      refine ⟨missing, ?_⟩
      rintro ⟨-, e', text, hentry', htext, -⟩
      rw [hbehind, get?_of_fetchEntry hentry] at hentry'
      cases hentry'
      rw [hnone] at htext
      cases htext
    · cases h

/-- What a round finds does not depend on how its answers come in. -/
theorem readRound_eq_ok {round : Nat} {references : List String} {found : List Found}
    (h : search.readRound round references = .ok found) :
    List.Forall₂ (fun r f => search.read r = .ok f) references found := by
  obtain ⟨answers, hanswers, h⟩ := bind_eq_ok.1 h
  cases h
  apply forall₂_filterMap
  intro r hr
  obtain ⟨f, hf, hread⟩ := exists_of_mapM_eq_ok hanswers
    ((search.schedule.perm round references).mem_iff.2 hr)
  have hsome : (answers.find? fun f => f.reference == r).isSome :=
    List.find?_isSome.2 ⟨f, hf, by simpa using (read_eq_ok hread).1⟩
  obtain ⟨f', hfind⟩ := Option.isSome_iff_exists.1 hsome
  obtain ⟨r', -, hread'⟩ := mem_of_mapM_eq_ok hanswers (List.mem_of_find?_eq_some hfind)
  have hreference : f'.reference = r := by simpa using List.find?_some hfind
  rw [(read_eq_ok hread').1] at hreference
  exact ⟨f', hfind, hreference ▸ hread'⟩

theorem readRound_eq_error {round : Nat} {references : List String} {e : RegistryError}
    (h : search.readRound round references = .error e) :
    ∃ r ∈ references, search.read r = .error e := by
  rcases bind_eq_error.1 h with h | ⟨answers, -, h⟩
  · obtain ⟨r, hr, herror⟩ := exists_of_mapM_eq_error h
    exact ⟨r, (search.schedule.perm round references).mem_iff.1 hr, herror⟩
  · cases h

theorem dependencies_eq_ok {f : Found} {references : List String}
    (h : f.dependencies = .ok references) :
    references = f.entry.internal.values.map (Identifier.canonical f.entry.owner) ∧
      (∀ value ∈ f.entry.internal.values, isBlankText value = false) ∧
      ∀ r ∈ references, Identifier.IsWritten r := by
  have looked : ∀ path value r,
      (if isBlankText value then .error (.blankDependency path f.reference)
        else (Identifier.parse (Identifier.canonical f.entry.owner value)).map fun _ =>
          Identifier.canonical f.entry.owner value) = Except.ok r →
      Identifier.canonical f.entry.owner value = r ∧ isBlankText value = false ∧
        Identifier.IsWritten r := by
    intro path value r hr
    split at hr
    · cases hr
    · next hblank =>
      obtain ⟨i, hparse, rfl⟩ := map_eq_ok.1 hr
      exact ⟨rfl, by simpa using hblank, Identifier.isWritten_of_parse hparse⟩
  refine ⟨?_, ?_, ?_⟩
  · have hmap : references.map id =
        f.entry.internal.pairs.map fun p => Identifier.canonical f.entry.owner p.2 := by
      apply map_eq_of_forall₂ (mapM_eq_ok.1 h)
      rintro ⟨path, value⟩ r hr
      exact (looked path value r hr).1.symm
    rw [OrderedMap.values, List.map_map, ← List.map_id references]
    exact hmap
  · intro value hvalue
    obtain ⟨⟨path, value⟩, hp, rfl⟩ := List.mem_map.1 hvalue
    obtain ⟨r, -, hr⟩ := exists_of_mapM_eq_ok h hp
    exact (looked path value r hr).2.1
  · intro r hr
    obtain ⟨⟨path, value⟩, -, hp⟩ := mem_of_mapM_eq_ok h hr
    exact (looked path value r hp).2.2

theorem dependencies_eq_error {f : Found} {e : RegistryError} (h : f.dependencies = .error e) :
    e.IsMissing ∧ ∃ value ∈ f.entry.internal.values, isBlankText value = true ∨
      ¬ Identifier.IsWritten (Identifier.canonical f.entry.owner value) := by
  obtain ⟨⟨path, value⟩, mem, h⟩ := exists_of_mapM_eq_error h
  have hvalue : value ∈ f.entry.internal.values := List.mem_map_of_mem mem
  simp only at h
  split at h
  · next hblank =>
    cases h
    exact ⟨trivial, value, hvalue, .inl hblank⟩
  · cases hparse : Identifier.parse (Identifier.canonical f.entry.owner value) with
    | error e' =>
      rw [hparse] at h
      cases h
      obtain ⟨missing, hnot⟩ := Identifier.parse_eq_error hparse
      exact ⟨missing, value, hvalue, .inr hnot⟩
    | ok i =>
      rw [hparse] at h
      cases h

theorem successors_of_read {reference : String} {found : Found}
    (h : search.read reference = .ok found) :
    search.successors reference =
      found.entry.internal.values.map (Identifier.canonical found.entry.owner) := by
  rw [successors, (read_eq_ok h).2.1]

theorem dependencies_of_read {references : List String} {found : List Found}
    {lists : List (List String)}
    (hread : List.Forall₂ (fun r f => search.read r = .ok f) references found)
    (hlists : List.Forall₂ (fun f list => Found.dependencies f = .ok list) found lists) :
    lists = references.map search.successors := by
  induction hread generalizing lists with
  | nil =>
    cases hlists
    rfl
  | cons hr _ ih =>
    cases hlists with
    | cons hf hlists =>
      rw [List.map_cons, successors_of_read hr, ← (dependencies_eq_ok hf).1, ← ih hlists]

theorem unseen_eq_ok {seen references next : List String} {found : List Found}
    (hread : List.Forall₂ (fun r f => search.read r = .ok f) references found)
    (h : unseen seen found = .ok next) :
    next = (firstOccurrences (references.flatMap search.successors)).filter (· ∉ seen) ∧
      (∀ f ∈ found, ∀ value ∈ f.entry.internal.values, isBlankText value = false) ∧
      ∀ r ∈ next, Identifier.IsWritten r := by
  obtain ⟨lists, hlists, h⟩ := bind_eq_ok.1 h
  cases h
  have hflat := dependencies_of_read hread (mapM_eq_ok.1 hlists)
  refine ⟨by rw [hflat, ← List.flatMap_def], ?_, ?_⟩
  · intro f hf
    obtain ⟨list, -, hlist⟩ := exists_of_mapM_eq_ok hlists hf
    exact (dependencies_eq_ok hlist).2.1
  · intro r hr
    obtain ⟨list, hlist, hr⟩ := List.mem_flatten.1 (mem_firstOccurrences.1 (List.mem_filter.1 hr).1)
    obtain ⟨f, -, hf⟩ := mem_of_mapM_eq_ok hlists hlist
    exact (dependencies_eq_ok hf).2.2 r hr

theorem exists_read {references : List String} {found : List Found}
    (hread : List.Forall₂ (fun r f => search.read r = .ok f) references found) {f : Found}
    (hf : f ∈ found) : ∃ r ∈ references, search.read r = .ok f := by
  induction hread with
  | nil => cases hf
  | cons hr _ ih =>
    rcases List.mem_cons.1 hf with rfl | hf
    · exact ⟨_, List.mem_cons_self, hr⟩
    · obtain ⟨r, hmem, hread⟩ := ih hf
      exact ⟨r, List.mem_cons_of_mem _ hmem, hread⟩

theorem unseen_eq_error {seen references : List String} {found : List Found} {e : RegistryError}
    (hread : List.Forall₂ (fun r f => search.read r = .ok f) references found)
    (h : unseen seen found = .error e) :
    e.IsMissing ∧ ∃ r ∈ references, ¬ search.Complete r ∨
      ∃ d ∈ search.successors r, ¬ search.Complete d := by
  rcases bind_eq_error.1 h with h | ⟨lists, -, h⟩
  · obtain ⟨f, hf, herror⟩ := exists_of_mapM_eq_error h
    obtain ⟨r, hr, hread⟩ := exists_read hread hf
    obtain ⟨missing, value, hvalue, hwrong⟩ := dependencies_eq_error herror
    refine ⟨missing, r, hr, ?_⟩
    rcases hwrong with hblank | hnot
    · left
      rintro ⟨-, e', text, hentry, -, hall⟩
      rw [(read_eq_ok hread).2.1] at hentry
      cases hentry
      rw [hall value hvalue] at hblank
      cases hblank
    · right
      refine ⟨_, ?_, fun complete => hnot complete.written⟩
      rw [successors_of_read hread]
      exact List.mem_map_of_mem hvalue
  · cases h

/-- What is known before a round: the references that were done before it and those of the round
are what a search has come upon that looked at the former. -/
structure Progress (search : Search) (seeds done references : List String) : Prop where
  inTurn : done ++ references = firstOccurrences (seeds ++ done.flatMap search.successors)
  sound : ∀ r ∈ done ++ references, Reached seeds search.successors r
  written : ∀ r ∈ references, Identifier.IsWritten r

variable {seeds done references : List String} {found : List Found} {round : Nat}

theorem Progress.next {next : List String} (p : search.Progress seeds done references)
    (hread : List.Forall₂ (fun r f => search.read r = .ok f) references found)
    (hnext : unseen (done ++ references) found = .ok next) :
    search.Progress seeds (done ++ references) next where
  inTurn := by
    rw [(unseen_eq_ok hread hnext).1]
    exact firstOccurrences_round p.inTurn
  sound := by
    intro r hr
    rcases List.mem_append.1 hr with hr | hr
    · exact p.sound r hr
    · rw [(unseen_eq_ok hread hnext).1] at hr
      have hr := mem_firstOccurrences.1 (List.mem_filter.1 hr).1
      obtain ⟨parent, hparent, hr⟩ := List.mem_flatMap.1 hr
      exact (p.sound parent (List.mem_append_right _ hparent)).step hr
  written := (unseen_eq_ok hread hnext).2.2

theorem Progress.complete {next : List String} (p : search.Progress seeds done references)
    (hread : List.Forall₂ (fun r f => search.read r = .ok f) references found)
    (hnext : unseen (done ++ references) found = .ok next) {f : Found} (hf : f ∈ found) :
    search.Complete f.reference := by
  obtain ⟨r, hr, hread'⟩ := exists_read hread hf
  obtain ⟨hreference, hentry, htext⟩ := read_eq_ok hread'
  rw [hreference]
  exact ⟨p.written r hr, f.entry, f.text, hentry, htext, (unseen_eq_ok hread hnext).2.1 f hf⟩

/-- What a search has found, and what it means for what was done before. -/
structure Finds (search : Search) (seeds done : List String) (found : List Found) : Prop where
  order : DiscoveryOrder seeds search.successors (done ++ found.map Found.reference)
  complete : ∀ f ∈ found, search.Complete f.reference
  own : ∀ f ∈ found, search.read f.reference = .ok f

theorem references_of_read (hread : List.Forall₂ (fun r f => search.read r = .ok f) references found) :
    found.map Found.reference = references := by
  have := map_eq_of_forall₂ hread (g := id) fun r f h => (read_eq_ok h).1
  rwa [List.map_id] at this

theorem own_of_read (hread : List.Forall₂ (fun r f => search.read r = .ok f) references found) :
    ∀ f ∈ found, search.read f.reference = .ok f := by
  intro f hf
  obtain ⟨r, -, hr⟩ := exists_read hread hf
  rwa [(read_eq_ok hr).1]

theorem finds_of_rounds {seen : List String} (hseen : seen = done ++ references)
    (p : search.Progress seeds done references)
    (h : search.rounds round seen references = .ok found) : search.Finds seeds done found := by
  fun_induction rounds search round seen references generalizing done found with
  | case1 => cases h
  | case2 => cases h
  | case3 round seen references found' hround hnext =>
    cases h
    subst hseen
    have hread := readRound_eq_ok hround
    have p' := p.next hread hnext
    refine ⟨?_, fun f hf => p.complete hread hnext hf, own_of_read hread⟩
    rw [references_of_read hread]
    refine ⟨p.sound, ?_⟩
    have := p'.inTurn
    rwa [List.append_nil] at this
  | case4 round seen references found' hround next more hnext ih =>
    obtain ⟨later, hlater, rfl⟩ := map_eq_ok.1 h
    subst hseen
    have hread := readRound_eq_ok hround
    have hfinds := ih rfl (p.next hread hnext) hlater
    refine ⟨?_, ?_, ?_⟩
    · rw [List.map_append, references_of_read hread, ← List.append_assoc]
      exact hfinds.order
    · intro f hf
      rcases List.mem_append.1 hf with hf | hf
      · exact p.complete hread hnext hf
      · exact hfinds.complete f hf
    · intro f hf
      rcases List.mem_append.1 hf with hf | hf
      · exact own_of_read hread f hf
      · exact hfinds.own f hf

theorem missing_of_rounds {seen : List String} {e : RegistryError}
    (available : ∀ i, search.catalog.outage i = none) (hseen : seen = done ++ references)
    (p : search.Progress seeds done references)
    (h : search.rounds round seen references = .error e) :
    e.IsMissing ∧ ∃ r, Reached seeds search.successors r ∧ ¬ search.Complete r := by
  fun_induction rounds search round seen references generalizing done with
  | case1 round seen references e' hround =>
    cases h
    obtain ⟨r, hr, herror⟩ := readRound_eq_error hround
    obtain ⟨missing, incomplete⟩ := read_eq_error available herror
    exact ⟨missing, r, p.sound r (List.mem_append_right _ hr), incomplete⟩
  | case2 round seen references found' hround e' hnext =>
    cases h
    obtain ⟨missing, r, hr, hwrong⟩ := unseen_eq_error (readRound_eq_ok hround) hnext
    have hreached := p.sound r (List.mem_append_right _ hr)
    rcases hwrong with incomplete | ⟨d, hd, incomplete⟩
    · exact ⟨missing, r, hreached, incomplete⟩
    · exact ⟨missing, d, hreached.step hd, incomplete⟩
  | case3 => cases h
  | case4 round seen references found' hround next more hnext ih =>
    subst hseen
    cases hlater : search.rounds (round + 1) ((done ++ references) ++ next :: more) (next :: more) with
    | error e' =>
      rw [hlater] at h
      cases h
      exact ih rfl (p.next (readRound_eq_ok hround) hnext) hlater
    | ok later =>
      rw [hlater] at h
      cases h

theorem start_eq_ok (h : start seeds = .ok references) :
    references = firstOccurrences (seeds.map trimmed) ∧
      ∀ r ∈ references, Identifier.IsWritten r := by
  obtain ⟨written, hwritten, rfl⟩ := map_eq_ok.1 h
  have hsame : written = seeds.map trimmed := by
    have := map_eq_of_forall₂ (mapM_eq_ok.1 hwritten) (k := id) (g := id) fun a b hab => by
      obtain ⟨i, -, same⟩ := map_eq_ok.1 hab
      exact same.symm
    rwa [List.map_id, List.map_id] at this
  refine ⟨by rw [hsame], ?_⟩
  intro r hr
  obtain ⟨seed, -, hseed⟩ := mem_of_mapM_eq_ok hwritten (mem_firstOccurrences.1 hr)
  obtain ⟨i, hparse, rfl⟩ := map_eq_ok.1 hseed
  exact Identifier.isWritten_of_parse hparse

theorem start_eq_error {e : RegistryError} (h : start seeds = .error e) :
    e.IsMissing ∧ ∃ r ∈ seeds.map trimmed, ¬ Identifier.IsWritten r := by
  unfold start at h
  cases hwritten : (seeds.map trimmed).mapM fun seed => (Identifier.parse seed).map fun _ => seed with
  | ok written =>
    rw [hwritten] at h
    cases h
  | error e' =>
    rw [hwritten] at h
    cases h
    obtain ⟨r, hr, herror⟩ := exists_of_mapM_eq_error hwritten
    cases hparse : Identifier.parse r with
    | ok i =>
      rw [hparse] at herror
      cases herror
    | error e'' =>
      rw [hparse] at herror
      cases herror
      obtain ⟨missing, hnot⟩ := Identifier.parse_eq_error hparse
      exact ⟨missing, r, hr, hnot⟩

theorem progress_of_start (h : start seeds = .ok references) :
    search.Progress (seeds.map trimmed) [] references := by
  obtain ⟨rfl, hwritten⟩ := start_eq_ok h
  refine ⟨by simp, ?_, hwritten⟩
  intro r hr
  exact .seed (mem_firstOccurrences.1 hr)

theorem run_eq_ok (h : search.run seeds = .ok found) :
    search.Finds (seeds.map trimmed) [] found := by
  obtain ⟨references, hstart, h⟩ := bind_eq_ok.1 h
  exact finds_of_rounds (List.nil_append references).symm (progress_of_start hstart) h

theorem run_eq_error {e : RegistryError} (available : ∀ i, search.catalog.outage i = none)
    (h : search.run seeds = .error e) :
    e.IsMissing ∧ ∃ r, Reached (seeds.map trimmed) search.successors r ∧ ¬ search.Complete r := by
  rcases bind_eq_error.1 h with h | ⟨references, hstart, h⟩
  · obtain ⟨missing, r, hr, hnot⟩ := start_eq_error h
    exact ⟨missing, r, .seed hr, fun complete => hnot complete.written⟩
  · exact missing_of_rounds available (List.nil_append references).symm (progress_of_start hstart) h

/-- The closure of some seeds: all that can be reached from them, each once and with its own text
and registry, in the order in which it is discovered. -/
structure IsClosure (search : Search) (seeds : List String) (set : ResolvedSet) : Prop where
  mem_keys : ∀ r, r ∈ set.keys ↔ Reached (seeds.map trimmed) search.successors r
  nodup : set.keys.Nodup
  /-- The seeds come first, then what the first key leads to, then what the second one does. -/
  inTurn : set.keys = firstOccurrences (seeds.map trimmed ++ set.keys.flatMap search.successors)
  breadthFirst : set.keys.Pairwise fun r q =>
    ∀ n, ReachedIn (seeds.map trimmed) search.successors n q →
      ∃ m ≤ n, ReachedIn (seeds.map trimmed) search.successors m r
  own : ∀ r ∈ set.keys, ∃ e text, search.entryOf? r = some e ∧
    search.catalog.text? e.codeRef = some text ∧ set.get? r = some ⟨r, text, e.registry⟩

theorem Finds.nodup (h : search.Finds seeds [] found) : (found.map Found.reference).Nodup := by
  have turn := h.order.inTurn
  rw [List.nil_append] at turn
  rw [turn]
  exact nodup_firstOccurrences _

theorem Finds.pairs_resolved (h : search.Finds seeds [] found) :
    (Resolution.ofFound found).resolved.pairs = found.map fun f => (f.reference, f.resolved) := by
  apply OrderedMap.pairs_ofPairs_of_nodup
  simpa [List.map_map, Function.comp_def] using h.nodup

theorem Finds.keys_resolved (h : search.Finds seeds [] found) :
    (Resolution.ofFound found).resolved.keys = found.map Found.reference := by
  rw [OrderedMap.keys, h.pairs_resolved, List.map_map]
  rfl

theorem Finds.values_resolved (h : search.Finds seeds [] found) :
    (Resolution.ofFound found).resolved.values = found.map Found.resolved := by
  rw [OrderedMap.values, h.pairs_resolved, List.map_map]
  rfl

theorem Finds.isClosure (h : search.Finds (seeds.map trimmed) [] found) :
    search.IsClosure seeds (Resolution.ofFound found).resolved := by
  have order := h.order
  rw [List.nil_append, ← h.keys_resolved] at order
  refine ⟨fun r => order.mem_iff, OrderedMap.nodup_keys _, order.inTurn, order.breadthFirst, ?_⟩
  intro r hr
  rw [h.keys_resolved] at hr
  obtain ⟨f, hf, rfl⟩ := List.mem_map.1 hr
  obtain ⟨-, hentry, htext⟩ := read_eq_ok (h.own f hf)
  refine ⟨f.entry, f.text, hentry, htext, OrderedMap.get?_eq_some_iff.2 ?_⟩
  rw [h.pairs_resolved]
  exact List.mem_map.2 ⟨f, hf, rfl⟩

theorem resolves_iff (available : ∀ i, search.catalog.outage i = none) :
    (∃ r, search.resolve seeds = .ok r) ↔
      ∀ r, Reached (seeds.map trimmed) search.successors r → search.Complete r := by
  constructor
  · rintro ⟨resolution, h⟩ r hr
    obtain ⟨found, hrun, rfl⟩ := map_eq_ok.1 h
    have hfinds := run_eq_ok hrun
    obtain ⟨f, hf, rfl⟩ := List.mem_map.1 (hfinds.order.mem_iff.2 hr)
    exact hfinds.complete f hf
  · intro complete
    cases hrun : search.run seeds with
    | ok found => exact ⟨Resolution.ofFound found, by rw [resolve, hrun]; rfl⟩
    | error e =>
      obtain ⟨-, r, hr, incomplete⟩ := run_eq_error available hrun
      exact absurd (complete r hr) incomplete

/-- With a store that answers, a search ends with the closure of its seeds if everything in it is
complete, and otherwise because something is missing. The order of the seeds decides neither
whether there is a closure nor what is in it. -/
theorem resolve_isClosure (search : Search) (available : ∀ i, search.catalog.outage i = none)
    (seeds : List String) :
    ((∃ r, search.resolve seeds = .ok r) ↔
      ∀ r, Reached (seeds.map trimmed) search.successors r → search.Complete r) ∧
    (∀ e, search.resolve seeds = .error e → e.IsMissing) ∧
    (∀ r, search.resolve seeds = .ok r → search.IsClosure seeds r.resolved) ∧
    ∀ seeds' : List String, seeds'.Perm seeds →
      ((∃ r, search.resolve seeds' = .ok r) ↔ ∃ r, search.resolve seeds = .ok r) ∧
      ∀ r r', search.resolve seeds = .ok r → search.resolve seeds' = .ok r' →
        ∀ key, key ∈ r'.resolved.keys ↔ key ∈ r.resolved.keys := by
  have closure : ∀ (seeds : List String) r, search.resolve seeds = .ok r →
      search.IsClosure seeds r.resolved := by
    intro seeds r h
    obtain ⟨found, hrun, rfl⟩ := map_eq_ok.1 h
    exact (run_eq_ok hrun).isClosure
  refine ⟨resolves_iff available, ?_, closure seeds, ?_⟩
  · intro e h
    cases hrun : search.run seeds with
    | ok found =>
      rw [resolve, hrun] at h
      cases h
    | error e' =>
      rw [resolve, hrun] at h
      cases h
      exact (run_eq_error available hrun).1
  · intro seeds' perm
    have same : ∀ r, Reached (seeds'.map trimmed) search.successors r ↔
        Reached (seeds.map trimmed) search.successors r := fun r =>
      ⟨fun h => h.mono fun s hs => (perm.map trimmed).mem_iff.1 hs,
        fun h => h.mono fun s hs => (perm.map trimmed).mem_iff.2 hs⟩
    refine ⟨?_, ?_⟩
    · rw [resolves_iff available, resolves_iff available]
      simp only [same]
    · intro r r' h h' key
      rw [(closure seeds r h).mem_keys, (closure seeds' r' h').mem_keys, same]

/-- Two entries that need each other, where the first also needs one that is known beforehand, which
needs the second. -/
def cyclic : Search :=
  let entry (owner slug : String) (internal : List (String × String)) : Entry :=
    { owner, slug, name := slug, registry := "ui", codeRef := slug, demoRef := "",
      exportedNames := [], demoExportName := "", external := ∅, demoExternal := ∅,
      internal := .ofPairs internal, description := none, version := 1 }
  { catalog :=
      { entries := .ofPairs
          [(⟨"ann", "card"⟩, entry "ann" "card" [("./button", "button"), ("@/icon", "bob/icon")]),
            (⟨"ann", "button"⟩, entry "ann" "button" [("../card", "card ")])]
        text? := fun ref => if ref ∈ ["card", "button", "icon"] then some ref else none }
    known := .ofPairs [("bob/icon", entry "bob" "icon" [("./button", "ann/button")])] }

/-- A cycle is gone round once. -/
theorem resolve_isClosure_cyclic :
    (∀ i, cyclic.catalog.outage i = none) ∧
      ∃ r, cyclic.resolve [" ann/card "] = .ok r ∧
        r.resolved.keys = ["ann/card", "ann/button", "bob/icon"] ∧
        cyclic.IsClosure [" ann/card "] r.resolved := by
  have available : ∀ i, cyclic.catalog.outage i = none := fun _ => rfl
  obtain ⟨-, -, closure, -⟩ := resolve_isClosure cyclic available [" ann/card "]
  have keys : (cyclic.resolve [" ann/card "]).toOption.map (fun r => r.resolved.keys) =
      some ["ann/card", "ann/button", "bob/icon"] := by
    decide +kernel
  cases h : cyclic.resolve [" ann/card "] with
  | error e =>
    rw [h] at keys
    cases keys
  | ok r =>
    rw [h] at keys
    exact ⟨available, r, rfl, Option.some.inj keys, closure r h⟩

end Search

end ComponentRegistry
