import ComponentRegistry.Proofs.Resolution.Serving
import ComponentRegistry.Serving.Request

/-! # Schedules make no difference

However many references of a round are read at a time, their answers come in in some order, and the
first failure among them ends the search. Which failure that is depends on the order. Whether there
is one does not, and neither does anything that is found; and a search that fails leaves nothing to
be served.
-/

namespace ComponentRegistry

namespace Search

variable {search : Search} {round : Nat} {seen references : List String} {found : List Found}

/-- A round finds what its references lead to, whichever answer comes in first. -/
theorem readRound_eq_ok_iff : search.readRound round references = .ok found ↔
    List.Forall₂ (fun r f => search.read r = .ok f) references found := by
  refine ⟨readRound_eq_ok, fun h => ?_⟩
  have each : ∀ r ∈ search.schedule.arrange round references, ∃ f, search.read r = .ok f := by
    intro r hr
    have mem := (search.schedule.perm round references).mem_iff.1 hr
    obtain ⟨f, -, hf⟩ := exists_of_mapM_eq_ok (mapM_eq_ok.2 h) mem
    exact ⟨f, hf⟩
  obtain ⟨answers, hanswers⟩ := mapM_isOk_iff.2 each
  obtain ⟨found', hround⟩ : ∃ found', search.readRound round references = .ok found' :=
    ⟨_, bind_eq_ok.2 ⟨answers, hanswers, rfl⟩⟩
  have same := (mapM_eq_ok.2 (readRound_eq_ok hround)).symm.trans (mapM_eq_ok.2 h)
  rw [hround, Except.ok.inj same]

/-- A search goes on with what a round leads to, until a round leads to nothing new. -/
theorem rounds_eq_ok_iff : search.rounds round seen references = .ok found ↔
    ∃ first next, search.readRound round references = .ok first ∧ unseen seen first = .ok next ∧
      (next = [] ∧ found = first ∨
        next ≠ [] ∧ ∃ later, search.rounds (round + 1) (seen ++ next) next = .ok later ∧
          found = first ++ later) := by
  rw [rounds]
  split
  · next e hround => simp [hround]
  · next first hround =>
    split
    · next e hnext => simp [hround, hnext]
    · next hnext => simp [hround, hnext, eq_comm]
    · next next more hnext => simp [hround, hnext, map_eq_ok, eq_comm (a := found)]

/-- The same search, with answers that come in by another schedule. -/
def under (search : Search) (schedule : Schedule) : Search := { search with schedule }

theorem readRound_under (schedule : Schedule) :
    (search.under schedule).readRound round references = .ok found ↔
      search.readRound round references = .ok found := by
  rw [readRound_eq_ok_iff, readRound_eq_ok_iff]
  rfl

theorem rounds_under (schedule : Schedule)
    (h : search.rounds round seen references = .ok found) :
    (search.under schedule).rounds round seen references = .ok found := by
  fun_induction rounds search round seen references generalizing found with
  | case1 => cases h
  | case2 => cases h
  | case3 round seen references first hround hnext =>
    cases h
    exact rounds_eq_ok_iff.2 ⟨first, [], (readRound_under schedule).2 hround, hnext, .inl ⟨rfl, rfl⟩⟩
  | case4 round seen references first hround next more hnext ih =>
    obtain ⟨later, hlater, rfl⟩ := map_eq_ok.1 h
    refine rounds_eq_ok_iff.2 ⟨first, next :: more, (readRound_under schedule).2 hround, hnext, ?_⟩
    exact .inr ⟨List.cons_ne_nil _ _, later, ih hlater, rfl⟩

/-- What a search finds under one schedule it finds under every other. -/
theorem resolve_under {seeds : List String} {r : Resolution} (schedule : Schedule)
    (h : search.resolve seeds = .ok r) : (search.under schedule).resolve seeds = .ok r := by
  obtain ⟨found, hrun, rfl⟩ := map_eq_ok.1 h
  obtain ⟨references, hstart, hrounds⟩ := bind_eq_ok.1 hrun
  exact map_eq_ok.2 ⟨found, bind_eq_ok.2 ⟨references, hstart, rounds_under schedule hrounds⟩, rfl⟩

end Search

section Serving

theorem RetryPolicy.exists_error_runFrom {α : Type} (delay : Nat → Except Failure Quantity)
    {call : Nat → Except Failure α} (fails : ∀ attempt, ∃ e, call attempt = .error e)
    (attempt remaining : Nat) : ∃ e, (runFrom delay call attempt remaining).result = .error e := by
  induction remaining generalizing attempt with
  | zero =>
    rw [runFrom]
    exact fails attempt
  | succ remaining ih =>
    rw [runFrom]
    split
    · split
      · next e _ => exact ⟨e, rfl⟩
      · exact ih (attempt + 1)
    · exact fails attempt

/-- An answer with a reason why nothing is served, and with nothing else. -/
structure Response.Refuses (response : Response) : Prop where
  status : response.status ≠ 200
  body : ∃ message, response.body = .object [("error", .string message)]

theorem RegistryError.status_ne (e : RegistryError) : e.status ≠ 200 := by
  cases e <;> simp [status]

theorem Response.refuses_ofFailure (failure : Failure) (delays : List Quantity) :
    Response.Refuses { Response.ofFailure failure with delays } := by
  cases failure with
  | refused e => exact ⟨e.status_ne, _, rfl⟩
  | _ => exact ⟨by simp [ofFailure, reason], _, rfl⟩

/-- Without a manifest there is nothing to serve, however often it is tried. -/
theorem refuses_serveItem {settings : ServerSettings} {backing : Backing} {i : Identifier}
    {e : RegistryError} (h : backing.catalog.manifest i settings.fileExtension = .error e) :
    (serveItem settings backing i).Refuses := by
  have fails (attempt : Nat) :
      ∃ e, backing.manifest i settings.fileExtension attempt = .error e := by
    unfold Backing.manifest
    split
    · next failure _ => exact ⟨failure, rfl⟩
    · exact ⟨.refused e, by rw [h]; rfl⟩
  obtain ⟨failure, hrun⟩ := RetryPolicy.exists_error_runFrom
    (fun attempt => settings.retries.delay attempt) fails 0 (settings.retries.attempts - 1).toNat
  unfold serveItem RetryPolicy.run
  simp only [hrun]
  exact Response.refuses_ofFailure _ _

/-- An entry whose search fails under some schedule has no manifest. -/
theorem Catalog.manifest_eq_error {catalog : Catalog} {i : Identifier} {root : Entry}
    {schedule : Schedule} {e : RegistryError} (fetched : catalog.fetchRoot i = .ok root)
    (failed : ((catalog.searchFrom root).under schedule).resolve (seedsOf root i.owner) = .error e)
    (extension : String) : ∃ e, catalog.manifest i extension = .error e := by
  cases h : catalog.manifest i extension with
  | error e => exact ⟨e, rfl⟩
  | ok m =>
    obtain ⟨r, resolved, -⟩ := map_eq_ok.1 h
    obtain ⟨fetched', found, -⟩ := resolveRoot_eq_ok.1 resolved
    rw [fetched] at fetched'
    cases fetched'
    rw [Search.resolve_under schedule found] at failed
    cases failed

/-- Two searches that differ only in the order in which answers come in, round by round, find the
same in the same order or both fail. Where the search for an entry fails in any order, a request for
that entry is refused, and nothing of a manifest is served. -/
theorem resolve_schedules (catalog : Catalog) (known : OrderedMap String Entry)
    (seeds : List String) (first second : Schedule) :
    ((∃ r, (Search.mk catalog known first).resolve seeds = .ok r ∧
        (Search.mk catalog known second).resolve seeds = .ok r) ∨
      ∃ e e', (Search.mk catalog known first).resolve seeds = .error e ∧
        (Search.mk catalog known second).resolve seeds = .error e') ∧
    ∀ (i : Identifier) (root : Entry) (e : RegistryError), catalog.fetchRoot i = .ok root →
      ((catalog.searchFrom root).under first).resolve (Catalog.seedsOf root i.owner) = .error e →
      ∀ settings trouble path, Route.ofPath? path = some (.item i) →
        (respond settings ⟨catalog, trouble⟩ "GET" path).Refuses := by
  constructor
  · cases hfirst : (Search.mk catalog known first).resolve seeds with
    | ok r => exact .inl ⟨r, rfl, Search.resolve_under second hfirst⟩
    | error e =>
      cases hsecond : (Search.mk catalog known second).resolve seeds with
      | error e' => exact .inr ⟨e, e', rfl, rfl⟩
      | ok r =>
        have found : (Search.mk catalog known first).resolve seeds = .ok r :=
          Search.resolve_under first hsecond
        rw [hfirst] at found
        cases found
  · intro i root e fetched failed settings trouble path hpath
    obtain ⟨e', hmanifest⟩ := Catalog.manifest_eq_error fetched failed settings.fileExtension
    have answer : respond settings ⟨catalog, trouble⟩ "GET" path =
        serveItem settings ⟨catalog, trouble⟩ i := by
      simp [respond, hpath]
    rw [answer]
    exact refuses_serveItem hmanifest

/-- Answers that come in last question first. -/
def Schedule.reversed : Schedule :=
  ⟨fun _ references => references.reverse, fun _ references => references.reverse_perm⟩

/-- An entry that needs two others, neither of which is there. -/
def frayed : Entry :=
  { owner := "ann", slug := "card", name := "card", registry := "ui", codeRef := "card",
    demoRef := "", exportedNames := [], demoExportName := "", external := ∅, demoExternal := ∅,
    internal := .ofPairs [("./ghost", "ghost"), ("./phantom", "phantom")], description := none,
    version := 1 }

/-- Which of two missing entries is reported depends on the schedule, and nothing else does. -/
theorem resolve_schedules_frayed :
    let catalog : Catalog := { entries := .ofPairs [(⟨"ann", "card"⟩, frayed)], text? := some }
    let search := catalog.searchFrom frayed
    let seeds := Catalog.seedsOf frayed "ann"
    catalog.fetchRoot ⟨"ann", "card"⟩ = .ok frayed ∧
      Route.ofPath? "/r/ann/card" = some (.item ⟨"ann", "card"⟩) ∧
      (search.under .inOrder).resolve seeds = .error (.missingDependency "ann/ghost") ∧
      (search.under .reversed).resolve seeds = .error (.missingDependency "ann/phantom") ∧
      (respond {} ⟨catalog, fun _ => none⟩ "GET" "/r/ann/card").Refuses := by
  intro catalog search seeds
  have fetched : catalog.fetchRoot ⟨"ann", "card"⟩ = .ok frayed := by decide +kernel
  have route : Route.ofPath? "/r/ann/card" = some (.item ⟨"ann", "card"⟩) := by decide +kernel
  have inOrder : (search.under .inOrder).resolve seeds = .error (.missingDependency "ann/ghost") :=
    map_eq_error (f := fun r => r.resolved.keys) (by decide +kernel)
  have reversed :
      (search.under .reversed).resolve seeds = .error (.missingDependency "ann/phantom") :=
    map_eq_error (f := fun r => r.resolved.keys) (by decide +kernel)
  obtain ⟨-, refused⟩ := resolve_schedules catalog ∅ seeds .reversed .inOrder
  exact ⟨fetched, route, inOrder, reversed, refused _ _ _ fetched reversed _ _ _ route⟩

end Serving

end ComponentRegistry
