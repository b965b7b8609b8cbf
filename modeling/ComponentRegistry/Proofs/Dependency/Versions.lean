import ComponentRegistry.Dependency.External
import ComponentRegistry.Proofs.OrderedMap
import ComponentRegistry.Proofs.Resolution.Discovery

/-! # Versions of packages

Several imports may lead into one package. Going through them one after the other, each package is
listed where it is first needed, and its version is the first one that says more than the sentinel.
-/

namespace ComponentRegistry

section Collecting

variable {ν : Type} [BEq ν] (source : VersionSource ν) (found : OrderedMap String ν)

theorem keys_addDependency (path : String) :
    (addDependency source found path).keys =
      if packageName path ∈ found.keys then found.keys else found.keys ++ [packageName path] := by
  unfold addDependency
  simp only
  split
  · exact OrderedMap.keys_insert ..
  · next existing stored =>
    rw [if_pos (OrderedMap.mem_keys_of_get? stored)]
    split
    · rw [OrderedMap.keys_insert, if_pos (OrderedMap.mem_keys_of_get? stored)]
    · rfl

variable {found} in
theorem keys_foldl_addDependency {before : List String}
    (h : found.keys = firstOccurrences (before.map packageName)) (paths : List String) :
    (paths.foldl (addDependency source) found).keys =
      firstOccurrences ((before ++ paths).map packageName) := by
  induction paths generalizing found before with
  | nil => rwa [List.append_nil]
  | cons path rest ih =>
    rw [List.foldl_cons, ← List.singleton_append, ← List.append_assoc]
    apply ih
    rw [keys_addDependency, h, List.map_append, List.map_singleton, firstOccurrences_concat]
    simp only [mem_firstOccurrences]

/-- Packages are listed where they are first needed. -/
theorem keys_externalDependencies (facts : List ImportFact) :
    (externalDependencies source facts).keys = firstOccurrences
      ((facts.filter fun f => f.kind = .package).map fun f => packageName f.path) := by
  have start : (∅ : OrderedMap String ν).keys = firstOccurrences ([].map packageName) := rfl
  rw [externalDependencies, keys_foldl_addDependency source start, List.nil_append, List.map_map]
  rfl

/-- The version for the imports of one package: the first one that is not the sentinel. -/
def VersionSource.firstKnown (paths : List String) : ν :=
  ((paths.map source.versionOf).find? (· != source.sentinel)).getD source.sentinel

/-- A map that has for every package the first version that is known for one of its paths. -/
def RecordsVersions (paths : List String) : Prop :=
  ∀ name, (found.get? name).getD source.sentinel =
    source.firstKnown (paths.filter fun path => packageName path = name)

variable [LawfulBEq ν]

/-- One more import of a package counts only while the earlier ones say no more than the
sentinel. -/
theorem VersionSource.firstKnown_concat (paths : List String) (path : String) :
    source.firstKnown (paths ++ [path]) =
      if source.firstKnown paths == source.sentinel then source.versionOf path
      else source.firstKnown paths := by
  unfold firstKnown
  rw [List.map_append, List.find?_append]
  cases earlier : (paths.map source.versionOf).find? (· != source.sentinel) with
  | some version =>
    have other : (version == source.sentinel) = false := by
      simpa using List.find?_some earlier
    simp [other]
  | none =>
    by_cases same : source.versionOf path = source.sentinel
    · simp [same]
    · simp [bne_iff_ne.2 same]

/-- The same rule for what is recorded, where a package that is not there yet counts as recorded
with the sentinel. -/
theorem getD_addDependency (path name : String) :
    ((addDependency source found path).get? name).getD source.sentinel =
      if packageName path = name then
        if (found.get? name).getD source.sentinel == source.sentinel then source.versionOf path
        else (found.get? name).getD source.sentinel
      else (found.get? name).getD source.sentinel := by
  unfold addDependency
  simp only
  split
  · next missing =>
    rw [OrderedMap.get?_insert]
    split
    · next here => rw [← here, missing]; simp
    · rfl
  · next existing stored =>
    split
    · next replaced =>
      obtain ⟨unknown, -⟩ := Bool.and_eq_true_iff.1 replaced
      rw [OrderedMap.get?_insert]
      split
      · next here => rw [← here, stored]; simp [unknown]
      · rfl
    · next kept =>
      split
      · next here =>
        rw [← here, stored]
        by_cases unknown : existing = source.sentinel
        · have same : source.versionOf path = source.sentinel := by simpa [unknown] using kept
          simp [unknown, same]
        · simp [beq_eq_false_iff_ne.2 unknown]
      · rfl

variable {source found}

theorem RecordsVersions.add {paths : List String} (h : RecordsVersions source found paths)
    (path : String) : RecordsVersions source (addDependency source found path) (paths ++ [path]) := by
  intro name
  rw [getD_addDependency, h, List.filter_append, List.filter_singleton]
  by_cases here : packageName path = name
  · rw [if_pos here, decide_eq_true here, cond_true, source.firstKnown_concat]
  · rw [if_neg here, decide_eq_false here, cond_false, List.append_nil]

theorem RecordsVersions.foldl {before : List String} (h : RecordsVersions source found before)
    (paths : List String) :
    RecordsVersions source (paths.foldl (addDependency source) found) (before ++ paths) := by
  induction paths generalizing found before with
  | nil => rwa [List.append_nil]
  | cons path rest ih =>
    have := ih (h.add path)
    rwa [List.append_assoc] at this

theorem recordsVersions_externalDependencies (source : VersionSource ν) (facts : List ImportFact) :
    RecordsVersions source (externalDependencies source facts)
      ((facts.filter fun f => f.kind = .package).map ImportFact.path) :=
  have start : RecordsVersions source ∅ [] := fun _ => rfl
  start.foldl _

end Collecting

section Known

variable (known : OrderedMap String String) (sentinel : String)

/-- The version that is known for a path: the first one that is given and not empty, for the path
itself or for its package, or else the sentinel. -/
def knownVersion (path : String) : String :=
  ([path, packageName path].findSome? fun p => (known.get? p).filter (· ≠ "")).getD sentinel

theorem versionOf_ofMap (path : String) :
    (VersionSource.ofMap known sentinel).versionOf path = knownVersion known sentinel path := by
  have given : (fun version : String => !version.isEmpty) = fun version => decide (version ≠ "") := by
    funext version
    by_cases empty : version = "" <;> simp [empty]
  unfold knownVersion VersionSource.versionOf
  simp only [VersionSource.ofMap, given, List.findSome?_cons, List.findSome?_nil]
  cases (known.get? path).filter fun version => decide (version ≠ "") <;>
    cases (known.get? (packageName path)).filter fun version => decide (version ≠ "") <;> rfl

theorem firstKnown_ofMap (paths : List String) :
    (VersionSource.ofMap known sentinel).firstKnown paths =
      ((paths.map (knownVersion known sentinel)).find? (· ≠ sentinel)).getD sentinel := by
  have other : (fun version : String => version != sentinel) =
      fun version => decide (version ≠ sentinel) := by
    funext version
    by_cases same : version = sentinel <;> simp [same]
  rw [VersionSource.firstKnown, funext (versionOf_ofMap known sentinel)]
  exact congrArg (fun p => (List.find? p _).getD sentinel) other

/-- The packages of some imports are listed in the order in which they are first needed, each once,
with the first version of one of their imports that is not the sentinel. -/
theorem externalDependencies_eq_ofKeys (facts : List ImportFact) :
    let needed := facts.filter fun f => f.kind = .package
    externalDependencies (.ofMap known sentinel) facts =
      .ofKeys (firstOccurrences (needed.map fun f => packageName f.path))
        (nodup_firstOccurrences _) fun name =>
          (((needed.filter fun f => packageName f.path = name).map fun f =>
            knownVersion known sentinel f.path).find? (· ≠ sentinel)).getD sentinel := by
  intro needed
  have records := recordsVersions_externalDependencies (.ofMap known sentinel) facts
  have keys := keys_externalDependencies (.ofMap known sentinel) facts
  refine OrderedMap.eq_ofKeys _ keys fun name mem => ?_
  rw [← keys] at mem
  cases stored : (externalDependencies (.ofMap known sentinel) facts).get? name with
  | none => exact absurd mem (OrderedMap.get?_eq_none_iff.1 stored)
  | some version =>
    have settled := records name
    rw [stored, Option.getD_some, firstKnown_ofMap, List.filter_map, List.map_map] at settled
    exact congrArg some settled

/-- Two packages in turn. An empty version is none, and the sentinel itself gives way to a later
version. -/
example :
    let imports := ["lodash", "clsx", "lodash/map", "./base", "lodash/find"].map fun path =>
      ImportFact.mk path (({} : ResolutionTable).kindOf path) [] false 1
    let known := OrderedMap.ofPairs
      [("lodash", ""), ("lodash/map", "latest"), ("lodash/find", "4.17"), ("clsx", "2")]
    (externalDependencies (.ofMap known "latest") imports).pairs =
      [("lodash", "4.17"), ("clsx", "2")] := by
  decide +kernel

end Known

end ComponentRegistry
