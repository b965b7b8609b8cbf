import ComponentRegistry.Proofs.Dependency.Partition
import ComponentRegistry.Proofs.Resolution.Serving
import ComponentRegistry.Proofs.Store.Gate
import ComponentRegistry.Proofs.Store.Metadata

/-! # Names of packages

A package goes by the beginning of a path, up to a slash or the end, and by the same name when the
path is that name. There is no such beginning where the path is empty or a slash comes first. The
table of local paths lets a path with a slash in front pass for a package, so that the empty name
gets into the maps of an analysis, the store and the manifests: exactly for such a path.
-/

namespace ComponentRegistry

/-- A path with nothing in front of its first slash: an empty path, or one from the root. -/
def Nameless (path : String) : Prop := path = "" ∨ path.toList.head? = some '/'

section Paths

variable (path : String)

theorem splitAt_packageName :
    Lines.splitAt '/' (packageName path).toList = packageSegments path.toList := by
  rw [packageName, String.toList_ofList]
  apply Lines.splitAt_intercalate
  · unfold packageSegments
    split <;> simp [Lines.splitAt_ne_nil]
  · exact fun piece mem => Lines.not_mem_of_mem_splitAt (List.mem_of_mem_take mem)

theorem packageName_eq_empty_iff : packageName path = "" ↔ Nameless path := by
  constructor
  · intro h
    rcases toList_eq_or_of_packageName path with whole | ⟨rest, cut⟩
    · exact .inl (whole.trans h)
    · right
      rw [cut, h]
      rfl
  · rintro (rfl | h)
    · rfl
    · obtain ⟨rest, cut⟩ := List.head?_eq_some_iff.1 h
      simp [packageName, packageSegments, cut, Lines.splitAt]

/-- A package has a scope if the path into it has. -/
theorem head?_packageName :
    (packageName path).toList.head? = some '@' ↔ path.toList.head? = some '@' := by
  rcases toList_eq_or_of_packageName path with whole | ⟨rest, cut⟩
  · rw [← whole]
  · rw [cut]
    cases (packageName path).toList with
    | nil => simp
    | cons c front => simp

theorem packageName_packageName : packageName (packageName path) = packageName path := by
  have segments : packageSegments (packageName path).toList = packageSegments path.toList := by
    rw [packageSegments, splitAt_packageName, packageSegments]
    simp only [head?_packageName, List.take_take, Nat.min_self]
  rw [packageName, segments]
  rfl

/-- A name has the slash of a scope, if the path has one, and no other. -/
theorem count_packageName : (packageName path).toList.count '/' =
    min (if path.toList.head? = some '@' then 1 else 0) (path.toList.count '/') := by
  have pieces : (packageName path).toList.count '/' + 1 = (packageSegments path.toList).length := by
    rw [← splitAt_packageName, Lines.length_splitAt]
  rw [packageSegments, List.length_take, Lines.length_splitAt] at pieces
  by_cases scope : path.toList.head? = some '@'
  · rw [if_pos scope] at pieces ⊢
    omega
  · rw [if_neg scope] at pieces ⊢
    omega

end Paths

/-- The name by which a package goes on a path: all of the path, or what stands in front of one of
its slashes, with the slash of a scope and no other. It is its own name, and there is one unless the
path has none to give. -/
structure IsPackageOf (name path : String) : Prop where
  cut : path = name ∨ ∃ rest, path.toList = name.toList ++ '/' :: rest
  slashes : name.toList.count '/' =
    min (if path.toList.head? = some '@' then 1 else 0) (path.toList.count '/')
  stable : packageName name = name
  nameless : name = "" ↔ Nameless path

theorem isPackageOf_packageName (path : String) : IsPackageOf (packageName path) path :=
  ⟨toList_eq_or_of_packageName path, count_packageName path, packageName_packageName path,
    packageName_eq_empty_iff path⟩

/-- Names of packages that some modules give: each goes with a module that is not local, and one of
them is empty exactly if such a module has no name to give. -/
structure NamesPackages (table : ResolutionTable) (modules names : List String) : Prop where
  each : ∀ name ∈ names, ∃ path ∈ modules, table.isLocal path = false ∧ IsPackageOf name path
  empty : "" ∈ names ↔ ∃ path ∈ modules, table.isLocal path = false ∧ Nameless path

theorem Outline.namesPackages {o : Outline} {table : ResolutionTable} {names : List String}
    (h : ∀ name, name ∈ names ↔
      ∃ f ∈ o.importFacts table, f.kind = .package ∧ packageName f.path = name) :
    NamesPackages table o.modules names where
  each name mem := by
    obtain ⟨path, hpath, foreign, rfl⟩ := exists_packageFact_iff.1 ((h name).1 mem)
    exact ⟨path, hpath, foreign, isPackageOf_packageName path⟩
  empty := by
    rw [h, exists_packageFact_iff]
    simp only [packageName_eq_empty_iff]

/-- What an analysis says about packages names those of the modules of its texts. -/
theorem Metadata.Describes.namesPackages {m : Metadata} {table : ResolutionTable}
    {code demo : String} (h : m.Describes table code demo) :
    (∃ o, outline code.toList = .ok o ∧ NamesPackages table o.modules m.external.keys) ∧
      ∃ o, outline demo.toList = .ok o ∧ NamesPackages table o.modules m.demoExternal.keys := by
  obtain ⟨codeFacts, demoFacts, hcode, hdemo, follows⟩ := h
  obtain ⟨o, ho, rfl⟩ := map_eq_ok.1 (hcode "component")
  obtain ⟨o', ho', rfl⟩ := map_eq_ok.1 (hdemo "demo")
  exact ⟨⟨o, mapError_eq_ok.1 ho, Outline.namesPackages follows.packages⟩,
    o', mapError_eq_ok.1 ho', Outline.namesPackages follows.demoPackages⟩

/-- A manifest lists the packages of the entry that it is for. -/
theorem Catalog.exists_of_manifest {catalog : Catalog} {i : Identifier} {extension : String}
    {m : Manifest} (h : catalog.manifest i extension = .ok m) :
    ∃ e, (i, e) ∈ catalog.entries.pairs ∧ m.packages = e.external.keys := by
  obtain ⟨r, hr, rfl⟩ := map_eq_ok.1 h
  refine ⟨r.root, OrderedMap.get?_eq_some_iff.1 ?_, rfl⟩
  have fetched := (resolveRoot_eq_ok.1 hr).1
  unfold fetchRoot at fetched
  split at fetched
  · cases fetched
  · exact Search.get?_of_fetchEntry fetched

section Served

variable {σ : Type} [RegistryStore σ] {table : ResolutionTable}

/-- A store whose manifests name the packages of the modules of a stored text, that of the entry
which they are for. -/
def ServesPackages (table : ResolutionTable) (store : σ) : Prop :=
  ∀ catalog : Catalog, catalog.entries = (RegistryStore.catalog store).entries →
    ∀ i extension m, catalog.manifest i extension = .ok m →
      ∃ e ∈ RegistryStore.listEntries store none, e.identifier = i ∧
        m.packages = e.external.keys ∧
        ∃ text o, RegistryStore.sourceText? store e.codeRef = some text ∧
          outline text.toList = .ok o ∧ NamesPackages table o.modules m.packages

theorem servesPackages_of_saysItsTexts {store : σ}
    (h : ∀ e ∈ RegistryStore.listEntries store none, e.SaysItsTexts table store) :
    ServesPackages table store := by
  intro catalog same i extension m hm
  obtain ⟨e, found, packages⟩ := Catalog.exists_of_manifest hm
  rw [same] at found
  obtain ⟨mem, address⟩ := RegistryStore.mem_listEntries_of_mem_pairs found
  obtain ⟨code, demo, stored, -, describes⟩ := h e mem
  obtain ⟨⟨o, ho, names⟩, -⟩ := describes.namesPackages
  exact ⟨e, mem, address, packages, code, o, stored, ho, packages ▸ names⟩

end Served

/-- A package goes by the beginning of a path, which is empty only for a path that is empty or
begins with a slash. So the packages of an analysis, and those of a manifest that is served from
analyzed submissions, have a name unless a module that is not local has such a path. -/
theorem packages_have_names [RefSupply] (path : String) (settings : AnalysisSettings) :
    IsPackageOf (packageName path) path ∧
      (∀ component demo existing known analysis,
        analyzeSubmission settings component demo existing known = .ok analysis →
          (∃ o, outline analysis.component.toList = .ok o ∧
            NamesPackages settings.table o.modules analysis.external.keys) ∧
          ∃ o, outline analysis.demo.toList = .ok o ∧
            NamesPackages settings.table o.modules analysis.demoExternal.keys) ∧
      ∀ requests : List StoreRequest, (∀ request ∈ requests, request.Analyzed settings) →
        ServesPackages settings.table (session requests (RegistryStore.empty : MemoryStore)).2 ∧
          ServesPackages settings.table (session requests (RegistryStore.empty : TableStore)).2 := by
  refine ⟨isPackageOf_packageName path, fun component demo existing known analysis h => ?_,
    fun requests h => ?_⟩
  · exact (analyzeSubmission_describes h).namesPackages
  · obtain ⟨sound, -⟩ := (MemoryStore.Sound.empty settings.table).session h
    have mirrors := (Mirrors.empty.session requests).2
    have agree : ∀ e ∈ RegistryStore.listEntries
        (session requests (RegistryStore.empty : MemoryStore)).2 none,
        e.SaysItsTexts settings.table (session requests (RegistryStore.empty : MemoryStore)).2 :=
      fun e mem => sound.entries e (List.mem_filter.1 mem).1
    refine ⟨servesPackages_of_saysItsTexts agree, servesPackages_of_saysItsTexts fun e mem => ?_⟩
    exact mirrors.saysItsTexts (agree e ((mirrors.listEntries_perm none).mem_iff.2 mem))

/-- A scope with nothing behind it and a path into a package, analyzed, published and served. -/
theorem packages_have_names_scoped :
    let component := "import a from '@ui//x'\nimport b from 'lodash/map'\nexport const Card = 1"
    let demo := "import '@'\nexport default function Demo() \x7b\x7d"
    let published (analysis : SubmissionAnalysis) : List StoreRequest :=
      [.publish ⟨"ann", "card"⟩ analysis {}]
    let stored (analysis : SubmissionAnalysis) : TableStore :=
      (session (published analysis) RegistryStore.empty).2
    IsPackageOf (packageName "@ui//x") "@ui//x" ∧
      ∃ analysis m, analyzeSubmission {} component demo ∅ ∅ = .ok analysis ∧
        (∃ o, outline analysis.component.toList = .ok o ∧
          NamesPackages {} o.modules analysis.external.keys) ∧
        (∀ request ∈ published analysis, request.Analyzed {}) ∧
        (RegistryStore.catalog (stored analysis)).manifest ⟨"ann", "card"⟩ ".tsx" = .ok m ∧
        m.packages = ["@ui/", "lodash"] ∧ ∃ modules, NamesPackages {} modules m.packages := by
  intro component demo published stored
  obtain ⟨path, analyses, stores⟩ := packages_have_names "@ui//x" {}
  have names : (analyzeSubmission {} component demo ∅ ∅).toOption.map (fun a =>
      ((RegistryStore.catalog (stored a)).manifest ⟨"ann", "card"⟩ ".tsx").toOption.map
        Manifest.packages) = some (some ["@ui/", "lodash"]) := by
    decide +kernel
  obtain ⟨analysis, h, names⟩ := exists_of_toOption_map names
  obtain ⟨m, hm, names⟩ := exists_of_toOption_map names
  have analyzed : ∀ request ∈ published analysis, request.Analyzed {} :=
    List.forall_mem_singleton.2 ⟨component, demo, _, _, h⟩
  obtain ⟨-, -, -, -, -, o, -, -, served⟩ := (stores _ analyzed).2 _ rfl _ _ _ hm
  exact ⟨path, analysis, m, h, (analyses _ _ _ _ _ h).1, analyzed, hm, names, _, served⟩

/-- A path from the root passes for a package, and goes by the empty name up to the manifest. -/
theorem packageName_from_root :
    let component := "import a from '/lib/card'\nexport const Card = 1"
    let demo := "export default function Demo() \x7b\x7d"
    let stored (analysis : SubmissionAnalysis) : TableStore :=
      (session [.publish ⟨"ann", "card"⟩ analysis {}] RegistryStore.empty).2
    (({} : ResolutionTable).kindOf "/lib/card" = .package ∧ packageName "/lib/card" = "") ∧
      ∃ analysis m, analyzeSubmission {} component demo ∅ ∅ = .ok analysis ∧
        analysis.external.keys = [""] ∧
        (RegistryStore.catalog (stored analysis)).manifest ⟨"ann", "card"⟩ ".tsx" = .ok m ∧
        m.packages = [""] := by
  intro component demo stored
  have names : (analyzeSubmission {} component demo ∅ ∅).toOption.map (fun a => (a.external.keys,
      ((RegistryStore.catalog (stored a)).manifest ⟨"ann", "card"⟩ ".tsx").toOption.map
        Manifest.packages)) = some ([""], some [""]) := by
    decide +kernel
  obtain ⟨analysis, h, names⟩ := exists_of_toOption_map names
  obtain ⟨keys, names⟩ := Prod.mk.inj names
  obtain ⟨m, hm, packages⟩ := exists_of_toOption_map names
  exact ⟨by decide +kernel, analysis, m, h, keys, hm, packages⟩

end ComponentRegistry
