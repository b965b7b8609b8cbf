import Mathlib.Data.List.Nodup
import ComponentRegistry.Proofs.Resolution.Address
import ComponentRegistry.Proofs.Submission

/-! # Every import has one place

The maps of an analysis hold every module that the texts import or export from, each once and in the
map for its kind, and nothing else. A package goes by the first segments of its path. These are
never a local path, since what begins like a local path is one.
-/

namespace ComponentRegistry

/-- A path is its package, or a slash follows the package. -/
theorem toList_eq_or_of_packageName (path : String) :
    path = packageName path ∨ ∃ rest, path.toList = (packageName path).toList ++ '/' :: rest := by
  have segments : ∃ n, (if path.toList.head? = some '@' then 2 else 1) = n + 1 := by
    split
    · exact ⟨1, rfl⟩
    · exact ⟨0, rfl⟩
  obtain ⟨n, hn⟩ := segments
  have cut := Lines.eq_or_of_take_splitAt '/' n path.toList
  rw [← hn] at cut
  refine cut.imp (fun whole => ?_) fun ⟨rest, h⟩ => ⟨rest, ?_⟩
  · exact String.toList_inj.1 (by rw [packageName, String.toList_ofList]; exact whole)
  · rw [packageName, String.toList_ofList]
    exact h

namespace ResolutionTable

variable {table : ResolutionTable}

theorem isLocal_iff {path : String} :
    table.isLocal path = true ↔ path = "." ∨ path = ".." ∨
      ∃ b ∈ table.localPrefixes ++ table.aliasPrefixes, b.toList <+: path.toList := by
  simp [isLocal, beginsWithAny, or_and_right, exists_or, or_assoc]

/-- What begins like a local path is one. -/
theorem isLocal_of_packageName (current : "./" ∈ table.localPrefixes)
    (parent : "../" ∈ table.localPrefixes) {path : String}
    (h : table.isLocal (packageName path) = true) : table.isLocal path = true := by
  rcases toList_eq_or_of_packageName path with whole | ⟨rest, hpath⟩
  · rwa [whole]
  · rw [isLocal_iff] at h ⊢
    rw [hpath]
    right
    right
    rcases h with h | h | ⟨b, hb, hprefix⟩
    · refine ⟨"./", List.mem_append_left _ current, ?_⟩
      rw [h]
      exact ⟨rest, rfl⟩
    · refine ⟨"../", List.mem_append_left _ parent, ?_⟩
      rw [h]
      exact ⟨rest, rfl⟩
    · exact ⟨b, hb, hprefix.trans (List.prefix_append _ _)⟩

theorem kindOf_eq_localFile {path : String} :
    table.kindOf path = .localFile ↔ table.isLocal path = true := by
  unfold kindOf
  split <;> simp_all

theorem kindOf_eq_package {path : String} :
    table.kindOf path = .package ↔ table.isLocal path = false := by
  unfold kindOf
  split <;> simp_all

end ResolutionTable

namespace Outline

/-- The modules that a source unit imports or exports from, as its statements say them. -/
def modules (o : Outline) : List String :=
  o.imports.map (fun s => s.source.path) ++
    o.exports.filterMap fun s => s.source.map ModuleSource.path

theorem mem_mergeByOffset {f : ImportFact} {facts others : List (Nat × ImportFact)} :
    f ∈ mergeByOffset facts others ↔ f ∈ facts.map Prod.snd ∨ f ∈ others.map Prod.snd := by
  fun_induction mergeByOffset facts others with
  | case1 => simp
  | case2 => simp
  | case3 p g facts q k others _ ih => simp only [List.mem_cons, ih, List.map_cons, or_assoc]
  | case4 p g facts q k others _ ih =>
    simp only [List.mem_cons, ih, List.map_cons]
    tauto

/-- The facts about imports are those about the modules. -/
theorem exists_importFact_iff {o : Outline} {table : ResolutionTable} {kind : ImportKind}
    {path : String} :
    (∃ f ∈ o.importFacts table, f.kind = kind ∧ f.path = path) ↔
      path ∈ o.modules ∧ table.kindOf path = kind := by
  constructor
  · rintro ⟨f, hf, rfl, rfl⟩
    rcases mem_mergeByOffset.1 hf with hf | hf
    · obtain ⟨_, hpair, rfl⟩ := List.mem_map.1 hf
      obtain ⟨s, hs, rfl⟩ := List.mem_map.1 hpair
      exact ⟨List.mem_append_left _ (List.mem_map.2 ⟨s, hs, rfl⟩), rfl⟩
    · obtain ⟨_, hpair, rfl⟩ := List.mem_map.1 hf
      obtain ⟨s, hs, hpair⟩ := List.mem_filterMap.1 hpair
      obtain ⟨f, hfact, rfl⟩ := Option.map_eq_some_iff.1 hpair
      obtain ⟨source, hsource, rfl⟩ := Option.map_eq_some_iff.1 hfact
      refine ⟨List.mem_append_right _ (List.mem_filterMap.2 ⟨s, hs, ?_⟩), rfl⟩
      rw [hsource]
      rfl
  · rintro ⟨hpath, hkind⟩
    rcases List.mem_append.1 hpath with hpath | hpath
    · obtain ⟨s, hs, rfl⟩ := List.mem_map.1 hpath
      refine ⟨s.fact table, mem_mergeByOffset.2 (.inl ?_), hkind, rfl⟩
      exact List.mem_map_of_mem (List.mem_map_of_mem hs)
    · obtain ⟨s, hs, hpath⟩ := List.mem_filterMap.1 hpath
      obtain ⟨source, hsource, rfl⟩ := Option.map_eq_some_iff.1 hpath
      obtain ⟨f, hfact, hfkind, hfpath⟩ : ∃ f, s.fact? table = some f ∧
          f.kind = table.kindOf source.path ∧ f.path = source.path := by
        rw [ExportStatement.fact?, hsource]
        exact ⟨_, rfl, rfl, rfl⟩
      refine ⟨f, mem_mergeByOffset.2 (.inr ?_), hfkind.trans hkind, hfpath⟩
      refine List.mem_map.2 ⟨(s.span.start.offset, f), List.mem_filterMap.2 ⟨s, hs, ?_⟩, rfl⟩
      rw [hfact]
      rfl

theorem exists_packageFact_iff {o : Outline} {table : ResolutionTable} {name : String} :
    (∃ f ∈ o.importFacts table, f.kind = .package ∧ packageName f.path = name) ↔
      ∃ path ∈ o.modules, table.isLocal path = false ∧ packageName path = name := by
  constructor
  · rintro ⟨f, hf, hkind, rfl⟩
    obtain ⟨mem, kind⟩ := exists_importFact_iff.1 ⟨f, hf, hkind, rfl⟩
    exact ⟨f.path, mem, ResolutionTable.kindOf_eq_package.1 kind, rfl⟩
  · rintro ⟨path, mem, foreign, rfl⟩
    have kind := ResolutionTable.kindOf_eq_package.2 foreign
    obtain ⟨f, hf, hkind, rfl⟩ := exists_importFact_iff.2 ⟨mem, kind⟩
    exact ⟨f, hf, hkind, rfl⟩

end Outline

/-- The texts of an analysis are those that were handed in, rewritten. -/
structure SubmissionAnalysis.Rewrites (a : SubmissionAnalysis) (component demo : String) :
    Prop where
  component : nameDefaultExport component.toList = .ok a.component.toList
  demo : ∃ synchronous removal, removeAsyncExports demo.toList = .ok synchronous ∧
    removeSelfImports a.exportedNames synchronous = .ok removal ∧ removal.text = a.demo.toList

/-- Metadata that has every module of a component and its demo in its place: packages and local
paths are told apart, no key is there for nothing, and no package goes by a local path. -/
structure Metadata.Partitions (m : Metadata) (table : ResolutionTable) (code demo : List String) :
    Prop where
  packages : ∀ path ∈ code, table.isLocal path = false →
    m.external.keys.count (packageName path) = 1
  demoPackages : ∀ path ∈ demo, table.isLocal path = false →
    m.demoExternal.keys.count (packageName path) = 1
  locals : ∀ path ∈ code ++ demo, table.isLocal path = true → m.internal.keys.count path = 1
  of_external : ∀ key ∈ m.external.keys, ∃ path ∈ code,
    table.isLocal path = false ∧ packageName path = key
  of_demoExternal : ∀ key ∈ m.demoExternal.keys, ∃ path ∈ demo,
    table.isLocal path = false ∧ packageName path = key
  of_internal : ∀ key ∈ m.internal.keys, key ∈ code ++ demo ∧ table.isLocal key = true
  foreign : ∀ key ∈ m.external.keys ++ m.demoExternal.keys, table.isLocal key = false
  disjoint : m.internal.keys.Disjoint (m.external.keys ++ m.demoExternal.keys)

theorem Metadata.FollowsFrom.partitions {m : Metadata} {table : ResolutionTable}
    {code demo : Outline} (h : m.FollowsFrom (code.facts table) (demo.facts table))
    (current : "./" ∈ table.localPrefixes) (parent : "../" ∈ table.localPrefixes) :
    m.Partitions table code.modules demo.modules := by
  have external (key : String) := (h.packages key).trans Outline.exists_packageFact_iff
  have demoExternal (key : String) := (h.demoPackages key).trans Outline.exists_packageFact_iff
  have internal (key : String) : key ∈ m.internal.keys ↔
      key ∈ code.modules ++ demo.modules ∧ table.isLocal key = true := by
    rw [h.paths, ← ResolutionTable.kindOf_eq_localFile, List.mem_append, or_and_right,
      ← Outline.exists_importFact_iff, ← Outline.exists_importFact_iff]
    simp only [Outline.facts, List.mem_append, or_and_right, exists_or]
  -- A package is not local, and what it goes by would make it so.
  have foreign : ∀ key ∈ m.external.keys ++ m.demoExternal.keys, table.isLocal key = false := by
    intro key mem
    have package (path : String) (hpath : table.isLocal path = false)
        (hname : packageName path = key) : table.isLocal key = false := by
      rw [← Bool.not_eq_true] at hpath ⊢
      rw [← hname]
      exact fun islocal => hpath (ResolutionTable.isLocal_of_packageName current parent islocal)
    rcases List.mem_append.1 mem with mem | mem
    · obtain ⟨path, -, hpath, hname⟩ := (external key).1 mem
      exact package path hpath hname
    · obtain ⟨path, -, hpath, hname⟩ := (demoExternal key).1 mem
      exact package path hpath hname
  refine ⟨?_, ?_, ?_, fun key => (external key).1, fun key => (demoExternal key).1,
    fun key => (internal key).1, foreign, ?_⟩
  · intro path mem hpath
    exact List.count_eq_one_of_mem m.external.nodup_keys ((external _).2 ⟨path, mem, hpath, rfl⟩)
  · intro path mem hpath
    exact List.count_eq_one_of_mem m.demoExternal.nodup_keys
      ((demoExternal _).2 ⟨path, mem, hpath, rfl⟩)
  · intro path mem hpath
    exact List.count_eq_one_of_mem m.internal.nodup_keys ((internal _).2 ⟨mem, hpath⟩)
  · intro key mem other
    have := ((internal key).1 mem).2
    rw [foreign key other] at this
    cases this

section

variable {settings : AnalysisSettings} {component demo : String} {existing : InternalDependencies}
  {known : OrderedMap String String} {analysis : SubmissionAnalysis}

theorem analyzeSubmission_rewrites
    (h : analyzeSubmission settings component demo existing known = .ok analysis) :
    analysis.Rewrites component demo := by
  obtain ⟨code, hcode, h⟩ := bind_eq_ok.1 h
  obtain ⟨ready, hready, h⟩ := bind_eq_ok.1 h
  obtain ⟨hcodeText, hdemoText, hfacts⟩ := assembleAnalysis_eq_ok h
  constructor
  · obtain ⟨rewritten, hrewritten, hcode⟩ := bind_eq_ok.1 (mapError_eq_ok.1 hcode)
    obtain ⟨facts, -, hcode⟩ := bind_eq_ok.1 hcode
    cases hcode
    rw [hcodeText, String.toList_ofList]
    exact mapError_eq_ok.1 hrewritten
  · obtain ⟨synchronous, hsynchronous, hready⟩ := bind_eq_ok.1 (mapError_eq_ok.1 hready)
    obtain ⟨removal, hremoval, hready⟩ := bind_eq_ok.1 hready
    obtain ⟨facts, -, hready⟩ := bind_eq_ok.1 hready
    cases hready
    refine ⟨synchronous, removal, mapError_eq_ok.1 hsynchronous, ?_, ?_⟩
    · rw [show analysis.exportedNames = code.facts.exportedNames from hfacts.names]
      exact mapError_eq_ok.1 hremoval
    · rw [hdemoText, String.toList_ofList]

/-- Where relative paths are local, an analysis gives every module of the rewritten texts its place:
a package by its name among those of its text, a local path by itself among the entries. Each is
there once, nothing else is there, and no package goes by a local path. -/
theorem analyzeSubmission_partitions
    (h : analyzeSubmission settings component demo existing known = .ok analysis)
    (current : "./" ∈ settings.table.localPrefixes)
    (parent : "../" ∈ settings.table.localPrefixes) :
    ∃ code demoOutline, analysis.Rewrites component demo ∧
      outline analysis.component.toList = .ok code ∧
      outline analysis.demo.toList = .ok demoOutline ∧
      analysis.metadata.Partitions settings.table code.modules demoOutline.modules := by
  obtain ⟨codeFacts, demoFacts, hcode, hdemo, follows⟩ := analyzeSubmission_describes h
  obtain ⟨code, hcodeOutline, rfl⟩ := map_eq_ok.1 (hcode "component")
  obtain ⟨demoOutline, hdemoOutline, rfl⟩ := map_eq_ok.1 (hdemo "demo")
  exact ⟨code, demoOutline, analyzeSubmission_rewrites h, mapError_eq_ok.1 hcodeOutline,
    mapError_eq_ok.1 hdemoOutline, follows.partitions current parent⟩

end

/-- A scope of packages that is not an alias, an alias that looks like a scope, and a package whose
first segment begins like an alias. -/
theorem analyzeSubmission_partitions_scoped :
    let settings : AnalysisSettings := { table := { aliasPrefixes := ["@/", "ui/"] } }
    let component := "import a from '@radix-ui/slot/dist'\nimport b from '@/lib'\n" ++
      "export * from './base'\nexport const Card = 1"
    let demo := "import { Card } from 'ui/card'\nimport c from 'uix/c'\nimport 'uix'\n" ++
      "import '..'\nexport default function Demo() \x7b\x7d"
    ∃ analysis code demoOutline,
      analyzeSubmission settings component demo ∅ ∅ = .ok analysis ∧
        "./" ∈ settings.table.localPrefixes ∧ "../" ∈ settings.table.localPrefixes ∧
        (analysis.external.keys, analysis.demoExternal.keys, analysis.internal.keys) =
          (["@radix-ui/slot"], ["uix"], ["@/lib", "./base", ".."]) ∧
        outline analysis.component.toList = .ok code ∧
        outline analysis.demo.toList = .ok demoOutline ∧
        analysis.metadata.Partitions settings.table code.modules demoOutline.modules := by
  intro settings component demo
  have keys : (analyzeSubmission settings component demo ∅ ∅).toOption.map
      (fun a => (a.external.keys, a.demoExternal.keys, a.internal.keys)) =
        some (["@radix-ui/slot"], ["uix"], ["@/lib", "./base", ".."]) := by
    decide +kernel
  obtain ⟨analysis, h, hkeys⟩ := exists_of_toOption_map keys
  obtain ⟨code, demoOutline, -, hcode, hdemo, partitions⟩ :=
    analyzeSubmission_partitions h (by decide) (by decide)
  exact ⟨analysis, code, demoOutline, h, by decide, by decide, hkeys, hcode, hdemo, partitions⟩

end ComponentRegistry
