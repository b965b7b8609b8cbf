import ComponentRegistry.Entry
import ComponentRegistry.Proofs.Dependency.Versions
import ComponentRegistry.Proofs.OrderedMap
import ComponentRegistry.Proofs.Outcome
import ComponentRegistry.Submission

/-! # What an analysis says

What is recorded about a submission is what the texts say that it stores, and not what the texts say
that were handed in.
-/

namespace ComponentRegistry

/-- What an entry or an analysis says about its texts. -/
structure Metadata where
  exportedNames : List String
  demoExportName : String
  external : OrderedMap String String
  demoExternal : OrderedMap String String
  internal : InternalDependencies

def Entry.metadata (e : Entry) : Metadata :=
  ⟨e.exportedNames, e.demoExportName, e.external, e.demoExternal, e.internal⟩

def SubmissionAnalysis.metadata (a : SubmissionAnalysis) : Metadata :=
  ⟨a.exportedNames, a.demoExportName, a.external, a.demoExternal, a.internal⟩

namespace Metadata

/-- Metadata that says what the facts about a component and a demo say. Versions and the entries
that local paths stand for are not in the texts. -/
structure FollowsFrom (m : Metadata) (code demo : SourceFacts) : Prop where
  names : m.exportedNames = code.exportedNames
  render : demo.demoEntry = .ok m.demoExportName
  paths : ∀ path, path ∈ m.internal.keys ↔
    ∃ f ∈ code.importFacts ++ demo.importFacts, f.kind = .localFile ∧ f.path = path
  packages : ∀ name, name ∈ m.external.keys ↔
    ∃ f ∈ code.importFacts, f.kind = .package ∧ packageName f.path = name
  demoPackages : ∀ name, name ∈ m.demoExternal.keys ↔
    ∃ f ∈ demo.importFacts, f.kind = .package ∧ packageName f.path = name

/-- Metadata that says what the texts of a component and a demo say. -/
def Describes (m : Metadata) (table : ResolutionTable) (code demo : String) : Prop :=
  ∃ codeFacts demoFacts,
    (∀ source, analyzeSource table source code = .ok codeFacts) ∧
    (∀ source, analyzeSource table source demo = .ok demoFacts) ∧
    m.FollowsFrom codeFacts demoFacts

/-- Metadata that differs at most in the order and the values of its maps. -/
structure Like (m n : Metadata) : Prop where
  names : m.exportedNames = n.exportedNames
  render : m.demoExportName = n.demoExportName
  packages : ∀ name, name ∈ m.external.keys ↔ name ∈ n.external.keys
  demoPackages : ∀ name, name ∈ m.demoExternal.keys ↔ name ∈ n.demoExternal.keys
  paths : ∀ path, path ∈ m.internal.keys ↔ path ∈ n.internal.keys

theorem Like.refl (m : Metadata) : m.Like m :=
  ⟨rfl, rfl, fun _ => .rfl, fun _ => .rfl, fun _ => .rfl⟩

theorem Like.describes {m n : Metadata} (h : m.Like n) {table : ResolutionTable}
    {code demo : String} (hn : n.Describes table code demo) : m.Describes table code demo := by
  obtain ⟨codeFacts, demoFacts, hcode, hdemo, hfacts⟩ := hn
  refine ⟨codeFacts, demoFacts, hcode, hdemo, ?_, ?_, ?_, ?_, ?_⟩
  · exact h.names.trans hfacts.names
  · rw [h.render, hfacts.render]
  · exact fun path => (h.paths path).trans (hfacts.paths path)
  · exact fun name => (h.packages name).trans (hfacts.packages name)
  · exact fun name => (h.demoPackages name).trans (hfacts.demoPackages name)

end Metadata

/-- The name of a source unit only stands in its errors. -/
theorem analyzeSource_of_ok {table : ResolutionTable} {source text : String} {facts : SourceFacts}
    (h : analyzeSource table source text = .ok facts) (other : String) :
    analyzeSource table other text = .ok facts := by
  obtain ⟨o, ho, hfacts⟩ := map_eq_ok.1 h
  exact map_eq_ok.2 ⟨o, mapError_eq_ok.2 (mapError_eq_ok.1 ho), hfacts⟩

/-- The packages are those of the imports that lead to packages. -/
theorem mem_keys_externalDependencies {ν : Type} [BEq ν] (versions : VersionSource ν)
    (facts : List ImportFact) (name : String) :
    name ∈ (externalDependencies versions facts).keys ↔
      ∃ f ∈ facts, f.kind = .package ∧ packageName f.path = name := by
  rw [keys_externalDependencies, mem_firstOccurrences]
  simp [and_assoc]

theorem mem_localPaths {facts : List ImportFact} {path : String} :
    path ∈ localPaths facts ↔ ∃ f ∈ facts, f.kind = .localFile ∧ f.path = path := by
  rw [localPaths, mem_firstOccurrences]
  simp [and_assoc]

/-- The internal dependencies are on the local paths of the imports. -/
theorem mem_keys_ofPaths (facts : List ImportFact) (existing : InternalDependencies)
    (path : String) :
    path ∈ (InternalDependencies.ofPaths (localPaths facts) existing).keys ↔
      ∃ f ∈ facts, f.kind = .localFile ∧ f.path = path := by
  have hkeys : (InternalDependencies.ofPaths (localPaths facts) existing).keys =
      firstOccurrences (localPaths facts) := by
    simp [InternalDependencies.ofPaths, OrderedMap.ofKeys, OrderedMap.keys, Function.comp_def]
  rw [hkeys, mem_firstOccurrences, mem_localPaths]

theorem keys_textValues {ν : Type} {text? : ν → Option String} {m : OrderedMap String ν}
    {texts : OrderedMap String String} (h : textValues text? m = some texts) :
    texts.keys = m.keys := by
  unfold textValues at h
  split at h
  · cases h
    simp [OrderedMap.map, OrderedMap.keys, Function.comp_def]
  · cases h

theorem texts_eq_ok {ν : Type} {source : VersionSource ν} {maps : DependencyMaps ν}
    {texts : DependencyMaps String} (h : maps.texts source = .ok texts) :
    texts.external.keys = maps.external.keys ∧ texts.demoExternal.keys = maps.demoExternal.keys ∧
      texts.internal = maps.internal := by
  unfold DependencyMaps.texts at h
  split at h
  · next external demoExternal hexternal hdemo =>
    cases h
    exact ⟨keys_textValues hexternal, keys_textValues hdemo, rfl⟩
  · cases h

section Analysis

variable {table : ResolutionTable}

theorem facts_of_readyComponent {text : String} {ready : ReadyComponent}
    (h : readyComponent table text = .ok ready) :
    analyzeSource table "component" ready.text = .ok ready.facts := by
  obtain ⟨rewritten, -, h⟩ := bind_eq_ok.1 h
  obtain ⟨facts, hfacts, h⟩ := bind_eq_ok.1 h
  cases h
  exact mapError_eq_ok.1 hfacts

theorem facts_of_readyDemo {names : List String} {text : String} {ready : ReadyDemo}
    (h : readyDemo table names text = .ok ready) :
    analyzeSource table "demo" ready.text = .ok ready.facts := by
  obtain ⟨synchronous, -, h⟩ := bind_eq_ok.1 h
  obtain ⟨removal, -, h⟩ := bind_eq_ok.1 h
  obtain ⟨facts, hfacts, h⟩ := bind_eq_ok.1 h
  cases h
  exact mapError_eq_ok.1 hfacts

theorem internal_of_assembleAnalysis {ν : Type} [BEq ν] {versions : VersionSource ν}
    {component : ReadyComponent} {demo : ReadyDemo} {existing : InternalDependencies}
    {analysis : SubmissionAnalysis}
    (h : assembleAnalysis versions component demo existing = .ok analysis) :
    analysis.internal =
      .ofPaths (localPaths (component.facts.importFacts ++ demo.facts.importFacts)) existing := by
  obtain ⟨render, -, h⟩ := bind_eq_ok.1 h
  obtain ⟨maps, hmaps, h⟩ := bind_eq_ok.1 h
  rw [classify_eq] at hmaps
  obtain ⟨-, -, hinternal⟩ := texts_eq_ok hmaps
  cases h
  exact hinternal

theorem assembleAnalysis_eq_ok {ν : Type} [BEq ν] {versions : VersionSource ν}
    {component : ReadyComponent} {demo : ReadyDemo} {existing : InternalDependencies}
    {analysis : SubmissionAnalysis}
    (h : assembleAnalysis versions component demo existing = .ok analysis) :
    analysis.component = component.text ∧ analysis.demo = demo.text ∧
      analysis.metadata.FollowsFrom component.facts demo.facts := by
  obtain ⟨render, hrender, h⟩ := bind_eq_ok.1 h
  obtain ⟨maps, hmaps, h⟩ := bind_eq_ok.1 h
  rw [classify_eq] at hmaps
  obtain ⟨hexternal, hdemo, hinternal⟩ := texts_eq_ok hmaps
  cases h
  refine ⟨rfl, rfl, rfl, mapError_eq_ok.1 hrender, ?_, ?_, ?_⟩
  · intro path
    change path ∈ maps.internal.keys ↔ _
    rw [hinternal]
    exact mem_keys_ofPaths _ existing path
  · intro name
    change name ∈ maps.external.keys ↔ _
    rw [hexternal]
    exact mem_keys_externalDependencies versions _ name
  · intro name
    change name ∈ maps.demoExternal.keys ↔ _
    rw [hdemo]
    exact mem_keys_externalDependencies versions _ name

section Known

variable {paths : List String} {path : String} {existing other : InternalDependencies}

theorem get?_ofPaths (mem : path ∈ paths) :
    (InternalDependencies.ofPaths paths existing).get? path =
      some ((existing.get? path).getD "") :=
  OrderedMap.get?_ofKeys (nodup_firstOccurrences paths) _ (mem_firstOccurrences.2 mem)

theorem ofPaths_congr
    (agree : ∀ path ∈ paths, (other.get? path).getD "" = (existing.get? path).getD "") :
    InternalDependencies.ofPaths paths other = .ofPaths paths existing := by
  apply OrderedMap.ext_pairs
  exact List.map_congr_left fun path mem =>
    congrArg (Prod.mk path) (agree path (mem_firstOccurrences.1 mem))

variable {settings : AnalysisSettings} {component demo : String} {known : OrderedMap String String}
  {analysis : SubmissionAnalysis}

/-- What an analysis finds depends on what is known about the local paths that it comes upon, and on
nothing else that is known. -/
theorem analyzeSubmission_congr
    (h : analyzeSubmission settings component demo existing known = .ok analysis)
    (agree : ∀ path ∈ analysis.internal.keys,
      (other.get? path).getD "" = (existing.get? path).getD "") :
    analyzeSubmission settings component demo other known = .ok analysis := by
  obtain ⟨code, hcode, h⟩ := bind_eq_ok.1 h
  obtain ⟨ready, hdemo, h⟩ := bind_eq_ok.1 h
  obtain ⟨-, -, follows⟩ := assembleAnalysis_eq_ok h
  have same : classify (.ofMap known settings.sentinel) code.facts.importFacts
      ready.facts.importFacts other = classify (.ofMap known settings.sentinel)
        code.facts.importFacts ready.facts.importFacts existing := by
    rw [classify_eq, classify_eq]
    refine congrArg (DependencyMaps.mk _ _) (ofPaths_congr fun path mem => agree path ?_)
    exact (follows.paths path).2 (mem_localPaths.1 mem)
  refine bind_eq_ok.2 ⟨code, hcode, bind_eq_ok.2 ⟨ready, hdemo, ?_⟩⟩
  rw [assembleAnalysis, same]
  exact h

/-- A local path stands for the entry that it was known to stand for. -/
theorem get?_internal_of_analyzeSubmission
    (h : analyzeSubmission settings component demo existing known = .ok analysis)
    (mem : path ∈ analysis.internal.keys) :
    analysis.internal.get? path = some ((existing.get? path).getD "") := by
  obtain ⟨code, -, h⟩ := bind_eq_ok.1 h
  obtain ⟨ready, -, h⟩ := bind_eq_ok.1 h
  obtain ⟨-, -, follows⟩ := assembleAnalysis_eq_ok h
  rw [internal_of_assembleAnalysis h]
  exact get?_ofPaths (mem_localPaths.2 ((follows.paths path).1 mem))

end Known

/-- An analysis describes the texts that it has made ready. -/
theorem analyzeSubmission_describes {settings : AnalysisSettings} {component demo : String}
    {existing : InternalDependencies} {known : OrderedMap String String}
    {analysis : SubmissionAnalysis}
    (h : analyzeSubmission settings component demo existing known = .ok analysis) :
    analysis.metadata.Describes settings.table analysis.component analysis.demo := by
  obtain ⟨readyCode, hcode, h⟩ := bind_eq_ok.1 h
  obtain ⟨readyDemo, hdemo, h⟩ := bind_eq_ok.1 h
  obtain ⟨hcodeText, hdemoText, hfacts⟩ := assembleAnalysis_eq_ok h
  have hcodeFacts := facts_of_readyComponent (mapError_eq_ok.1 hcode)
  have hdemoFacts := facts_of_readyDemo (mapError_eq_ok.1 hdemo)
  rw [← hcodeText] at hcodeFacts
  rw [← hdemoText] at hdemoFacts
  exact ⟨readyCode.facts, readyDemo.facts, analyzeSource_of_ok hcodeFacts,
    analyzeSource_of_ok hdemoFacts, hfacts⟩

end Analysis

end ComponentRegistry
