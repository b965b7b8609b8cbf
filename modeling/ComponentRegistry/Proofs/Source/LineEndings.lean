import ComponentRegistry.Proofs.Lexing.LineEndings
import ComponentRegistry.Proofs.Likeness.Export
import ComponentRegistry.Proofs.Source.ImportFacts

/-! # Line endings make no difference

Whether the lines of a source unit end in a line feed alone or in a carriage return and a line feed,
the facts about it are the same, unless a string goes on behind an escaped line feed.
-/

namespace ComponentRegistry

open Lines

namespace ExportStatement

/-- An export without the places of its words. -/
def unplaced (s : ExportStatement) : ExportStatement := ⟨s.form.unplaced, s.terminated, ⟨.start, 0⟩⟩

variable (s : ExportStatement)

theorem typeOnly_unplaced : s.unplaced.typeOnly = s.typeOnly := by
  obtain ⟨form, _, _⟩ := s
  cases form <;> rfl

theorem source_unplaced : s.unplaced.source = s.source := by
  obtain ⟨form, _, _⟩ := s
  cases form <;> rfl

theorem defaultExportName_unplaced : s.unplaced.defaultExportName = s.defaultExportName := by
  obtain ⟨form, _, _⟩ := s
  cases form <;> rfl

theorem importedNames_unplaced : s.unplaced.importedNames = s.importedNames := by
  obtain ⟨form, _, _⟩ := s
  cases form <;> rfl

theorem addedNames_unplaced : s.unplaced.addedNames = s.addedNames := by
  obtain ⟨form, _, _⟩ := s
  match form with
  | .list _ none _ | .list _ (some _) _ => rfl
  | .declaration .. | .defaultInterface | .globalName | .defaultDeclaration .. | .defaultName ..
  | .defaultExpression .. | .everything .. => rfl

end ExportStatement

/-- A fact with its offset, and the same fact in the text with carriage returns. -/
structure OffsetReturned (text : List Char) (x x' : Nat × ImportFact) : Prop where
  fact : x'.2 = x.2
  placed : ∃ p p', Position.Returned text p p' ∧ x.1 = p.offset ∧ x'.1 = p'.offset

theorem OffsetReturned.le_iff {text : List Char} {x x' y y' : Nat × ImportFact}
    (hx : OffsetReturned text x x') (hy : OffsetReturned text y y') :
    x'.1 ≤ y'.1 ↔ x.1 ≤ y.1 := by
  obtain ⟨p, p', hp, hoffset, hoffset'⟩ := hx.placed
  obtain ⟨q, q', hq, hoffsetY, hoffsetY'⟩ := hy.placed
  rw [hoffset, hoffset', hoffsetY, hoffsetY']
  exact hp.offset_le_iff hq

namespace Likeness

section Names

variable {S : Likeness} {o o' : Outline}

/-- What does not depend on places is the same for the same export. -/
theorem SameExport.congr {γ : Type} {f : ExportStatement → γ} (hf : ∀ s, f s.unplaced = f s)
    {s s' : ExportStatement} (h : S.SameExport s s') : f s' = f s := by
  have hunplaced : s'.unplaced = s.unplaced := by
    rw [ExportStatement.unplaced, ExportStatement.unplaced, h.form, h.terminated]
  rw [← hf, hunplaced, hf]

theorem SameOutline.runtimeExports (h : S.SameOutline o o') :
    List.Forall₂ S.SameExport o.runtimeExports o'.runtimeExports :=
  List.rel_filter (fun s s' hs => by simp only [hs.congr ExportStatement.typeOnly_unplaced])
    h.exports

theorem SameOutline.defaultExport (h : S.SameOutline o o') :
    o'.defaultExport = o.defaultExport := by
  have hnames : o.runtimeExports.filterMap ExportStatement.defaultExportName =
      o'.runtimeExports.filterMap ExportStatement.defaultExportName := by
    refine List.forall₂_eq_eq_eq ▸ List.rel_filterMap (fun s s' hs => ?_) h.runtimeExports
    rw [hs.congr ExportStatement.defaultExportName_unplaced]
    cases s.defaultExportName with
    | none => exact .none
    | some name => exact .some rfl
  rw [Outline.defaultExport, Outline.defaultExport, hnames]

theorem SameOutline.exportedNames (h : S.SameOutline o o') :
    o'.exportedNames = o.exportedNames := by
  have hnames : o'.runtimeExports.flatMap ExportStatement.addedNames =
      o.runtimeExports.flatMap ExportStatement.addedNames := by
    rw [List.flatMap_def, List.flatMap_def, map_eq_of_forall₂ h.runtimeExports
      fun s s' hs => hs.congr ExportStatement.addedNames_unplaced]
  rw [Outline.exportedNames, Outline.exportedNames, hnames, h.defaultExport]

end Names

section Facts

variable {text : List Char} {o o' : Outline} (table : ResolutionTable)

theorem SameImport.fact {s s' : ImportStatement} (h : (returned text).SameImport s s') :
    s'.fact table = s.fact table := by
  have hline : s'.span.start.line = s.span.start.line := Position.Returned.line_eq h.start
  simp only [ImportStatement.fact, ImportStatement.boundNames, ImportStatement.importsTypesOnly,
    h.source, h.specifiers, h.typeOnly, hline]

theorem SameExport.fact? {s s' : ExportStatement} (h : (returned text).SameExport s s') :
    s'.fact? table = s.fact? table := by
  have hline : s'.span.start.line = s.span.start.line := Position.Returned.line_eq h.start
  simp only [ExportStatement.fact?, h.congr ExportStatement.source_unplaced,
    h.congr ExportStatement.importedNames_unplaced, h.congr ExportStatement.typeOnly_unplaced,
    hline]

theorem SameOutline.importFacts (h : (returned text).SameOutline o o') :
    o'.importFacts table = o.importFacts table := by
  have himports : List.Forall₂ (OffsetReturned text)
      (o.imports.map fun s => (s.span.start.offset, s.fact table))
      (o'.imports.map fun s => (s.span.start.offset, s.fact table)) := by
    refine List.rel_map (fun s s' hs => ?_) h.imports
    exact ⟨SameImport.fact table hs, _, _, hs.start, rfl, rfl⟩
  have hexports : List.Forall₂ (OffsetReturned text)
      (o.exports.filterMap fun s => (s.fact? table).map fun f => (s.span.start.offset, f))
      (o'.exports.filterMap fun s => (s.fact? table).map fun f => (s.span.start.offset, f)) := by
    refine List.rel_filterMap (fun s s' hs => ?_) h.exports
    rw [SameExport.fact? table hs]
    cases s.fact? table with
    | none => exact .none
    | some fact => exact .some ⟨rfl, _, _, hs.start, rfl, rfl⟩
  have hmerged := Outline.mergeByOffset_rel (f := id) OffsetReturned.le_iff
    (fun hx => hx.fact) himports hexports
  rwa [List.map_id, List.map_id] at hmerged

theorem SameOutline.facts (h : (returned text).SameOutline o o') :
    o'.facts table = o.facts table := by
  simp only [Outline.facts, h.exportedNames, h.defaultExport, h.importFacts]

end Facts

/-- The statements of a text and those of the text with carriage returns. -/
theorem outline_returned {text : List Char} (h : (Lexer.Scan.ofText text).StringsOnLine) :
    (returned text).Alike (returned text).SameOutline (outline text) (outline (crlf text)) :=
  (Lexer.tokenize_returned h).bind fun _ _ _ _ hs =>
    Along.outlineFrom ⟨.none, hs.tokens, hs.finish⟩ 0

end Likeness

/-- The style of the line endings makes no difference to what is found in a text, and none to
whether it can be read, where every string stays on its line. -/
theorem analyzeSource_crlf (table : ResolutionTable) (source text : String)
    (hstrings : (Lexer.Scan.ofText text.toList).StringsOnLine) :
    (analyzeSource table source (String.ofList (crlf text.toList))).toOption =
      (analyzeSource table source text).toOption := by
  rw [analyzeSource, analyzeSource, outlineOf, outlineOf, String.toList_ofList]
  have halike := Likeness.outline_returned hstrings
  revert halike
  generalize outline text.toList = o
  generalize outline (crlf text.toList) = o'
  rintro (same | _)
  · exact congrArg some (same.facts table)
  · rfl

/-- A statement over two lines, and a template that goes over a line end as well. -/
theorem analyzeSource_crlf_template :
    let text := "import \x7b a as b,\n  type C \x7d from './a'\nexport const d = `x\ny`\n"
    let facts : SourceFacts := ⟨["d"], none, [⟨"./a", .localFile, ["C", "b"], false, 1⟩]⟩
    (Lexer.Scan.ofText text.toList).StringsOnLine ∧
      (analyzeSource {} "card" text).toOption = some facts ∧
      (analyzeSource {} "card" (String.ofList (crlf text.toList))).toOption = some facts := by
  intro text facts
  have hlines : (tokenize text.toList).toOption.map (fun stream =>
      stream.tokens.all fun t => t.kind = .string → '\n' ∉ t.lexeme.toList) = some true := by
    decide +kernel
  have hstrings : (Lexer.Scan.ofText text.toList).StringsOnLine := by
    obtain ⟨stream, hstream, hall⟩ := exists_of_toOption_map hlines
    exact Lexer.Scan.stringsOnLine_of_tokenize hstream fun t ht =>
      of_decide_eq_true (List.all_eq_true.1 hall t ht)
  have hfacts : (analyzeSource {} "card" text).toOption = some facts := by decide +kernel
  exact ⟨hstrings, hfacts, (analyzeSource_crlf {} "card" text hstrings).trans hfacts⟩

/-- A string that goes on behind an escaped line feed ends at an escaped carriage return. -/
theorem not_analyzeSource_crlf_escapedLine :
    ¬ ∀ table source text, '\r' ∉ text.toList →
      (analyzeSource table source (String.ofList (crlf text.toList))).toOption =
        (analyzeSource table source text).toOption := by
  intro h
  have hsame := h {} "card" "import x from './a\\\nb'" (by decide)
  have hread : (analyzeSource {} "card" "import x from './a\\\nb'").toOption =
      some ⟨[], none, [⟨"./ab", .localFile, ["x"], false, 1⟩]⟩ := by decide +kernel
  have hrefused : (analyzeSource {} "card"
      (String.ofList (crlf "import x from './a\\\nb'".toList))).toOption = none := by
    decide +kernel
  rw [hread, hrefused] at hsame
  cases hsame

end ComponentRegistry
