import ComponentRegistry.Proofs.Distinct
import ComponentRegistry.Proofs.Rewrite.DefaultDeclaration
import ComponentRegistry.Proofs.Rewrite.ExportSite
import ComponentRegistry.Proofs.Source.LineEndings

/-! # Default exports that have got their name

When the default export of a module gets its name, it is exported under both, or the name is stated
at the end. The facts about the module stay the same, and no default export lacks its name.
-/

namespace ComponentRegistry

open ExportForm (defaultWord)

namespace Seam

variable {S : Seam}

theorem offset_le_iff {p p' q q' : Position} (hp : S.placed p p') (hq : S.placed q q') :
    p'.offset ≤ q'.offset ↔ p.offset ≤ q.offset := by
  constructor
  · intro hle
    have := (S.offset_eq (q'.offset - p'.offset) hp hq).2 (by omega)
    omega
  · intro hle
    have := (S.offset_eq (q.offset - p.offset) hp hq).1 (by omega)
    omega

theorem SameForm.unplaced_eq {form form' : ExportForm} (h : S.SameForm form form') :
    form'.unplaced = form.unplaced := by
  cases h <;> rfl

/-- What does not depend on places is the same for the same export. -/
theorem SameExport.congr {γ : Type} {f : ExportStatement → γ} (hf : ∀ e, f e.unplaced = f e)
    {e e' : ExportStatement} (h : S.SameExport e e') : f e' = f e := by
  have hunplaced : e'.unplaced = e.unplaced := by
    rw [ExportStatement.unplaced, ExportStatement.unplaced, h.form.unplaced_eq, h.terminated]
  rw [← hf, hunplaced, hf]

/-- The same modules are needed in the same order. -/
theorem SameOutline.paths {o o' : Outline} (h : S.SameOutline o o') (table : ResolutionTable) :
    (o'.importFacts table).map ImportFact.path = (o.importFacts table).map ImportFact.path := by
  let R : Nat × ImportFact → Nat × ImportFact → Prop := fun x x' =>
    x'.2.path = x.2.path ∧ ∃ p p', S.placed p p' ∧ x.1 = p.offset ∧ x'.1 = p'.offset
  refine Outline.mergeByOffset_rel (R := R) (fun hx hy => ?_) (fun hx => hx.1) ?_ ?_
  · obtain ⟨-, p, p', hp, hoffset, hoffset'⟩ := hx
    obtain ⟨-, q, q', hq, hoffsetY, hoffsetY'⟩ := hy
    rw [hoffset, hoffset', hoffsetY, hoffsetY']
    exact offset_le_iff hp hq
  · refine List.rel_map (fun i i' hi => ?_) h.imports
    exact ⟨congrArg ModuleSource.path hi.source, _, _, hi.span.start, rfl, rfl⟩
  · refine List.rel_filterMap (fun e e' he => ?_) h.exports
    have hsource := he.congr ExportStatement.source_unplaced
    simp only [ExportStatement.fact?, hsource]
    cases e.source with
    | none => exact .none
    | some source => exact .some ⟨rfl, _, _, he.span.start, rfl, rfl⟩

end Seam

section Order

variable {text : List Char} {s : TokenStream} {o₁ o₂ : Outline} {c m : Cursor} {d d' : Nat}

theorem Outline.exists_span {o : Outline} {table : ResolutionTable} {x : Nat × ImportFact}
    (hx : x ∈ (o.imports.map fun i => (i.span.start.offset, i.fact table)) ++
      o.exports.filterMap fun e => (e.fact? table).map fun f => (e.span.start.offset, f)) :
    ∃ y ∈ o.spans, x.1 = y.start.offset := by
  rcases List.mem_append.1 hx with hx | hx
  · obtain ⟨i, hi, rfl⟩ := List.mem_map.1 hx
    exact ⟨_, List.mem_append_left _ (List.mem_map_of_mem hi), rfl⟩
  · obtain ⟨e, he, hfact⟩ := List.mem_filterMap.1 hx
    obtain ⟨f, -, rfl⟩ := Option.map_eq_some_iff.1 hfact
    exact ⟨_, List.mem_append_right _ (List.mem_map_of_mem he), rfl⟩

/-- The facts of what is found first come before those of what is found behind it. -/
theorem Cursor.Surveys.importFacts_append (hs : tokenize text = .ok s)
    (h₁ : Surveys 0 (.ofStream s) o₁ d c) (h₂ : Surveys d c o₂ d' m) (table : ResolutionTable) :
    (o₁ ++ o₂).importFacts table = o₁.importFacts table ++ o₂.importFacts table := by
  rw [Outline.importFacts, Outline.imports_append, Outline.exports_append, List.map_append,
    List.filterMap_append, Outline.mergeByOffset_append, Outline.importFacts, Outline.importFacts]
  intro x hx y hy
  obtain ⟨a, ha, hxa⟩ := Outline.exists_span hx
  obtain ⟨b, hb, hyb⟩ := Outline.exists_span hy
  obtain ⟨t, ht, hstart⟩ := h₂.start_mem hb
  obtain ⟨hlong, hle⟩ := h₁.stop_le (TokenStream.ordered_of_tokenize hs)
    (Cursor.placeIn_ofStream s) ha t ht
  rw [hxa, hyb, hstart]
  exact hlong.trans_le hle

/-- An export of the module itself needs no other module. -/
theorem Outline.importFacts_of_source {o o' : Outline} (table : ResolutionTable)
    (himports : o'.imports = o.imports)
    (hexports : o'.exports.filter (·.source.isSome) = o.exports.filter (·.source.isSome)) :
    o'.importFacts table = o.importFacts table := by
  have hfacts : ∀ es : List ExportStatement,
      (es.filterMap fun e => (e.fact? table).map fun f => (e.span.start.offset, f)) =
        (es.filter (·.source.isSome)).filterMap fun e =>
          (e.fact? table).map fun f => (e.span.start.offset, f) := by
    intro es
    rw [List.filterMap_filter]
    refine List.filterMap_congr fun e _ => ?_
    cases hsource : e.source with
    | none => simp [ExportStatement.fact?, hsource]
    | some source => simp
  rw [importFacts, importFacts, hfacts, hfacts o.exports, himports, hexports]

end Order

/-- A name under itself and as the default. -/
def bothNames (name : String) : List Specifier :=
  [⟨name, name, false⟩, ⟨name, defaultWord, false⟩]

namespace ExportStatement

/-- What a default export of a certain name becomes when it gets that name, and what is stated at the
end. -/
inductive NamedBy (name : String) (e : ExportStatement) :
    ExportStatement → List ExportStatement → Prop where
  | both {x : ExportStatement} {default : Token} (form : e.form = .defaultName default name)
      (clause : x.form = .list (bothNames name) none false) : NamedBy name e x []
  | declaration {x z : ExportStatement} {declared : DeclarationKind}
      {default default' keyword keyword' : Token} {async async' : Option Token}
      (form : e.form = .defaultDeclaration declared default async keyword (some name))
      (runtime : declared.isErased = false)
      (kept : x.form = .declaration declared keyword' async' [name] false)
      (stated : z.form = .defaultName default' name) : NamedBy name e x [z]
  | entry {z : ExportStatement} {specifiers : List Specifier}
      (form : e.form = .list specifiers none false) (own : e.defaultExportName = some name)
      (stated : z.form = .list [⟨name, name, false⟩] none false) : NamedBy name e e [z]

/-- The names that some exports add to those of their module. -/
def addedByAll (es : List ExportStatement) : List String :=
  (es.filter fun e => !e.typeOnly).flatMap addedNames

/-- The names behind the default exports among some exports. -/
def defaultNames (es : List ExportStatement) : List String :=
  (es.filter fun e => !e.typeOnly).filterMap defaultExportName

variable {name : String} {e x : ExportStatement} {tail es fs : List ExportStatement}

@[simp]
theorem addedByAll_append (es fs : List ExportStatement) :
    addedByAll (es ++ fs) = addedByAll es ++ addedByAll fs := by
  simp [addedByAll]

@[simp]
theorem defaultNames_append (es fs : List ExportStatement) :
    defaultNames (es ++ fs) = defaultNames es ++ defaultNames fs := by
  simp [defaultNames]

theorem addedByAll_cons (e : ExportStatement) (es : List ExportStatement) :
    addedByAll (e :: es) = (if e.typeOnly then [] else e.addedNames) ++ addedByAll es := by
  cases htypes : e.typeOnly <;> simp [addedByAll, htypes]

theorem defaultNames_of_runtime (h : ∀ e ∈ es, e.typeOnly = false) :
    defaultNames es = es.filterMap defaultExportName := by
  rw [defaultNames, List.filter_eq_self.2 fun e he => by simp [h e he]]

theorem defaultNames_eq_nil (h : ∀ e ∈ es, e.form.isDefault = false) : defaultNames es = [] := by
  refine List.filterMap_eq_nil_iff.2 fun e he => ?_
  have hnone := h e (List.mem_of_mem_filter he)
  rwa [ExportForm.isDefault, Option.isSome_eq_false_iff, Option.isNone_iff_eq_none] at hnone

theorem addedByAll_eq {S : Seam} (h : List.Forall₂ S.SameExport es fs) :
    addedByAll fs = addedByAll es := by
  induction h with
  | nil => rfl
  | cons first _ ih =>
    rw [addedByAll_cons, addedByAll_cons, first.congr typeOnly_unplaced,
      first.congr addedNames_unplaced, ih]

theorem ownDefaultName_eq_some_iff : e.ownDefaultName = some name ↔
    e.defaultExportName = some name ∧ name ≠ "" ∧ name ≠ defaultWord := by
  simp [ownDefaultName, Option.filter_eq_some_iff]

/-- A default export of a name adds that name. -/
theorem addedNames_of_own (hsource : e.source = none) (hnames : e.names = [])
    (hlist : ∀ specifiers typeOnly, e.form ≠ .list specifiers none typeOnly)
    (hname : e.ownDefaultName = some name) : e.addedNames = [name] := by
  rw [addedNames]
  split
  · next specifiers typeOnly hform => exact absurd hform (hlist specifiers typeOnly)
  · simp [hsource, hnames, hname]

/-- A clause that exports nothing but one name adds it with every entry. -/
theorem addedNames_of_clause {entries : List Specifier} (hother : name ≠ defaultWord)
    (hform : e.form = .list entries none false)
    (hentries : ∀ entry ∈ entries, entry.imported = name ∧ entry.typeOnly = false ∧
      (entry.bound = name ∨ entry.bound = defaultWord)) :
    e.addedNames = entries.map fun _ => name := by
  have hall : entries.filter (fun entry => !entry.typeOnly) = entries :=
    List.filter_eq_self.2 fun entry hentry => by simp [(hentries entry hentry).2.1]
  have hmap : (entries.map fun entry =>
      if entry.bound = defaultWord then entry.imported else entry.bound) =
        entries.map fun _ => name := by
    refine List.map_congr_left fun entry hentry => ?_
    obtain ⟨himported, -, hbound⟩ := hentries entry hentry
    split
    · exact himported
    · next hnot => exact hbound.resolve_right hnot
  simp only [addedNames, hform, ExportForm.runtimeSpecifiers, hall, hmap]
  exact List.filter_eq_self.2 fun a ha => by
    obtain ⟨-, -, rfl⟩ := List.mem_map.1 ha
    simpa using hother

namespace NamedBy

/-- None of the exports is for types only, and none comes from another module. -/
theorem own (h : NamedBy name e x tail) :
    ∀ y ∈ e :: x :: tail, y.typeOnly = false ∧ y.source = none := by
  cases h with
  | both form clause => simp [typeOnly, source, form, clause, ExportForm.typeOnly, ExportForm.source]
  | declaration form runtime kept stated =>
    simp [typeOnly, source, form, kept, stated, runtime, ExportForm.typeOnly, ExportForm.source]
  | entry form _ stated =>
    simp [typeOnly, source, form, stated, ExportForm.typeOnly, ExportForm.source]

theorem mem_addedNames (h : e.ownDefaultName = some name) (hsource : e.source = none) :
    name ∈ e.addedNames := by
  rw [addedNames]
  split
  · next specifiers typeOnly hform =>
    obtain ⟨hname, -, hother⟩ := ownDefaultName_eq_some_iff.1 h
    rw [defaultExportName, hform] at hname
    obtain ⟨entry, hentry, rfl⟩ := List.mem_map.1 (List.mem_of_getLast? hname)
    obtain ⟨hmem, hbound⟩ := List.mem_filter.1 hentry
    refine List.mem_filter.2 ⟨List.mem_map.2 ⟨entry, hform ▸ hmem, ?_⟩, by simpa using hother⟩
    rw [if_pos (by simpa using hbound)]
  · simp [hsource, h]

/-- The names of the module stay the same. -/
theorem firstOccurrences_eq (h : NamedBy name e x tail) (hname : e.ownDefaultName = some name)
    (front back : List String) :
    firstOccurrences (front ++ (x.addedNames ++ (back ++ addedByAll tail))) =
      firstOccurrences (front ++ (e.addedNames ++ back)) := by
  have hown := h.own
  obtain ⟨hproper, hother⟩ := (ownDefaultName_eq_some_iff.1 hname).2
  have hmem := mem_addedNames hname (hown e List.mem_cons_self).2
  -- What is stated at the end has come before.
  have hstated : ∀ z : ExportStatement, z.typeOnly = false → z.addedNames = [name] →
      firstOccurrences (front ++ (e.addedNames ++ (back ++ addedByAll [z]))) =
        firstOccurrences (front ++ (e.addedNames ++ back)) := by
    intro z hz hadded
    have hagain : firstOccurrences (front ++ (e.addedNames ++ back) ++ [name]) =
        firstOccurrences (front ++ (e.addedNames ++ back) ++ []) :=
      firstOccurrences_of_mem (by simp [hmem])
    rw [addedByAll_cons, hz, hadded]
    simpa [addedByAll] using hagain
  cases h with
  | both form clause =>
    have he : e.addedNames = [name] := addedNames_of_own (by simp [source, form, ExportForm.source])
      (by simp [names, form, ExportForm.names]) (by simp [form]) hname
    have hx : x.addedNames = [name, name] :=
      addedNames_of_clause hother clause (by simp [bothNames])
    have hagain : firstOccurrences (front ++ [name] ++ name :: back) =
        firstOccurrences (front ++ [name] ++ back) :=
      firstOccurrences_of_mem (by simp)
    rw [he, hx]
    simpa [addedByAll] using hagain
  | @declaration x z _ _ _ _ _ _ _ form runtime kept stated =>
    have he : e.addedNames = [name] := addedNames_of_own (by simp [source, form, ExportForm.source])
      (by simp [names, form, ExportForm.names]) (by simp [form]) hname
    have hx : x.addedNames = [name] := by
      simp [addedNames, kept, names, ExportForm.names, ExportForm.typeOnly, runtime, ownDefaultName,
        defaultExportName, ExportForm.defaultExportName]
    have hz : z.ownDefaultName = some name := ownDefaultName_eq_some_iff.2
      ⟨by simp [defaultExportName, stated, ExportForm.defaultExportName], hproper, hother⟩
    rw [hx, ← he]
    exact hstated z (hown z (by simp)).1 (addedNames_of_own
      (by simp [source, stated, ExportForm.source]) (by simp [names, stated, ExportForm.names])
      (by simp [stated]) hz)
  | @entry z _ form _ stated =>
    have hz : z.addedNames = [name] := addedNames_of_clause hother stated (by simp)
    exact hstated z (hown z (by simp)).1 hz

/-- The default export that it becomes has the same name, and there is one of its own. -/
theorem names (h : NamedBy name e x tail) (hname : e.ownDefaultName = some name) :
    (x :: tail).filterMap defaultExportName = [name] ∧ ∃ y ∈ x :: tail, name ∈ y.names := by
  obtain ⟨hdefault, -, hother⟩ := ownDefaultName_eq_some_iff.1 hname
  cases h with
  | both form clause =>
    have hx : x.defaultExportName = some name := by
      simp [defaultExportName, clause, ExportForm.defaultExportName, ExportForm.runtimeSpecifiers,
        bothNames, hother]
    refine ⟨by simp [hx], x, by simp, ?_⟩
    simp [ExportStatement.names, clause, ExportForm.names, ExportForm.runtimeSpecifiers, bothNames,
      hother]
  | @declaration x z _ _ _ _ _ _ _ form runtime kept stated =>
    have hx : x.defaultExportName = none := by
      simp [defaultExportName, kept, ExportForm.defaultExportName]
    have hz : z.defaultExportName = some name := by
      simp [defaultExportName, stated, ExportForm.defaultExportName]
    refine ⟨by simp [hx, hz], x, by simp, ?_⟩
    simp [ExportStatement.names, kept, ExportForm.names, ExportForm.typeOnly, runtime]
  | @entry z _ form _ stated =>
    have hz : z.defaultExportName = none := by
      simp [defaultExportName, stated, ExportForm.defaultExportName, ExportForm.runtimeSpecifiers,
        hother]
    refine ⟨by simp [hdefault, hz], z, by simp, ?_⟩
    simp [ExportStatement.names, stated, ExportForm.names, ExportForm.runtimeSpecifiers, hother]

end NamedBy

end ExportStatement

open ExportStatement

/-- A module with its default export named: all other exports are the same, and so are the modules
that are needed. -/
structure Outline.Named (o : Outline) (name : String) (front back : List ExportStatement)
    (e : ExportStatement) (o' : Outline) : Prop where
  paths : ∀ table, (o'.importFacts table).map ImportFact.path =
    (o.importFacts table).map ImportFact.path
  exports : ∃ S : Seam, ∃ x back' tail, o'.exports = front ++ x :: (back' ++ tail) ∧
    List.Forall₂ S.SameExport back back' ∧ e.NamedBy name x tail

namespace Outline

/-- The names of a module are told by those that its exports add and by its default export. -/
theorem exportedNames_congr {o o' : Outline}
    (hnames : firstOccurrences (addedByAll o'.exports) = firstOccurrences (addedByAll o.exports))
    (hdefault : o'.defaultExport = o.defaultExport) : o'.exportedNames = o.exportedNames := by
  have hsame : ∀ o : Outline, o.exportedNames = (fun (names : List String) d =>
      if names.isEmpty && d == some defaultWord then [defaultWord] else names)
        (firstOccurrences (addedByAll o.exports)) o.defaultExport := fun _ => rfl
  rw [hsame, hsame, hnames, hdefault]

theorem defaultExport_congr {o o' : Outline}
    (hdefaults : defaultNames o'.exports = defaultNames o.exports) :
    o'.defaultExport = o.defaultExport := by
  have hsame : ∀ o : Outline, o.defaultExport = (defaultNames o.exports).getLast?.map fun name =>
      if name.isEmpty then defaultWord else name := fun _ => rfl
  rw [hsame, hsame, hdefaults]

end Outline

theorem Seam.isDefault_eq_false {S : Seam} {es fs : List ExportStatement}
    (h : List.Forall₂ S.SameExport es fs) (hes : ∀ y ∈ es, y.form.isDefault = false) :
    ∀ y ∈ fs, y.form.isDefault = false := by
  induction h with
  | nil => simp
  | @cons e f es fs first _ ih =>
    obtain ⟨he, hes⟩ := List.forall_mem_cons.1 hes
    refine List.forall_mem_cons.2 ⟨?_, ih hes⟩
    have hname : f.defaultExportName = e.defaultExportName :=
      first.congr defaultExportName_unplaced
    rwa [ExportForm.isDefault, show f.form.defaultExportName = _ from hname]

namespace Outline.Named

variable {o o' : Outline} {name : String} {front back : List ExportStatement} {e : ExportStatement}

theorem defaultNames_eq (h : o.Named name front back e o') (hexports : o.exports = front ++ e :: back)
    (hname : e.ownDefaultName = some name) (hback : ∀ y ∈ back, y.form.isDefault = false) :
    defaultNames o'.exports = defaultNames o.exports := by
  obtain ⟨S, x, back', tail, hexports', hsame, hnamed⟩ := h.exports
  have hback' := Seam.isDefault_eq_false hsame hback
  have hruntime : ∀ y ∈ e :: x :: tail, y.typeOnly = false := fun y hy => (hnamed.own y hy).1
  obtain ⟨hown, -, -⟩ := ownDefaultName_eq_some_iff.1 hname
  have he : defaultNames [e] = [name] := by
    rw [defaultNames_of_runtime (by simp [hruntime e]), List.filterMap_cons_some hown]
    rfl
  have hx : defaultNames [x] ++ defaultNames tail = [name] := by
    rw [← defaultNames_append, List.singleton_append, ← (hnamed.names hname).1]
    exact defaultNames_of_runtime fun y hy => hruntime y (List.mem_cons_of_mem _ hy)
  rw [hexports, hexports', defaultNames_append, defaultNames_append, ← List.singleton_append,
    ← List.singleton_append (l := back), defaultNames_append, defaultNames_append,
    defaultNames_append, defaultNames_eq_nil hback', defaultNames_eq_nil hback, he, List.nil_append,
    hx, List.append_nil]

theorem firstOccurrences_addedByAll (h : o.Named name front back e o')
    (hexports : o.exports = front ++ e :: back) (hname : e.ownDefaultName = some name) :
    firstOccurrences (addedByAll o'.exports) = firstOccurrences (addedByAll o.exports) := by
  obtain ⟨S, x, back', tail, hexports', hsame, hnamed⟩ := h.exports
  have hruntime : ∀ y ∈ e :: x :: tail, y.typeOnly = false := fun y hy => (hnamed.own y hy).1
  have hnames := hnamed.firstOccurrences_eq hname (addedByAll front) (addedByAll back)
  rw [hexports, hexports', addedByAll_append, addedByAll_append, addedByAll_cons, addedByAll_cons,
    addedByAll_append, addedByAll_eq hsame, hruntime e (by simp), hruntime x (by simp)]
  exact hnames

/-- The name is exported under itself. -/
theorem exists_names (h : o.Named name front back e o') (hname : e.ownDefaultName = some name) :
    ∃ y ∈ o'.runtimeExports, name ∈ y.names := by
  obtain ⟨S, x, back', tail, hexports', -, hnamed⟩ := h.exports
  obtain ⟨-, y, hy, hmem⟩ := hnamed.names hname
  refine ⟨y, List.mem_filter.2 ⟨?_, by simp [(hnamed.own y (List.mem_cons_of_mem _ hy)).1]⟩, hmem⟩
  rw [hexports']
  simp only [List.mem_append, List.mem_cons] at hy ⊢
  tauto

/-- No other name is that of a default export. -/
theorem ownDefaultName_eq (h : o.Named name front back e o') (hname : e.ownDefaultName = some name)
    (hfront : ∀ y ∈ front, y.form.isDefault = false)
    (hback : ∀ y ∈ back, y.form.isDefault = false) :
    ∀ y ∈ o'.exports, ∀ n ∈ y.ownDefaultName, n = name := by
  obtain ⟨S, x, back', tail, hexports', hsame, hnamed⟩ := h.exports
  have hback' := Seam.isDefault_eq_false hsame hback
  intro y hy n hn
  obtain ⟨hn, -⟩ := ownDefaultName_eq_some_iff.1 hn
  have hdefault : y.form.isDefault = true := Option.isSome_iff_exists.2 ⟨n, hn⟩
  have hnot : y ∉ front ∧ y ∉ back' :=
    ⟨fun hmem => by simp [hfront y hmem] at hdefault,
      fun hmem => by simp [hback' y hmem] at hdefault⟩
  have hmem : y ∈ x :: tail := by
    rw [hexports'] at hy
    simp only [List.mem_append, List.mem_cons] at hy ⊢
    tauto
  have hn : n ∈ (x :: tail).filterMap defaultExportName := List.mem_filterMap.2 ⟨y, hmem, hn⟩
  rw [(hnamed.names hname).1] at hn
  exact List.mem_singleton.1 hn

/-- The only default export has a name of its own, and lacks it no longer. The facts about the module
stay the same. -/
theorem facts (h : o.Named name front back e o') (hexports : o.exports = front ++ e :: back)
    (hname : e.ownDefaultName = some name)
    (hfront : ∀ y ∈ front, y.form.isDefault = false)
    (hback : ∀ y ∈ back, y.form.isDefault = false) :
    o'.exportedNames = o.exportedNames ∧ o'.defaultExport = o.defaultExport ∧
      (∃ y ∈ o'.runtimeExports, name ∈ y.names) ∧
      ∀ y ∈ o'.exports, ∀ n ∈ y.ownDefaultName, n = name := by
  have hdefault := defaultExport_congr (h.defaultNames_eq hexports hname hback)
  exact ⟨exportedNames_congr (h.firstOccurrences_addedByAll hexports hname) hdefault, hdefault,
    h.exists_names hname, h.ownDefaultName_eq hname hfront hback⟩

end Outline.Named

section Site

variable {text text' : List Char} {s s' : TokenStream} {o below' : Outline} {name : String}
  {front back tail : List ExportStatement} {e x : ExportStatement} {c' n' m' : Cursor} {d : Nat}

/-- The module is that with its default export named, when everything else is found again. -/
theorem ExportSite.named_of_surveys (site : ExportSite s o e front back) (hs : tokenize text = .ok s)
    (hexports : o.exports = front ++ e :: back) (hs' : tokenize text' = .ok s')
    (habove : Cursor.Surveys 0 (.ofStream s') site.above 0 c')
    (hat : Cursor.StatementAt c' ⟨[], [x]⟩ n')
    (hbelow : Cursor.Surveys 0 n' (below' ++ ⟨[], tail⟩) d m') (hm' : m'.kind = .endOfInput)
    {S : Seam} (hsame : S.SameOutline site.below below') (hnamed : e.NamedBy name x tail) :
    ∃ o', outline text' = .ok o' ∧ o.Named name front back e o' := by
  have hstatement := Cursor.Surveys.statement hat hbelow
  refine ⟨site.above ++ (⟨[], [x]⟩ ++ (below' ++ ⟨[], tail⟩)), ?_, fun table => ?_,
    S, x, below'.exports, tail, ?_, site.exports_below ▸ hsame.exports, hnamed⟩
  · rw [outline, hs']
    exact Cursor.outlineFrom_eq_ok.2 ⟨d, m', habove.append hstatement, hm'⟩
  · obtain ⟨d₀, m₀, hbelow₀, -⟩ := site.surveys_below
    have hown := hnamed.own
    have hnone : ∀ y ∈ e :: x :: tail, y.source.isSome = false := fun y hy => by
      simp [(hown y hy).2]
    have htail : tail.filter (·.source.isSome) = [] :=
      List.filter_eq_nil_iff.2 fun y hy => by simp [hnone y (by simp [hy])]
    have ho : site.above ++ (⟨[], [e]⟩ ++ site.below) = o :=
      congrArg₂ Outline.mk site.imports.symm ((congrArg₂ (fun a b => a ++ e :: b)
        site.exports_above site.exports_below).trans hexports.symm)
    have hold : (⟨[], [e]⟩ ++ site.below : Outline).importFacts table =
        site.below.importFacts table :=
      Outline.importFacts_of_source table rfl (by simp [hnone e])
    have hnew : (⟨[], [x]⟩ ++ (below' ++ ⟨[], tail⟩) : Outline).importFacts table =
        below'.importFacts table :=
      Outline.importFacts_of_source table (by simp) (by simp [hnone x, htail])
    have hwhole := site.surveys_above.importFacts_append hs
      (.statement site.at_statement hbelow₀) table
    rw [ho, hold] at hwhole
    rw [habove.importFacts_append hs' hstatement, hnew, hwhole, List.map_append, List.map_append,
      hsame.paths]
  · rw [Outline.exports_append, site.exports_above]
    rfl

end Site

/-- A default export that is importable by its name does not lack it. -/
theorem Outline.not_lacksName {o : Outline} {e : ExportStatement} {name : String}
    (h : ∀ n ∈ e.ownDefaultName, ∃ y ∈ o.runtimeExports, n ∈ y.names) : ¬ o.LacksName e name := by
  rintro ⟨-, hlacks⟩
  obtain ⟨-, hown, hnot⟩ := unnamedDefault_eq_some_iff.1 hlacks
  obtain ⟨y, hy, hname⟩ := h name hown
  exact hnot (List.mem_flatMap.2 ⟨y, hy, hname⟩)

/-- A text stays as it is where no default export lacks its name. -/
theorem nameDefaultExport_eq_self {text : List Char} {o : Outline} (ho : outline text = .ok o)
    (h : ∀ e name, ¬ o.LacksName e name) : nameDefaultExport text = .ok text := by
  have hnone : o.defaultExportChanges = [] := by
    refine List.eq_nil_iff_forall_not_mem.2 fun change hchange => ?_
    obtain ⟨e, name, hlacks, -⟩ := mem_defaultExportChanges.1 hchange
    exact h e name hlacks
  rw [nameDefaultExport, ho]
  simp only [Except.map, Outline.defaultExportEdits, Outline.defaultExportTrailer, hnone]
  rfl

end ComponentRegistry
