import ComponentRegistry.Proofs.Rewrite.BothNames
import ComponentRegistry.Proofs.Rewrite.StatedName

/-! # Naming the default export keeps the module

A default export that is not importable by its name becomes so in one step, and the facts about its
module stay the same. After that nothing is left to be done.
-/

namespace ComponentRegistry

open Lexer

namespace Cursor

variable {c n : Cursor} {typeOnly : Bool} {form : ExportForm}

theorem typeOnly_of_specifier {s : Specifier} (h : c.specifier true = .ok (s, n)) :
    s.typeOnly = true := by
  obtain ⟨⟨imported, c₁⟩, -, h⟩ := bind_eq_ok.1 h
  simp only at h
  split at h
  · obtain ⟨⟨bound, c₂⟩, -, h⟩ := bind_eq_ok.1 h
    cases h
    rfl
  · cases h
    rfl

/-- A clause for types has no other entries. -/
theorem typeOnly_of_clauseEntries {entries : List Specifier}
    (h : c.clauseEntries true = .ok (entries, n)) : ∀ s ∈ entries, s.typeOnly = true := by
  generalize htypes : true = typeOnly at h
  fun_induction clauseEntries typeOnly c generalizing entries with
  | case1 =>
    cases h
    simp
  | case2 => cases h
  | case3 c _ entry c₁ hentry _ ih =>
    subst htypes
    obtain ⟨⟨others, c₂⟩, hothers, heq⟩ := map_eq_ok.1 h
    cases heq
    exact List.forall_mem_cons.2 ⟨typeOnly_of_specifier hentry, ih hothers⟩
  | case4 c _ entry c₁ hentry _ _ =>
    subst htypes
    cases h
    simpa using typeOnly_of_specifier hentry
  | case5 => cases h

theorem isDefault_of_exportList (h : c.exportList true = .ok (form, n)) :
    form.isDefault = false := by
  obtain ⟨⟨specifiers, c₁⟩, hclause, h⟩ := bind_eq_ok.1 h
  obtain ⟨⟨brace, c₂⟩, -, hentries⟩ := bind_eq_ok.1 hclause
  have htypes := typeOnly_of_clauseEntries hentries
  have hnone : specifiers.filter (fun s => !s.typeOnly) = [] :=
    List.filter_eq_nil_iff.2 fun s hs => by simp [htypes s hs]
  simp only at h
  split at h
  · obtain ⟨⟨source, c₃⟩, -, h⟩ := bind_eq_ok.1 h
    cases h
    simp [ExportForm.isDefault, ExportForm.defaultExportName, ExportForm.runtimeSpecifiers, hnone]
  · cases h
    simp [ExportForm.isDefault, ExportForm.defaultExportName, ExportForm.runtimeSpecifiers, hnone]

/-- A list that is exported as the default is not for types only. -/
theorem typeOnly_of_isDefault {specifiers : List Specifier} {source : Option ModuleSource}
    (h : c.exportForm = .ok (.list specifiers source typeOnly, n))
    (hdefault : (ExportForm.list specifiers source typeOnly).isDefault = true) :
    typeOnly = false := by
  unfold exportForm at h
  split at h
  · obtain ⟨⟨default, c₁⟩, -, h⟩ := bind_eq_ok.1 h
    cases readsDefault_of_defaultExported h with
    | asyncFunction _ reads | plainFunction _ reads => cases (Prod.mk.inj reads).1
    | ofClass _ reads => cases (Prod.mk.inj reads).1
    | interface _ _ unnamed => cases unnamed
    | name _ _ reads => cases (Prod.mk.inj reads).1
    | expression _ _ reads => cases (Prod.mk.inj reads).1
  split at h
  · obtain ⟨_, _, heq⟩ := Seam.exists_of_exportEverything h
    cases heq
  split at h
  · obtain ⟨_, _, heq⟩ := Seam.exists_of_exportList h
    cases heq
    rfl
  split at h
  · rw [isDefault_of_exportList h] at hdefault
    cases hdefault
  split at h
  · obtain ⟨_, _, heq⟩ := Seam.exists_of_exportEverything h
    cases heq
  split at h
  · cases h
  split at h
  · obtain ⟨_, -, h⟩ := bind_eq_ok.1 h
    obtain ⟨_, -, h⟩ := bind_eq_ok.1 h
    cases h
  · cases readsDeclared_of_declared h

end Cursor

/-- A default export that can get its name. A name with words on several lines has no quote and no
slash left over in front of it. Where it ends without a semicolon, no slash comes next. A declaration
or an entry of a clause needs an end of the text where a statement is found. -/
inductive ExportStatement.TakesName (s : TokenStream) (o : Outline) (e : ExportStatement)
    (name : String) : Prop where
  | name {default : Token} (form : e.form = .defaultName default name)
      (line : (∀ t ∈ s.within e.span, t.line = e.span.start.line) ∨
        ∀ t ∈ s.before e.span.start.offset, t.isHalf = false)
      (ends : e.terminated = true ∨ ∀ t ∈ (s.onward e.span.stop).head?,
        t.kind ≠ .mark .slash ∧ t.kind ≠ .regex) : TakesName s o e name
  | declaration {declared : DeclarationKind} {default keyword : Token} {async : Option Token}
      {own : Option String} (form : e.form = .defaultDeclaration declared default async keyword own)
      (line : default.line = (async.getD keyword).line ∨
        ∀ t ∈ s.tokens, t.start.offset < default.start.offset → t.isHalf = false)
      (other : name ∉ (["function", "class", "interface"] : List String))
      (stated : s.TakesStatement o) : TakesName s o e name
  | entry {specifiers : List Specifier} {source : Option ModuleSource} {typeOnly : Bool}
      (form : e.form = .list specifiers source typeOnly) (isName : IsName name)
      (stated : s.TakesStatement o) : TakesName s o e name

section Naming

variable {text : List Char} {s : TokenStream} {o : Outline} {e : ExportStatement} {name : String}
  {front back : List ExportStatement}

theorem Outline.LacksName.own (h : o.LacksName e name) :
    e.source = none ∧ e.ownDefaultName = some name ∧ e.form.isDefault = true := by
  obtain ⟨hsource, hown, -⟩ := ExportStatement.unnamedDefault_eq_some_iff.1 h.2
  obtain ⟨hdefault, -, -⟩ := ExportStatement.ownDefaultName_eq_some_iff.1 hown
  exact ⟨hsource, hown, Option.isSome_iff_exists.2 ⟨name, hdefault⟩⟩

/-- A default export that does not lack its name is importable by it. -/
theorem exists_names_of_not_lacksName (he : e ∈ o.exports) (hsource : e.source = none)
    (hown : e.ownDefaultName = some name) (h : ¬ o.LacksName e name) :
    ∃ y ∈ o.runtimeExports, name ∈ y.names := by
  by_contra hnone
  exact h ⟨he, ExportStatement.unnamedDefault_eq_some_iff.2
    ⟨hsource, hown, fun hmem => hnone (List.mem_flatMap.1 hmem)⟩⟩

/-- Next to the only default export there is none. -/
theorem isDefault_beside (hone : (o.exports.filter fun e => e.form.isDefault).length ≤ 1)
    (hexports : o.exports = front ++ e :: back) (he : e.form.isDefault = true) :
    (∀ x ∈ front, x.form.isDefault = false) ∧ ∀ x ∈ back, x.form.isDefault = false := by
  have hfirst : (e :: back).filter (fun e => e.form.isDefault) =
      e :: back.filter fun e => e.form.isDefault := List.filter_cons_of_pos he
  rw [hexports, List.filter_append, hfirst, List.length_append, List.length_cons] at hone
  have hnone : ∀ xs : List ExportStatement, (xs.filter fun e => e.form.isDefault).length = 0 →
      ∀ x ∈ xs, x.form.isDefault = false := by
    intro xs hxs x hx
    have hnot := List.filter_eq_nil_iff.1 (List.eq_nil_of_length_eq_zero hxs) x hx
    simpa using hnot
  exact ⟨hnone front (by omega), hnone back (by omega)⟩

/-- What the only default export changes is all that is changed. -/
theorem defaultExportChanges_eq (hexports : o.exports = front ++ e :: back)
    (hlacks : o.LacksName e name) (hfront : ∀ x ∈ front, x.form.isDefault = false)
    (hback : ∀ x ∈ back, x.form.isDefault = false) :
    o.defaultExportChanges = (e.defaultChange name).toList := by
  have hnone : ∀ xs : List ExportStatement, (∀ x ∈ xs, x.form.isDefault = false) →
      (xs.filterMap fun x => (x.unnamedDefault
        (o.runtimeExports.flatMap ExportStatement.names)).bind x.defaultChange) = [] := by
    intro xs hxs
    refine List.filterMap_eq_nil_iff.2 fun x hx => Option.bind_eq_none_iff.2 fun other hother => ?_
    obtain ⟨-, hown, -⟩ := ExportStatement.unnamedDefault_eq_some_iff.1 hother
    have hdefault : x.form.isDefault = true := Option.isSome_iff_exists.2
      ⟨other, (ExportStatement.ownDefaultName_eq_some_iff.1 hown).1⟩
    rw [hxs x hx] at hdefault
    cases hdefault
  have hown := hlacks.2
  rw [Outline.defaultExportChanges, hexports]
  simp only [List.filterMap_append, List.filterMap_cons, hnone front hfront, hnone back hback, hown,
    Option.bind_some, List.nil_append]
  cases e.defaultChange name <;> rfl

/-- The text in which the only change of a module has been made. -/
theorem nameDefaultExport_of_change {change : DefaultExportChange} (ho : outline text = .ok o)
    (hchange : o.defaultExportChanges = [change]) :
    nameDefaultExport text =
      .ok (withTrailer (Edit.applyAll text change.edit?.toList) change.statement?) := by
  rw [nameDefaultExport, ho]
  simp only [Except.map, Outline.defaultExportEdits, Outline.defaultExportTrailer, hchange]
  cases change <;> rfl

/-- A default export that lacks its name gets it. -/
theorem exists_named (hs : tokenize text = .ok s) (ho : outline text = .ok o)
    (hone : (o.exports.filter fun e => e.form.isDefault).length ≤ 1)
    (hlacks : o.LacksName e name) (htakes : e.TakesName s o name) :
    ∃ text' o' front back, nameDefaultExport text = .ok text' ∧ outline text' = .ok o' ∧
      o.exports = front ++ e :: back ∧ (∀ x ∈ front, x.form.isDefault = false) ∧
      (∀ x ∈ back, x.form.isDefault = false) ∧ o.Named name front back e o' := by
  obtain ⟨hsource, hown, hdefault⟩ := hlacks.own
  obtain ⟨hname, -, hother⟩ := ExportStatement.ownDefaultName_eq_some_iff.1 hown
  obtain ⟨front, back, hexports⟩ := List.append_of_mem hlacks.1
  obtain ⟨hfront, hback⟩ := isDefault_beside hone hexports hdefault
  have hchanges := defaultExportChanges_eq hexports hlacks hfront hback
  obtain ⟨site⟩ := exists_exportSite hs ho hexports
  suffices hnamed : ∃ change o', e.defaultChange name = some change ∧
      outline (withTrailer (Edit.applyAll text change.edit?.toList) change.statement?) = .ok o' ∧
      o.Named name front back e o' by
    obtain ⟨change, o', hchange, ho', hnamed⟩ := hnamed
    rw [hchange] at hchanges
    exact ⟨_, o', front, back, nameDefaultExport_of_change ho hchanges, ho', hexports, hfront, hback,
      hnamed⟩
  cases htakes with
  | @name default form line ends =>
    obtain ⟨o', ho', hnamed⟩ :=
      site.named_both hs hexports form hother hfront line ends
    exact ⟨.edit _, o', by rw [ExportStatement.defaultChange, form], ho', hnamed⟩
  | @declaration declared default keyword async own form line other stated =>
    obtain rfl := own_eq_of_lacksName hlacks form
    obtain ⟨o', ho', hnamed⟩ :=
      site.named_declaration hs hexports form line hfront stated other
    exact ⟨.editAndState _ _, o', by rw [ExportStatement.defaultChange, form], ho', hnamed⟩
  | @entry specifiers source typeOnly form isName stated =>
    obtain rfl : source = none := by
      rw [ExportStatement.source, form] at hsource
      exact hsource
    obtain rfl : typeOnly = false := by
      obtain ⟨-, m, hread, -⟩ := Cursor.exportStatement_eq_ok.1 site.reads
      rw [form] at hread hdefault
      exact Cursor.typeOnly_of_isDefault hread hdefault
    obtain ⟨o', ho', hnamed⟩ := named_entry hs ho hexports form hname stated isName
    exact ⟨.state _, o', by rw [ExportStatement.defaultChange, form], ho', hnamed⟩

/-- A module whose default export has its name. -/
structure Outline.KeepsFacts (o o' : Outline) : Prop where
  exportedNames : o'.exportedNames = o.exportedNames
  defaultExport : o'.defaultExport = o.defaultExport
  paths : ∀ table, (o'.importFacts table).map ImportFact.path =
    (o.importFacts table).map ImportFact.path
  importable : ∀ e ∈ o.exports, e.source = none → ∀ name ∈ e.ownDefaultName,
    ∃ y ∈ o'.runtimeExports, name ∈ y.names

/-- A text whose default export may lack its name is left with one that does not, and with the same
facts. -/
theorem exists_keepsFacts (hs : tokenize text = .ok s) (ho : outline text = .ok o)
    (hone : (o.exports.filter fun e => e.form.isDefault).length ≤ 1)
    (h : ∀ e name, o.LacksName e name → e.TakesName s o name) :
    ∃ text' o', nameDefaultExport text = .ok text' ∧ outline text' = .ok o' ∧ o.KeepsFacts o' ∧
      ∀ e name, ¬ o'.LacksName e name := by
  by_cases hnone : ∀ e name, ¬ o.LacksName e name
  · exact ⟨text, o, nameDefaultExport_eq_self ho hnone, ho, ⟨rfl, rfl, fun _ => rfl,
      fun e he hsource name hown => exists_names_of_not_lacksName he hsource hown (hnone e name)⟩,
      hnone⟩
  · obtain ⟨e, name, hlacks⟩ : ∃ e name, o.LacksName e name := by
      by_contra hnot
      exact hnone fun e name hlacks => hnot ⟨e, name, hlacks⟩
    obtain ⟨text', o', front, back, htext', ho', hexports, hfront, hback, hnamed⟩ :=
      exists_named hs ho hone hlacks (h e name hlacks)
    obtain ⟨-, hown, -⟩ := hlacks.own
    obtain ⟨hnames, hdefault, hmem, hlater⟩ := hnamed.facts hexports hown hfront hback
    refine ⟨text', o', htext', ho', ⟨hnames, hdefault, hnamed.paths, ?_⟩, ?_⟩
    · intro y hy _ other hother
      have hdefault : y.form.isDefault = true := Option.isSome_iff_exists.2
        ⟨other, (ExportStatement.ownDefaultName_eq_some_iff.1 hother).1⟩
      obtain rfl : y = e := by
        rw [hexports, List.mem_append, List.mem_cons] at hy
        rcases hy with hy | rfl | hy
        · simp [hfront y hy] at hdefault
        · rfl
        · simp [hback y hy] at hdefault
      obtain rfl : name = other := Option.some.inj (hown.symm.trans hother)
      exact hmem
    · intro y other hlacks'
      refine Outline.not_lacksName (o := o') (e := y) (fun n hn => ?_) hlacks'
      obtain rfl := hlater y hlacks'.1 n hn
      exact hmem

end Naming

/-- Naming the default export of a module that has at most one keeps its exported names in their
order, its default export and the modules that it needs, and makes the default export importable by
its name. -/
theorem nameDefaultExport_keepsFacts {text : List Char} {s : TokenStream} {o : Outline}
    (hs : tokenize text = .ok s) (ho : outline text = .ok o)
    (hone : (o.exports.filter fun e => e.form.isDefault).length ≤ 1)
    (h : ∀ e name, o.LacksName e name → e.TakesName s o name) :
    ∃ text' o', nameDefaultExport text = .ok text' ∧ outline text' = .ok o' ∧ o.KeepsFacts o' := by
  obtain ⟨text', o', htext', ho', hkeeps, -⟩ := exists_keepsFacts hs ho hone h
  exact ⟨text', o', htext', ho', hkeeps⟩

/-- A function behind an import and an export of another module. -/
theorem nameDefaultExport_keepsFacts_function :
    let text := ("import a from 'x'\nexport \x7b c \x7d from 'y'\n" ++
      "export default async function load() \x7b return a \x7d\n").toList
    ∃ s o text' o', tokenize text = .ok s ∧ outline text = .ok o ∧
      (o.exports.filter fun e => e.form.isDefault).length = 1 ∧
      (∀ e name, o.LacksName e name → e.TakesName s o name) ∧
      nameDefaultExport text = .ok text' ∧ text' ≠ text ∧ outline text' = .ok o' ∧
      o.KeepsFacts o' := by
  intro text
  let s := (tokenize text).toOption.getD ⟨[], .start⟩
  let o := (outline text).toOption.getD ⟨[], []⟩
  obtain ⟨htokens, houtline, hone, hline, hother, hclosed, hend, hnamed, hdot, hchanged⟩ :
      (tokenize text).toOption.isSome = true ∧ (outline text).toOption.isSome = true ∧
        (o.exports.filter fun e => e.form.isDefault).length = 1 ∧
        (∀ e ∈ o.exports, e.form.isDefault = true → ∃ d ∈ e.form.defaultToken,
          ∃ k ∈ e.form.declarationToken, d.line = (e.form.asyncToken.getD k).line) ∧
        (∀ e ∈ o.exports, ∀ name ∈ e.ownDefaultName,
          name ∉ (["function", "class", "interface"] : List String)) ∧
        (∀ us ∈ s.tokens.tails, bracketDepth us ≤ 0) ∧
        (∀ e ∈ o.exports, e.form.variableToken = none ∧ ∀ t ∈ s.tokens.getLast?,
          e.span.stop ≠ t.stop) ∧
        (∀ e ∈ o.exports, ∀ t ∈ s.tokens.getLast?,
          t ∉ e.form.defaultToken ∧ t ∉ e.form.declarationToken) ∧
        (∀ t ∈ s.tokens.getLast?, t.kind ≠ .mark .dot) ∧
        (nameDefaultExport text).toOption ≠ some text := by
    decide +kernel
  have hs : tokenize text = .ok s := eq_ok_getD htokens _
  have ho : outline text = .ok o := eq_ok_getD houtline _
  have hcomplete : s.Completes o := by
    refine ⟨fun e he t ht hstop => absurd hstop ((hend e he).2 t ht), hnamed, fun e he k hk => ?_⟩
    rw [(hend e he).1] at hk
    cases hk
  have htakes : ∀ e name, o.LacksName e name → e.TakesName s o name := by
    intro e name hlacks
    obtain ⟨-, hown, hdefault⟩ := hlacks.own
    obtain ⟨d, hd, k, hk, hsame⟩ := hline e hlacks.1 hdefault
    have hname := hother e hlacks.1 name hown
    cases hform : e.form <;> rw [hform] at hd hk hsame <;> cases hd <;> cases hk
    exact .declaration hform (.inl hsame) hname
      ⟨fun us hus => hclosed us ((List.mem_tails us s.tokens).2 hus), hcomplete, hdot⟩
  obtain ⟨text', o', htext', ho', hkeeps⟩ := nameDefaultExport_keepsFacts hs ho hone.le htakes
  refine ⟨s, o, text', o', hs, ho, hone, htakes, htext', fun heq => hchanged ?_, ho', hkeeps⟩
  rw [htext', heq]
  rfl

/-- Naming the default export of a module that has at most one is done once. -/
theorem nameDefaultExport_idempotent {text : List Char} {s : TokenStream} {o : Outline}
    (hs : tokenize text = .ok s) (ho : outline text = .ok o)
    (hone : (o.exports.filter fun e => e.form.isDefault).length ≤ 1)
    (h : ∀ e name, o.LacksName e name → e.TakesName s o name) :
    ∃ text', nameDefaultExport text = .ok text' ∧ (outline text').toOption.isSome = true ∧
      nameDefaultExport text' = .ok text' := by
  obtain ⟨text', o', htext', ho', -, hnone⟩ := exists_keepsFacts hs ho hone h
  exact ⟨text', htext', by rw [ho']; rfl, nameDefaultExport_eq_self ho' hnone⟩

/-- A name on the line below `default` is exported under itself as well, and once is enough. -/
theorem nameDefaultExport_idempotent_name :
    let text := "const F = 1\nexport default\n  F;\n".toList
    ∃ s o text', tokenize text = .ok s ∧ outline text = .ok o ∧
      (o.exports.filter fun e => e.form.isDefault).length = 1 ∧
      (∀ e name, o.LacksName e name → e.TakesName s o name) ∧
      nameDefaultExport text = .ok text' ∧ text' ≠ text ∧
      (outline text').toOption.isSome = true ∧ nameDefaultExport text' = .ok text' := by
  intro text
  let s := (tokenize text).toOption.getD ⟨[], .start⟩
  let o := (outline text).toOption.getD ⟨[], []⟩
  obtain ⟨htokens, houtline, hone, hplain, hchanged⟩ :
      (tokenize text).toOption.isSome = true ∧ (outline text).toOption.isSome = true ∧
        (o.exports.filter fun e => e.form.isDefault).length = 1 ∧
        (∀ e ∈ o.exports, (e.form matches .defaultName _ _) = true ∧ e.terminated = true ∧
          ∀ t ∈ s.before e.span.start.offset, t.isHalf = false) ∧
        (nameDefaultExport text).toOption ≠ some text := by
    decide +kernel
  have hs : tokenize text = .ok s := eq_ok_getD htokens _
  have ho : outline text = .ok o := eq_ok_getD houtline _
  have htakes : ∀ e name, o.LacksName e name → e.TakesName s o name := by
    intro e name hlacks
    obtain ⟨hname, hend, hhalf⟩ := hplain e hlacks.1
    obtain ⟨-, hown, -⟩ := hlacks.own
    obtain ⟨hdefault, -, -⟩ := ExportStatement.ownDefaultName_eq_some_iff.1 hown
    rw [ExportStatement.defaultExportName] at hdefault
    cases hform : e.form <;> rw [hform] at hname hdefault <;> cases hname
    obtain rfl := Option.some.inj hdefault
    exact .name hform (.inr hhalf) (.inl hend)
  obtain ⟨text', htext', ho', hagain⟩ := nameDefaultExport_idempotent hs ho hone.le htakes
  refine ⟨s, o, text', hs, ho, hone, htakes, htext', fun heq => hchanged ?_, ho', hagain⟩
  rw [htext', heq]
  rfl

end ComponentRegistry
