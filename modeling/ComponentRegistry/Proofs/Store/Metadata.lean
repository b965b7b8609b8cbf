import ComponentRegistry.Proofs.Store.Mirroring
import ComponentRegistry.Proofs.Store.Revising

/-! # Metadata agree with the stored texts

Whatever is published and revised under one way of analyzing, the metadata of every entry say what
the texts say that its references lead to. Stored texts never change, so an entry can only go wrong
when it is written; and what is written then comes from an analysis of texts that are stored already.
-/

namespace ComponentRegistry

section

variable {σ : Type} [RegistryStore σ]

/-- An entry that says what the texts say that it refers to. -/
def Entry.SaysItsTexts (e : Entry) (table : ResolutionTable) (store : σ) : Prop :=
  ∃ code demo, RegistryStore.sourceText? store e.codeRef = some code ∧
    RegistryStore.sourceText? store e.demoRef = some demo ∧ e.metadata.Describes table code demo

/-- A later store that still has every source text as it was. -/
def StillHas (earlier later : σ) : Prop :=
  ∀ ref unit, RegistryStore.getSource? earlier ref = some unit →
    RegistryStore.getSource? later ref = some unit

end

/-- A request that puts into a store at most what an analysis under some settings gives. -/
def StoreRequest.Analyzed (settings : AnalysisSettings) : StoreRequest → Prop
  | .createEntry _ | .updateEntry _ _ _ => False
  | .publish _ analysis _ => ∃ component demo existing known,
    analyzeSubmission settings component demo existing known = .ok analysis
  | .revise used _ _ _ _ _ => used = settings
  | _ => True

namespace StillHas

variable {σ : Type} [RegistryStore σ] {a b c : σ}

theorem refl (a : σ) : StillHas a a := fun _ _ h => h

theorem trans (hab : StillHas a b) (hbc : StillHas b c) : StillHas a c :=
  fun ref unit h => hbc ref unit (hab ref unit h)

theorem sourceText? (h : StillHas a b) {ref text : String}
    (htext : RegistryStore.sourceText? a ref = some text) :
    RegistryStore.sourceText? b ref = some text := by
  obtain ⟨unit, hunit, rfl⟩ := Option.map_eq_some_iff.1 htext
  exact Option.map_eq_some_iff.2 ⟨unit, h ref unit hunit, rfl⟩

theorem saysItsTexts (h : StillHas a b) {e : Entry} {table : ResolutionTable}
    (he : e.SaysItsTexts table a) : e.SaysItsTexts table b := by
  obtain ⟨code, demo, hcode, hdemo, hdescribes⟩ := he
  exact ⟨code, demo, h.sourceText? hcode, h.sourceText? hdemo, hdescribes⟩

end StillHas

section Agreement

variable [RefSupply]

/-- Storing a source text cannot fail. The text is found where it was put, every other text where it
was, and the entries stay as they are. -/
theorem MemoryStore.Numbered.stores {m : MemoryStore} (h : m.Numbered) (name text : String) :
    ∃ ref m', (RegistryStore.putSource name text).run m = (.ok ref, m') ∧ m'.Numbered ∧
      StillHas m m' ∧ RegistryStore.sourceText? m' ref = some text ∧ m'.entries = m.entries := by
  let ref := RefSupply.ref m.sources.size
  let m' : MemoryStore := { m with sources := m.sources.insert ref ⟨ref, name, text⟩ }
  have kept : StillHas m m' := by
    intro other unit hunit
    have mem : other ∈ m.sources.keys := OrderedMap.mem_keys_of_get? hunit
    have hne : ref ≠ other := by
      rintro rfl
      exact h.ref_new mem
    exact (OrderedMap.get?_insert m.sources ref other _).trans ((if_neg hne).trans hunit)
  have found : m'.sources.get? ref = some ⟨ref, name, text⟩ :=
    (OrderedMap.get?_insert m.sources ref ref _).trans (if_pos rfl)
  exact ⟨ref, m', rfl, h.putSource _, kept, congrArg (Option.map SourceUnit.text) found, rfl⟩

/-- A store in memory whose texts are numbered and whose entries say what their texts say. -/
structure MemoryStore.Sound (table : ResolutionTable) (m : MemoryStore) : Prop where
  numbered : m.Numbered
  entries : ∀ e ∈ m.entries.values, e.SaysItsTexts table m

/-- An operation that keeps a store sound and its texts as they are, also when it fails. What it
leaves when it succeeds meets a condition. -/
def Maintains (table : ResolutionTable) (m : MemoryStore) (x : StoreM MemoryStore α)
    (post : α → MemoryStore → Prop) : Prop :=
  (x.run m).2.Sound table ∧ StillHas m (x.run m).2 ∧ ∀ a, (x.run m).1 = .ok a → post a (x.run m).2

section Operations

variable {table : ResolutionTable} {m : MemoryStore} {α β : Type} {x : StoreM MemoryStore α}
  {post : α → MemoryStore → Prop} {e : Entry}

namespace Maintains

theorem bind (h : Maintains table m x post) {f : α → StoreM MemoryStore β}
    {last : β → MemoryStore → Prop}
    (next : ∀ a m', m'.Sound table → StillHas m m' → post a m' → Maintains table m' (f a) last) :
    Maintains table m (x >>= f) last := by
  unfold Maintains at h next ⊢
  rw [StoreM.run_bind]
  rcases hx : x.run m with ⟨result, m'⟩
  rw [hx] at h
  obtain ⟨hsound, hkept, hresult⟩ := h
  cases result with
  | error e => exact ⟨hsound, hkept, fun b hb => by cases hb⟩
  | ok a =>
    obtain ⟨hsound, hkept', hresult⟩ := next a m' hsound hkept (hresult a rfl)
    exact ⟨hsound, hkept.trans hkept', hresult⟩

theorem get_bind {f : MemoryStore → StoreM MemoryStore α} (h : Maintains table m (f m) post) :
    Maintains table m (get >>= f) post := by
  unfold Maintains at h ⊢
  rw [StoreM.run_bind, StoreM.run_get]
  exact h

end Maintains

namespace MemoryStore.Sound

theorem pure (h : m.Sound table) {a : α} (hpost : post a m) : Maintains table m (pure a) post :=
  ⟨h, .refl m, fun _ ha => by cases ha; exact hpost⟩

theorem refuse (h : m.Sound table) (error : RegistryError) :
    Maintains table m (StoreM.refuse error) post :=
  ⟨h, .refl m, fun _ ha => by cases ha⟩

theorem lift (h : m.Sound table) (r : Except Failure α) :
    Maintains table m (StoreM.lift r) fun a m' => r = .ok a ∧ m' = m := by
  unfold Maintains
  rw [StoreM.run_lift]
  exact ⟨h, .refl m, fun a ha => ⟨ha, rfl⟩⟩

theorem putSource (h : m.Sound table) (name text : String) :
    Maintains table m (RegistryStore.putSource name text) fun ref m' =>
      RegistryStore.sourceText? m' ref = some text ∧ m'.entries = m.entries := by
  obtain ⟨ref, m', hrun, numbered, kept, found, entries⟩ := h.numbered.stores name text
  unfold Maintains
  rw [hrun]
  refine ⟨⟨numbered, fun e he => kept.saysItsTexts (h.entries e (entries ▸ he))⟩, kept, ?_⟩
  rintro _ ⟨⟩
  exact ⟨found, entries⟩

theorem keepSource (h : m.Sound table) (ref name text : String) :
    Maintains table m (RegistryStore.keepSource ref name text) fun kept m' =>
      RegistryStore.sourceText? m' kept = some text ∧ m'.entries = m.entries := by
  apply Maintains.get_bind
  split
  · next same => exact h.pure ⟨same, rfl⟩
  · exact h.putSource name text

/-- An entry can be written when it says what its texts say. -/
theorem write (h : m.Sound table) {i : Identifier} (he : e.SaysItsTexts table m) :
    (MemoryStore.mk m.sources (m.entries.insert i e)).Sound table where
  numbered := h.numbered
  entries := by
    intro other hother
    rcases OrderedMap.mem_values_insert hother with rfl | hother
    · exact he
    · exact h.entries other hother

theorem createEntry (h : m.Sound table) (he : e.SaysItsTexts table m) :
    Maintains table m (RegistryStore.createEntry e) fun _ _ => True := by
  refine (h.lift _).bind fun _ m' h kept hpost => ?_
  obtain ⟨-, rfl⟩ := hpost
  apply Maintains.get_bind
  split
  · exact h.refuse _
  · exact ⟨h.write he, .refl _, fun _ _ => trivial⟩

theorem updateEntry (h : m.Sound table) {i : Identifier} {current : Entry} {p : EntryPatch}
    {expected : Int} (hcurrent : m.entries.get? i = some current)
    (he : ∀ updated, current.patched p expected = .ok updated → updated.SaysItsTexts table m) :
    Maintains table m (RegistryStore.updateEntry i p expected) fun _ _ => True := by
  apply Maintains.get_bind
  simp only [hcurrent]
  refine (h.lift _).bind fun updated m' h kept hpost => ?_
  obtain ⟨hupdated, rfl⟩ := hpost
  exact ⟨h.write (he updated hupdated), .refl _, fun _ _ => trivial⟩

variable {settings : AnalysisSettings} {component demo : String} {existing : InternalDependencies}
  {known : OrderedMap String String} {analysis : SubmissionAnalysis}

/-- An entry that says what an analysis says can be written when the texts of the analysis are where
the entry refers to. -/
theorem saysItsTexts_of_like
    (hanalysis : analyzeSubmission settings component demo existing known = .ok analysis)
    (hcode : RegistryStore.sourceText? m e.codeRef = some analysis.component)
    (hdemo : RegistryStore.sourceText? m e.demoRef = some analysis.demo)
    (hlike : e.metadata.Like analysis.metadata) : e.SaysItsTexts settings.table m :=
  ⟨_, _, hcode, hdemo, hlike.describes (analyzeSubmission_describes hanalysis)⟩

theorem publish (h : m.Sound settings.table)
    (hanalysis : analyzeSubmission settings component demo existing known = .ok analysis)
    (i : Identifier) (labels : EntryLabels) :
    Maintains settings.table m (RegistryStore.publish i analysis labels) fun _ _ => True := by
  refine (h.lift _).bind fun _ m' h _ _ => ?_
  apply Maintains.get_bind
  split
  · exact h.refuse _
  · refine (h.putSource _ _).bind fun codeRef m h _ hcode => ?_
    refine (h.putSource _ _).bind fun demoRef m h kept hdemo => ?_
    refine (h.lift _).bind fun entry m' h _ hentry => ?_
    obtain ⟨hentry, rfl⟩ := hentry
    obtain ⟨⟨⟩, -, hentry⟩ := bind_eq_ok.1 (mapError_eq_ok.1 hentry)
    cases hentry
    exact h.createEntry (saysItsTexts_of_like hanalysis (kept.sourceText? hcode.1) hdemo.1 (.refl _))

theorem revise (h : m.Sound settings.table) (i : Identifier) (component demo : String)
    (slugs : InternalDependencies) (known : OrderedMap String String) :
    Maintains settings.table m (RegistryStore.revise settings i component demo slugs known)
      fun _ _ => True := by
  apply Maintains.get_bind
  cases hcurrent : RegistryStore.entryAt? m i with
  | none => exact h.refuse _
  | some current =>
    refine (h.lift _).bind fun analysis m' h _ hanalysis => ?_
    obtain ⟨hanalysis, rfl⟩ := hanalysis
    refine (h.lift _).bind fun _ m' h _ hsame => ?_
    obtain ⟨-, rfl⟩ := hsame
    refine (h.keepSource _ _ _).bind fun codeRef m h _ hcode => ?_
    refine (h.keepSource _ _ _).bind fun demoRef m h kept hdemo => ?_
    refine (h.lift _).bind fun changed m' h _ hchanged => ?_
    obtain ⟨hchanged, rfl⟩ := hchanged
    split
    · exact h.pure trivial
    · have hread : m'.entries.get? i = some current := by
        rw [hdemo.2, hcode.2]
        exact hcurrent
      apply h.updateEntry hread
      intro updated hupdated
      obtain ⟨hcodeRef, hdemoRef, hlike⟩ := analysis.like_of_isMet codeRef demoRef
        fun pair mem c hc => Entry.isMet_of_patched_changedFields hchanged hupdated mem hc
      subst hcodeRef
      subst hdemoRef
      exact saysItsTexts_of_like hanalysis (kept.sourceText? hcode.1) hdemo.1 hlike

theorem answer (h : m.Sound settings.table) {request : StoreRequest}
    (hrequest : request.Analyzed settings) :
    Maintains settings.table m request.answer fun _ _ => True := by
  have reads (a : StoreAnswer) : Maintains settings.table m (Pure.pure a) fun _ _ => True :=
    h.pure trivial
  have writes {α : Type} {x : StoreM MemoryStore α} {post : α → MemoryStore → Prop}
      (hx : Maintains settings.table m x post) (f : α → StoreAnswer) :
      Maintains settings.table m (do Pure.pure (f (← x))) fun _ _ => True :=
    hx.bind fun a _ h _ _ => h.pure trivial
  cases request with
  | putSource name text => exact writes (h.putSource name text) .ref
  | getSource | sourceText | entryAt | listEntries => exact .get_bind (reads _)
  | createEntry | updateEntry => exact hrequest.elim
  | publish i analysis labels =>
    obtain ⟨component, demo, existing, known, hanalysis⟩ := hrequest
    exact writes (h.publish hanalysis i labels) .entry
  | revise used i component demo slugs known =>
    cases hrequest
    exact writes (h.revise i component demo slugs known) .entry

theorem session (h : m.Sound settings.table) {requests : List StoreRequest}
    (hrequests : ∀ request ∈ requests, request.Analyzed settings) :
    (session requests m).2.Sound settings.table ∧ StillHas m (session requests m).2 := by
  induction requests generalizing m with
  | nil => exact ⟨h, .refl m⟩
  | cons request rest ih =>
    obtain ⟨hfirst, hrest⟩ := List.forall_mem_cons.1 hrequests
    obtain ⟨hsound, hkept, -⟩ := h.answer hfirst
    obtain ⟨hsound, hkept'⟩ := ih hsound hrest
    exact ⟨hsound, hkept.trans hkept'⟩

theorem empty (table : ResolutionTable) : (RegistryStore.empty : MemoryStore).Sound table where
  numbered := rfl
  entries := fun _ h => by cases h

end MemoryStore.Sound

/-- What a store in memory upholds is upheld by a table that mirrors it. -/
theorem Mirrors.saysItsTexts {t : TableStore} (h : Mirrors m t) (he : e.SaysItsTexts table m) :
    e.SaysItsTexts table t := by
  unfold Entry.SaysItsTexts at he ⊢
  simp only [← h.sourceText?_eq]
  exact he

theorem Mirrors.stillHas {m' : MemoryStore} {t t' : TableStore} (h : Mirrors m t)
    (h' : Mirrors m' t') (hm : StillHas m m') : StillHas t t' := by
  intro ref unit hunit
  rw [← h.getSource?_eq] at hunit
  rw [← h'.getSource?_eq]
  exact hm ref unit hunit

end Operations

/-- Stores that start with nothing in them and are written only by putting source texts, publishing
analyzed submissions and revising, all under the same settings: the metadata of every entry say what
the stored texts say that it refers to, and no stored text is ever changed or removed. -/
theorem session_metadata_agree (settings : AnalysisSettings) (earlier later : List StoreRequest)
    (h : ∀ request ∈ earlier ++ later, request.Analyzed settings) :
    let m := (session earlier (RegistryStore.empty : MemoryStore)).2
    let m' := (session later m).2
    let t := (session earlier (RegistryStore.empty : TableStore)).2
    let t' := (session later t).2
    (∀ e ∈ RegistryStore.listEntries m' none, e.SaysItsTexts settings.table m') ∧
      StillHas m m' ∧
      (∀ e ∈ RegistryStore.listEntries t' none, e.SaysItsTexts settings.table t') ∧
      StillHas t t' := by
  intro m m' t t'
  rw [List.forall_mem_append] at h
  obtain ⟨hsound, -⟩ := (MemoryStore.Sound.empty settings.table).session h.1
  obtain ⟨hsound, hkept⟩ := hsound.session h.2
  have hm : Mirrors m t := (Mirrors.empty.session earlier).2
  have hm' : Mirrors m' t' := (hm.session later).2
  have hentries : ∀ e ∈ RegistryStore.listEntries m' none, e.SaysItsTexts settings.table m' :=
    fun e he => hsound.entries e (List.mem_filter.1 he).1
  refine ⟨hentries, hkept, fun e he => ?_, hm.stillHas hm' hkept⟩
  exact hm'.saysItsTexts (hentries e ((hm'.listEntries_perm none).mem_iff.2 he))

end Agreement

/-- An entry is published and then revised with a component that needs another package. -/
theorem session_metadata_agree_revised :
    let demo := "import React from 'react'\nexport default function Demo() \x7b\x7d"
    let analysis : SubmissionAnalysis :=
      { exportedNames := ["Card"], demoExportName := "Demo", external := ∅,
        demoExternal := .ofPairs [("react", "latest")], internal := .ofPairs [("./base", "base")],
        component := "import './base'\nexport const Card = 1", demo, removedImports := [],
        mainName := some "Card", previewReady := false }
    let published : List StoreRequest := [.publish ⟨"ann", "card"⟩ analysis {}]
    let revised : List StoreRequest :=
      [.revise {} ⟨"ann", "card"⟩ "import './base'\nimport 'clsx'\nexport const Card = 1" demo ∅ ∅]
    let t := (session published (RegistryStore.empty : TableStore)).2
    let t' := (session revised t).2
    (∀ request ∈ published ++ revised, request.Analyzed {}) ∧
      (RegistryStore.listEntries t' none).map
          (fun e => (e.codeRef, e.demoRef, e.external.keys, e.version)) =
        [("ref-3", "ref-2", ["clsx"], 2)] ∧
      (∀ e ∈ RegistryStore.listEntries t' none, e.SaysItsTexts {} t') ∧ StillHas t t' := by
  intro demo analysis published revised t t'
  have h : ∀ request ∈ published ++ revised, request.Analyzed {} := by
    simp only [published, revised, List.cons_append, List.nil_append, List.forall_mem_cons]
    refine ⟨⟨"import './base'\nexport const Card = 1", demo, .ofPairs [("./base", "base")], ∅, ?_⟩,
      rfl, by simp⟩
    decide +kernel
  obtain ⟨-, -, hentries, hkept⟩ := session_metadata_agree {} published revised h
  exact ⟨h, by decide +kernel, hentries, hkept⟩

end ComponentRegistry
