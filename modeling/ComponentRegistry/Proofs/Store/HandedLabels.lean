import ComponentRegistry.Proofs.Store.Refusing
import ComponentRegistry.Store.HandedLabels

/-! # What a refused publication leaves behind

A request that fails leaves the store as it was, with one exception. Labels are looked at after both
texts of a submission are stored, so labels that cannot be written leave two source texts behind that
no entry refers to.
-/

namespace ComponentRegistry

section

variable {σ τ : Type} [HandedText τ] {labels : HandedLabels τ} {e : Failure}

@[simp]
theorem Handed.written_ofString (s : String) : (ofString s : Handed τ).written = .ok s := by
  rw [ofString, written, HandedText.held?_ofString]

theorem Handed.mapM_written_ofString (s? : Option String) :
    (s?.map (ofString (τ := τ))).mapM written = .ok s? := by
  cases s? with
  | none => rfl
  | some s => rw [Option.map_some, Option.mapM_some, written_ofString]; rfl

namespace HandedLabels

/-- Labels that are made of characters can be written. -/
theorem written_ofLabels (labels : EntryLabels) :
    (ofLabels labels : HandedLabels τ).written = .ok labels := by
  have texts : ((ofLabels labels : HandedLabels τ).handed.all Handed.isText) = true := by
    obtain ⟨name, registry, description⟩ := labels
    cases name <;> cases description <;> rfl
  rw [written, if_pos texts, ofLabels, Handed.mapM_written_ofString, Handed.written_ofString,
    Handed.mapM_written_ofString]
  rfl

/-- A store in memory can be made to hold all labels that are texts. -/
theorem other_of_written {labels : HandedLabels String} (h : labels.written = .error e) :
    Handed.other ∈ labels.handed ∧ e = .invalidValue := by
  obtain ⟨name, registry, description⟩ := labels
  rcases name with _ | _ | _ <;> rcases registry with _ | _ <;> rcases description with _ | _ | _ <;>
    cases h <;> exact ⟨by simp [handed], rfl⟩

end HandedLabels

namespace RegistryStore

variable [RegistryStore σ]

/-- Labels that can be written make no difference. -/
theorem publishHanded_of_written {plain : EntryLabels} (h : labels.written = .ok plain)
    (i : Identifier) (analysis : SubmissionAnalysis) :
    (publishHanded i analysis labels : StoreM σ Entry) = publish i analysis plain := by
  unfold publishHanded publish
  rw [h]
  rfl

/-- Publishing under labels that are made of characters is what every store does. -/
theorem publishHanded_ofLabels (i : Identifier) (analysis : SubmissionAnalysis)
    (labels : EntryLabels) :
    (publishHanded i analysis (.ofLabels labels : HandedLabels τ) : StoreM σ Entry) =
      publish i analysis labels :=
  publishHanded_of_written (HandedLabels.written_ofLabels labels) i analysis

/-- Storing a source text cannot fail. -/
def StoresTexts (σ : Type) [RegistryStore σ] : Prop :=
  ∀ (store : σ) name text, Succeeds store (putSource name text) fun _ _ => True

/-- Labels that cannot be written end a publication that has stored nothing, or both texts. -/
theorem publishHanded_of_unwritten (stores : StoresTexts σ) (h : labels.written = .error e)
    (store : σ) (i : Identifier) (analysis : SubmissionAnalysis) :
    (StoreM.run (publishHanded i analysis labels) store).2 = store ∨
      StoreM.run (publishHanded i analysis labels) store =
        (.error e, withTexts store i analysis) := by
  unfold publishHanded
  rw [StoreM.run_bind, StoreM.run_lift]
  cases analysis.internal.checkPublishable.mapError Failure.refused with
  | error refused => exact .inl rfl
  | ok =>
    simp only [StoreM.run_bind, StoreM.run_get]
    split
    · exact .inl rfl
    · right
      obtain ⟨codeRef, coded, hcode, -⟩ := stores store i.codeName analysis.component
      obtain ⟨demoRef, both, hdemo, -⟩ := stores coded i.demoName analysis.demo
      simp only [StoreM.run_bind, StoreM.run_lift, hcode, hdemo, h, withTexts]

end RegistryStore

/-- A store does with a request what every store does with it, unless the labels that come with the
request cannot be written. -/
theorem HandedRequest.answer_cases [RegistryStore σ] (stores : RegistryStore.StoresTexts σ)
    (request : HandedRequest τ) :
    (∃ plain : StoreRequest, (request.answer : StoreM σ StoreAnswer) = plain.answer) ∨
      ∃ i analysis labels e, request = .publish i analysis labels ∧ labels.written = .error e ∧
        ∀ store : σ, (StoreM.run request.answer store).2 = store ∨
          StoreM.run request.answer store =
            (.error e, RegistryStore.withTexts store i analysis) := by
  cases request with
  | plain request => exact .inl ⟨request, rfl⟩
  | publish i analysis labels =>
    cases h : labels.written with
    | ok plain =>
      left
      refine ⟨.publish i analysis plain, ?_⟩
      rw [answer, RegistryStore.publishHanded_of_written h]
      rfl
    | error e =>
      right
      refine ⟨i, analysis, labels, e, rfl, h, fun store => ?_⟩
      have stored := RegistryStore.publishHanded_of_unwritten stores h store i analysis
      rw [answer, StoreM.run_bind]
      rcases hrun : StoreM.run (RegistryStore.publishHanded i analysis labels) store with
        ⟨result, left⟩
      rw [hrun] at stored
      cases result with
      | ok entry => exact stored.imp_right fun h => by cases h
      | error e' => exact stored.imp_right fun h => by cases h; rfl

/-- Where the requests that every store answers leave nothing behind when they fail, the others leave
nothing but the texts of a submission. -/
theorem HandedRequest.left_of_atomic [RegistryStore σ] (stores : RegistryStore.StoresTexts σ)
    {store : σ} (atomic : ∀ request : StoreRequest, Atomic store request.answer)
    (request : HandedRequest τ)
    (failed : (StoreM.run request.answer store).1 = .error e) :
    (StoreM.run request.answer store).2 = store ∨
      ∃ i analysis labels, request = .publish i analysis labels ∧ labels.written = .error e ∧
        (StoreM.run request.answer store).2 = RegistryStore.withTexts store i analysis := by
  rcases request.answer_cases stores with
    ⟨plain, same⟩ | ⟨i, analysis, labels, e', rfl, unwritten, left⟩
  · left
    rw [same] at failed ⊢
    exact atomic plain e failed
  · rcases left store with left | left
    · exact .inl left
    · right
      rw [left] at failed
      cases failed
      exact ⟨i, analysis, labels, rfl, unwritten, congrArg Prod.snd left⟩

end

section

variable [RefSupply] {m : MemoryStore} {t : TableStore}

theorem MemoryStore.storesTexts : RegistryStore.StoresTexts MemoryStore :=
  fun _ _ _ => ⟨_, _, rfl, trivial⟩

theorem TableStore.storesTexts : RegistryStore.StoresTexts TableStore :=
  fun _ _ _ => ⟨_, _, rfl, trivial⟩

namespace Mirrors

variable {τ : Type} [HandedText τ]

/-- A table that mirrors a store in memory goes on to mirror one, whatever it is asked for. -/
theorem answer_handed (h : Mirrors m t) (request : HandedRequest τ) :
    ∃ m', Mirrors m' (StoreM.run request.answer t).2 := by
  rcases request.answer_cases TableStore.storesTexts with
    ⟨plain, same⟩ | ⟨i, analysis, labels, e, -, -, left⟩
  · rw [same]
    exact ⟨_, (h.answer plain).2⟩
  · rcases left t with left | left
    · rw [left]
      exact ⟨m, h⟩
    · rw [left]
      exact ⟨_, ((h.putSource i.codeName analysis.component).2.putSource i.demoName analysis.demo).2⟩

theorem storeAfter (h : Mirrors m t) (requests : List (HandedRequest τ)) :
    ∃ m', Mirrors m' (HandedRequest.storeAfter requests t) := by
  induction requests generalizing m t with
  | nil => exact ⟨m, h⟩
  | cons request rest ih =>
    obtain ⟨m', next⟩ := h.answer_handed request
    exact ih next

end Mirrors

end

/-- A request that fails leaves a store as it was after any requests: its entries with their versions
and its source texts, with none added. The exception is a submission under labels that cannot be
written. For a store in memory these are labels one of which is no text; for a table, one may also be a
text with half of a surrogate pair in it. Then both texts of the submission may be stored, and only
they. -/
theorem session_failure_leaves [RefSupply] :
    (∀ (earlier : List (HandedRequest String)) (request : HandedRequest String) (e : Failure),
      let m := HandedRequest.storeAfter earlier (RegistryStore.empty : MemoryStore)
      (StoreM.run request.answer m).1 = .error e →
        (StoreM.run request.answer m).2 = m ∨
          ∃ i analysis labels, request = .publish i analysis labels ∧
            (Handed.other ∈ labels.handed ∧ e = .invalidValue) ∧
              (StoreM.run request.answer m).2 = RegistryStore.withTexts m i analysis) ∧
    ∀ (earlier : List (HandedRequest (List CodePoint))) (request : HandedRequest (List CodePoint))
      (e : Failure),
      let t := HandedRequest.storeAfter earlier (RegistryStore.empty : TableStore)
      (StoreM.run request.answer t).1 = .error e →
        (StoreM.run request.answer t).2 = t ∨
          ∃ i analysis labels, request = .publish i analysis labels ∧ labels.written = .error e ∧
            (StoreM.run request.answer t).2 = RegistryStore.withTexts t i analysis := by
  constructor
  · intro earlier request e m failed
    rcases request.left_of_atomic MemoryStore.storesTexts (MemoryStore.atomic_answer m) failed with
      same | ⟨i, analysis, labels, hrequest, unwritten, left⟩
    · exact .inl same
    · exact .inr ⟨i, analysis, labels, hrequest, labels.other_of_written unwritten, left⟩
  · intro earlier request e t failed
    obtain ⟨m, mirrors⟩ := Mirrors.empty.storeAfter earlier
    exact request.left_of_atomic TableStore.storesTexts mirrors.atomic_answer failed

/-- A new component, of which the text has changed and needs an entry that is not named, is refused
before its text is stored. -/
theorem session_failure_leaves_unresolved :
    let demo := "export default function Demo() \x7b\x7d"
    let analysis : SubmissionAnalysis :=
      { exportedNames := ["Card"], demoExportName := "Demo", external := ∅, demoExternal := ∅,
        internal := .ofPairs [("./base", "base")],
        component := "import './base'\nexport const Card = 1", demo, removedImports := [],
        mainName := some "Card", previewReady := false }
    let earlier : List StoreRequest := [.publish ⟨"ann", "card"⟩ analysis {}]
    let request : StoreRequest :=
      .revise {} ⟨"ann", "card"⟩ "import './base'\nimport './icon'\nexport const Card = 1" demo ∅ ∅
    let failure := Failure.refused (.unresolvedDependencies ["./icon"])
    let m : MemoryStore :=
      HandedRequest.storeAfter (earlier.map (.plain (τ := String))) RegistryStore.empty
    let t : TableStore :=
      HandedRequest.storeAfter (earlier.map (.plain (τ := List CodePoint))) RegistryStore.empty
    ((StoreM.run request.answer m).1 = .error failure ∧ (StoreM.run request.answer m).2 = m) ∧
      (StoreM.run request.answer t).1 = .error failure ∧ (StoreM.run request.answer t).2 = t := by
  intro demo analysis earlier request failure m t
  have hm : (StoreM.run request.answer m).1 = .error failure :=
    map_eq_error (f := fun _ => ()) (by decide +kernel)
  have ht : (StoreM.run request.answer t).1 = .error failure :=
    map_eq_error (f := fun _ => ()) (by decide +kernel)
  obtain ⟨inMemory, inTable⟩ := session_failure_leaves
  refine ⟨⟨hm, ?_⟩, ht, ?_⟩
  · rcases inMemory (earlier.map .plain) (.plain request) failure hm with
      left | ⟨_, _, _, published, _⟩
    · exact left
    · cases published
  · rcases inTable (earlier.map .plain) (.plain request) failure ht with
      left | ⟨_, _, _, published, _⟩
    · exact left
    · cases published

/-- A description with half of a surrogate pair in it is found out only when both texts are stored. -/
theorem session_failure_leaves_texts :
    let analysis : SubmissionAnalysis :=
      { exportedNames := ["Card"], demoExportName := "Demo", external := ∅, demoExternal := ∅,
        internal := ∅, component := "export const Card = 1",
        demo := "export default function Demo() \x7b\x7d", removedImports := [],
        mainName := some "Card", previewReady := true }
    let request : HandedRequest (List CodePoint) :=
      .publish ⟨"ann", "card"⟩ analysis { description := some (.text [0xDCFF]) }
    let t : TableStore := RegistryStore.empty
    let left := (StoreM.run request.answer t).2
    (StoreM.run request.answer t).1 = .error .unwritable ∧ left.rows = t.rows ∧
      left.sources = t.sources ++
        [⟨"ref-1", "card.tsx", analysis.component⟩, ⟨"ref-2", "card.demo.tsx", analysis.demo⟩] := by
  intro analysis request t left
  exact ⟨map_eq_error (f := fun _ => ()) (by decide +kernel), rfl, by decide +kernel⟩

end ComponentRegistry
