import ComponentRegistry.Store.Session

/-! # Labels as they are handed over

Whoever publishes a submission may hand over anything as a label. Labels are looked at only when an
entry is made of them, and written with it. By then both texts of the submission are stored. A table
cannot be made to hold a text with half of a surrogate pair in it; a store in memory holds every text.
-/

namespace ComponentRegistry

/-- A code point. The halves of surrogate pairs are code points and no characters. -/
abbrev CodePoint := Fin 0x110000

namespace CodePoint

/-- The character at a code point, unless it is half of a surrogate pair. -/
def char? (point : CodePoint) : Option Char :=
  if 0xD800 ≤ point.val ∧ point.val < 0xE000 then none else some (Char.ofNat point)

/-- The code point of a character. -/
def ofChar (c : Char) : CodePoint := ⟨c.toNat, by have := c.valid; grind [Char.toNat]⟩

@[simp]
theorem char?_ofChar (c : Char) : (ofChar c).char? = some c := by
  have valid : ¬(0xD800 ≤ c.toNat ∧ c.toNat < 0xE000) := by
    have h := c.valid
    grind [Char.toNat]
  rw [char?, ofChar, if_neg valid, Char.ofNat_toNat]

theorem mapM_char?_ofChar (chars : List Char) : (chars.map ofChar).mapM char? = some chars := by
  induction chars with
  | nil => rfl
  | cons c rest ih => rw [List.map_cons, List.mapM_cons, ih, char?_ofChar]; rfl

end CodePoint

/-- Texts of a kind that a store is handed. -/
class HandedText (τ : Type) where
  /-- A text that is made of characters. -/
  ofString : String → τ
  /-- What the store holds of a text, if it can hold it. -/
  held? : τ → Option String
  /-- What is made of characters is held as it is. -/
  held?_ofString (s : String) : held? (ofString s) = some s

/-- A store in memory is handed texts that are made of characters. It holds every text. -/
instance : HandedText String where
  ofString := id
  held? := some
  held?_ofString _ := rfl

/-- A table is handed texts that are made of code points. -/
instance : HandedText (List CodePoint) where
  ofString s := s.toList.map CodePoint.ofChar
  held? points := (points.mapM CodePoint.char?).map String.ofList
  held?_ofString s := by rw [CodePoint.mapM_char?_ofChar, Option.map_some, String.ofList_toList]

/-- What is handed over where a text is expected. -/
inductive Handed (τ : Type) where
  | text (content : τ)
  /-- Something that is no text. -/
  | other
  deriving DecidableEq

variable {σ τ : Type} [HandedText τ]

namespace Handed

def ofString (s : String) : Handed τ := .text (HandedText.ofString s)

def isText : Handed τ → Bool
  | text _ => true
  | other => false

/-- What a store holds when this is written to it. -/
def written : Handed τ → Except Failure String
  | text content =>
    match HandedText.held? content with
    | some s => .ok s
    | none => .error .unwritable
  | other => .error .invalidValue

end Handed

/-- How a new entry is to be labelled. -/
structure HandedLabels (τ : Type) [HandedText τ] where
  name : Option (Handed τ) := none
  registry : Handed τ := .ofString "ui"
  description : Option (Handed τ) := none

namespace HandedLabels

def ofLabels (labels : EntryLabels) : HandedLabels τ where
  name := labels.name.map .ofString
  registry := .ofString labels.registry
  description := labels.description.map .ofString

def handed (labels : HandedLabels τ) : List (Handed τ) :=
  labels.name.toList ++ labels.registry :: labels.description.toList

/-- The labels of a stored entry. An entry is made of texts only; that they can be written turns out
when the entry is. -/
def written (labels : HandedLabels τ) : Except Failure EntryLabels :=
  if labels.handed.all Handed.isText then do
    let name ← labels.name.mapM Handed.written
    let registry ← labels.registry.written
    let description ← labels.description.mapM Handed.written
    pure ⟨name, registry, description⟩
  else .error .invalidValue

end HandedLabels

namespace RegistryStore

variable [RegistryStore σ]

/-- Publish a submission as a new entry, under the labels that are handed over. -/
def publishHanded (identifier : Identifier) (analysis : SubmissionAnalysis)
    (labels : HandedLabels τ) : StoreM σ Entry := do
  StoreM.lift (analysis.internal.checkPublishable.mapError .refused)
  if (entryAt? (← get) identifier).isSome then
    StoreM.refuse (.duplicate identifier.text)
  else
    let codeRef ← putSource identifier.codeName analysis.component
    let demoRef ← putSource identifier.demoName analysis.demo
    let labels ← StoreM.lift labels.written
    let entry ←
      StoreM.lift ((analysis.entry identifier codeRef demoRef labels).mapError .refused)
    createEntry entry

/-- The store with the two texts of a submission in it as well. -/
def withTexts (store : σ) (identifier : Identifier) (analysis : SubmissionAnalysis) : σ :=
  let coded := (StoreM.run (putSource identifier.codeName analysis.component) store).2
  (StoreM.run (putSource identifier.demoName analysis.demo) coded).2

end RegistryStore

/-- What a store can be asked for by those who hand over labels that nobody has looked at. -/
inductive HandedRequest (τ : Type) [HandedText τ] where
  /-- What every store can be asked for. -/
  | plain (request : StoreRequest)
  /-- Publish a submission under labels that are not looked at beforehand. -/
  | publish (identifier : Identifier) (analysis : SubmissionAnalysis) (labels : HandedLabels τ)

namespace HandedRequest

variable [RegistryStore σ]

/-- Answer a request. -/
def answer : HandedRequest τ → StoreM σ StoreAnswer
  | plain request => request.answer
  | publish identifier analysis labels => do
    pure (.entry (← RegistryStore.publishHanded identifier analysis labels))

/-- The store that some requests leave behind. -/
def storeAfter (requests : List (HandedRequest τ)) (store : σ) : σ :=
  requests.foldl (fun store request => (StoreM.run request.answer store).2) store

end HandedRequest

end ComponentRegistry
