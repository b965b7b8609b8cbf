import Mathlib.Data.List.DropRight
import ComponentRegistry.Dependency.Identifier
import ComponentRegistry.Proofs.Text.Lines

/-! # Written addresses

Which texts are addresses of entries.
-/

namespace ComponentRegistry

section Trimming

open CharacterClass

variable {text first last : List Char}

theorem trimChars_eq_self :
    trimChars text = text ↔
      text.dropWhile isBlank = text ∧ text.rdropWhile isBlank = text := by
  constructor
  · intro same
    have shorter : (text.dropWhile isBlank).length ≤ text.length :=
      (List.dropWhile_suffix _).length_le
    have kept : text.length ≤ (text.dropWhile isBlank).length := by
      conv_lhs => rw [← same]
      exact (List.rdropWhile_prefix isBlank (text.dropWhile isBlank)).length_le
    have front := (List.dropWhile_suffix isBlank).eq_of_length (Nat.le_antisymm shorter kept)
    refine ⟨front, ?_⟩
    rwa [trimChars, front] at same
  · rintro ⟨front, back⟩
    rw [trimChars, front]
    exact back

theorem trimChars_trimChars (text : List Char) : trimChars (trimChars text) = trimChars text := by
  refine trimChars_eq_self.2 ⟨?_, List.rdropWhile_idempotent isBlank _⟩
  have start : trimChars text <+: text.dropWhile isBlank := List.rdropWhile_prefix _ _
  rw [List.dropWhile_eq_self_iff]
  intro nonempty
  rw [start.getElem nonempty]
  exact List.dropWhile_get_zero_not isBlank text (nonempty.trans_le start.length_le)

theorem trimChars_append (hfirst : trimChars first = first) (hlast : trimChars last = last)
    (neFirst : first ≠ []) (neLast : last ≠ []) (between : List Char) :
    trimChars (first ++ between ++ last) = first ++ between ++ last := by
  refine trimChars_eq_self.2 ⟨?_, ?_⟩
  · obtain ⟨front, -⟩ := trimChars_eq_self.1 hfirst
    cases first with
    | nil => exact absurd rfl neFirst
    | cons c rest =>
      rw [List.dropWhile_eq_self_iff] at front ⊢
      intro _
      exact front (by simp)
  · obtain ⟨-, back⟩ := trimChars_eq_self.1 hlast
    rw [List.rdropWhile_eq_self_iff] at back ⊢
    intro _
    rw [List.getLast_append_of_ne_nil _ neLast]
    exact back neLast

end Trimming

namespace Identifier

/-- A written address: an owner and a slug that are not blank, with a slash between them, and
blanks around it. -/
def IsWritten (written : String) : Prop :=
  ∃ owner slug : List Char,
    trimChars written.toList = owner ++ '/' :: slug ∧ '/' ∉ owner ∧ '/' ∉ slug ∧
      trimChars owner ≠ [] ∧ trimChars slug ≠ []

theorem isSome_parse? {written : String} : (parse? written).isSome ↔ IsWritten written := by
  unfold parse?
  constructor
  · intro h
    split at h
    · next owner slug hsplit =>
      obtain ⟨howner, hcases⟩ := Lines.splitAt_eq_cons hsplit
      rcases hcases with ⟨hnil, -⟩ | ⟨rest, htext, hrest⟩
      · cases hnil
      · obtain ⟨hslug, hcases⟩ := Lines.splitAt_eq_cons hrest
        rcases hcases with ⟨-, rfl⟩ | ⟨more, -, hmore⟩
        · have hblank : trimChars owner ≠ [] ∧ trimChars rest ≠ [] := by simpa using h
          exact ⟨owner, rest, htext, howner, hslug, hblank⟩
        · exact absurd hmore (Lines.splitAt_ne_nil more)
    · cases h
  · rintro ⟨owner, slug, htext, howner, hslug, hblank⟩
    rw [htext, Lines.splitAt_append howner, Lines.splitAt_of_not_mem hslug]
    simpa using hblank

/-- A part of an address that reads back as itself: no blanks around it, not empty, no slash. -/
structure IsPlainPart (part : String) : Prop where
  trimmed : trimmed part = part
  ne_empty : part ≠ ""
  no_slash : '/' ∉ part.toList

/-- An address whose written form reads back as itself. -/
structure IsPlain (i : Identifier) : Prop where
  owner : IsPlainPart i.owner
  slug : IsPlainPart i.slug

theorem IsPlainPart.trimChars {part : String} (h : IsPlainPart part) :
    trimChars part.toList = part.toList := by
  have := congrArg String.toList h.trimmed
  rwa [ComponentRegistry.trimmed, String.toList_ofList] at this

theorem IsPlainPart.toList_ne_nil {part : String} (h : IsPlainPart part) : part.toList ≠ [] := by
  intro empty
  exact h.ne_empty (String.toList_eq_nil_iff.1 empty)

theorem toList_text (i : Identifier) : i.text.toList = i.owner.toList ++ ['/'] ++ i.slug.toList := by
  simp [text, String.toList_append]

theorem trimmed_text {i : Identifier} (plain : i.IsPlain) : trimmed i.text = i.text := by
  rw [trimmed, toList_text, trimChars_append plain.owner.trimChars plain.slug.trimChars
    plain.owner.toList_ne_nil plain.slug.toList_ne_nil, ← toList_text, String.ofList_toList]

theorem parse?_text {i : Identifier} (plain : i.IsPlain) : parse? i.text = some i := by
  have whole : trimChars i.text.toList = i.owner.toList ++ '/' :: i.slug.toList := by
    rw [toList_text, trimChars_append plain.owner.trimChars plain.slug.trimChars
      plain.owner.toList_ne_nil plain.slug.toList_ne_nil]
    simp
  rw [parse?, whole, Lines.splitAt_append plain.owner.no_slash,
    Lines.splitAt_of_not_mem plain.slug.no_slash]
  simp [plain.owner.trimChars, plain.slug.trimChars, plain.owner.ne_empty, plain.slug.ne_empty]

/-- The reference to a dependency has no blanks around it, if the owner has none. -/
theorem trimmed_canonical {owner : String} (plain : IsPlainPart owner) (value : String) :
    trimmed (canonical owner value) = canonical owner value := by
  have again := trimChars_trimChars value.toList
  unfold canonical
  simp only
  split
  · rw [trimmed, String.toList_ofList, again]
  · next bare =>
    have visible : trimChars value.toList ≠ [] := by
      intro blank
      simp [blank] at bare
    have whole := trimChars_append plain.trimChars again plain.toList_ne_nil visible ['/']
    apply String.toList_injective
    simpa [trimmed, String.toList_append] using whole

end Identifier

/-- Whether an error says that something is missing which is needed: an address that is none, an
entry, a source text, or the entry behind a local path. -/
def RegistryError.IsMissing : RegistryError → Prop
  | .malformedIdentifier _ | .missingDependency _ | .missingSource _ | .blankDependency ..
  | .missingEntry _ => True
  | _ => False

theorem Identifier.parse_eq_ok {written : String} {i : Identifier} :
    parse written = .ok i ↔ parse? written = some i := by
  unfold parse
  split <;> simp_all

theorem Identifier.parse_eq_error {written : String} {e : RegistryError} (h : parse written = .error e) :
    e.IsMissing ∧ ¬ IsWritten written := by
  unfold parse at h
  split at h
  · cases h
  · next hnone =>
    cases h
    refine ⟨trivial, fun hwritten => ?_⟩
    have := isSome_parse?.2 hwritten
    simp [hnone] at this

theorem Identifier.isWritten_of_parse {written : String} {i : Identifier} (h : parse written = .ok i) :
    IsWritten written := by
  apply isSome_parse?.1
  simp [parse_eq_ok.1 h]

end ComponentRegistry
