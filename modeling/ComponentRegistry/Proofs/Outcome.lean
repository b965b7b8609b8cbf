import Mathlib.Data.List.Forall2
import ComponentRegistry.Outcome

/-! # Lists of outcomes

What a list of steps yields that may fail, item by item.
-/

namespace ComponentRegistry

variable {ε α β : Type} {f : α → Except ε β} {items : List α} {results : List β}

theorem bind_eq_error {x : Except ε α} {e : ε} :
    (x >>= f) = .error e ↔ x = .error e ∨ ∃ a, x = .ok a ∧ f a = .error e := by
  cases x <;> simp [bind, Except.bind]

theorem mapError_eq_ok {δ : Type} {x : Except ε α} {f : ε → δ} {a : α} :
    x.mapError f = .ok a ↔ x = .ok a := by
  cases x <;> simp [Except.mapError]

theorem map_eq_error {x : Except ε α} {f : α → β} {e : ε} (h : x.map f = .error e) :
    x = .error e := by
  cases x with
  | error => simpa [Except.map] using h
  | ok => cases h

/-- What is known of the result of a step, if it has one, shows that it has one. -/
theorem exists_of_toOption_map {x : Except ε α} {g : α → β} {b : β}
    (h : x.toOption.map g = some b) : ∃ a, x = .ok a ∧ g a = b := by
  cases x with
  | error => cases h
  | ok a => exact ⟨a, rfl, Option.some.inj h⟩

theorem mapM_eq_ok : items.mapM f = .ok results ↔
    List.Forall₂ (fun a b => f a = .ok b) items results := by
  induction items generalizing results with
  | nil =>
    rw [List.mapM_nil, List.forall₂_nil_left_iff]
    exact ⟨fun h => by cases h; rfl, fun h => by rw [h]; rfl⟩
  | cons a rest ih =>
    rw [List.mapM_cons, List.forall₂_cons_left_iff, bind_eq_ok]
    constructor
    · rintro ⟨b, hb, h⟩
      obtain ⟨others, hothers, h⟩ := bind_eq_ok.1 h
      cases h
      exact ⟨b, others, hb, ih.1 hothers, rfl⟩
    · rintro ⟨b, others, hb, hothers, rfl⟩
      exact ⟨b, hb, bind_eq_ok.2 ⟨others, ih.2 hothers, rfl⟩⟩

theorem exists_of_mapM_eq_error {e : ε} (h : items.mapM f = .error e) :
    ∃ a ∈ items, f a = .error e := by
  induction items with
  | nil => cases h
  | cons a rest ih =>
    rw [List.mapM_cons] at h
    rcases bind_eq_error.1 h with ha | ⟨b, -, h⟩
    · exact ⟨a, List.mem_cons_self, ha⟩
    · rcases bind_eq_error.1 h with hrest | ⟨others, -, h⟩
      · obtain ⟨x, hx, herror⟩ := ih hrest
        exact ⟨x, List.mem_cons_of_mem a hx, herror⟩
      · cases h

theorem exists_of_mapM_eq_ok (h : items.mapM f = .ok results) {a : α} (ha : a ∈ items) :
    ∃ b ∈ results, f a = .ok b := by
  have hall := mapM_eq_ok.1 h
  clear h
  induction hall with
  | nil => cases ha
  | @cons x y xs ys hxy _ ih =>
    rcases List.mem_cons.1 ha with rfl | ha
    · exact ⟨y, List.mem_cons_self, hxy⟩
    · obtain ⟨b, hb, hab⟩ := ih ha
      exact ⟨b, List.mem_cons_of_mem y hb, hab⟩

theorem mapM_isOk_iff :
    (∃ results, items.mapM f = .ok results) ↔ ∀ a ∈ items, ∃ b, f a = .ok b := by
  constructor
  · rintro ⟨results, h⟩ a ha
    obtain ⟨b, -, hb⟩ := exists_of_mapM_eq_ok h ha
    exact ⟨b, hb⟩
  · intro each
    cases h : items.mapM f with
    | ok results => exact ⟨results, rfl⟩
    | error e =>
      obtain ⟨a, ha, herror⟩ := exists_of_mapM_eq_error h
      obtain ⟨b, hb⟩ := each a ha
      rw [herror] at hb
      cases hb

theorem forall₂_filterMap {R : α → β → Prop} {g : α → Option β}
    (h : ∀ a ∈ items, ∃ b, g a = some b ∧ R a b) : List.Forall₂ R items (items.filterMap g) := by
  induction items with
  | nil => exact .nil
  | cons a rest ih =>
    obtain ⟨b, hb, hab⟩ := h a List.mem_cons_self
    rw [List.filterMap_cons_some hb]
    exact .cons hab (ih fun x hx => h x (List.mem_cons_of_mem a hx))

theorem map_eq_of_forall₂ {γ : Type} {R : α → β → Prop} {g : α → γ} {k : β → γ}
    (h : List.Forall₂ R items results) (same : ∀ a b, R a b → k b = g a) :
    results.map k = items.map g := by
  induction h with
  | nil => rfl
  | cons hab _ ih => rw [List.map_cons, List.map_cons, same _ _ hab, ih]

theorem forall₂_comp {γ : Type} {R : α → β → Prop} {S : β → γ → Prop} {T : α → γ → Prop}
    {others : List γ} (compose : ∀ a b c, R a b → S b c → T a c)
    (h : List.Forall₂ R items results) (h' : List.Forall₂ S results others) :
    List.Forall₂ T items others := by
  induction h generalizing others with
  | nil =>
    cases h'
    exact .nil
  | cons hab _ ih =>
    cases h' with
    | cons hbc hrest => exact .cons (compose _ _ _ hab hbc) (ih hrest)

end ComponentRegistry
