import Mathlib.Data.List.Forall2
import ComponentRegistry.Proofs.Outcome
import ComponentRegistry.Source.Facts

/-! # Facts in the order of the text

The facts of imports and those of exports come in one order. It tells no more than the order of the
offsets, and what stands behind something else is listed behind it.
-/

namespace ComponentRegistry.Outline

variable {facts facts' others others' : List (Nat × ImportFact)}

/-- Facts at offsets that are in the same order come in the same order. -/
theorem mergeByOffset_rel {γ : Type} {R : Nat × ImportFact → Nat × ImportFact → Prop}
    {f : ImportFact → γ}
    (hle : ∀ {x x' y y'}, R x x' → R y y' → (x'.1 ≤ y'.1 ↔ x.1 ≤ y.1))
    (hfact : ∀ {x x'}, R x x' → f x'.2 = f x.2) (h : List.Forall₂ R facts facts')
    (hothers : List.Forall₂ R others others') :
    (mergeByOffset facts' others').map f = (mergeByOffset facts others).map f := by
  have hall : ∀ {xs xs' : List (Nat × ImportFact)}, List.Forall₂ R xs xs' →
      (xs'.map Prod.snd).map f = (xs.map Prod.snd).map f := by
    intro xs xs' h
    rw [List.map_map, List.map_map]
    exact map_eq_of_forall₂ h fun _ _ hx => hfact hx
  fun_induction mergeByOffset facts others generalizing facts' others' with
  | case1 others =>
    cases h
    rw [mergeByOffset, hall hothers]
  | case2 facts hne =>
    cases hothers
    cases h with
    | nil => exact absurd rfl hne
    | cons hx hrest =>
      rw [mergeByOffset, hall (.cons hx hrest)]
      simp
  | case3 p g facts q k others hpq ih =>
    obtain _ | ⟨hx, hrest⟩ := h
    obtain _ | ⟨hy, hmore⟩ := id hothers
    rw [mergeByOffset, if_pos ((hle hx hy).2 hpq), List.map_cons, List.map_cons, hfact hx,
      ih hrest hothers]
  | case4 p g facts q k others hpq ih =>
    obtain _ | ⟨hx, hrest⟩ := id h
    obtain _ | ⟨hy, hmore⟩ := hothers
    rw [mergeByOffset, if_neg fun hle' => hpq ((hle hx hy).1 hle'), List.map_cons, List.map_cons,
      hfact hy, ih h hmore]

/-- Facts of exports in front of all others are listed first. -/
theorem mergeByOffset_others (h : ∀ x ∈ others, ∀ y ∈ facts', x.1 < y.1) :
    mergeByOffset facts' (others ++ others') =
      others.map Prod.snd ++ mergeByOffset facts' others' := by
  induction others with
  | nil => rfl
  | cons x others ih =>
    obtain ⟨hfirst, hrest⟩ := List.forall_mem_cons.1 h
    cases facts' with
    | nil => simp [mergeByOffset]
    | cons y facts' =>
      have hlt := hfirst y List.mem_cons_self
      rw [List.cons_append, mergeByOffset, if_neg (by omega), ih hrest]
      rfl

/-- Facts of imports in front of all others are listed first. -/
theorem mergeByOffset_facts (h : ∀ x ∈ facts, ∀ y ∈ others', x.1 < y.1) :
    mergeByOffset (facts ++ facts') others' =
      facts.map Prod.snd ++ mergeByOffset facts' others' := by
  induction facts with
  | nil => rfl
  | cons x facts ih =>
    obtain ⟨hfirst, hrest⟩ := List.forall_mem_cons.1 h
    cases others' with
    | nil => cases facts' <;> simp [mergeByOffset]
    | cons y others' =>
      have hlt := hfirst y List.mem_cons_self
      rw [List.cons_append, mergeByOffset, if_pos (by omega), ih hrest]
      rfl

/-- What stands behind everything else is listed behind it. -/
theorem mergeByOffset_append
    (h : ∀ x ∈ facts ++ others, ∀ y ∈ facts' ++ others', x.1 < y.1) :
    mergeByOffset (facts ++ facts') (others ++ others') =
      mergeByOffset facts others ++ mergeByOffset facts' others' := by
  fun_induction mergeByOffset facts others with
  | case1 others =>
    exact mergeByOffset_others fun x hx y hy => h x hx y (List.mem_append_left _ hy)
  | case2 facts hne =>
    refine mergeByOffset_facts fun x hx y hy => h x ?_ y (List.mem_append_right _ hy)
    exact List.mem_append_left _ hx
  | case3 p g facts q k others hpq ih =>
    rw [List.cons_append, List.cons_append, mergeByOffset, if_pos hpq, List.cons_append]
    exact congrArg _ (ih fun x hx => h x (List.mem_cons_of_mem _ hx))
  | case4 p g facts q k others hpq ih =>
    rw [List.cons_append, List.cons_append, mergeByOffset, if_neg hpq, List.cons_append]
    refine congrArg _ (ih fun x hx => h x ?_)
    simp only [List.mem_append, List.mem_cons] at hx ⊢
    tauto

end ComponentRegistry.Outline
