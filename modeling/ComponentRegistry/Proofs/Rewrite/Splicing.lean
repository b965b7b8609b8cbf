import ComponentRegistry.Proofs.Lexing.Losslessness
import ComponentRegistry.Proofs.Rewrite.Edit

/-! # Edits as a splice

Edits that do not overlap leave everything between them as it is, in whatever order they are listed.
What they make of a text is told by one walk from its front to its back.
-/

namespace ComponentRegistry

namespace Edit

open Lexer

variable {text : List Char} {k : Nat} {e : Edit} {edits ordered rest : List Edit}

/-- A text from an offset on, with edits made that are listed in its order. -/
def splice (text : List Char) (k : Nat) : List Edit → List Char
  | [] => text.drop k
  | e :: rest => slice text k e.start ++ (e.replacement ++ splice text e.stop rest)

/-- Edits that can be made at once: their stretches lie in the text and start in different places, and
of any two of them one ends where the other starts, or in front of it. -/
structure Separate (text : List Char) (edits : List Edit) : Prop where
  inside : ∀ e ∈ edits, e.start ≤ e.stop ∧ e.stop ≤ text.length
  distinct : edits.Pairwise fun e f => e.start ≠ f.start
  disjoint : edits.Pairwise fun e f => e.stop ≤ f.start ∨ f.stop ≤ e.start

theorem Separate.of_perm (h : Separate text edits) (hperm : ordered.Perm edits) :
    Separate text ordered where
  inside e he := h.inside e (hperm.mem_iff.1 he)
  distinct := (hperm.pairwise_iff Ne.symm).2 h.distinct
  disjoint := (hperm.pairwise_iff Or.symm).2 h.disjoint

theorem Separate.of_cons (h : Separate text (e :: rest)) : Separate text rest where
  inside f hf := h.inside f (List.mem_cons_of_mem e hf)
  distinct := h.distinct.of_cons
  disjoint := h.disjoint.of_cons

/-- An edit ends in front of those that start behind it. -/
theorem Separate.stop_le_start (h : Separate text (e :: rest))
    (hsorted : ∀ f ∈ rest, e.start < f.start) : ∀ f ∈ rest, e.stop ≤ f.start := by
  intro f hf
  have hstart := hsorted f hf
  have hstop := (h.inside f (List.mem_cons_of_mem e hf)).1
  rcases (List.pairwise_cons.1 h.disjoint).1 f hf with hfront | hback
  · exact hfront
  · omega

/-- Edits behind an offset leave the text up to it as it is. -/
theorem Separate.applyAll_eq (h : Separate text edits)
    (hsorted : edits.Pairwise fun e f => e.start < f.start) (hle : ∀ e ∈ edits, k ≤ e.start) :
    applyAll text edits = text.take k ++ splice text k edits := by
  induction edits generalizing k with
  | nil => exact (List.take_append_drop k text).symm
  | cons e rest ih =>
    obtain ⟨hfirst, hlater⟩ := List.pairwise_cons.1 hsorted
    obtain ⟨hlong, hinside⟩ := h.inside e List.mem_cons_self
    have hfront : k ≤ e.start := hle e List.mem_cons_self
    have hstays : (text.take e.stop).length = e.stop := by simp [hinside]
    -- the edits behind this one leave the stretch that it replaces as it is
    have hbehind := ih h.of_cons hlater (h.stop_le_start hfirst)
    calc applyAll text (e :: rest)
        = apply (text.take e.stop ++ splice text e.stop rest) e := by
          rw [applyAll_cons text hsorted, hbehind]
      _ = text.take e.start ++ (e.replacement ++ splice text e.stop rest) := by
          rw [apply, List.take_append_of_le_length (by omega), List.take_take,
            Nat.min_eq_left hlong, List.drop_left' hstays, List.append_assoc]
      _ = text.take k ++ splice text k (e :: rest) := by
          rw [splice, ← List.append_assoc (text.take k), take_append_slice text hfront]

/-- Edits that can be made at once are made in one order, however they are listed. -/
theorem Separate.applyAll_eq_splice (h : Separate text edits) (hperm : ordered.Perm edits)
    (hsorted : ordered.Pairwise fun e f => e.start < f.start) :
    applyAll text edits = splice text 0 ordered := by
  have hsame : backToFront ordered = backToFront edits :=
    eq_backToFront h.distinct ((backToFront_perm ordered).trans hperm)
      (pairwise_backToFront ordered)
  have hordered := (h.of_perm hperm).applyAll_eq hsorted fun e _ => Nat.zero_le e.start
  rw [List.take_zero, List.nil_append] at hordered
  rw [applyAll, ← hsame, ← applyAll, hordered]

/-- Edits that can be made at once have an order in the text. -/
theorem Separate.exists_ordered (h : Separate text edits) :
    ∃ ordered : List Edit, ordered.Perm edits ∧
      ordered.Pairwise fun e f => e.start < f.start := by
  have hperm := backToFront_perm edits
  refine ⟨(backToFront edits).reverse, (List.reverse_perm _).trans hperm, ?_⟩
  rw [List.pairwise_reverse]
  have hdistinct := (h.of_perm hperm).distinct
  exact ((pairwise_backToFront edits).and hdistinct).imp fun ⟨hle, hne⟩ =>
    lt_of_le_of_ne hle (Ne.symm hne)

/-- Edits from an offset on that are listed in the order of a text and do not overlap. -/
def InOrder (text : List Char) (k : Nat) : List Edit → Prop
  | [] => k ≤ text.length
  | e :: rest => k ≤ e.start ∧ e.start < e.stop ∧ InOrder text e.stop rest

theorem InOrder.le_length (h : InOrder text k edits) : k ≤ text.length := by
  induction edits generalizing k with
  | nil => exact h
  | cons e rest ih =>
    obtain ⟨front, long, others⟩ := h
    have := ih others
    omega

theorem InOrder.le_start (h : InOrder text k edits) : ∀ e ∈ edits, k ≤ e.start := by
  induction edits generalizing k with
  | nil => simp
  | cons e rest ih =>
    obtain ⟨front, long, others⟩ := h
    refine List.forall_mem_cons.2 ⟨front, fun f hf => ?_⟩
    have := ih others f hf
    omega

theorem InOrder.pairwise (h : InOrder text k edits) :
    edits.Pairwise fun e f => e.start < f.start := by
  induction edits generalizing k with
  | nil => exact .nil
  | cons e rest ih =>
    obtain ⟨front, long, others⟩ := h
    exact List.pairwise_cons.2 ⟨fun f hf => long.trans_le (others.le_start f hf), ih others⟩

/-- Edits in the order of a text can be made at once. -/
theorem InOrder.separate (h : InOrder text k edits) : Separate text edits := by
  induction edits generalizing k with
  | nil => exact ⟨by simp, .nil, .nil⟩
  | cons e rest ih =>
    obtain ⟨front, long, others⟩ := h
    have later := ih others
    have behind := others.le_start
    refine ⟨List.forall_mem_cons.2 ⟨⟨long.le, others.le_length⟩, later.inside⟩,
      List.pairwise_cons.2 ⟨fun f hf => ?_, later.distinct⟩,
      List.pairwise_cons.2 ⟨fun f hf => .inl (behind f hf), later.disjoint⟩⟩
    exact Nat.ne_of_lt (long.trans_le (behind f hf))

/-- What edits make of a whole text. -/
theorem InOrder.applyAll_eq_splice (h : InOrder text 0 edits) :
    applyAll text edits = splice text 0 edits :=
  h.separate.applyAll_eq_splice (List.Perm.refl edits) h.pairwise

end Edit

end ComponentRegistry
