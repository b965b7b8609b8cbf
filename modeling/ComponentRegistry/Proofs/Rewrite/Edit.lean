import Mathlib.Data.List.Sort
import ComponentRegistry.Proofs.Lexing.Exchange
import ComponentRegistry.Rewrite.Edit

/-! # Edits from the back to the front

Edits in the order of the text are made one after the other, from the last to the first. Each leaves
the text in front of it as it is, and what it removes behind a token ends in front of the next.
-/

namespace ComponentRegistry

open Lexer

namespace Edit

variable {e : Edit} {edits ordered rest : List Edit}

/-- Whether an edit does not start in front of another one. -/
def StartsFrom (e f : Edit) : Prop := f.start ≤ e.start

instance : DecidableRel StartsFrom := fun e f => Nat.decLe f.start e.start

instance : IsTrans Edit StartsFrom := ⟨fun _ _ _ hef hfg => Nat.le_trans hfg hef⟩

instance : Std.Total StartsFrom := ⟨fun e f => Nat.le_total f.start e.start⟩

theorem place_eq_orderedInsert (e : Edit) (edits : List Edit) :
    place e edits = edits.orderedInsert StartsFrom e := by
  induction edits with
  | nil => rfl
  | cons f rest ih =>
    rw [place, ih]
    rfl

theorem backToFront_eq_insertionSort (edits : List Edit) :
    backToFront edits = edits.insertionSort StartsFrom := by
  induction edits with
  | nil => rfl
  | cons e rest ih => rw [backToFront, List.foldr_cons, ← backToFront, ih, place_eq_orderedInsert,
      List.insertionSort_cons]

theorem backToFront_perm (edits : List Edit) : (backToFront edits).Perm edits := by
  rw [backToFront_eq_insertionSort]
  exact List.perm_insertionSort _ _

theorem pairwise_backToFront (edits : List Edit) : (backToFront edits).Pairwise StartsFrom := by
  rw [backToFront_eq_insertionSort]
  exact List.pairwise_insertionSort _ _

/-- Edits that start in different places have one order in which they are made. -/
theorem eq_backToFront (hdistinct : edits.Pairwise fun e f => e.start ≠ f.start)
    (hperm : ordered.Perm edits) (hsorted : ordered.Pairwise StartsFrom) :
    ordered = backToFront edits := by
  have hinjective : ∀ e ∈ edits, ∀ f ∈ edits, e.start = f.start → e = f :=
    List.inj_on_of_nodup_map (List.pairwise_map.2 hdistinct)
  have hmade := backToFront_perm edits
  apply List.Perm.eq_of_pairwise ?_ hsorted (pairwise_backToFront edits) (hperm.trans hmade.symm)
  intro e f he hf hef hfe
  exact hinjective e (hperm.mem_iff.1 he) f (hmade.mem_iff.1 hf) (Nat.le_antisymm hfe hef)

/-- Edits that are listed in the order of the text are made from the last to the first. -/
theorem backToFront_eq_reverse (h : edits.Pairwise fun e f => e.start < f.start) :
    backToFront edits = edits.reverse := by
  refine (eq_backToFront (h.imp Nat.ne_of_lt) edits.reverse_perm ?_).symm
  exact List.pairwise_reverse.2 (h.imp Nat.le_of_lt)

theorem applyAll_cons (text : List Char)
    (h : (e :: rest).Pairwise fun e f => e.start < f.start) :
    applyAll text (e :: rest) = apply (applyAll text rest) e := by
  unfold applyAll
  rw [backToFront_eq_reverse h, backToFront_eq_reverse h.of_cons, List.reverse_cons,
    List.foldl_append]
  rfl

/-- An edit leaves the text in front of it as it is. -/
theorem take_apply {text : List Char} (h : e.start ≤ text.length) :
    (e.apply text).take e.start = text.take e.start := by
  rw [apply, List.append_assoc, List.take_append_of_le_length (by simp; omega), List.take_take,
    Nat.min_self]

end Edit

/-- A stretch of a text is the same in every text that begins alike. -/
theorem prefix_drop_of_take {text text' piece : List Char} {k x : Nat}
    (h : piece <+: text.drop k) (hx : k + piece.length ≤ x) (same : text'.take x = text.take x) :
    piece <+: text'.drop k := by
  have inside : (text.drop k).take piece.length = piece := (List.prefix_iff_eq_take.1 h).symm
  have cut : ∀ t : List Char, (t.drop k).take piece.length =
      ((t.take x).drop k).take piece.length := by
    intro t
    rw [List.drop_take, List.take_take, Nat.min_eq_left (by omega)]
  rw [cut, ← same, ← cut] at inside
  rw [← inside]
  exact List.take_prefix _ _

namespace TokenStream

variable {text : List Char} {s : TokenStream} {u : Token}

/-- No token begins with a blank. -/
theorem exists_char {u : Token} (hs : tokenize text = .ok s) (hu : u ∈ s.tokens) :
    ∃ c rest, text.drop u.start.offset = c :: rest ∧ Lexeme.isSpace c = false := by
  obtain ⟨⟨q, reads⟩, -⟩ := reads_of_tokenize hs
  obtain ⟨before, behind, cut⟩ := List.append_of_mem hu
  rw [cut] at reads
  obtain ⟨m, c, rest, st, hfront, hrest, hstep, htoken, -⟩ := reads.cut
  have place := hfront.place.1
  have start := (Step.stop_token hstep htoken).1
  refine ⟨c, rest, by rw [start, ← place, hrest], ?_⟩
  by_contra blank
  rw [Bool.not_eq_false] at blank
  rw [step_eq, if_pos blank] at hstep
  cases hstep
  cases htoken

theorem start_lt_length (hs : tokenize text = .ok s) (hu : u ∈ s.tokens) :
    u.start.offset < text.length := by
  obtain ⟨c, rest, char, -⟩ := exists_char hs hu
  by_contra outside
  rw [List.drop_eq_nil_of_le (by omega)] at char
  cases char

theorem stop_le_length (hs : tokenize text = .ok s) (hu : u ∈ s.tokens) :
    u.stop ≤ text.length := by
  obtain ⟨⟨q, reads⟩, finish⟩ := reads_of_tokenize hs
  have inside : u.stop ≤ s.finish.offset := (reads.ordered.2 u hu).2.2
  rwa [finish, Position.offset_advance, Position.start, Nat.zero_add] at inside

/-- Blanks end in front of every token that does not begin before them. -/
theorem add_length_le {blanks : List Char} {k : Nat} (hs : tokenize text = .ok s)
    (hu : u ∈ s.tokens) (hle : k ≤ u.start.offset) (first : blanks <+: text.drop k)
    (blank : ∀ c ∈ blanks, Lexeme.isSpace c = true) : k + blanks.length ≤ u.start.offset := by
  obtain ⟨rest, whole⟩ := first
  obtain ⟨c, more, start, solid⟩ := exists_char hs hu
  by_contra short
  obtain ⟨j, hj⟩ := Nat.exists_eq_add_of_le hle
  have inside : j < blanks.length := by omega
  have behind := congrArg (List.drop j) whole
  rw [List.drop_append_of_le_length (Nat.le_of_lt inside), List.drop_drop, ← hj, start,
    List.drop_eq_getElem_cons inside] at behind
  have first : blanks[j] = c := (List.cons.inj behind).1
  have := blank _ (List.getElem_mem inside)
  rw [first, solid] at this
  cases this

end TokenStream

end ComponentRegistry
