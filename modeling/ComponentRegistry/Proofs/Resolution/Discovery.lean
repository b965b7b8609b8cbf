import Mathlib.Data.List.Basic
import Mathlib.Data.List.Induction
import ComponentRegistry.Proofs.Distinct

/-! # Orders of discovery

What can be reached from some seeds, and the order in which a search comes upon it that looks at
one item after the other: the seeds, then what each item leads to. Such an order goes by distance.
-/

namespace ComponentRegistry

section Reaching

variable {seeds : List α} {successors : α → List α}

/-- What is a number of steps away from some seeds. -/
inductive ReachedIn (seeds : List α) (successors : α → List α) : Nat → α → Prop where
  /-- The seeds themselves. -/
  | seed : a ∈ seeds → ReachedIn seeds successors 0 a
  /-- What something leads to. -/
  | step : ReachedIn seeds successors n a → b ∈ successors a → ReachedIn seeds successors (n + 1) b

/-- What can be reached from some seeds. -/
def Reached (seeds : List α) (successors : α → List α) (a : α) : Prop :=
  ∃ n, ReachedIn seeds successors n a

theorem Reached.seed {a : α} (h : a ∈ seeds) : Reached seeds successors a := ⟨0, .seed h⟩

theorem Reached.step {a b : α} (h : Reached seeds successors a) (hb : b ∈ successors a) :
    Reached seeds successors b :=
  h.elim fun n h => ⟨n + 1, h.step hb⟩

theorem Reached.mono {seeds' : List α} {a : α} (h : Reached seeds successors a)
    (sub : ∀ s ∈ seeds, s ∈ seeds') : Reached seeds' successors a := by
  obtain ⟨n, h⟩ := h
  induction h with
  | seed h => exact .seed (sub _ h)
  | step _ hb ih => exact ih.step hb

theorem Reached.of_extra_seeds {root : α} {more : List α}
    (extra : ∀ b ∈ more, b ∈ successors root) {a : α}
    (h : Reached (root :: more) successors a) : Reached [root] successors a := by
  obtain ⟨n, h⟩ := h
  have start : Reached [root] successors root := .seed (List.mem_singleton_self root)
  induction h with
  | seed hs =>
    rcases List.mem_cons.1 hs with rfl | hs
    · exact start
    · exact start.step (extra _ hs)
  | step _ hb ih => exact ih.step hb

/-- Items that hold the seeds and all that they lead to hold everything that can be reached. -/
theorem Reached.mem_of_closed {items : List α}
    (closed : ∀ a ∈ seeds ++ items.flatMap successors, a ∈ items) {a : α}
    (reached : Reached seeds successors a) : a ∈ items := by
  obtain ⟨n, reached⟩ := reached
  induction reached with
  | seed ha => exact closed _ (List.mem_append_left _ ha)
  | step _ hb ih => exact closed _ (List.mem_append_right _ (List.mem_flatMap.2 ⟨_, ih, hb⟩))

variable [DecidableEq α] {order : List α}

/-- The order in which a search comes upon what it can reach: each item stands where it first
occurs in the seeds, followed by what the items of the order lead to, one after the other. -/
structure DiscoveryOrder (seeds : List α) (successors : α → List α) (order : List α) : Prop where
  sound : ∀ a ∈ order, Reached seeds successors a
  inTurn : order = firstOccurrences (seeds ++ order.flatMap successors)

namespace DiscoveryOrder

theorem mem_iff (h : DiscoveryOrder seeds successors order) {a : α} :
    a ∈ order ↔ Reached seeds successors a := by
  refine ⟨h.sound a, fun reached => ?_⟩
  obtain ⟨n, reached⟩ := reached
  induction reached with
  | seed ha =>
    rw [h.inTurn, mem_firstOccurrences]
    exact List.mem_append_left _ ha
  | step _ hb ih =>
    rw [h.inTurn, mem_firstOccurrences]
    exact List.mem_append_right _ (List.mem_flatMap.2 ⟨_, ih, hb⟩)

/-- Whatever stands in front of an item is not farther from the seeds. -/
theorem reachedIn_of_before (h : DiscoveryOrder seeds successors order) {n : Nat} {a b : α}
    (hb : ReachedIn seeds successors n b) {front back : List α} (split : order = front ++ b :: back)
    (ha : a ∈ front) : ∃ m ≤ n, ReachedIn seeds successors m a := by
  induction hb generalizing a front back with
  | @seed b hb =>
    obtain ⟨s, t, hs⟩ := List.append_of_mem hb
    have hturn : firstOccurrences (s ++ b :: (t ++ order.flatMap successors)) =
        front ++ b :: back := by
      rw [← split]
      conv_rhs => rw [h.inTurn, hs]
      simp
    have := mem_of_firstOccurrences_eq hturn ha
    exact ⟨0, Nat.le_refl 0, .seed (by simp [hs, this])⟩
  | @step n p b hp hb ih =>
    obtain ⟨before, after, hbefore⟩ := List.append_of_mem (h.mem_iff.2 ⟨n, hp⟩)
    obtain ⟨s, t, hs⟩ := List.append_of_mem hb
    have hturn : firstOccurrences ((seeds ++ before.flatMap successors ++ s) ++
        b :: (t ++ after.flatMap successors)) = front ++ b :: back := by
      rw [← split]
      conv_rhs => rw [h.inTurn, hbefore]
      simp [hs]
    rcases List.mem_append.1 (mem_of_firstOccurrences_eq hturn ha) with ha | ha
    · rcases List.mem_append.1 ha with ha | ha
      · exact ⟨0, Nat.zero_le _, .seed ha⟩
      · obtain ⟨q, hq, ha⟩ := List.mem_flatMap.1 ha
        obtain ⟨m, hm, hreach⟩ := ih hbefore hq
        exact ⟨m + 1, Nat.succ_le_succ hm, hreach.step ha⟩
    · exact ⟨n + 1, Nat.le_refl _, hp.step (by simp [hs, ha])⟩

theorem breadthFirst (h : DiscoveryOrder seeds successors order) :
    order.Pairwise fun a b =>
      ∀ n, ReachedIn seeds successors n b → ∃ m ≤ n, ReachedIn seeds successors m a := by
  rw [List.pairwise_iff_getElem]
  intro i j hi hj hij n hb
  have split : order = order.take j ++ order[j] :: order.drop (j + 1) := by simp
  exact h.reachedIn_of_before hb split (List.mem_take_iff_getElem.2 ⟨i, by omega, rfl⟩)

/-- An order goes on, after any part it starts with, with what that part leads to. -/
theorem isPrefix_expanded (h : DiscoveryOrder seeds successors order) {front : List α}
    (start : front <+: order) :
    firstOccurrences (seeds ++ front.flatMap successors) <+: order := by
  obtain ⟨back, rfl⟩ := start
  have turn := h.inTurn
  rw [List.flatMap_append, ← List.append_assoc, firstOccurrences_append] at turn
  rw [turn]
  exact List.prefix_append _ _

theorem isPrefix_of_isPrefix {order' : List α} (h : DiscoveryOrder seeds successors order)
    (h' : DiscoveryOrder seeds successors order') (front : List α) (start : front <+: order) :
    front <+: order' := by
  induction front using List.reverseRecOn with
  | nil => exact List.nil_prefix
  | append_singleton front a ih =>
    have shorter : front <+: order := (List.prefix_append front [a]).trans start
    have expanded := h.isPrefix_expanded shorter
    have expanded' := h'.isPrefix_expanded (ih shorter)
    rcases List.prefix_or_prefix_of_prefix start expanded with within | within
    · exact within.trans expanded'
    · rcases List.prefix_concat_iff.1 within with whole | closed
      · rwa [← whole]
      · -- Nothing is left to come upon after `front`, so `a` cannot be new.
        have mem : a ∈ front := by
          refine (h.sound a (start.subset (by simp))).mem_of_closed ?_
          intro b hb
          exact closed.subset (mem_firstOccurrences.2 hb)
        have distinct : order.Nodup := by
          rw [h.inTurn]
          exact nodup_firstOccurrences _
        have again := distinct.sublist start.sublist
        rw [List.nodup_append] at again
        exact absurd rfl (again.2.2 a mem a (by simp))

/-- There is only one order of discovery. -/
theorem unique {order' : List α} (h : DiscoveryOrder seeds successors order)
    (h' : DiscoveryOrder seeds successors order') : order = order' :=
  (isPrefix_of_isPrefix h h' order (List.prefix_refl _)).eq_of_length_le
    (isPrefix_of_isPrefix h' h order' (List.prefix_refl _)).length_le

theorem exists_eq_cons {root : α} {more : List α}
    (h : DiscoveryOrder (root :: more) successors order) : ∃ rest, order = root :: rest :=
  ⟨_, h.inTurn⟩

/-- Seeds that the first seed leads to anyway do not change the order. -/
theorem of_extra_seeds {root : α}
    (h : DiscoveryOrder (root :: firstOccurrences (successors root)) successors order) :
    DiscoveryOrder [root] successors order := by
  obtain ⟨rest, rfl⟩ := h.exists_eq_cons
  refine ⟨?_, ?_⟩
  · intro a ha
    exact (h.sound a ha).of_extra_seeds fun b hb => mem_firstOccurrences.1 hb
  · have turn := h.inTurn
    rw [List.flatMap_cons, List.cons_append, firstOccurrences, firstOccurrences_again] at turn
    rwa [List.flatMap_cons, List.singleton_append, firstOccurrences]

end DiscoveryOrder

/-- A round-by-round search: the items of a round are looked at together. What was seen before a
round, with what is new in it, is what was seen before the next one. -/
theorem firstOccurrences_round {done round : List α}
    (seen : done ++ round = firstOccurrences (seeds ++ done.flatMap successors)) :
    (done ++ round) ++ (firstOccurrences (round.flatMap successors)).filter (· ∉ done ++ round) =
      firstOccurrences (seeds ++ (done ++ round).flatMap successors) := by
  have mem : ∀ a, a ∈ done ++ round ↔ a ∈ seeds ++ done.flatMap successors := by
    intro a
    rw [seen, mem_firstOccurrences]
  rw [List.flatMap_append, ← List.append_assoc seeds, firstOccurrences_append, ← seen]
  congr 1
  apply List.filter_congr
  intro a _
  rw [decide_eq_decide, not_iff_not]
  exact mem a

end Reaching

end ComponentRegistry
