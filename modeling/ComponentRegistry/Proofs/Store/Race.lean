import ComponentRegistry.Proofs.Store.Table
import ComponentRegistry.Store.Race

/-! # No update is lost

However the steps of racing updates are interleaved, those that succeed form a succession: each was
computed from the very entry that the one before it has left. What carries this is that the version
of an entry says which of them it is, so a write that finds the expected version finds the entry
that was read.
-/

namespace ComponentRegistry

section Succession

variable {ι : Type} (calls : ι → UpdateCall)

/-- Calls with their entries, each of them made from the entry of the one before it. -/
inductive Succession : Entry → List (ι × Entry) → Entry → Prop where
  /-- Nothing has changed. -/
  | refl : Succession e [] e
  /-- The entry is changed by a call and then by others. -/
  | step : e.patched (calls k).patch (calls k).expected = .ok e' →
      Succession e' winners last → Succession e ((k, e') :: winners) last

variable {calls} {e last updated : Entry} {winners : List (ι × Entry)} {k : ι}

theorem Succession.snoc (h : Succession calls e winners last)
    (hp : last.patched (calls k).patch (calls k).expected = .ok updated) :
    Succession calls e (winners ++ [(k, updated)]) updated := by
  induction h with
  | refl => exact .step hp .refl
  | step first _ ih => exact .step first (ih hp)

/-- The entries that a succession goes through. -/
def history (e : Entry) (winners : List (ι × Entry)) : List Entry := e :: winners.map Prod.snd

theorem Succession.last_mem (h : Succession calls e winners last) : last ∈ history e winners := by
  induction h with
  | refl => exact List.mem_singleton_self _
  | step _ _ ih => exact List.mem_cons_of_mem _ ih

theorem Succession.versions (h : Succession calls e winners last) :
    (history e winners).map Entry.version = List.range' e.version (winners.length + 1) := by
  induction h with
  | refl => rfl
  | step first _ ih =>
    rw [Entry.version_of_patched first] at ih
    exact congrArg (_ :: ·) ih

/-- The version of an entry says which one of a succession it is. -/
theorem Succession.eq_of_version (h : Succession calls e winners last) {a b : Entry}
    (ha : a ∈ history e winners) (hb : b ∈ history e winners) (same : a.version = b.version) :
    a = b := by
  have distinct : ((history e winners).map Entry.version).Nodup := by
    rw [h.versions]
    exact List.nodup_range'
  exact List.inj_on_of_nodup_map distinct ha hb same

end Succession

namespace Race

/-- A call that nobody interrupts is the update of the store. -/
theorem run_alone (call : UpdateCall) (i : Identifier) (t : TableStore) :
    let race := (start t).run (fun _ : Unit => call) i [(), (), ()]
    let update := (TableStore.updateEntry i call.patch call.expected).run t
    race.table = update.2 ∧ race.state () = .finished update.1 := by
  intro race update
  simp only [race, update, TableStore.run_updateEntry, run, List.foldl_cons, List.foldl_nil]
  cases hread : t.entryAt? i with
  | none => simp [move, start, UpdateCall.step, hread]
  | some current =>
    cases hpatched : current.patched call.patch call.expected with
    | error e => simp [move, start, UpdateCall.step, hread, hpatched]
    | ok updated =>
      by_cases hcount : (t.conditionalUpdate i call.expected
          (TableStore.patchedFields call.patch) (.ofEntry updated)).1 = 0
      · simp [move, start, UpdateCall.step, hread, hpatched, hcount]
      · simp [move, start, UpdateCall.step, hread, hpatched, hcount]

variable {ι : Type} {calls : ι → UpdateCall} {i : Identifier} {t : TableStore} {race : Race ι}
  {e last : Entry} {winners : List (ι × Entry)} {k : ι}

/-- The calls that have succeeded form a succession that ends with the entry in the table, and a
call that is about to write has computed its change from an entry of the succession. -/
structure Serialized (calls : ι → UpdateCall) (i : Identifier) (t : TableStore) (e : Entry)
    (race : Race ι) (winners : List (ι × Entry)) (last : Entry) : Prop where
  succession : Succession calls e winners last
  stored : race.table.entryAt? i = some last
  wellFormed : race.table.WellFormed
  distinct : (winners.map Prod.fst).Nodup
  finished : ∀ k updated, (k, updated) ∈ winners ↔ race.state k = .finished (.ok updated)
  seen : ∀ k updated, race.state k = .computed updated → ∃ read ∈ history e winners,
    read.patched (calls k).patch (calls k).expected = .ok updated
  others : ∀ j, j ≠ i → race.table.entryAt? j = t.entryAt? j
  sources : race.table.sources = t.sources

/-- What a call can do next: write a change of the entry in the table, or something that leaves the
table alone. A change that was computed from an earlier entry finds another version. -/
theorem Serialized.step_cases (h : Serialized calls i t e race winners last) (k : ι) :
    (∃ updated, race.state k = .computed updated ∧
        last.patched (calls k).patch (calls k).expected = .ok updated) ∨
      ∃ s, (calls k).step i race.table (race.state k) = (s, race.table) ∧
        (∀ updated, s = .finished (.ok updated) ↔ race.state k = .finished (.ok updated)) ∧
        ∀ updated, s = .computed updated → ∃ read ∈ history e winners,
          read.patched (calls k).patch (calls k).expected = .ok updated := by
  cases hk : race.state k with
  | waiting =>
    right
    rw [UpdateCall.step, h.stored]
    cases hp : last.patched (calls k).patch (calls k).expected with
    | ok updated =>
      refine ⟨.computed updated, by simp only [hp], by simp, ?_⟩
      rintro _ ⟨⟩
      exact ⟨last, h.succession.last_mem, hp⟩
    | error err => exact ⟨.finished (.error err), by simp only [hp], by simp, by simp⟩
  | computed updated =>
    obtain ⟨read, hread, hp⟩ := h.seen k updated hk
    by_cases hversion : (last.version : Int) = (calls k).expected
    · left
      have same : read = last := by
        apply h.succession.eq_of_version hread h.succession.last_mem
        have := (Entry.patched_eq_ok hp).1
        omega
      exact ⟨updated, rfl, same ▸ hp⟩
    · right
      refine ⟨.missed, ?_, by simp, by simp⟩
      rw [UpdateCall.step, TableStore.conditionalUpdate_of_ne h.wellFormed h.stored hversion]
      rfl
  | missed => exact .inr ⟨_, rfl, by simp [refuse], by simp⟩
  | finished result => exact .inr ⟨_, rfl, by simp, by simp⟩

variable [DecidableEq ι]

/-- A step that writes nothing leaves the succession as it is. -/
theorem Serialized.keep (h : Serialized calls i t e race winners last) {s : CallState}
    (hstep : (calls k).step i race.table (race.state k) = (s, race.table))
    (success : ∀ updated, s = .finished (.ok updated) ↔ race.state k = .finished (.ok updated))
    (seen : ∀ updated, s = .computed updated → ∃ read ∈ history e winners,
      read.patched (calls k).patch (calls k).expected = .ok updated) :
    Serialized calls i t e (race.move calls i k) winners last where
  succession := h.succession
  stored := by rw [move, hstep]; exact h.stored
  wellFormed := by rw [move, hstep]; exact h.wellFormed
  distinct := h.distinct
  finished j updated := by
    rw [move, hstep, h.finished]
    simp only
    split
    · next same => rw [same, success]
    · rfl
  seen j updated hj := by
    rw [move, hstep] at hj
    simp only at hj
    split at hj
    · next same => exact same ▸ seen updated hj
    · exact h.seen j updated hj
  others := by rw [move, hstep]; exact h.others
  sources := by rw [move, hstep]; exact h.sources

/-- A write that finds the expected version carries the succession on. -/
theorem Serialized.extend (h : Serialized calls i t e race winners last) {updated : Entry}
    (hk : race.state k = .computed updated)
    (hp : last.patched (calls k).patch (calls k).expected = .ok updated) :
    (calls k).step i race.table (race.state k) =
        (.finished (.ok updated), race.table.replace updated) ∧
      Serialized calls i t e (race.move calls i k) (winners ++ [(k, updated)]) updated := by
  have hstep : (calls k).step i race.table (race.state k) =
      (.finished (.ok updated), race.table.replace updated) := by
    rw [hk, UpdateCall.step, TableStore.conditionalUpdate_of_patched h.wellFormed h.stored hp]
    rfl
  have haddress : updated.identifier = i := by
    obtain ⟨front, back, hrow⟩ := TableStore.exists_rowAt h.wellFormed h.stored
    exact (Entry.identifier_of_patched hp).trans hrow.address
  have hentry := TableStore.entryAt?_replace h.wellFormed h.stored haddress
  have new : ∀ other, (k, other) ∉ winners := by
    intro other hmem
    have hfinished := (h.finished k other).1 hmem
    rw [hk] at hfinished
    cases hfinished
  refine ⟨hstep, ⟨h.succession.snoc hp, ?_, ?_, ?_, ?_, ?_, ?_, ?_⟩⟩
  · rw [move, hstep, hentry, if_pos rfl]
  · rw [move, hstep]
    exact h.wellFormed.replace updated
  · rw [List.map_append, List.nodup_append]
    refine ⟨h.distinct, List.nodup_singleton _, ?_⟩
    intro a ha b hb same
    obtain ⟨⟨j, other⟩, hmem, rfl⟩ := List.mem_map.1 ha
    simp only [List.map_cons, List.map_nil, List.mem_singleton] at hb
    simp only at same
    rw [hb] at same
    exact new other (same ▸ hmem)
  · intro j other
    rw [move, hstep]
    simp only [List.mem_append, List.mem_singleton, Prod.mk.injEq]
    split
    · next same =>
      subst same
      constructor
      · rintro (hmem | ⟨-, rfl⟩)
        · exact absurd hmem (new other)
        · rfl
      · intro hother
        cases hother
        exact .inr ⟨rfl, rfl⟩
    · next hne =>
      rw [← h.finished]
      exact ⟨fun hmem => hmem.resolve_right fun same => hne same.1, .inl⟩
  · intro j other hj
    rw [move, hstep] at hj
    simp only at hj
    split at hj
    · cases hj
    · obtain ⟨read, hread, hcomputed⟩ := h.seen j other hj
      refine ⟨read, ?_, hcomputed⟩
      rw [history, List.map_append, ← List.cons_append]
      exact List.mem_append_left _ hread
  · intro j hj
    rw [move, hstep, hentry, if_neg hj]
    exact h.others j hj
  · rw [move, hstep]
    exact h.sources

theorem Serialized.move (h : Serialized calls i t e race winners last) (k : ι) :
    ∃ winners' last', Serialized calls i t e (race.move calls i k) winners' last' := by
  rcases h.step_cases k with ⟨updated, hk, hp⟩ | ⟨s, hstep, success, seen⟩
  · exact ⟨_, _, (h.extend hk hp).2⟩
  · exact ⟨_, _, h.keep hstep success seen⟩

end Race

end ComponentRegistry
