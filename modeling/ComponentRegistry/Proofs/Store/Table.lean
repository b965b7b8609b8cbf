import Mathlib.Data.List.Nodup
import ComponentRegistry.Proofs.Store.Columns
import ComponentRegistry.Proofs.Store.Running

/-! # Tables of entries

A table as the store keeps it, and what a conditional update does to it: the row of an entry that
has the expected version takes the patched entry, and otherwise nothing happens.
-/

namespace ComponentRegistry

theorem map_eq_self {f : α → α} {items : List α} (h : ∀ a ∈ items, f a = a) :
    items.map f = items := by
  rw [List.map_congr_left (g := id) h, List.map_id]

section OneMatch

variable {q : α → Bool} {front back : List α} {a : α}

theorem filter_eq_singleton (ha : q a = true) (h : ∀ b ∈ front ++ back, q b = false) :
    (front ++ a :: back).filter q = [a] := by
  rw [List.filter_append, List.filter_cons_of_pos ha, ← List.singleton_append, ← List.append_assoc]
  rw [List.filter_eq_nil_iff.2 fun b hb => by simp [h b (List.mem_append_left back hb)],
    List.filter_eq_nil_iff.2 fun b hb => by simp [h b (List.mem_append_right front hb)]]
  rfl

theorem map_ite_eq (f : α → α) (ha : q a = true) (h : ∀ b ∈ front ++ back, q b = false) :
    (front ++ a :: back).map (fun b => if q b then f b else b) = front ++ f a :: back := by
  rw [List.map_append, List.map_cons, if_pos ha,
    map_eq_self fun b hb => if_neg (by simp [h b (List.mem_append_left back hb)]),
    map_eq_self fun b hb => if_neg (by simp [h b (List.mem_append_right front hb)])]

end OneMatch

namespace TableStore

/-- Every row holds an entry, and no two rows have the same address. -/
structure WellFormed (t : TableStore) : Prop where
  encoded : ∀ r ∈ t.rows, Row.ofEntry r.entry = r
  keyed : (t.rows.map Row.identifier).Nodup

/-- The table with an entry in the row that has its address. -/
def replace (t : TableStore) (e : Entry) : TableStore :=
  { t with rows := t.rows.map fun r => if r.identifier = e.identifier then Row.ofEntry e else r }

variable {t : TableStore} {i j : Identifier} {e e' : Entry} {p : EntryPatch} {expected : Int}

/-- Where the row of an entry stands in its table. -/
structure RowAt (t : TableStore) (i : Identifier) (e : Entry) (front back : List Row) : Prop where
  rows : t.rows = front ++ Row.ofEntry e :: back
  address : e.identifier = i
  others : ∀ r ∈ front ++ back, r.identifier ≠ i

theorem exists_rowAt (wf : t.WellFormed) (h : t.entryAt? i = some e) :
    ∃ front back, t.RowAt i e front back := by
  obtain ⟨r, hr, rfl⟩ := Option.map_eq_some_iff.1 h
  have haddress : r.identifier = i := by simpa using List.find?_some hr
  obtain ⟨front, back, hrows⟩ := List.append_of_mem (List.mem_of_find?_eq_some hr)
  have hencoded := wf.encoded r (List.mem_of_find?_eq_some hr)
  have hkeyed := wf.keyed
  rw [hrows, List.map_append, List.map_cons, List.nodup_middle, List.nodup_cons] at hkeyed
  refine ⟨front, back, ⟨by rw [hencoded, hrows], ?_, ?_⟩⟩
  · rw [← Row.identifier_ofEntry, hencoded, haddress]
  · intro s hs same
    apply hkeyed.1
    rw [← List.map_append, haddress, ← same]
    exact List.mem_map_of_mem hs

namespace RowAt

variable {front back : List Row}

theorem ne_front (h : t.RowAt i e front back) {r : Row} (hr : r ∈ front) : r.identifier ≠ i :=
  h.others r (List.mem_append_left back hr)

theorem ne_back (h : t.RowAt i e front back) {r : Row} (hr : r ∈ back) : r.identifier ≠ i :=
  h.others r (List.mem_append_right front hr)

theorem entryAt?_eq (h : t.RowAt i e front back) : t.entryAt? i = some e := by
  have hfront : front.find? (fun r => r.identifier == i) = none := by
    rw [List.find?_eq_none]
    intro r hr
    simpa using h.ne_front hr
  rw [entryAt?, selectRow, h.rows, List.find?_append, hfront]
  simp [h.address]

theorem replace (h : t.RowAt i e front back) (haddress : e'.identifier = i) :
    (t.replace e').RowAt i e' front back where
  rows := by
    have hmap := map_ite_eq (q := fun r : Row => decide (r.identifier = i)) (a := Row.ofEntry e)
      (fun _ => Row.ofEntry e') (decide_eq_true h.address) fun r hr => decide_eq_false (h.others r hr)
    simpa only [TableStore.replace, h.rows, haddress, decide_eq_true_eq] using hmap
  address := haddress
  others := h.others

theorem entryAt?_of_ne (h : t.RowAt i e front back) (hne : j ≠ i) :
    t.entryAt? j = ((front ++ back).find? fun r => r.identifier == j).map Row.entry := by
  have hrow : ((Row.ofEntry e).identifier == j) = false := by
    simpa [h.address] using hne.symm
  rw [entryAt?, selectRow, h.rows, List.find?_append, List.find?_append, List.find?_cons, hrow]

end RowAt

theorem entryAt?_replace (wf : t.WellFormed) (h : t.entryAt? i = some e)
    (haddress : e'.identifier = i) (j : Identifier) :
    (t.replace e').entryAt? j = if j = i then some e' else t.entryAt? j := by
  obtain ⟨front, back, hrow⟩ := exists_rowAt wf h
  split
  · next same => rw [same, (hrow.replace haddress).entryAt?_eq]
  · next hne => rw [(hrow.replace haddress).entryAt?_of_ne hne, hrow.entryAt?_of_ne hne]

theorem WellFormed.replace (wf : t.WellFormed) (e : Entry) : (t.replace e).WellFormed where
  encoded := by
    intro r hr
    obtain ⟨s, hs, rfl⟩ := List.mem_map.1 hr
    split
    · rw [Row.entry_ofEntry]
    · exact wf.encoded s hs
  keyed := by
    have hsame : (t.replace e).rows.map Row.identifier = t.rows.map Row.identifier := by
      rw [TableStore.replace, List.map_map]
      apply List.map_congr_left
      intro r _
      simp only [Function.comp_apply]
      split
      · next same => exact same.symm
      · rfl
    rw [hsame]
    exact wf.keyed

/-- An update that expects another version writes nothing. -/
theorem conditionalUpdate_of_ne (wf : t.WellFormed) (h : t.entryAt? i = some e)
    (stale : (e.version : Int) ≠ expected) (fields : List EntryField) (source : Row) :
    t.conditionalUpdate i expected fields source = (0, t) := by
  obtain ⟨front, back, hrow⟩ := exists_rowAt wf h
  have unmatched : ∀ r ∈ t.rows, (r.identifier == i && (r.version : Int) == expected) = false := by
    intro r hr
    rw [hrow.rows] at hr
    rcases List.mem_append.1 hr with hr | hr
    · simp [hrow.ne_front hr]
    · rcases List.mem_cons.1 hr with rfl | hr
      · simp [stale]
      · simp [hrow.ne_back hr]
  unfold conditionalUpdate
  simp only
  rw [List.filter_eq_nil_iff.2 fun r hr => by simp [unmatched r hr], List.length_nil,
    map_eq_self fun r hr => if_neg (by simp [unmatched r hr])]

/-- An update from an entry that was patched at the version that the row still has writes that one
row, and makes it the row of the patched entry. -/
theorem conditionalUpdate_of_patched (wf : t.WellFormed) (h : t.entryAt? i = some e)
    (hp : e.patched p expected = .ok e') :
    t.conditionalUpdate i expected (patchedFields p) (.ofEntry e') = (1, t.replace e') := by
  obtain ⟨front, back, hrow⟩ := exists_rowAt wf h
  have haddress : e'.identifier = i := (Entry.identifier_of_patched hp).trans hrow.address
  have hversion := (Entry.patched_eq_ok hp).1
  let matching (r : Row) : Bool := r.identifier == i && (r.version : Int) == expected
  have matched : matching (Row.ofEntry e) = true := by
    simp [matching, hrow.address, hversion]
  have unmatched : ∀ r ∈ front ++ back, matching r = false := by
    intro r hr
    simp [matching, hrow.others r hr]
  have hcount := filter_eq_singleton matched unmatched
  have hwritten := map_ite_eq (fun r => r.revised (.ofEntry e') (patchedFields p)) matched unmatched
  rw [Row.revised_ofEntry hp, ← (hrow.replace haddress).rows, ← hrow.rows] at hwritten
  change ((t.rows.filter matching).length, TableStore.mk t.sources _) = _
  rw [hwritten, hrow.rows, hcount]
  rfl

/-- What an update does: it reads the entry, computes the change and writes its columns. -/
theorem run_updateEntry (i : Identifier) (p : EntryPatch) (expected : Int) (t : TableStore) :
    (updateEntry i p expected).run t =
      match t.entryAt? i with
      | none => (refuse (.missingEntry i.text), t)
      | some current =>
        match current.patched p expected with
        | .error e => (.error e, t)
        | .ok updated =>
          let (count, t') := t.conditionalUpdate i expected (patchedFields p) (.ofEntry updated)
          (if count = 0 then refuse (t'.lostUpdate i expected) else .ok updated, t') := by
  unfold updateEntry
  simp only [StoreM.run_bind, StoreM.run_get]
  cases t.entryAt? i with
  | none => rfl
  | some current =>
    simp only [StoreM.run_bind, StoreM.run_lift]
    cases current.patched p expected with
    | error e => rfl
    | ok updated =>
      simp only [StoreM.run_get, StoreM.run_set]
      split <;> rfl

end TableStore

end ComponentRegistry
