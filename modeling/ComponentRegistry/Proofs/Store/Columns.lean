import ComponentRegistry.Proofs.OrderedMap
import ComponentRegistry.Store.Table

/-! # Entries in columns

A row holds its entry: nothing is lost on the way into the columns and back. Writing the columns
that a patch names, from an entry that the patch was applied to, makes the row of that entry.
-/

namespace ComponentRegistry

namespace Value

theorem texts?_strings (items : List String) : (strings items).texts? = some items := by
  unfold strings texts?
  induction items with
  | nil => rfl
  | cons item rest ih =>
    simp only at ih
    simp [List.mapM_cons, string?, ih]

theorem textPairs?_map (pairs : List (String × String)) :
    textPairs? (pairs.map fun (key, value) => (key, .string value)) = some pairs := by
  induction pairs with
  | nil => rfl
  | cons pair rest ih =>
    unfold textPairs? at ih ⊢
    rw [List.map_cons, List.mapM_cons, ih]
    rfl

theorem textMap?_ofTextMap (m : OrderedMap String String) : (ofTextMap m).textMap? = some m := by
  unfold ofTextMap textMap?
  simp only [textPairs?_map, Option.map_some, OrderedMap.ofPairs_pairs]

end Value

namespace Row

@[simp]
theorem entry_ofEntry (e : Entry) : (ofEntry e).entry = e := by
  simp [ofEntry, entry, Value.texts?_strings, Value.textMap?_ofTextMap]

@[simp]
theorem identifier_ofEntry (e : Entry) : (ofEntry e).identifier = e.identifier := rfl

@[simp]
theorem version_ofEntry (e : Entry) : (ofEntry e).version = e.version := rfl

/-- What stands in a column that may change. -/
def column (r : Row) : EntryField → Value
  | .name => .string r.name
  | .registry => .string r.registry
  | .codeRef => .string r.codeRef
  | .demoRef => .string r.demoRef
  | .exportedNames => r.exportedNames
  | .demoExportName => .string r.demoExportName
  | .external => r.external
  | .demoExternal => r.demoExternal
  | .internal => r.internal
  | .description => (r.description.map Value.string).getD .null

theorem ext_columns {r s : Row} (owner : r.owner = s.owner) (slug : r.slug = s.slug)
    (version : r.version = s.version) (columns : ∀ field, r.column field = s.column field) :
    r = s := by
  have hname := columns .name
  have hregistry := columns .registry
  have hcode := columns .codeRef
  have hdemo := columns .demoRef
  have hnames := columns .exportedNames
  have hrender := columns .demoExportName
  have hexternal := columns .external
  have hdemoExternal := columns .demoExternal
  have hinternal := columns .internal
  have hdescription : r.description = s.description := by
    have := columns .description
    unfold column at this
    cases hr : r.description <;> cases hs : s.description <;> simp_all
  obtain ⟨⟩ := r
  obtain ⟨⟩ := s
  simp_all [column]

variable (source target : Row)

theorem column_assign (field other : EntryField) :
    (assign source target field).column other =
      if other = field then source.column other else target.column other := by
  cases field <;> cases other <;> rfl

theorem column_foldl_assign (fields : List EntryField) (other : EntryField) :
    (fields.foldl (assign source) target).column other =
      if other ∈ fields then source.column other else target.column other := by
  induction fields generalizing target with
  | nil => simp
  | cons field rest ih =>
    rw [List.foldl_cons, ih, column_assign]
    by_cases hrest : other ∈ rest
    · simp [hrest]
    · simp [hrest]

theorem address_foldl_assign (fields : List EntryField) :
    (fields.foldl (assign source) target).owner = target.owner ∧
      (fields.foldl (assign source) target).slug = target.slug := by
  induction fields generalizing target with
  | nil => exact ⟨rfl, rfl⟩
  | cons field rest ih =>
    rw [List.foldl_cons, (ih _).1, (ih _).2]
    cases field <;> exact ⟨rfl, rfl⟩

end Row

namespace EntryChange

/-- The field that a change changes. -/
def field : EntryChange → EntryField
  | name _ => .name
  | registry _ => .registry
  | codeRef _ => .codeRef
  | demoRef _ => .demoRef
  | exportedNames _ => .exportedNames
  | demoExportName _ => .demoExportName
  | external _ => .external
  | demoExternal _ => .demoExternal
  | internal _ => .internal
  | description _ => .description

theorem field_of_ofValue? {f : EntryField} {value : Value} {c : EntryChange}
    (h : ofValue? f value = some c) : c.field = f := by
  cases f <;> obtain ⟨a, -, rfl⟩ := Option.map_eq_some_iff.1 h <;> rfl

theorem column_apply_of_ne (e : Entry) (c : EntryChange) {f : EntryField} (h : c.field ≠ f) :
    (Row.ofEntry (apply e c)).column f = (Row.ofEntry e).column f := by
  cases c <;> cases f <;> first | rfl | exact absurd rfl h

theorem column_foldl_apply (e : Entry) (changes : List EntryChange) {f : EntryField}
    (h : ∀ c ∈ changes, c.field ≠ f) :
    (Row.ofEntry (changes.foldl apply e)).column f = (Row.ofEntry e).column f := by
  induction changes generalizing e with
  | nil => rfl
  | cons c rest ih =>
    rw [List.foldl_cons, ih _ fun d hd => h d (List.mem_cons_of_mem c hd),
      column_apply_of_ne e c (h c List.mem_cons_self)]

theorem identifier_foldl_apply (e : Entry) (changes : List EntryChange) :
    (changes.foldl apply e).identifier = e.identifier := by
  induction changes generalizing e with
  | nil => rfl
  | cons c rest ih =>
    rw [List.foldl_cons, ih]
    cases c <;> rfl

end EntryChange

namespace EntryField

theorem mem_all (f : EntryField) : f ∈ all := by
  cases f <;> decide

theorem key_of_ofKey? {key : String} {f : EntryField} (h : ofKey? key = some f) : f.key = key := by
  simpa using List.find?_some h

end EntryField

namespace EntryPatch

/-- The change that one pair of a patch calls for. -/
def change? (pair : String × Value) : Option EntryChange :=
  (EntryField.ofKey? pair.1).bind fun field => EntryChange.ofValue? field pair.2

theorem changes?_eq_mapM (p : EntryPatch) : p.changes? = p.pairs.mapM change? := rfl

theorem key_of_change? {pair : String × Value} {c : EntryChange} (h : change? pair = some c) :
    c.field.key = pair.1 := by
  obtain ⟨f, hf, hvalue⟩ := Option.bind_eq_some_iff.1 h
  rw [EntryChange.field_of_ofValue? hvalue, EntryField.key_of_ofKey? hf]

variable {pairs : List (String × Value)} {changes : List EntryChange}

theorem mapM_change?_cons {pair : String × Value}
    (h : (pair :: pairs).mapM change? = some changes) :
    ∃ c others, change? pair = some c ∧ pairs.mapM change? = some others ∧
      changes = c :: others := by
  rw [List.mapM_cons] at h
  obtain ⟨c, hc, h⟩ := Option.bind_eq_some_iff.1 h
  obtain ⟨others, hothers, h⟩ := Option.bind_eq_some_iff.1 h
  cases h
  exact ⟨c, others, hc, hothers, rfl⟩

theorem mem_keys_of_changes? (h : pairs.mapM change? = some changes) {c : EntryChange}
    (hc : c ∈ changes) : c.field.key ∈ pairs.map Prod.fst := by
  induction pairs generalizing changes with
  | nil =>
    cases h
    cases hc
  | cons pair rest ih =>
    obtain ⟨first, others, hfirst, hothers, rfl⟩ := mapM_change?_cons h
    rcases List.mem_cons.1 hc with rfl | hc
    · rw [key_of_change? hfirst]
      exact List.mem_cons_self
    · exact List.mem_cons_of_mem _ (ih hothers hc)

end EntryPatch

namespace Entry

variable {e e' : Entry} {p : EntryPatch} {expected : Int}

theorem patched_eq_ok (h : e.patched p expected = .ok e') :
    (e.version : Int) = expected ∧ p.fixedNames = [] ∧ p.check = .ok () ∧
      ∃ changes, p.changes? = some changes ∧
        e' = { changes.foldl EntryChange.apply e with version := e.version + 1 } := by
  unfold patched at h
  split at h
  · cases h
  next hversion =>
  split at h
  · cases h
  next hfixed =>
  obtain ⟨⟨⟩, hcheck, h⟩ := bind_eq_ok.1 h
  split at h
  · next changes hchanges =>
    cases h
    exact ⟨Decidable.not_not.1 hversion, by simpa using hfixed, hcheck, changes, hchanges, rfl⟩
  · cases h

theorem version_of_patched (h : e.patched p expected = .ok e') : e'.version = e.version + 1 := by
  obtain ⟨-, -, -, changes, -, rfl⟩ := patched_eq_ok h
  rfl

theorem identifier_of_patched (h : e.patched p expected = .ok e') :
    e'.identifier = e.identifier := by
  obtain ⟨-, -, -, changes, -, rfl⟩ := patched_eq_ok h
  exact EntryChange.identifier_foldl_apply e changes

/-- What a patch leaves alone stands in the same column afterwards. -/
theorem column_of_patched (h : e.patched p expected = .ok e') {f : EntryField}
    (unnamed : f.key ∉ p.keys) : (Row.ofEntry e').column f = (Row.ofEntry e).column f := by
  obtain ⟨-, -, -, changes, hchanges, rfl⟩ := patched_eq_ok h
  refine Eq.trans ?_ (EntryChange.column_foldl_apply e changes fun c hc same => ?_)
  · cases f <;> rfl
  · exact unnamed (same ▸ EntryPatch.mem_keys_of_changes? hchanges hc)

end Entry

/-- The columns that a patch names, taken from the patched entry, make up its row. -/
theorem Row.revised_ofEntry {e e' : Entry} {p : EntryPatch} {expected : Int}
    (h : e.patched p expected = .ok e') :
    (ofEntry e).revised (ofEntry e') (TableStore.patchedFields p) = ofEntry e' := by
  obtain ⟨howner, hslug⟩ := address_foldl_assign (ofEntry e') (ofEntry e) (TableStore.patchedFields p)
  have haddress := Identifier.mk.inj (Entry.identifier_of_patched h)
  apply ext_columns
  · exact howner.trans haddress.1.symm
  · exact hslug.trans haddress.2.symm
  · exact (Entry.version_of_patched h).symm
  · intro f
    have hcolumn := column_foldl_assign (ofEntry e') (ofEntry e) (TableStore.patchedFields p) f
    have hsame : ((ofEntry e).revised (ofEntry e') (TableStore.patchedFields p)).column f =
        ((TableStore.patchedFields p).foldl (assign (ofEntry e')) (ofEntry e)).column f := by
      cases f <;> rfl
    rw [hsame, hcolumn]
    split
    · rfl
    · next unnamed =>
      symm
      apply Entry.column_of_patched h
      intro hkey
      apply unnamed
      exact List.mem_filter.2 ⟨EntryField.mem_all f, by simpa [OrderedMap.contains] using hkey⟩

end ComponentRegistry
