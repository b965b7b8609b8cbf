import ComponentRegistry.Proofs.Seam.Basic
import ComponentRegistry.Proofs.Syntax.Survey

/-! # How imports end

An import ends with the name of its module, which is a string of the text, with its attributes and
with a semicolon if there is one.
-/

namespace ComponentRegistry.Cursor

/-- The end of an import that was read from one place up to another. -/
structure EndsImport (c : Cursor) (s : ImportStatement) (n : Cursor) : Prop where
  source : ∃ t ∈ c.ahead, t.kind = .string ∧ s.source = .ofToken t
  last : ∀ t ∈ n.previous, t.kind ≠ .mark .dot ∧ (s.terminated = true → t.kind = .mark .semicolon)
  next : s.terminated = false → n.kind ≠ .mark .semicolon

variable {c c₁ n : Cursor} {s : ImportStatement}

theorem EndsImport.of_reaches (h : EndsImport c₁ s n) (hreach : Reaches c c₁) :
    EndsImport c s n := by
  obtain ⟨t, ht, hsource⟩ := h.source
  exact ⟨⟨t, hreach.suffix.subset ht, hsource⟩, h.last, h.next⟩

/-- The attributes of an import and its semicolon, after its module. -/
theorem endsImport_of_skipAttributes {source : Token} (hmem : source ∈ c.ahead)
    (hkind : source.kind = .string) (hprevious : ∀ t ∈ c₁.previous, t.kind ≠ .mark .dot)
    (hok : c₁.skipAttributes source = .ok n) (hsource : s.source = .ofToken source)
    (hterminated : s.terminated = n.takeSemicolon.1) : EndsImport c s n.takeSemicolon.2 := by
  have hdot : ∀ t ∈ n.previous, t.kind ≠ .mark .dot := by
    unfold skipAttributes at hok
    simp only at hok
    split at hok
    · obtain ⟨⟨brace, c₂⟩, hbrace, hok⟩ := bind_eq_ok.1 hok
      cases hok
      obtain ⟨hpass, -, hk⟩ := passes_of_expect (by simp) hbrace
      intro t ht
      obtain rfl : brace = t := by simpa [hpass.previous] using ht
      simp [hk]
    · cases hok
      exact hprevious
  rcases takeSemicolon_cases n with ⟨htake, hmark, -⟩ | ⟨htake, hmark⟩
  · rw [htake] at hterminated ⊢
    have hk := kind_of_atMark hmark
    obtain ⟨rest, hrest⟩ := exists_cons_of_kind (c := n) (by simp [hk])
    refine ⟨⟨source, hmem, hkind, hsource⟩, ?_, fun hnot => by simp [hterminated] at hnot⟩
    intro t ht
    obtain rfl : n.current = t := by simpa [(passes_cons hrest).previous] using ht
    have hcurrent : n.current.kind = .mark .semicolon := hk
    simp [hcurrent]
  · rw [htake] at hterminated ⊢
    refine ⟨⟨source, hmem, hkind, hsource⟩, fun t ht => ⟨hdot t ht, ?_⟩, fun _ hk => ?_⟩
    · intro hyes
      simp [hterminated] at hyes
    · simp [atMark, hk] at hmark

theorem endsImport_of_importSource {start : Token} {specifiers : List Specifier} {typeOnly : Bool}
    (h : c.importSource start specifiers typeOnly = .ok (s, n)) : EndsImport c s n := by
  obtain ⟨⟨source, c₁⟩, hsource, h⟩ := bind_eq_ok.1 h
  obtain ⟨c₂, hattributes, h⟩ := bind_eq_ok.1 h
  cases h
  obtain ⟨hpass, -, hkind⟩ := passes_of_expect (by simp) hsource
  have hmem : source ∈ c.ahead := by simp [hpass.ahead]
  apply endsImport_of_skipAttributes hmem hkind _ hattributes rfl rfl
  intro t ht
  obtain rfl : source = t := by simpa [hpass.previous] using ht
  simp [hkind]

theorem endsImport_of_importFrom {start : Token} {bound : List Specifier} {typeOnly : Bool}
    (h : c.importFrom start bound typeOnly = .ok (s, n)) : EndsImport c s n := by
  obtain ⟨⟨specifiers, c₁⟩, hspecifiers, h⟩ := bind_eq_ok.1 h
  obtain ⟨⟨word, c₂⟩, hword, h⟩ := bind_eq_ok.1 h
  have hreach := (passes_of_expect (by simp) hword).1.reaches
  exact (endsImport_of_importSource h).of_reaches
    ((reaches_of_importBindings hspecifiers).trans hreach)

theorem endsImport_of_importAlias {start name : Token} {typeOnly : Bool}
    (h : c.importAlias start name typeOnly = .ok (some s, n)) : EndsImport c s n := by
  obtain ⟨⟨sign, c₁⟩, hsign, h⟩ := bind_eq_ok.1 h
  have hreach₁ := (passes_of_expect (by simp) hsign).1.reaches
  simp only at h
  split at h
  · obtain ⟨⟨paren, c₂⟩, hparen, h⟩ := bind_eq_ok.1 h
    obtain ⟨⟨source, c₃⟩, hsource, h⟩ := bind_eq_ok.1 h
    obtain ⟨⟨close, c₄⟩, hclose, h⟩ := bind_eq_ok.1 h
    obtain ⟨c₅, hattributes, h⟩ := bind_eq_ok.1 h
    cases h
    have hreach₂ := (passes_of_expect (by simp) hparen).1.reaches
    obtain ⟨hpass, -, hkind⟩ := passes_of_expect (by simp) hsource
    obtain ⟨hpass', -, hkind'⟩ := passes_of_expect (by simp) hclose
    have hahead : c₂.ahead = [source] ++ c₃.ahead := hpass.ahead
    have hmem : source ∈ c₂.ahead := by simp [hahead]
    have hreach := hreach₁.trans ((reaches_advance c₁).trans hreach₂)
    apply endsImport_of_skipAttributes (hreach.suffix.subset hmem) hkind _ hattributes rfl rfl
    intro t ht
    obtain rfl : close = t := by simpa [hpass'.previous] using ht
    simp [hkind']
  · obtain ⟨⟨target, c₂⟩, -, h⟩ := bind_eq_ok.1 h
    obtain ⟨c₃, -, h⟩ := bind_eq_ok.1 h
    cases h

theorem endsImport_of_importDefault {start : Token} {typeOnly : Bool}
    (h : c.importDefault start typeOnly = .ok (some s, n)) : EndsImport c s n := by
  obtain ⟨⟨name, c₁⟩, hname, h⟩ := bind_eq_ok.1 h
  have hreach := (passes_of_expectName hname).1.reaches
  simp only at h
  split at h
  · exact (endsImport_of_importAlias h).of_reaches hreach
  split at h
  · split at h
    · obtain ⟨⟨statement, c₂⟩, hstatement, h⟩ := bind_eq_ok.1 h
      cases h
      exact (endsImport_of_importFrom hstatement).of_reaches (hreach.trans (reaches_advance c₁))
    · cases h
  · obtain ⟨⟨statement, c₂⟩, hstatement, h⟩ := bind_eq_ok.1 h
    cases h
    exact (endsImport_of_importFrom hstatement).of_reaches hreach

/-- Every import ends with its module. -/
theorem endsImport_of_importStatement (h : c.importStatement = .ok (some s, n)) :
    EndsImport c s n := by
  obtain ⟨⟨start, c₁⟩, hstart, h⟩ := bind_eq_ok.1 h
  have hreach := (passes_of_expect (by simp) hstart).1.reaches.trans
    (reaches_advanceIf c₁.typeModifiesImport c₁)
  simp only at h
  split at h
  · obtain ⟨⟨statement, c₂⟩, hstatement, h⟩ := bind_eq_ok.1 h
    cases h
    exact (endsImport_of_importSource hstatement).of_reaches hreach
  split at h
  · exact (endsImport_of_importDefault h).of_reaches hreach
  · obtain ⟨⟨statement, c₂⟩, hstatement, h⟩ := bind_eq_ok.1 h
    cases h
    exact (endsImport_of_importFrom hstatement).of_reaches hreach

/-- What was found stands between what was found before it and what was found after, when every
statement is counted at most once. -/
theorem Surveys.cut {α : Type} (count : Outline → List α) {d d' : Nat} {c m : Cursor} {o : Outline}
    {front back : List α} {x : α} (hnone : count ⟨[], []⟩ = [])
    (happend : ∀ a b, count (a ++ b) = count a ++ count b)
    (hone : ∀ {c n : Cursor} {found : Outline}, StatementAt c found n → (count found).length ≤ 1)
    (h : Surveys d c o d' m) (ho : count o = front ++ x :: back) :
    ∃ o₁ found o₂ c₁ n₁, Surveys d c o₁ 0 c₁ ∧ StatementAt c₁ found n₁ ∧ Surveys 0 n₁ o₂ d' m ∧
      o = o₁ ++ (found ++ o₂) ∧ count o₁ = front ∧ count found = [x] ∧ count o₂ = back := by
  induction h generalizing front with
  | done => simp [hnone] at ho
  | @statement c n m found o d first others ih =>
    rw [happend] at ho
    have hlength := hone first
    match hfound : count found with
    | [] =>
      rw [hfound, List.nil_append] at ho
      obtain ⟨o₁, found', o₂, c₁, n₁, hfront, hat, hback, rfl, hfirst, hthis, hlast⟩ := ih ho
      refine ⟨found ++ o₁, found', o₂, c₁, n₁, .statement first hfront, hat, hback,
        (Outline.append_assoc ..).symm, ?_, hthis, hlast⟩
      rw [happend, hfound, hfirst, List.nil_append]
    | [y] =>
      rw [hfound] at ho
      cases front with
      | nil =>
        obtain ⟨rfl, hlast⟩ := List.cons.inj ho
        exact ⟨⟨[], []⟩, found, o, c, n, .done 0 c, first, others, rfl, hnone, hfound, hlast⟩
      | cons z front =>
        obtain ⟨rfl, hrest⟩ := List.cons.inj ho
        obtain ⟨o₁, found', o₂, c₁, n₁, hfront, hat, hback, rfl, hfirst, hthis, hlast⟩ := ih hrest
        refine ⟨found ++ o₁, found', o₂, c₁, n₁, .statement first hfront, hat, hback,
          (Outline.append_assoc ..).symm, ?_, hthis, hlast⟩
        rw [happend, hfound, hfirst]
        rfl
    | _ :: _ :: _ =>
      simp [hfound] at hlength
  | pass more nothing others ih =>
    obtain ⟨o₁, found, o₂, c₁, n₁, hfront, hrest⟩ := ih ho
    exact ⟨o₁, found, o₂, c₁, n₁, .pass more nothing hfront, hrest⟩

/-- An import that was found stands between what was found before it and what was found after. -/
theorem Surveys.cut_import {d d' : Nat} {c m : Cursor} {o : Outline}
    {front back : List ImportStatement} (h : Surveys d c o d' m)
    (ho : o.imports = front ++ s :: back) :
    ∃ o₁ o₂ c₁ n₁, Surveys d c o₁ 0 c₁ ∧ c₁.startsImport = true ∧
      c₁.importStatement = .ok (some s, n₁) ∧ Surveys 0 n₁ o₂ d' m ∧ o₁.imports = front ∧
      o₂.imports = back ∧ o.exports = o₁.exports ++ o₂.exports := by
  obtain ⟨o₁, found, o₂, c₁, n₁, hfront, hat, hback, rfl, hfirst, hthis, hlast⟩ :=
    h.cut Outline.imports rfl Outline.imports_append (fun hat => by
      cases hat with
      | @importing statement => cases statement <;> simp
      | exporting => simp) ho
  cases hat with
  | exporting => cases hthis
  | @importing statement _ starts reads =>
    obtain rfl : statement = some s := by simpa using hthis
    exact ⟨o₁, o₂, c₁, n₁, hfront, starts, reads, hback, hfirst, hlast, by
      simp [Outline.exports_append]⟩

/-- An export that was found stands between what was found before it and what was found after. -/
theorem Surveys.cut_export {d d' : Nat} {c m : Cursor} {o : Outline} {e : ExportStatement}
    {front back : List ExportStatement} (h : Surveys d c o d' m)
    (ho : o.exports = front ++ e :: back) :
    ∃ o₁ o₂ c₁ n₁, Surveys d c o₁ 0 c₁ ∧ c₁.startsExport = true ∧
      c₁.exportStatement = .ok (e, n₁) ∧ Surveys 0 n₁ o₂ d' m ∧ o₁.exports = front ∧
      o₂.exports = back ∧ o.imports = o₁.imports ++ o₂.imports := by
  obtain ⟨o₁, found, o₂, c₁, n₁, hfront, hat, hback, rfl, hfirst, hthis, hlast⟩ :=
    h.cut Outline.exports rfl Outline.exports_append (fun hat => by
      cases hat <;> simp) ho
  cases hat with
  | importing => cases hthis
  | exporting starts reads =>
    obtain ⟨rfl, -⟩ := List.cons.inj hthis
    exact ⟨o₁, o₂, c₁, n₁, hfront, starts, reads, hback, hfirst, hlast, by
      simp [Outline.imports_append]⟩

end ComponentRegistry.Cursor
