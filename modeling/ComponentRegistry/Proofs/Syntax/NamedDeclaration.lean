import ComponentRegistry.Proofs.Rewrite.AsyncWord
import ComponentRegistry.Proofs.Syntax.Concatenation
import ComponentRegistry.Proofs.Syntax.ExportSpelling
import ComponentRegistry.Proofs.Syntax.Spans

/-! # Declarations with a name, as the default and without

A function or a class with a name behind `export default` has the same words as it has behind
`export` alone. There it exports its name.
-/

namespace ComponentRegistry.Cursor

/-- The words of a function or a class, up to its name. -/
inductive NamesDeclared (name : String) : DeclarationKind → List Token → Prop where
  | function {word v : Token} {star : Option Token} (function : word.kind = .keyword .functionWord)
      (generator : ∀ t ∈ star, t.kind = .mark .star) (named : v.kind.isName = true)
      (value : v.value = name) : NamesDeclared name .function (word :: (star.toList ++ [v]))
  | ofClass {word v : Token} (begins : word.kind = .keyword .classWord)
      (named : v.kind.isName = true) (value : v.value = name) :
      NamesDeclared name .classType [word, v]

/-- The words of a declaration that can be exported with its name or as the default. -/
inductive Declaring (name : String) : DeclarationKind → List Token → Prop where
  | plain {declared : DeclarationKind} {words : List Token}
      (names : NamesDeclared name declared words) : Declaring name declared words
  | async {word : Token} {words : List Token} (async : word.kind = .keyword .asyncWord)
      (names : NamesDeclared name .function words) : Declaring name .function (word :: words)

variable {c n : Cursor} {name : String} {declared : DeclarationKind} {words : List Token}
  {default d k : Token} {async found : Option Token}

theorem NamesDeclared.bare (h : NamesDeclared name declared words) :
    NamesDeclared name declared (words.map Token.bare) := by
  cases h with
  | @function word v star function generator named value =>
    have hbare : (word :: (star.toList ++ [v])).map Token.bare =
        word.bare :: ((star.map Token.bare).toList ++ [v.bare]) := by
      cases star <;> rfl
    rw [hbare]
    refine .function function (fun t ht => ?_) named value
    obtain ⟨u, hu, rfl⟩ := Option.mem_map.1 ht
    exact generator u hu
  | ofClass begins named value => exact .ofClass begins named value

/-- Where the words stand does not matter. -/
theorem Declaring.bare (h : Declaring name declared words) :
    Declaring name declared (words.map Token.bare) := by
  cases h with
  | plain names => exact .plain names.bare
  | async async names => exact .async async names.bare

theorem Declaring.head (h : Declaring name declared words) :
    ∃ t rest w, words = t :: rest ∧ t.kind = .keyword w := by
  cases h with
  | plain names =>
    cases names with
    | function function => exact ⟨_, _, _, rfl, function⟩
    | ofClass begins => exact ⟨_, _, _, rfl, begins⟩
  | async async => exact ⟨_, _, _, rfl, async⟩

theorem Declaring.exists_name (h : Declaring name declared words) :
    ∃ v ∈ words, v.kind.isName = true ∧ v.value = name := by
  cases h with
  | plain names =>
    cases names with
    | function _ _ named value => exact ⟨_, by simp, named, value⟩
    | ofClass _ named value => exact ⟨_, by simp, named, value⟩
  | async _ names =>
    cases names with
    | function _ _ named value => exact ⟨_, by simp, named, value⟩

/-- What is declared is there when the program runs, and its body is left for the search. -/
theorem Declaring.kind (h : Declaring name declared words) : declared.isErased = false ∧
    ∀ keyword async bound ambient,
      (ExportForm.declaration declared keyword async bound ambient).takesSemicolon = false := by
  cases h with
  | plain names => cases names <;> exact ⟨rfl, fun _ _ _ _ => rfl⟩
  | async => exact ⟨rfl, fun _ _ _ _ => rfl⟩

section WithoutDefault

theorem Spells.lone_name {v : Token} (hc : Spells c [v] n) (hname : v.kind.isName = true) :
    ∃ t, c.expectName = .ok (t, n) ∧ t.value = v.value :=
  ⟨c.current, by rw [hc.expectName hname, hc.cons.2.2.eq_of_nil], hc.value⟩

theorem Spells.behind_star {star : Option Token} {v : Token} (hc : Spells c (star.toList ++ [v]) n)
    (hstar : ∀ t ∈ star, t.kind = .mark .star) (hname : v.kind.isName = true) :
    Spells (c.advanceIf (c.atMark .star)) [v] n := by
  cases star with
  | none =>
    have hnone : c.atMark .star = false := by
      rw [hc.atMark, beq_eq_false_iff_ne]
      intro hkind
      rw [hkind] at hname
      cases hname
    rw [hnone]
    exact hc
  | some t =>
    have hmark : c.atMark .star = true := by
      rw [hc.atMark, hstar t rfl]
      rfl
    rw [hmark]
    exact hc.cons.2.2

/-- A declaration is read up to its name. -/
theorem declared_of_names (h : NamesDeclared name declared words) (hc : Spells c words n)
    (m : Modifiers) :
    c.declared m = .ok (.declaration declared c.current m.async [name] m.ambient, n) := by
  cases h with
  | @function word v star function generator named value =>
    have hlast := Spells.behind_star hc.cons.2.2 generator named
    have hword : c.atWord .functionWord = true := by
      rw [hc.atWord, function]
      rfl
    obtain ⟨t, hreads, hvalue⟩ := hlast.lone_name named
    obtain rfl : t.value = name := hvalue.trans value
    rw [declared, if_pos hword]
    exact bind_eq_ok.2 ⟨_, hreads, rfl⟩
  | @ofClass word v begins named value =>
    obtain ⟨t, hreads, hvalue⟩ := hc.cons.2.2.lone_name named
    obtain rfl : t.value = name := hvalue.trans value
    have hword : c.atWord .functionWord = false ∧ c.atWord .classWord = true := by
      rw [hc.atWord, hc.atWord, begins]
      decide
    rw [declared, if_neg (by simp [hword.1]), if_pos hword.2]
    exact bind_eq_ok.2 ⟨_, hreads, rfl⟩

theorem NamesDeclared.kind (h : NamesDeclared name declared words) (hc : Spells c words n) :
    c.kind = .keyword .functionWord ∨ c.kind = .keyword .classWord := by
  cases h with
  | function function => exact .inl (hc.kind.trans function)
  | ofClass begins => exact .inr (hc.kind.trans begins)

/-- A declaration exports its name. -/
theorem exportForm_of_declaring (h : Declaring name declared words) (hc : Spells c words n) :
    ∃ keyword async, c.exportForm = .ok (.declaration declared keyword async [name] false, n) := by
  have hdeclaration : c.kind ∈ ([.keyword .functionWord, .keyword .classWord,
      .keyword .asyncWord] : List TokenKind) → c.exportForm = c.exportDeclaration := by
    intro hkind
    simp only [List.mem_cons, List.not_mem_nil, or_false] at hkind
    rcases hkind with hk | hk | hk <;> simp [exportForm, atWord, atMark, hk]
  cases h with
  | plain names =>
    have hkind := names.kind hc
    have hmodifiers : c.modifiers = (⟨false, none⟩, c) := modifiers_eq (by
      rcases hkind with hk | hk <;> simp [hk])
    rw [hdeclaration (by rcases hkind with hk | hk <;> simp [hk]), exportDeclaration, hmodifiers]
    exact ⟨_, _, declared_of_names names hc _⟩
  | @async word words async names =>
    have hkind : c.kind = .keyword .asyncWord := hc.kind.trans async
    have hnext := hc.cons.2.2
    have hfunction : c.advance.kind = .keyword .functionWord := by
      cases names with
      | function function => exact hnext.kind.trans function
    have hmodifies : c.asyncModifiesFunction = true := asyncModifiesFunction_iff.2 ⟨hkind, hfunction⟩
    have hmodifiers : c.modifiers = (⟨false, some c.current⟩, c.advance) := by
      rw [modifiers, modifiersFrom, dif_neg (by simp [atWord, hkind]),
        dif_neg (by simp [atWord, hkind]), dif_pos hmodifies, modifiersFrom]
      simp [atWord, asyncModifiesFunction, hfunction]
    rw [hdeclaration (by simp [hkind]), exportDeclaration, hmodifiers]
    exact ⟨_, _, declared_of_names names hnext _⟩

/-- A declaration is exported up to its name. -/
theorem exportStatement_of_declaring (hexport : c.kind = .keyword .exportWord)
    (h : Declaring name declared words) (hc : Spells c.advance words n) :
    ∃ e, c.exportStatement = .ok (e, n) ∧
      ∃ keyword async, e.form = .declaration declared keyword async [name] false := by
  obtain ⟨keyword, async, hform⟩ := exportForm_of_declaring h hc
  refine ⟨⟨_, false, ⟨c.current.start, n.passedOffset⟩⟩,
    exportStatement_eq_ok.2 ⟨hexport, n, hform, ?_, rfl⟩, keyword, async, rfl⟩
  rw [exportEnding, h.kind.2]
  rfl

end WithoutDefault

section WithDefault

/-- A function as the default export is read up to its name. -/
theorem names_of_defaultFunction (hword : c.kind = .keyword .functionWord)
    (h : defaultFunction default found c =
      (.defaultDeclaration declared d async k (some name), n)) :
    ∃ words, NamesDeclared name declared words ∧ Passes c n words ∧ words.head? = some k ∧
      d = default ∧ async = found := by
  have hfirst := passes_advance (c := c) (by simp [hword])
  simp only [defaultFunction, Prod.mk.injEq, ExportForm.defaultDeclaration.injEq,
    Option.ite_none_right_eq_some, Option.some.injEq] at h
  obtain ⟨⟨rfl, rfl, rfl, rfl, hname, rfl⟩, rfl⟩ := h
  obtain ⟨star, hstar, hpass⟩ : ∃ star : Option Token, (∀ t ∈ star, t.kind = .mark .star) ∧
      Passes c.advance (c.advance.advanceIf (c.advance.atMark .star)) star.toList := by
    cases hmark : c.advance.atMark .star with
    | false => exact ⟨none, by simp, .refl _⟩
    | true =>
      have hkind := kind_of_atMark hmark
      refine ⟨some c.advance.current, ?_, passes_advance (by simp [hkind])⟩
      intro t ht
      obtain rfl : c.advance.current = t := Option.some.inj ht
      exact hkind
  have hlast := passes_advance (kind_ne_of_atName hname)
  rw [hname]
  exact ⟨_, .function hword hstar hname rfl, hfirst.trans (hpass.trans hlast), rfl, rfl, rfl⟩

/-- A class as the default export is read up to its name. -/
theorem names_of_defaultClass (hword : c.kind = .keyword .classWord)
    (h : defaultClass default c = (.defaultDeclaration declared d async k (some name), n)) :
    ∃ words, NamesDeclared name declared words ∧ Passes c n words ∧ words.head? = some k ∧
      d = default ∧ async = none := by
  have hfirst := passes_advance (c := c) (by simp [hword])
  simp only [defaultClass, Prod.mk.injEq, ExportForm.defaultDeclaration.injEq,
    Option.ite_none_right_eq_some, Option.some.injEq] at h
  obtain ⟨⟨rfl, rfl, rfl, rfl, hname, rfl⟩, rfl⟩ := h
  rw [advanceIf, if_pos hname]
  simp only [atClassName, Bool.and_eq_true] at hname
  have hlast := passes_advance (kind_ne_of_atName hname.1.1)
  exact ⟨_, .ofClass hword hname.1.1 rfl, hfirst.trans hlast, rfl, rfl, rfl⟩

theorem declaring_of_defaultExported
    (hok : c.defaultExported default = .ok (.defaultDeclaration declared d async k (some name), n)) :
    ∃ lead words, Declaring name declared words ∧ Passes c n (lead ++ words) ∧
      words.head? = some (async.getD k) ∧ d = default ∧
      ∀ t ∈ lead, t.kind = .keyword .abstractWord := by
  cases readsDefault_of_defaultExported hok with
  | asyncFunction modifies reads =>
    obtain ⟨hasync, hfunction⟩ := asyncModifiesFunction_iff.1 modifies
    obtain ⟨words, hnames, hpass, -, rfl, rfl⟩ := names_of_defaultFunction hfunction reads
    have hfirst := passes_advance (c := c) (by simp [hasync])
    cases hnames with
    | function function generator named value =>
      exact ⟨[], _, .async hasync (.function function generator named value), hfirst.trans hpass,
        rfl, rfl, by simp⟩
    | ofClass begins =>
      rw [hpass.kind_eq, begins] at hfunction
      cases hfunction
  | plainFunction word reads =>
    obtain ⟨words, hnames, hpass, hhead, rfl, rfl⟩ :=
      names_of_defaultFunction (kind_of_atWord word) reads
    exact ⟨[], words, .plain hnames, hpass, hhead, rfl, by simp⟩
  | ofClass begins reads =>
    obtain ⟨words, hnames, hpass, hhead, rfl, rfl⟩ :=
      names_of_defaultClass (kind_of_atClass begins) reads
    cases habstract : c.atWord .abstractWord with
    | false =>
      rw [habstract] at hpass
      exact ⟨[], words, .plain hnames, hpass, hhead, rfl, by simp⟩
    | true =>
      rw [habstract] at hpass
      have hkind := kind_of_atWord habstract
      have hfirst := passes_advance (c := c) (by simp [hkind])
      refine ⟨[c.current], words, .plain hnames, hfirst.trans hpass, hhead, rfl, fun t ht => ?_⟩
      rw [List.mem_singleton.1 ht]
      exact hkind
  | interface _ _ unnamed => cases unnamed
  | name _ _ reads => cases reads
  | expression _ _ reads => cases reads

/-- A declaration as the default export is read up to its name. -/
theorem exists_declaring
    (hok : c.exportForm = .ok (.defaultDeclaration declared d async k (some name), n)) :
    ∃ lead words, Declaring name declared words ∧ Passes c n (d :: (lead ++ words)) ∧
      words.head? = some (async.getD k) ∧ d.kind = .keyword .defaultWord ∧
      ∀ t ∈ lead, t.kind = .keyword .abstractWord := by
  rcases Seam.exportForm_cases hok with hkind | ⟨hnone, -, -⟩ | hdeclaration
  · obtain ⟨rest, hc⟩ := exists_cons_of_kind (c := c) (by simp [hkind])
    obtain ⟨heq, -, -⟩ := Seam.exportForm_of_default hkind hc
    obtain ⟨lead, words, hdeclaring, hpass, hhead, rfl, hlead⟩ :=
      declaring_of_defaultExported (heq.symm.trans hok)
    have hfirst := passes_advance (c := c) (by simp [hkind])
    exact ⟨lead, words, hdeclaring, hfirst.trans hpass, hhead, hkind, hlead⟩
  · cases hnone
  · obtain ⟨_, _, _, hform, -⟩ := exists_of_declared hdeclaration
    cases hform

/-- The words of a declaration as the default export. -/
theorem exists_declaring_of_exportStatement {e : ExportStatement}
    (hok : c.exportStatement = .ok (e, n))
    (hform : e.form = .defaultDeclaration declared d async k (some name)) :
    ∃ lead words, Declaring name declared words ∧ Passes c.advance n (d :: (lead ++ words)) ∧
      words.head? = some (async.getD k) ∧ d.kind = .keyword .defaultWord ∧
      ∀ t ∈ lead, t.kind = .keyword .abstractWord := by
  obtain ⟨-, m, hread, hending, -⟩ := exportStatement_eq_ok.1 hok
  rw [hform] at hread hending
  have hlast : (e.terminated, n) = (false, m) := hending.symm
  obtain rfl := (Prod.mk.inj hlast).2
  exact exists_declaring hread

end WithDefault

end ComponentRegistry.Cursor
