import ComponentRegistry.Proofs.Seam.Basic

/-! # Imports in front of a seam

An import that ends in front of a seam, or just at it, is read from both streams alike.
-/

namespace ComponentRegistry

namespace Seam

variable {S : Seam} {c c' n : Cursor}

theorem Tied.upToKind {ts ts' : List Token} {p p' : Option Token} {f f' : Position}
    {kind : TokenKind} (h : S.Tied ts ts') (hp : Option.Rel S.Same p p')
    (hlt : S.old.length < (Reach.upToKind kind f p ts).remaining) :
    S.Matches (Reach.upToKind kind f p ts) (Reach.upToKind kind f' p' ts') := by
  induction h generalizing p p' with
  | seam =>
    have := Reach.remaining_upToKind_le kind f p S.old
    omega
  | @cons t t' ts ts' first others ih =>
    simp only [Reach.upToKind] at hlt ⊢
    by_cases hk : t.kind = kind
    · rw [if_pos hk, if_pos (first.kind.trans hk)]
      exact ⟨hp, .cons first others⟩
    · rw [if_neg hk, if_neg (first.kind ▸ hk)]
      rw [if_neg hk] at hlt
      exact ih (.some first) hlt

theorem Matches.skipTo {kind : TokenKind} (h : S.Matches c c')
    (hlt : S.old.length < (c.skipTo kind).remaining) :
    S.Matches (c.skipTo kind) (c'.skipTo kind) :=
  h.ahead.upToKind h.previous hlt

theorem eq_or_remaining_of_skipAttributes {source : Token}
    (hok : c.skipAttributes source = .ok n) : n = c ∨ n.remaining + 3 ≤ c.remaining := by
  unfold Cursor.skipAttributes at hok
  simp only at hok
  split at hok
  · next hintro =>
    obtain ⟨⟨brace, c₁⟩, hbrace, hok⟩ := bind_eq_ok.1 hok
    cases hok
    have hlt := Cursor.remaining_lt_of_expect (by simp) hbrace
    have hskip := Cursor.remaining_skipTo_le (.mark .closeBrace) c.advance.advance
    have hadvance := Cursor.remaining_advance c
    have hadvance₂ := Cursor.remaining_advance c.advance
    simp only
    omega
  · cases hok
    exact .inl rfl

/-- Attributes in front of the seam are passed in both streams. -/
theorem Matches.skipAttributes {source source' : Token} (h : S.Matches c c')
    (hsource : S.Same source source') (hok : c.skipAttributes source = .ok n)
    (hle : S.old.length ≤ n.remaining) (hat : c.remaining = S.old.length → S.Closes)
    (hnear : c.remaining = S.old.length + 1 → c.atMark .semicolon = false → S.Closes) :
    ∃ n', c'.skipAttributes source' = .ok n' ∧ S.Matches n n' := by
  have hpassed := eq_or_remaining_of_skipAttributes hok
  unfold Cursor.skipAttributes at hok ⊢
  simp only at hok ⊢
  split at hok
  · next hintro =>
    obtain ⟨⟨brace, c₁⟩, hbrace, hok⟩ := bind_eq_ok.1 hok
    cases hok
    have hlt := Cursor.remaining_lt_of_expect (by simp) hbrace
    have hskip := Cursor.remaining_skipTo_le (.mark .closeBrace) c.advance.advance
    have hadvance := Cursor.remaining_advance c
    have hadvance₂ := Cursor.remaining_advance c.advance
    simp only at hle hlt
    have hsame := h.same (by omega)
    have hinside : S.old.length < (c.advance.advance.skipTo (.mark .closeBrace)).remaining := by
      omega
    have hgroup := ((h.advance (by omega)).advance (by omega)).skipTo hinside
    obtain ⟨brace', n', hbrace', -, hn⟩ := hgroup.expect (by simp) hbrace hle
    refine ⟨n', ?_, hn⟩
    rw [hsame.value, hsame.line_beq hsource, h.followingKind_eq (by omega), if_pos hintro, hbrace']
    rfl
  · next hintro =>
    cases hok
    refine ⟨c', ?_, h⟩
    rw [if_neg]
    rcases Nat.lt_trichotomy c.remaining (S.old.length + 1) with hlt | heq | hgt
    · have hcloses := hat (by omega)
      rw [h.value_eq_nextValue (by omega)]
      simp [hcloses.word.1, hcloses.word.2]
    · have hsame := h.same (by omega)
      rw [hsame.value, h.followingKind_eq_nextKind heq]
      cases hmark : c.atMark .semicolon with
      | true => simp [hsame.semicolon (Cursor.kind_of_atMark hmark)]
      | false => simp [(hnear heq hmark).kind (.mark .openBrace) (by decide)]
    · have hsame := h.same (by omega)
      rwa [hsame.value, hsame.line_beq hsource, h.followingKind_eq (by omega)]

section Clause

theorem Matches.typeModifiesEntry_eq (h : S.Matches c c')
    (hlt : c.atWord .typeWord = true → S.old.length + 1 < c.remaining)
    (hinside : S.old.length < c.remaining) : c'.typeModifiesEntry = c.typeModifiesEntry := by
  unfold Cursor.typeModifiesEntry
  rw [h.atWord_eq hinside]
  cases hc : c.atWord .typeWord with
  | false => rfl
  | true => rw [h.followingKind_eq (hlt hc)]

theorem Matches.specifier {typeOnly : Bool} {s : Specifier} (h : S.Matches c c')
    (hok : c.specifier typeOnly = .ok (s, n)) (hlt : S.old.length < n.remaining) :
    ∃ n', c'.specifier typeOnly = .ok (s, n') ∧ S.Matches n n' := by
  have hremaining := Cursor.remaining_lt_of_specifier hok
  have hmodified : c'.typeModifiesEntry = c.typeModifiesEntry :=
    h.typeModifiesEntry_eq (by omega) (by omega)
  obtain ⟨⟨imported, c₁⟩, himported, hok⟩ := bind_eq_ok.1 hok
  simp only at hok
  split at hok
  · next has =>
    obtain ⟨⟨bound, c₂⟩, hbound, hok⟩ := bind_eq_ok.1 hok
    cases hok
    have hlt₁ := Cursor.remaining_lt_of_expectModuleName hbound
    have hadvance := Cursor.remaining_advance_le c₁
    simp only at *
    obtain ⟨imported', c₁', himported', hsame, h₁⟩ :=
      (h.advanceIf c.typeModifiesEntry fun _ => by omega).expectModuleName himported (by omega)
    obtain ⟨bound', n', hbound', hsame₂, hn⟩ :=
      (h₁.advance (by omega)).expectModuleName hbound (by omega)
    refine ⟨n', ?_, hn⟩
    have has' : c₁'.atWord .asWord = true := by
      rwa [h₁.atWord_eq (by omega)]
    rw [Cursor.specifier, hmodified]
    refine bind_eq_ok.2 ⟨_, himported', ?_⟩
    simp only [if_pos has']
    refine bind_eq_ok.2 ⟨_, hbound', ?_⟩
    rw [hsame.value, hsame₂.value]
  · next has =>
    cases hok
    obtain ⟨imported', c₁', himported', hsame, h₁⟩ :=
      (h.advanceIf c.typeModifiesEntry fun _ => by omega).expectModuleName himported (by omega)
    refine ⟨c₁', ?_, h₁⟩
    have has' : ¬ c₁'.atWord .asWord = true := by
      rwa [h₁.atWord_eq hlt]
    rw [Cursor.specifier, hmodified]
    refine bind_eq_ok.2 ⟨_, himported', ?_⟩
    simp only [if_neg has', hsame.value]

theorem Matches.clauseEntries {typeOnly : Bool} {entries : List Specifier} (h : S.Matches c c')
    (hok : c.clauseEntries typeOnly = .ok (entries, n)) (hle : S.old.length ≤ n.remaining) :
    ∃ n', c'.clauseEntries typeOnly = .ok (entries, n') ∧ S.Matches n n' := by
  fun_induction Cursor.clauseEntries typeOnly c generalizing entries c' with
  | case1 c hclose =>
    cases hok
    have hlt := Cursor.remaining_lt_of_atMark hclose
    have hclose' : c'.atMark .closeBrace = true := by
      rwa [h.atMark_eq (by omega)]
    refine ⟨c'.advance, ?_, h.advance (by omega)⟩
    rw [Cursor.clauseEntries, if_pos hclose']
  | case2 => cases hok
  | case3 c hclose entry c₁ hentry hcomma ih =>
    obtain ⟨⟨others, n₁⟩, hothers, heq⟩ := map_eq_ok.1 hok
    cases heq
    have hlt := Cursor.remaining_lt_of_specifier hentry
    have hlt₁ := Cursor.remaining_lt_of_atMark hcomma
    have hle₁ := Cursor.remaining_le_of_clauseEntries hothers
    obtain ⟨c₁', hentry', h₁⟩ := h.specifier hentry (by omega)
    obtain ⟨n', hothers', hn⟩ := ih (h₁.advance (by omega)) hothers
    refine ⟨n', ?_, hn⟩
    have hclose' : ¬ c'.atMark .closeBrace = true := by
      rwa [h.atMark_eq (by omega)]
    have hcomma' : c₁'.atMark .comma = true := by
      rwa [h₁.atMark_eq (by omega)]
    rw [Cursor.clauseEntries, if_neg hclose']
    split
    · next hfault => simp [hentry'] at hfault
    · next hentry'' =>
      rw [hentry', Except.ok.injEq, Prod.mk.injEq] at hentry''
      obtain ⟨rfl, rfl⟩ := hentry''
      rw [if_pos hcomma', hothers']
      rfl
  | case4 c hclose entry c₁ hentry hcomma hlast =>
    cases hok
    have hlt := Cursor.remaining_lt_of_specifier hentry
    have hlt₁ := Cursor.remaining_lt_of_atMark hlast
    obtain ⟨c₁', hentry', h₁⟩ := h.specifier hentry (by omega)
    refine ⟨c₁'.advance, ?_, h₁.advance (by omega)⟩
    have hclose' : ¬ c'.atMark .closeBrace = true := by
      rwa [h.atMark_eq (by omega)]
    have hcomma' : ¬ c₁'.atMark .comma = true := by
      rwa [h₁.atMark_eq (by omega)]
    have hlast' : c₁'.atMark .closeBrace = true := by
      rwa [h₁.atMark_eq (by omega)]
    rw [Cursor.clauseEntries, if_neg hclose']
    split
    · next hfault => simp [hentry'] at hfault
    · next hentry'' =>
      rw [hentry', Except.ok.injEq, Prod.mk.injEq] at hentry''
      obtain ⟨rfl, rfl⟩ := hentry''
      rw [if_neg hcomma', if_pos hlast']
  | case5 => cases hok

theorem Matches.clause {typeOnly : Bool} {entries : List Specifier} (h : S.Matches c c')
    (hok : c.clause typeOnly = .ok (entries, n)) (hle : S.old.length ≤ n.remaining) :
    ∃ n', c'.clause typeOnly = .ok (entries, n') ∧ S.Matches n n' := by
  obtain ⟨⟨brace, c₁⟩, hbrace, hok⟩ := bind_eq_ok.1 hok
  have hle₁ := Cursor.remaining_le_of_clauseEntries hok
  obtain ⟨brace', c₁', hbrace', -, h₁⟩ := h.expect (by simp) hbrace (by omega)
  obtain ⟨n', hok', hn⟩ := h₁.clauseEntries hok hle
  exact ⟨n', bind_eq_ok.2 ⟨_, hbrace', hok'⟩, hn⟩

end Clause

/-- The same import, read from both streams. -/
structure SameImport (S : Seam) (s s' : ImportStatement) : Prop where
  source : s'.source = s.source
  specifiers : s'.specifiers = s.specifiers
  typeOnly : s'.typeOnly = s.typeOnly
  terminated : s'.terminated = s.terminated
  span : S.SameSpan s.span s'.span

theorem Same.moduleSource {t t' : Token} (h : S.Same t t') :
    ModuleSource.ofToken t' = ModuleSource.ofToken t := by
  rw [ModuleSource.ofToken, ModuleSource.ofToken, h.value, h.lexeme]

section Statement

variable {start start' : Token} {typeOnly : Bool}

/-- What may follow the name of a module: its attributes and a semicolon. -/
theorem afterSemicolon_of_skipAttributes {source : Token} (hc : c.afterSemicolon = false)
    (hok : c.skipAttributes source = .ok n) :
    n.takeSemicolon.2.afterSemicolon = n.takeSemicolon.1 := by
  have hn : n.afterSemicolon = false := by
    unfold Cursor.skipAttributes at hok
    simp only at hok
    split at hok
    · obtain ⟨⟨brace, c₁⟩, hbrace, hok⟩ := bind_eq_ok.1 hok
      cases hok
      obtain ⟨hpass, -, hkind⟩ := Cursor.passes_of_expect (by simp) hbrace
      simp [Cursor.afterSemicolon_of_passes hpass, hkind]
    · cases hok
      exact hc
  rcases Cursor.takeSemicolon_cases n with ⟨htake, -, hafter, -⟩ | ⟨htake, -⟩
  · simp [htake, hafter]
  · simp [htake, hn]

theorem Matches.sourceEnding {source source' : Token} (h : S.Matches c c')
    (hsource : S.Same source source') (hok : c.skipAttributes source = .ok n)
    (hle : S.old.length ≤ n.takeSemicolon.2.remaining)
    (hend : n.takeSemicolon.1 = false → n.takeSemicolon.2.remaining ≤ S.old.length + 1 →
      S.Closes) :
    ∃ n', c'.skipAttributes source' = .ok n' ∧ n'.takeSemicolon.1 = n.takeSemicolon.1 ∧
      S.Matches n.takeSemicolon.2 n'.takeSemicolon.2 := by
  have hle₁ := Cursor.remaining_le_of_skipAttributes hok
  have hle₂ := Cursor.remaining_takeSemicolon_le n
  have hat : c.remaining = S.old.length → S.Closes := fun heq => by
    rcases Cursor.takeSemicolon_cases n with ⟨htake, -, -, hlt⟩ | ⟨htake, -⟩
    · simp only [htake] at hle hle₂
      omega
    · rw [htake] at hend
      exact hend rfl (by simp only; omega)
  have hnear : c.remaining = S.old.length + 1 → c.atMark .semicolon = false → S.Closes :=
      fun heq hmark => by
    rcases eq_or_remaining_of_skipAttributes hok with rfl | hpassed
    · rcases Cursor.takeSemicolon_cases n with ⟨-, hmark', -⟩ | ⟨htake, -⟩
      · simp [hmark] at hmark'
      · rw [htake] at hend
        exact hend rfl (Nat.le_of_eq heq)
    · omega
  obtain ⟨n', hok', hn⟩ := h.skipAttributes hsource hok (by omega) hat hnear
  obtain ⟨hterminated, hn⟩ := hn.takeSemicolon hle fun hterminated heq =>
    (hend hterminated (by omega)).kind _ (by decide)
  exact ⟨n', hok', hterminated, hn⟩

theorem isSome_of_sourceEnding {source : Token} (hc : c.previous.isSome = true)
    (hok : c.skipAttributes source = .ok n) : n.takeSemicolon.2.previous.isSome = true := by
  obtain ⟨passed, hpass⟩ := (Cursor.reaches_of_skipAttributes hok).trans
    (Cursor.reaches_takeSemicolon n)
  rw [hpass.previous]
  cases passed.getLast? with
  | none => exact hc
  | some t => rfl

theorem Matches.importSource {specifiers : List Specifier} {s : ImportStatement}
    (h : S.Matches c c') (hstart : S.Same start start')
    (hok : c.importSource start specifiers typeOnly = .ok (s, n))
    (hle : S.old.length ≤ n.remaining)
    (hend : n.afterSemicolon = false → n.remaining ≤ S.old.length + 1 → S.Closes) :
    ∃ s' n', c'.importSource start' specifiers typeOnly = .ok (s', n') ∧ S.SameImport s s' ∧
      S.Matches n n' := by
  obtain ⟨⟨source, c₁⟩, hsource, hok⟩ := bind_eq_ok.1 hok
  obtain ⟨c₂, hattributes, hok⟩ := bind_eq_ok.1 hok
  cases hok
  obtain ⟨hpass, -, hkind⟩ := Cursor.passes_of_expect (by simp) hsource
  have hle₁ := Cursor.remaining_le_of_skipAttributes hattributes
  have hle₂ := Cursor.remaining_takeSemicolon_le c₂
  simp only at *
  rw [afterSemicolon_of_skipAttributes
    (by simp [Cursor.afterSemicolon_of_passes hpass, hkind]) hattributes] at hend
  obtain ⟨source', c₁', hsource', hsame, h₁⟩ := h.expect (by simp) hsource (by omega)
  obtain ⟨c₂', hattributes', hterminated, hn⟩ := h₁.sourceEnding hsame hattributes hle hend
  have hsome := isSome_of_sourceEnding (by simp [hpass.previous]) hattributes
  refine ⟨_, c₂'.takeSemicolon.2, bind_eq_ok.2 ⟨_, hsource', bind_eq_ok.2 ⟨_, hattributes', rfl⟩⟩,
    ⟨hsame.moduleSource, rfl, rfl, hterminated, hstart.start, hn.passedOffset hsome⟩, hn⟩

theorem Matches.importBindings {bound specifiers : List Specifier} (h : S.Matches c c')
    (hok : c.importBindings bound typeOnly = .ok (specifiers, n))
    (hlt : S.old.length < n.remaining) :
    ∃ n', c'.importBindings bound typeOnly = .ok (specifiers, n') ∧ S.Matches n n' := by
  have hle := Cursor.remaining_le_of_importBindings hok
  unfold Cursor.importBindings at hok ⊢
  rw [h.atMark_eq (by omega), h.atMark_eq (by omega)]
  split at hok
  · next hstar =>
    obtain ⟨⟨word, c₁⟩, hword, hok⟩ := bind_eq_ok.1 hok
    obtain ⟨⟨name, c₂⟩, hname, hok⟩ := bind_eq_ok.1 hok
    have hlt₁ := Cursor.remaining_lt_of_expectName hname
    cases hok
    obtain ⟨word', c₁', hword', -, h₁⟩ := (h.advance (by omega)).expect (by simp) hword (by omega)
    obtain ⟨name', n', hname', hsame, hn⟩ := h₁.expectName hname (by omega)
    refine ⟨n', ?_, hn⟩
    rw [if_pos hstar]
    refine bind_eq_ok.2 ⟨_, hword', bind_eq_ok.2 ⟨_, hname', ?_⟩⟩
    simp only [hsame.value]
  split at hok
  · next hstar hbrace =>
    obtain ⟨⟨entries, c₁⟩, hentries, hok⟩ := bind_eq_ok.1 hok
    cases hok
    obtain ⟨n', hentries', hn⟩ := h.clause hentries (by omega)
    refine ⟨n', ?_, hn⟩
    rw [if_neg hstar, if_pos hbrace]
    exact bind_eq_ok.2 ⟨_, hentries', rfl⟩
  split at hok
  · cases hok
  · next hstar hbrace hbound =>
    cases hok
    refine ⟨c', ?_, h⟩
    rw [if_neg hstar, if_neg hbrace, if_neg hbound]

theorem Matches.importFrom {bound : List Specifier} {s : ImportStatement} (h : S.Matches c c')
    (hstart : S.Same start start') (hok : c.importFrom start bound typeOnly = .ok (s, n))
    (hle : S.old.length ≤ n.remaining)
    (hend : n.afterSemicolon = false → n.remaining ≤ S.old.length + 1 → S.Closes) :
    ∃ s' n', c'.importFrom start' bound typeOnly = .ok (s', n') ∧ S.SameImport s s' ∧
      S.Matches n n' := by
  obtain ⟨⟨specifiers, c₁⟩, hspecifiers, hok⟩ := bind_eq_ok.1 hok
  obtain ⟨⟨word, c₂⟩, hword, hok⟩ := bind_eq_ok.1 hok
  have hlt₁ := Cursor.remaining_lt_of_expect (by simp) hword
  have hlt₂ := Cursor.remaining_lt_of_importSource hok
  simp only at *
  obtain ⟨c₁', hspecifiers', h₁⟩ := h.importBindings hspecifiers (by omega)
  obtain ⟨word', c₂', hword', -, h₂⟩ := h₁.expect (by simp) hword (by omega)
  obtain ⟨s', n', hok', hs, hn⟩ := h₂.importSource hstart hok hle hend
  exact ⟨s', n', bind_eq_ok.2 ⟨_, hspecifiers', bind_eq_ok.2 ⟨_, hword', hok'⟩⟩, hs, hn⟩

/-- The same result of an import, which may be none. -/
def SameResult (S : Seam) (s s' : Option ImportStatement) : Prop := Option.Rel S.SameImport s s'

theorem Matches.importAlias {name name' : Token} {s : Option ImportStatement}
    (h : S.Matches c c') (hstart : S.Same start start') (hname : S.Same name name')
    (hok : c.importAlias start name typeOnly = .ok (s, n)) (hle : S.old.length ≤ n.remaining)
    (hend : n.afterSemicolon = false → n.remaining ≤ S.old.length + 1 → S.Closes) :
    ∃ s' n', c'.importAlias start' name' typeOnly = .ok (s', n') ∧ S.SameResult s s' ∧
      S.Matches n n' := by
  obtain ⟨⟨sign, c₁⟩, hsign, hok⟩ := bind_eq_ok.1 hok
  have hlt := Cursor.remaining_lt_of_expect (by simp) hsign
  have hadvance := Cursor.remaining_advance c₁
  simp only at hok
  split at hok
  · next hrequire =>
    obtain ⟨⟨paren, c₂⟩, hparen, hok⟩ := bind_eq_ok.1 hok
    obtain ⟨⟨source, c₃⟩, hsource, hok⟩ := bind_eq_ok.1 hok
    obtain ⟨⟨paren', c₄⟩, hclose, hok⟩ := bind_eq_ok.1 hok
    obtain ⟨c₅, hattributes, hok⟩ := bind_eq_ok.1 hok
    cases hok
    have hlt₂ := Cursor.remaining_lt_of_expect (by simp) hparen
    have hlt₃ := Cursor.remaining_lt_of_expect (by simp) hsource
    have hlt₄ := Cursor.remaining_lt_of_expect (by simp) hclose
    have hle₅ := Cursor.remaining_le_of_skipAttributes hattributes
    have hle₆ := Cursor.remaining_takeSemicolon_le c₅
    obtain ⟨hpass, -, hkind⟩ := Cursor.passes_of_expect (by simp) hclose
    simp only at *
    rw [afterSemicolon_of_skipAttributes
      (by simp [Cursor.afterSemicolon_of_passes hpass, hkind]) hattributes] at hend
    obtain ⟨sign', c₁', hsign', -, h₁⟩ := h.expect (by simp) hsign (by omega)
    obtain ⟨paren', c₂', hparen', -, h₂⟩ :=
      (h₁.advance (by omega)).expect (by simp) hparen (by omega)
    obtain ⟨source', c₃', hsource', hsame, h₃⟩ := h₂.expect (by simp) hsource (by omega)
    obtain ⟨close', c₄', hclose', -, h₄⟩ := h₃.expect (by simp) hclose (by omega)
    obtain ⟨c₅', hattributes', hterminated, hn⟩ := h₄.sourceEnding hsame hattributes hle hend
    have hsome := isSome_of_sourceEnding (by simp [hpass.previous]) hattributes
    have hrequire' : (c₁'.current.value == "require" &&
        c₁'.followingKind == .mark .openParen) = true := by
      rwa [h₁.value_eq (by omega), h₁.followingKind_eq (by omega)]
    refine ⟨some ⟨.ofToken source', [⟨"default", name'.value, typeOnly⟩], typeOnly,
      c₅'.takeSemicolon.1, ⟨start'.start, c₅'.takeSemicolon.2.passedOffset⟩⟩, c₅'.takeSemicolon.2,
      bind_eq_ok.2 ⟨_, hsign', ?_⟩, .some ⟨hsame.moduleSource, by simp only [hname.value], rfl,
        hterminated, hstart.start, hn.passedOffset hsome⟩, hn⟩
    simp only [if_pos hrequire']
    exact bind_eq_ok.2 ⟨_, hparen', bind_eq_ok.2 ⟨_, hsource', bind_eq_ok.2 ⟨_, hclose',
      bind_eq_ok.2 ⟨_, hattributes', rfl⟩⟩⟩⟩
  · next hrequire =>
    obtain ⟨⟨target, c₂⟩, htarget, hok⟩ := bind_eq_ok.1 hok
    obtain ⟨c₃, hdots, hok⟩ := bind_eq_ok.1 hok
    cases hok
    have hlt₂ := Cursor.remaining_lt_of_expectName htarget
    have hle₃ := Cursor.remaining_le_of_dottedNames hdots
    have hle₄ := Cursor.remaining_takeSemicolon_le c₃
    have hafter := Cursor.not_afterSemicolon_of_dottedNames hdots
      (Cursor.not_afterSemicolon_of_expectName htarget)
    simp only at *
    obtain ⟨sign', c₁', hsign', -, h₁⟩ := h.expect (by simp) hsign (by omega)
    obtain ⟨target', c₂', htarget', -, h₂⟩ := h₁.expectName htarget (by omega)
    -- At the seam no semicolon was taken, so that the condition on the end applies.
    have hcloses : c₃.remaining = S.old.length → S.Closes := fun heq => by
      rcases Cursor.takeSemicolon_cases c₃ with ⟨htake, -, -, hlt⟩ | ⟨htake, -⟩
      · simp only [htake] at hle
        omega
      · simp only [htake] at hend
        exact hend hafter (by omega)
    obtain ⟨c₃', hdots', h₃⟩ := h₂.dottedNames hdots (by omega) fun heq =>
      (hcloses heq).kind _ (by decide)
    obtain ⟨-, hn⟩ := h₃.takeSemicolon hle fun _ heq => (hcloses heq).kind _ (by decide)
    have hrequire' : ¬ (c₁'.current.value == "require" &&
        c₁'.followingKind == .mark .openParen) = true := by
      rw [h₁.value_eq (by omega)]
      rcases Nat.lt_or_eq_of_le (by omega : S.old.length + 1 ≤ c₁.remaining) with hgt | heq
      · rwa [h₁.followingKind_eq hgt]
      · rw [h₁.followingKind_eq_nextKind heq.symm]
        have := (hcloses (by omega)).kind (.mark .openParen) (by decide)
        simp [this]
    refine ⟨none, c₃'.takeSemicolon.2, bind_eq_ok.2 ⟨_, hsign', ?_⟩, .none, hn⟩
    simp only [if_neg hrequire']
    exact bind_eq_ok.2 ⟨_, htarget', bind_eq_ok.2 ⟨_, hdots', rfl⟩⟩

theorem Matches.importDefault {s : Option ImportStatement} (h : S.Matches c c')
    (hstart : S.Same start start') (hok : c.importDefault start typeOnly = .ok (s, n))
    (hle : S.old.length ≤ n.remaining)
    (hend : n.afterSemicolon = false → n.remaining ≤ S.old.length + 1 → S.Closes) :
    ∃ s' n', c'.importDefault start' typeOnly = .ok (s', n') ∧ S.SameResult s s' ∧
      S.Matches n n' := by
  obtain ⟨⟨name, c₁⟩, hname, hok⟩ := bind_eq_ok.1 hok
  have hlt := Cursor.remaining_lt_of_expectName hname
  have hadvance := Cursor.remaining_advance c₁
  simp only at hok
  split at hok
  · next hequals =>
    have hlt₁ := Cursor.remaining_lt_of_importAlias hok
    obtain ⟨name', c₁', hname', hsame, h₁⟩ := h.expectName hname (by omega)
    obtain ⟨s', n', hok', hs, hn⟩ := h₁.importAlias hstart hsame hok hle hend
    refine ⟨s', n', bind_eq_ok.2 ⟨_, hname', ?_⟩, hs, hn⟩
    simp only [h₁.atMark_eq (by omega), if_pos hequals]
    exact hok'
  split at hok
  · next hequals hcomma =>
    split at hok
    · next hbindings =>
      obtain ⟨⟨statement, c₂⟩, hstatement, hok⟩ := bind_eq_ok.1 hok
      cases hok
      have hlt₁ := Cursor.remaining_lt_of_importFrom hstatement
      simp only at hle hend hlt
      obtain ⟨name', c₁', hname', hsame, h₁⟩ := h.expectName hname (by omega)
      have h₂ := h₁.advance (by omega)
      obtain ⟨s', n', hok', hs, hn⟩ := h₂.importFrom hstart hstatement hle hend
      refine ⟨some s', n', bind_eq_ok.2 ⟨_, hname', ?_⟩, .some hs, hn⟩
      simp only [h₁.atMark_eq (by omega), if_neg hequals, if_pos hcomma,
        h₂.atMark_eq (by omega), if_pos hbindings, hsame.value]
      exact bind_eq_ok.2 ⟨_, hok', rfl⟩
    · cases hok
  · next hequals hcomma =>
    obtain ⟨⟨statement, c₂⟩, hstatement, hok⟩ := bind_eq_ok.1 hok
    cases hok
    have hlt₁ := Cursor.remaining_lt_of_importFrom hstatement
    simp only at hle hend hlt
    obtain ⟨name', c₁', hname', hsame, h₁⟩ := h.expectName hname (by omega)
    obtain ⟨s', n', hok', hs, hn⟩ := h₁.importFrom hstart hstatement hle hend
    refine ⟨some s', n', bind_eq_ok.2 ⟨_, hname', ?_⟩, .some hs, hn⟩
    simp only [h₁.atMark_eq (by omega), if_neg hequals, if_neg hcomma, hsame.value]
    exact bind_eq_ok.2 ⟨_, hok', rfl⟩

theorem remaining_of_importFrom {bound : List Specifier} {s : ImportStatement}
    (hok : c.importFrom start bound typeOnly = .ok (s, n)) :
    n.remaining + 2 ≤ c.remaining ∧ (bound = [] → n.remaining + 3 ≤ c.remaining) := by
  obtain ⟨⟨specifiers, c₁⟩, hspecifiers, hok⟩ := bind_eq_ok.1 hok
  obtain ⟨⟨word, c₂⟩, hword, hok⟩ := bind_eq_ok.1 hok
  have hle := Cursor.remaining_le_of_importBindings hspecifiers
  have hlt₁ := Cursor.remaining_lt_of_expect (by simp) hword
  have hlt₂ := Cursor.remaining_lt_of_importSource hok
  refine ⟨by omega, ?_⟩
  rintro rfl
  have hlt : c₁.remaining < c.remaining := by
    unfold Cursor.importBindings at hspecifiers
    split at hspecifiers
    · obtain ⟨⟨as, c₃⟩, has, hok⟩ := bind_eq_ok.1 hspecifiers
      obtain ⟨⟨name, c₄⟩, hname, hok⟩ := bind_eq_ok.1 hok
      have := Cursor.remaining_lt_of_expect (by simp) has
      have := Cursor.remaining_lt_of_expectName hname
      have := Cursor.remaining_advance_le c
      cases hok
      simp only at *
      omega
    split at hspecifiers
    · obtain ⟨⟨entries, c₃⟩, hentries, hok⟩ := bind_eq_ok.1 hspecifiers
      cases hok
      exact Cursor.remaining_lt_of_clause hentries
    · cases hspecifiers
  omega

theorem remaining_of_importDefault {s : Option ImportStatement}
    (hok : c.importDefault start typeOnly = .ok (s, n)) : n.remaining + 3 ≤ c.remaining := by
  obtain ⟨⟨name, c₁⟩, hname, hok⟩ := bind_eq_ok.1 hok
  have hlt := Cursor.remaining_lt_of_expectName hname
  simp only at hok
  split at hok
  · obtain ⟨⟨sign, c₂⟩, hsign, hok⟩ := bind_eq_ok.1 hok
    have hlt₁ := Cursor.remaining_lt_of_expect (by simp) hsign
    have hadvance := Cursor.remaining_advance_le c₂
    simp only at hok
    split at hok
    · obtain ⟨⟨paren, c₃⟩, hparen, hok⟩ := bind_eq_ok.1 hok
      obtain ⟨⟨source, c₄⟩, hsource, hok⟩ := bind_eq_ok.1 hok
      obtain ⟨⟨close, c₅⟩, hclose, hok⟩ := bind_eq_ok.1 hok
      obtain ⟨c₆, hattributes, hok⟩ := bind_eq_ok.1 hok
      have := Cursor.remaining_lt_of_expect (by simp) hparen
      have := Cursor.remaining_lt_of_expect (by simp) hsource
      have := Cursor.remaining_lt_of_expect (by simp) hclose
      have := Cursor.remaining_le_of_skipAttributes hattributes
      have := Cursor.remaining_takeSemicolon_le c₆
      cases hok
      simp only at *
      omega
    · obtain ⟨⟨target, c₃⟩, htarget, hok⟩ := bind_eq_ok.1 hok
      obtain ⟨c₄, hdots, hok⟩ := bind_eq_ok.1 hok
      have := Cursor.remaining_lt_of_expectName htarget
      have := Cursor.remaining_le_of_dottedNames hdots
      have := Cursor.remaining_takeSemicolon_le c₄
      cases hok
      simp only at *
      omega
  split at hok
  · split at hok
    · obtain ⟨⟨statement, c₂⟩, hstatement, hok⟩ := bind_eq_ok.1 hok
      have := (remaining_of_importFrom hstatement).1
      have := Cursor.remaining_advance_le c₁
      cases hok
      simp only at *
      omega
    · cases hok
  · obtain ⟨⟨statement, c₂⟩, hstatement, hok⟩ := bind_eq_ok.1 hok
    have := (remaining_of_importFrom hstatement).1
    cases hok
    simp only at *
    omega

/-- Whether `type` is a modifier shows in front of the seam, as the rest of the import does. -/
theorem Matches.typeModifiesImport_eq (h : S.Matches c c') (hinside : S.old.length < c.remaining)
    (hlt : c.atString = false → S.old.length + 3 ≤ c.remaining) :
    c'.typeModifiesImport = c.typeModifiesImport := by
  unfold Cursor.typeModifiesImport
  rw [h.atWord_eq hinside]
  cases hstring : c.atString with
  | true =>
    have hword : c.atWord .typeWord = false := by
      rw [Cursor.atWord, Cursor.kind_of_atString hstring]
      rfl
    rw [hword]
    rfl
  | false =>
    have hlt := hlt hstring
    rw [h.followingKind_eq (by omega), (h.peek (by omega : S.old.length + 2 < c.remaining)).kind]

/-- No string follows the modifier `type`. -/
theorem atString_of_advanceIf (h : (c.advanceIf c.typeModifiesImport).atString = true) :
    c.atString = true := by
  cases hmodified : c.typeModifiesImport with
  | false => rwa [hmodified] at h
  | true =>
    rw [hmodified] at h
    have hkind : c.followingKind = .string := by
      rw [Cursor.followingKind, Cursor.peek_succ]
      exact Cursor.kind_of_atString h
    simp [Cursor.typeModifiesImport, hkind, TokenKind.isName] at hmodified

/-- An import in front of a seam is the same in both streams. -/
theorem Tied.importStatement {s : Option ImportStatement} (h : S.Tied c.ahead c'.ahead)
    (hok : c.importStatement = .ok (s, n)) (hle : S.old.length ≤ n.remaining)
    (hend : n.afterSemicolon = false → n.remaining ≤ S.old.length + 1 → S.Closes) :
    ∃ s' n', c'.importStatement = .ok (s', n') ∧ S.SameResult s s' ∧ S.Matches n n' := by
  obtain ⟨⟨start, c₁⟩, hstart, hok⟩ := bind_eq_ok.1 hok
  have hmodified := Cursor.remaining_advanceIf_le c₁.typeModifiesImport c₁
  simp only at hok
  split at hok
  · next hstring =>
    obtain ⟨⟨statement, c₂⟩, hstatement, hok⟩ := bind_eq_ok.1 hok
    cases hok
    have hlt := Cursor.remaining_lt_of_importSource hstatement
    simp only at hle hend
    obtain ⟨start', c₁', hstart', hsame, h₁⟩ := h.expect (by simp) hstart (by omega)
    have htype : c₁'.typeModifiesImport = c₁.typeModifiesImport :=
      h₁.typeModifiesImport_eq (by omega) fun hfirst => by
        simp [atString_of_advanceIf hstring] at hfirst
    have h₂ := h₁.advanceIf c₁.typeModifiesImport fun _ => by omega
    obtain ⟨s', n', hok', hs, hn⟩ := h₂.importSource hsame hstatement hle hend
    refine ⟨some s', n', bind_eq_ok.2 ⟨_, hstart', ?_⟩, .some hs, hn⟩
    simp only [htype]
    rw [h₂.atString_eq (by omega), if_pos hstring]
    exact bind_eq_ok.2 ⟨_, hok', rfl⟩
  split at hok
  · next hstring hname =>
    have hlt := remaining_of_importDefault hok
    obtain ⟨start', c₁', hstart', hsame, h₁⟩ := h.expect (by simp) hstart (by omega)
    have htype := h₁.typeModifiesImport_eq (by omega) fun _ => by omega
    have h₂ := h₁.advanceIf c₁.typeModifiesImport fun _ => by omega
    obtain ⟨s', n', hok', hs, hn⟩ := h₂.importDefault hsame hok hle hend
    refine ⟨s', n', bind_eq_ok.2 ⟨_, hstart', ?_⟩, hs, hn⟩
    simp only [htype]
    rw [h₂.atString_eq (by omega), h₂.atName_eq (by omega), if_neg hstring, if_pos hname]
    exact hok'
  · next hstring hname =>
    obtain ⟨⟨statement, c₂⟩, hstatement, hok⟩ := bind_eq_ok.1 hok
    cases hok
    have hlt := (remaining_of_importFrom hstatement).2 rfl
    simp only at hle hend
    obtain ⟨start', c₁', hstart', hsame, h₁⟩ := h.expect (by simp) hstart (by omega)
    have htype := h₁.typeModifiesImport_eq (by omega) fun _ => by omega
    have h₂ := h₁.advanceIf c₁.typeModifiesImport fun _ => by omega
    obtain ⟨s', n', hok', hs, hn⟩ := h₂.importFrom hsame hstatement hle hend
    refine ⟨some s', n', bind_eq_ok.2 ⟨_, hstart', ?_⟩, .some hs, hn⟩
    simp only [htype]
    rw [h₂.atString_eq (by omega), h₂.atName_eq (by omega), if_neg hstring, if_neg hname]
    exact bind_eq_ok.2 ⟨_, hok', rfl⟩

end Statement

end Seam

end ComponentRegistry
