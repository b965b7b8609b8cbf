import ComponentRegistry.Proofs.Lexing.Writing
import ComponentRegistry.Proofs.Seam.Basic
import ComponentRegistry.Rewrite.SelfImport

/-! # Reading an import that is written down

Which readers accept which words. The words of an import clause are told here without their places,
so that the same words are read alike wherever they stand.
-/

namespace ComponentRegistry

namespace Lexer

theorem isName_wordKind (word : List Char) : (wordKind word).isName = true := by
  unfold wordKind
  split <;> rfl

theorem wordKind_eq_keyword {word : List Char} {k : Keyword} :
    wordKind word = .keyword k ↔ String.ofList word = k.spelling := by
  unfold wordKind
  constructor
  · intro h
    split at h
    · next found hfound =>
      cases h
      exact (by simpa using List.find?_some hfound : k.spelling = _).symm
    · cases h
  · intro h
    have hfound : Keyword.ofSpelling? k.spelling = some k := by
      cases k <;> decide
    rw [h, hfound]

end Lexer

/-- The word that a name reads as. -/
def Token.ofName (name : String) : Token := ⟨Lexer.wordKind name.toList, name, name, .start⟩

/-- The word that a mark reads as. -/
def Token.ofMark (m : Mark) : Token := ⟨.mark m, m.spelling, m.spelling, .start⟩

theorem Token.isName_ofName (name : String) : (ofName name).kind.isName = true :=
  Lexer.isName_wordKind _

theorem Token.kind_ofName {name : String} {k : Keyword} :
    (ofName name).kind = .keyword k ↔ name = k.spelling := by
  rw [ofName, Lexer.wordKind_eq_keyword, String.ofList_toList]

namespace Cursor

/-- The tokens from one place to another are certain words. -/
def Spells (c : Cursor) (words : List Token) (n : Cursor) : Prop :=
  ∃ ts, Passes c n ts ∧ ts.map Token.bare = words

variable {c n m : Cursor} {w : Token} {ws us : List Token}

theorem Spells.eq_of_nil (h : Spells c [] n) : n = c := by
  obtain ⟨ts, hpass, hts⟩ := h
  obtain rfl : ts = [] := List.map_eq_nil_iff.1 hts
  exact hpass.eq_of_nil

theorem Spells.cons (h : Spells c (w :: ws) n) :
    c.current.bare = w ∧ Passes c c.advance [c.current] ∧ Spells c.advance ws n := by
  obtain ⟨ts, hpass, hts⟩ := h
  cases ts with
  | nil => cases hts
  | cons t ts =>
    obtain ⟨rfl, rfl⟩ := List.cons.inj hts
    obtain ⟨rfl, hrest⟩ := hpass.head
    exact ⟨rfl, passes_cons hpass.ahead, ts, hrest, rfl⟩

theorem Spells.kind (h : Spells c (w :: ws) n) : c.kind = w.kind := by
  rw [← h.cons.1]
  rfl

theorem Spells.value (h : Spells c (w :: ws) n) : c.current.value = w.value := by
  rw [← h.cons.1]
  rfl

theorem Spells.atMark (h : Spells c (w :: ws) n) (k : Mark) : c.atMark k = (w.kind == .mark k) := by
  rw [Cursor.atMark, h.kind]

theorem Spells.atWord (h : Spells c (w :: ws) n) (k : Keyword) :
    c.atWord k = (w.kind == .keyword k) := by
  rw [Cursor.atWord, h.kind]

theorem Spells.expect (h : Spells c (w :: ws) n) :
    c.expect w.kind = .ok (c.current, c.advance) := by
  rw [Cursor.expect, if_pos h.kind]

theorem Spells.expectName (h : Spells c (w :: ws) n) (hw : w.kind.isName = true) :
    c.expectName = .ok (c.current, c.advance) := by
  rw [Cursor.expectName, if_pos]
  rwa [Cursor.atName, h.kind]

theorem Spells.expectModuleName (h : Spells c (w :: ws) n) (hw : w.kind.isName = true) :
    c.expectModuleName = .ok (c.current, c.advance) := by
  have hstring : c.atString = false := by
    rw [Cursor.atString, h.kind]
    cases hk : w.kind <;> simp_all [TokenKind.isName]
  rw [Cursor.expectModuleName, hstring]
  exact h.expectName hw

end Cursor

/-- The words of an entry of an import clause. -/
def Specifier.clauseWords (statementTypeOnly : Bool) (s : Specifier) : List Token :=
  (if s.typeOnly && !statementTypeOnly then [.ofName "type"] else []) ++ .ofName s.imported ::
    (if s.imported = s.bound then [] else [.ofName "as", .ofName s.bound])

/-- An entry that reads as itself when it is written in a clause. The name `as` is none after the
modifier `type`. -/
structure Specifier.Writable (statementTypeOnly : Bool) (s : Specifier) : Prop where
  imported : Lexeme.isNameText s.imported.toList = true
  bound : Lexeme.isNameText s.bound.toList = true
  typeOnly : statementTypeOnly = true → s.typeOnly = true
  modified : s.typeOnly = true → statementTypeOnly = false → s.imported ≠ "as"

instance (statementTypeOnly : Bool) (s : Specifier) :
    Decidable (s.Writable statementTypeOnly) :=
  decidable_of_iff (Lexeme.isNameText s.imported.toList = true ∧
      Lexeme.isNameText s.bound.toList = true ∧
      (statementTypeOnly = true → s.typeOnly = true) ∧
      (s.typeOnly = true → statementTypeOnly = false → s.imported ≠ "as"))
    ⟨fun ⟨imported, bound, typeOnly, modified⟩ => ⟨imported, bound, typeOnly, modified⟩,
      fun h => ⟨h.imported, h.bound, h.typeOnly, h.modified⟩⟩

/-- The words of the entries of a clause, with commas between them. -/
def clauseWords (statementTypeOnly : Bool) : List Specifier → List Token
  | [] => []
  | [s] => s.clauseWords statementTypeOnly
  | s :: t :: rest =>
    s.clauseWords statementTypeOnly ++ .ofMark .comma :: clauseWords statementTypeOnly (t :: rest)

namespace Cursor

variable {typeOnly : Bool} {s : Specifier} {entries : List Specifier}

/-- Whether an entry begins with the modifier `type`. -/
theorem typeModifiesEntry_of_spells (hs : s.Writable typeOnly) {w : Token}
    (h : Spells c (s.clauseWords typeOnly ++ w :: ws) n)
    (hw : w.kind = .mark .comma ∨ w.kind = .mark .closeBrace) :
    c.typeModifiesEntry = (s.typeOnly && !typeOnly) := by
  unfold Specifier.clauseWords at h
  cases hmodified : s.typeOnly && !typeOnly with
  | true =>
    rw [hmodified] at h
    obtain ⟨htyped, hfree⟩ : s.typeOnly = true ∧ typeOnly = false := by simpa using hmodified
    have has : (Token.ofName s.imported).kind ≠ .keyword .asWord := by
      rw [Ne, Token.kind_ofName]
      exact hs.modified htyped hfree
    have htype : c.atWord .typeWord = true := by
      rw [h.atWord]
      decide
    rw [typeModifiesEntry, htype, followingKind_eq, h.cons.2.2.kind, Token.isName_ofName]
    simp [has]
  | false =>
    rw [hmodified] at h
    rw [typeModifiesEntry, h.atWord]
    by_cases htype : s.imported = "type"
    · have hnext : c.advance.kind = w.kind ∨ c.advance.kind = .keyword .asWord := by
        have hnext := h.cons.2.2
        by_cases hsame : s.imported = s.bound
        · rw [if_pos hsame] at hnext
          exact .inl hnext.kind
        · rw [if_neg hsame] at hnext
          right
          rw [hnext.kind]
          decide
      rw [followingKind_eq]
      rcases hnext with hk | hk
      · rw [hk]
        rcases hw with hw | hw <;> simp [hw, TokenKind.isName]
      · simp [hk]
    · have hne : (Token.ofName s.imported).kind ≠ .keyword .typeWord := by
        rw [Ne, Token.kind_ofName]
        exact htype
      simp [hne]

theorem specifier_of_spells (hs : s.Writable typeOnly) {w : Token}
    (h : Spells c (s.clauseWords typeOnly ++ w :: ws) n)
    (hw : w.kind = .mark .comma ∨ w.kind = .mark .closeBrace) :
    ∃ m, c.specifier typeOnly = .ok (s, m) ∧ Spells m (w :: ws) n := by
  have hflag : (typeOnly || (s.typeOnly && !typeOnly)) = s.typeOnly := by
    cases htypeOnly : typeOnly with
    | true => simp [hs.typeOnly htypeOnly]
    | false => simp
  have hmodified := typeModifiesEntry_of_spells hs h hw
  -- After the modifier the entry goes on with its name.
  have hname : Spells (c.advanceIf (s.typeOnly && !typeOnly)) (.ofName s.imported ::
      ((if s.imported = s.bound then [] else [.ofName "as", .ofName s.bound]) ++ w :: ws)) n := by
    unfold Specifier.clauseWords at h
    cases hcase : s.typeOnly && !typeOnly with
    | true =>
      rw [hcase] at h
      exact h.cons.2.2
    | false =>
      rw [hcase] at h
      exact h
  have himported := hname.expectModuleName (Token.isName_ofName _)
  have hvalue : (c.advanceIf (s.typeOnly && !typeOnly)).current.value = s.imported := hname.value
  have hrest := hname.cons.2.2
  rw [specifier, hmodified]
  generalize c.advanceIf (s.typeOnly && !typeOnly) = c₁ at himported hvalue hrest
  by_cases hsame : s.imported = s.bound
  · rw [if_pos hsame] at hrest
    have has : ¬ c₁.advance.atWord .asWord = true := by
      rw [hrest.atWord]
      rcases hw with hw | hw <;> simp [hw]
    refine ⟨c₁.advance, bind_eq_ok.2 ⟨_, himported, ?_⟩, hrest⟩
    obtain ⟨imported, bound, entryTypeOnly⟩ := s
    simp only at hsame hvalue hflag
    simp only [if_neg has, hvalue, hflag, hsame]
  · rw [if_neg hsame] at hrest
    have has : c₁.advance.atWord .asWord = true := by
      rw [hrest.atWord]
      decide
    have hbound := hrest.cons.2.2
    have hbound' : c₁.advance.advance.current.value = s.bound := hbound.value
    refine ⟨_, bind_eq_ok.2 ⟨_, himported, ?_⟩, hbound.cons.2.2⟩
    simp only [if_pos has]
    refine bind_eq_ok.2 ⟨_, hbound.expectModuleName (Token.isName_ofName _), ?_⟩
    simp only [hvalue, hbound', hflag]

theorem not_atCloseBrace_of_spells {w : Token} (h : Spells c (s.clauseWords typeOnly ++ w :: ws) n) :
    ¬ c.atMark .closeBrace = true := by
  have hname : c.kind.isName = true := by
    unfold Specifier.clauseWords at h
    split at h
    · rw [h.kind]
      exact Token.isName_ofName _
    · rw [h.kind]
      exact Token.isName_ofName _
  intro hclose
  rw [kind_of_atMark hclose] at hname
  cases hname

/-- A clause lists the entries that were written. -/
theorem clauseEntries_of_spells (hs : ∀ s ∈ entries, s.Writable typeOnly)
    (h : Spells c (clauseWords typeOnly entries ++ .ofMark .closeBrace :: ws) n) :
    ∃ m, c.clauseEntries typeOnly = .ok (entries, m) ∧ Spells m ws n := by
  induction entries generalizing c with
  | nil =>
    have hclose : c.atMark .closeBrace = true := by
      rw [h.atMark]
      rfl
    refine ⟨c.advance, ?_, h.cons.2.2⟩
    rw [clauseEntries, if_pos hclose]
  | cons s rest ih =>
    have hfirst := hs s List.mem_cons_self
    cases rest with
    | nil =>
      obtain ⟨m, hentry, hm⟩ := specifier_of_spells hfirst h (.inr rfl)
      have hcomma : ¬ m.atMark .comma = true := by
        rw [hm.atMark]
        decide
      have hclose : m.atMark .closeBrace = true := by
        rw [hm.atMark]
        rfl
      refine ⟨m.advance, ?_, hm.cons.2.2⟩
      rw [clauseEntries, if_neg (not_atCloseBrace_of_spells h)]
      split
      · next hfault => simp [hentry] at hfault
      · next hentry' =>
        rw [hentry, Except.ok.injEq, Prod.mk.injEq] at hentry'
        obtain ⟨rfl, rfl⟩ := hentry'
        rw [if_neg hcomma, if_pos hclose]
    | cons t rest =>
      rw [clauseWords, List.append_assoc, List.cons_append] at h
      obtain ⟨m, hentry, hm⟩ := specifier_of_spells hfirst h (.inl rfl)
      have hcomma : m.atMark .comma = true := by
        rw [hm.atMark]
        rfl
      obtain ⟨k, hothers, hk⟩ := ih (fun s hs' => hs s (List.mem_cons_of_mem _ hs')) hm.cons.2.2
      refine ⟨k, ?_, hk⟩
      rw [clauseEntries, if_neg (not_atCloseBrace_of_spells h)]
      split
      · next hfault => simp [hentry] at hfault
      · next hentry' =>
        rw [hentry, Except.ok.injEq, Prod.mk.injEq] at hentry'
        obtain ⟨rfl, rfl⟩ := hentry'
        rw [if_pos hcomma, hothers]
        rfl

/-- A clause in braces lists them. -/
theorem clause_of_spells (hs : ∀ s ∈ entries, s.Writable typeOnly)
    (h : Spells c (.ofMark .openBrace :: (clauseWords typeOnly entries ++
      .ofMark .closeBrace :: ws)) n) :
    ∃ m, c.clause typeOnly = .ok (entries, m) ∧ Spells m ws n := by
  obtain ⟨m, hentries, hm⟩ := clauseEntries_of_spells hs h.cons.2.2
  exact ⟨m, bind_eq_ok.2 ⟨_, h.expect, hentries⟩, hm⟩

namespace Spells

theorem atName_ofName {name : String} (h : Spells c (.ofName name :: ws) n) : c.atName = true := by
  rw [atName, h.kind]
  exact Token.isName_ofName name

/-- What follows the bindings of an import is read as its module. -/
theorem importFrom_of_bindings {c m n : Cursor} {start : Token} {typeOnly : Bool}
    {bound all : List Specifier} {read : ImportStatement × Cursor}
    (hm : Spells m (.ofName "from" :: ws) n)
    (hbindings : c.importBindings bound typeOnly = .ok (all, m))
    (hread : m.advance.importSource start all typeOnly = .ok read) :
    c.importFrom start bound typeOnly = .ok read := by
  have hfrom : (Token.ofName "from").kind = .keyword .fromWord := by decide
  refine bind_eq_ok.2 ⟨_, hbindings, bind_eq_ok.2 ⟨(m.current, m.advance), ?_, hread⟩⟩
  rw [← hfrom]
  exact hm.expect

/-- A default name on its own. -/
theorem importDefault_eq {name : String} {source : Token}
    (h : Spells c (.ofName name :: .ofName "from" :: source :: ws) n) (start : Token)
    (typeOnly : Bool) :
    ∃ m, Spells m (source :: ws) n ∧ ∀ s k,
      m.importSource start [⟨"default", name, typeOnly⟩] typeOnly = .ok (s, k) →
        c.importDefault start typeOnly = .ok (some s, k) := by
  have hnext := h.cons.2.2
  have hmark : ∀ k, ¬ c.advance.atMark k = true := by
    intro k
    rw [hnext.atMark, show (Token.ofName "from").kind = .keyword .fromWord by decide]
    simp
  have hvalue : c.current.value = name := h.value
  have hbindings : c.advance.importBindings [⟨"default", name, typeOnly⟩] typeOnly =
      .ok ([⟨"default", name, typeOnly⟩], c.advance) := by
    rw [importBindings, if_neg (hmark _), if_neg (hmark _)]
    rfl
  refine ⟨c.advance.advance, hnext.cons.2.2, fun s k hok => ?_⟩
  refine bind_eq_ok.2 ⟨_, h.expectName (Token.isName_ofName name), ?_⟩
  simp only [if_neg (hmark _), hvalue]
  exact bind_eq_ok.2 ⟨_, hnext.importFrom_of_bindings hbindings hok, rfl⟩

end Spells

end Cursor

/-- Words for a clause or a namespace, and the entries that they bind. -/
inductive ClauseSpelling (typeOnly : Bool) : List Token → List Specifier → Prop where
  | clause {entries : List Specifier} (writable : ∀ s ∈ entries, s.Writable typeOnly) :
      ClauseSpelling typeOnly
        (.ofMark .openBrace :: (clauseWords typeOnly entries ++ [.ofMark .closeBrace])) entries
  | whole (name : String) :
      ClauseSpelling typeOnly [.ofMark .star, .ofName "as", .ofName name] [⟨"*", name, typeOnly⟩]

/-- Words for all that an import binds. After the modifier `type`, a default name `from` has to stand
alone. -/
inductive BindingSpelling (typeOnly : Bool) : List Token → List Specifier → Prop where
  | clause {words : List Token} {entries : List Specifier}
      (spelled : ClauseSpelling typeOnly words entries) : BindingSpelling typeOnly words entries
  | lone (name : String) :
      BindingSpelling typeOnly [.ofName name] [⟨"default", name, typeOnly⟩]
  | both {name : String} {words : List Token} {entries : List Specifier}
      (spelled : ClauseSpelling typeOnly words entries)
      (other : typeOnly = true → name ≠ "from") :
      BindingSpelling typeOnly (.ofName name :: .ofMark .comma :: words)
        (⟨"default", name, typeOnly⟩ :: entries)

namespace ClauseSpelling

variable {typeOnly : Bool} {words : List Token} {entries : List Specifier} {c n : Cursor}
  {ws : List Token} {source : Token}

theorem exists_first (h : ClauseSpelling typeOnly words entries) : ∃ w rest, words = w :: rest ∧
    (w.kind = .mark .openBrace ∨ w.kind = .mark .star) := by
  cases h with
  | clause => exact ⟨_, _, rfl, .inl rfl⟩
  | whole => exact ⟨_, _, rfl, .inr rfl⟩

theorem kind_of_spells (h : ClauseSpelling typeOnly words entries)
    (hc : Cursor.Spells c (words ++ ws) n) : c.kind = .mark .openBrace ∨ c.kind = .mark .star := by
  obtain ⟨w, rest, rfl, hw⟩ := h.exists_first
  rw [List.cons_append] at hc
  rwa [hc.kind]

theorem importBindings_eq (h : ClauseSpelling typeOnly words entries)
    (hc : Cursor.Spells c (words ++ ws) n) (bound : List Specifier) :
    ∃ m, c.importBindings bound typeOnly = .ok (bound ++ entries, m) ∧ Cursor.Spells m ws n := by
  cases h with
  | clause writable =>
    have hopen : c.atMark .openBrace = true := by
      rw [hc.atMark]
      rfl
    have hstar : ¬ c.atMark .star = true := by
      rw [hc.atMark]
      decide
    rw [List.cons_append, List.append_assoc, List.singleton_append] at hc
    obtain ⟨m, hclause, hm⟩ := Cursor.clause_of_spells writable hc
    refine ⟨m, ?_, hm⟩
    rw [Cursor.importBindings, if_neg hstar, if_pos hopen]
    exact bind_eq_ok.2 ⟨_, hclause, rfl⟩
  | whole name =>
    have hstar : c.atMark .star = true := by
      rw [hc.atMark]
      rfl
    have has := hc.cons.2.2
    have hname := has.cons.2.2
    have hword : c.advance.expect (.keyword .asWord) = .ok (c.advance.current, c.advance.advance) := by
      have hkind : (Token.ofName "as").kind = .keyword .asWord := by decide
      rw [← hkind]
      exact has.expect
    refine ⟨_, ?_, hname.cons.2.2⟩
    rw [Cursor.importBindings, if_pos hstar]
    refine bind_eq_ok.2 ⟨_, hword, bind_eq_ok.2 ⟨_, hname.expectName (Token.isName_ofName _), ?_⟩⟩
    simp only [hname.value, Token.ofName]

theorem atName_eq_false (h : ClauseSpelling typeOnly words entries)
    (hc : Cursor.Spells c (words ++ ws) n) : c.atName = false := by
  rw [Cursor.atName]
  rcases h.kind_of_spells hc with hk | hk <;> simp [hk, TokenKind.isName]

/-- A clause or a namespace is bound besides what is bound already. -/
theorem importFrom_eq (h : ClauseSpelling typeOnly words entries)
    (hc : Cursor.Spells c (words ++ .ofName "from" :: source :: ws) n) (start : Token)
    (bound : List Specifier) :
    ∃ m, Cursor.Spells m (source :: ws) n ∧ ∀ s k,
      m.importSource start (bound ++ entries) typeOnly = .ok (s, k) →
        c.importFrom start bound typeOnly = .ok (s, k) := by
  obtain ⟨m, hbindings, hm⟩ := h.importBindings_eq hc bound
  exact ⟨m.advance, hm.cons.2.2, fun _ _ => hm.importFrom_of_bindings hbindings⟩

/-- A default name, and behind a comma a clause or a namespace. -/
theorem importDefault_eq {name : String} (h : ClauseSpelling typeOnly words entries)
    (hc : Cursor.Spells c (.ofName name :: .ofMark .comma ::
      (words ++ .ofName "from" :: source :: ws)) n) (start : Token) :
    ∃ m, Cursor.Spells m (source :: ws) n ∧ ∀ s k,
      m.importSource start (⟨"default", name, typeOnly⟩ :: entries) typeOnly = .ok (s, k) →
        c.importDefault start typeOnly = .ok (some s, k) := by
  have hnext := hc.cons.2.2
  have hequals : ¬ c.advance.atMark .equals = true := by
    rw [hnext.atMark]
    decide
  have hcomma : c.advance.atMark .comma = true := by
    rw [hnext.atMark]
    rfl
  have hclause : (c.advance.advance.atMark .openBrace || c.advance.advance.atMark .star) =
      true := by
    rw [Cursor.atMark, Cursor.atMark]
    rcases h.kind_of_spells hnext.cons.2.2 with hk | hk <;> simp [hk]
  have hvalue : c.current.value = name := hc.value
  obtain ⟨m, hm, hread⟩ := h.importFrom_eq hnext.cons.2.2 start [⟨"default", name, typeOnly⟩]
  refine ⟨m, hm, fun s k hok => ?_⟩
  refine bind_eq_ok.2 ⟨_, hc.expectName (Token.isName_ofName name), ?_⟩
  simp only [if_neg hequals, if_pos hcomma, if_pos hclause, hvalue]
  exact bind_eq_ok.2 ⟨_, hread s k hok, rfl⟩

end ClauseSpelling

namespace BindingSpelling

variable {typeOnly : Bool} {words : List Token} {entries : List Specifier} {c n : Cursor}
  {ws : List Token} {source : Token}

theorem kind_of_spells (h : BindingSpelling typeOnly words entries)
    (hc : Cursor.Spells c (words ++ ws) n) :
    c.kind = .mark .openBrace ∨ c.kind = .mark .star ∨ c.kind.isName = true := by
  cases h with
  | clause spelled =>
    rcases spelled.kind_of_spells hc with hk | hk
    · exact .inl hk
    · exact .inr (.inl hk)
  | lone name | both =>
    right
    right
    rw [hc.kind]
    exact Token.isName_ofName _

/-- Whether `type` is a modifier shows after the bindings at the latest. -/
theorem typeModifiesImport_eq (h : BindingSpelling typeOnly words entries)
    (hsource : source.kind = .string)
    (hc : Cursor.Spells c ((if typeOnly then [.ofName "type"] else []) ++
      (words ++ .ofName "from" :: source :: ws)) n) : c.typeModifiesImport = typeOnly := by
  have hfrom : (Token.ofName "from").kind = .keyword .fromWord := by decide
  rw [Cursor.typeModifiesImport, Cursor.followingKind_eq]
  cases typeOnly with
  | true =>
    have hnext := hc.cons.2.2
    have htype : c.atWord .typeWord = true := by
      rw [hc.atWord]
      decide
    rw [htype]
    cases h with
    | clause spelled => rcases spelled.kind_of_spells hnext with hk | hk <;> simp [hk]
    | lone name =>
      have hthird : (c.peek 2).kind = .keyword .fromWord := by
        rw [Cursor.peek_succ, ← Cursor.followingKind, Cursor.followingKind_eq, hnext.cons.2.2.kind,
          hfrom]
      have hname : c.advance.kind.isName = true := by
        rw [hnext.kind]
        exact Token.isName_ofName name
      rw [hthird, hname]
      cases hk : c.advance.kind == .keyword .fromWord <;> simp [hk, bne]
    | @both name words entries spelled other =>
      have hname : c.advance.kind.isName = true := by
        rw [hnext.kind]
        exact Token.isName_ofName name
      have hne : c.advance.kind ≠ .keyword .fromWord := by
        rw [hnext.kind, Ne, Token.kind_ofName]
        exact other rfl
      simp [hname, hne]
  | false =>
    have htype : ∀ k, c.kind = k → k ≠ .keyword .typeWord → c.atWord .typeWord = false := by
      rintro k rfl hk
      simp [Cursor.atWord, hk]
    cases h with
    | clause spelled =>
      rcases spelled.kind_of_spells hc with hk | hk
      · rw [htype _ hk (by decide)]
        rfl
      · rw [htype _ hk (by decide)]
        rfl
    | lone name =>
      have hthird : (c.peek 2).kind = .string := by
        rw [Cursor.peek_succ, ← Cursor.followingKind, Cursor.followingKind_eq,
          hc.cons.2.2.cons.2.2.kind, hsource]
      rw [hthird, hc.cons.2.2.kind, hfrom]
      simp
    | both spelled =>
      have hk : c.advance.kind = .mark .comma := hc.cons.2.2.kind
      rw [hk]
      simp [TokenKind.isName]

/-- Of an import, what is behind its modifier is read as a default name or as other bindings. -/
theorem importStatement_eq_ite (h : BindingSpelling typeOnly words entries)
    (hsource : source.kind = .string)
    (hc : Cursor.Spells c (.ofName "import" :: ((if typeOnly then [.ofName "type"] else []) ++
      (words ++ .ofName "from" :: source :: ws))) n) :
    let behind := c.advance.advanceIf typeOnly
    Cursor.Spells behind (words ++ .ofName "from" :: source :: ws) n ∧
      c.importStatement =
        if behind.atName then behind.importDefault c.current typeOnly
        else (behind.importFrom c.current [] typeOnly).map fun read => (some read.1, read.2) := by
  intro behind
  have hstart : c.expect (.keyword .importWord) = .ok (c.current, c.advance) := by
    have himport : (Token.ofName "import").kind = .keyword .importWord := by decide
    rw [← himport]
    exact hc.expect
  have hnext := hc.cons.2.2
  have hwords : Cursor.Spells behind (words ++ .ofName "from" :: source :: ws) n := by
    cases typeOnly with
    | true => exact hnext.cons.2.2
    | false => exact hnext
  have hstring : ¬ behind.atString = true := by
    rw [Cursor.atString]
    rcases h.kind_of_spells hwords with hk | hk | hk
    · simp [hk]
    · simp [hk]
    · cases hk' : behind.kind <;> simp_all [TokenKind.isName]
  refine ⟨hwords, ?_⟩
  rw [Cursor.importStatement, hstart]
  simp only [bind, Except.bind, h.typeModifiesImport_eq hsource hnext]
  rw [if_neg hstring]
  rfl

/-- An import goes on with its module after the bindings that were written. -/
theorem importStatement_eq (h : BindingSpelling typeOnly words entries)
    (hsource : source.kind = .string)
    (hc : Cursor.Spells c (.ofName "import" :: ((if typeOnly then [.ofName "type"] else []) ++
      (words ++ .ofName "from" :: source :: ws))) n) :
    ∃ m, Cursor.Spells m (source :: ws) n ∧ ∀ s k,
      m.importSource c.current entries typeOnly = .ok (s, k) →
        c.importStatement = .ok (some s, k) := by
  obtain ⟨hwords, hstatement⟩ := h.importStatement_eq_ite hsource hc
  rw [hstatement]
  cases h with
  | clause spelled =>
    obtain ⟨m, hm, hread⟩ := spelled.importFrom_eq hwords c.current []
    refine ⟨m, hm, fun s k hok => ?_⟩
    rw [if_neg (by simp [spelled.atName_eq_false hwords])]
    exact map_eq_ok.2 ⟨_, hread s k hok, rfl⟩
  | lone name =>
    obtain ⟨m, hm, hread⟩ := hwords.importDefault_eq c.current typeOnly
    refine ⟨m, hm, fun s k hok => ?_⟩
    rw [if_pos hwords.atName_ofName]
    exact hread s k hok
  | both spelled =>
    obtain ⟨m, hm, hread⟩ := spelled.importDefault_eq hwords c.current
    refine ⟨m, hm, fun s k hok => ?_⟩
    rw [if_pos hwords.atName_ofName]
    exact hread s k hok

end BindingSpelling

/-- The words of the end of an import: its module and a semicolon. -/
def sourceWords (source : ModuleSource) (terminated : Bool) : List Token :=
  ⟨.string, source.path, source.written, .start⟩ ::
    (if terminated then [.ofMark .semicolon] else [])

/-- The end of an import reads as it was written, when nothing after it goes on with it. -/
theorem importSource_of_spells {c n : Cursor} {source : ModuleSource} {terminated : Bool}
    {start : Token} {entries : List Specifier} {typeOnly : Bool}
    (hc : Cursor.Spells c (sourceWords source terminated) n)
    (hword : n.current.value ≠ "with" ∧ n.current.value ≠ "assert")
    (hend : terminated = false → n.kind ≠ .mark .semicolon) :
    c.importSource start entries typeOnly =
      .ok (⟨source, entries, typeOnly, terminated, ⟨start.start, n.passedOffset⟩⟩, n) := by
  have hsource : c.expect .string = .ok (c.current, c.advance) := hc.expect
  have hsame : ModuleSource.ofToken c.current = source := by
    have hbare := hc.cons.1
    rw [ModuleSource.ofToken]
    exact congrArg (fun t : Token => ModuleSource.mk t.value t.lexeme) hbare
  have hnext := hc.cons.2.2
  cases terminated with
  | true =>
    have hvalue : c.advance.current.value = ";" := hnext.value
    have hmark : c.advance.atMark .semicolon = true := by
      rw [hnext.atMark]
      rfl
    have hattributes : c.advance.skipAttributes c.current = .ok c.advance := by
      rw [Cursor.skipAttributes, hvalue, if_neg]
      simp
    have hn : n = c.advance.advance := hnext.cons.2.2.eq_of_nil
    refine bind_eq_ok.2 ⟨_, hsource, bind_eq_ok.2 ⟨_, hattributes, ?_⟩⟩
    simp only [Cursor.takeSemicolon, if_pos hmark, hsame, hn]
  | false =>
    have hn : n = c.advance := hnext.eq_of_nil
    subst hn
    have hmark : ¬ c.advance.atMark .semicolon = true := by
      rw [Cursor.atMark, beq_iff_eq]
      exact hend rfl
    have hattributes : c.advance.skipAttributes c.current = .ok c.advance := by
      rw [Cursor.skipAttributes, if_neg]
      simp [hword.1, hword.2]
    refine bind_eq_ok.2 ⟨_, hsource, bind_eq_ok.2 ⟨_, hattributes, ?_⟩⟩
    simp only [Cursor.takeSemicolon, if_neg hmark, hsame]

end ComponentRegistry
