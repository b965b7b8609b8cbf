import ComponentRegistry.Proofs.Rewrite.AsyncExport
import ComponentRegistry.Proofs.Rewrite.Splicing
import ComponentRegistry.Proofs.Syntax.Spans

/-! # Which `async` words go

An `async` word goes if it stands in front of `function`, if it is the first word of the default
export, or if it is the first word of the first initializer and looks like the beginning of an arrow
function there. Two tokens of lookahead do not tell an arrow function from a call, and behind
`default` nothing is looked at, so a name `async` goes as well. Where such a name begins no export,
and no later declarator is asynchronous, those words go that make an exported function asynchronous.
-/

namespace ComponentRegistry

/-- Tokens between an opening mark and the mark that closes it. -/
def Enclosed (opener closer : Mark) (ts : List Token) : Prop :=
  ∃ first inner last, ts = first :: inner ++ [last] ∧ first.kind = .mark opener ∧
    last.kind = .mark closer ∧
    (∀ front back, inner = front ++ back →
      front.countP (·.kind = .mark closer) ≤ front.countP (·.kind = .mark opener)) ∧
    inner.countP (·.kind = .mark closer) = inner.countP (·.kind = .mark opener)

/-- What follows the word `async` of an arrow function: a name and an arrow, or a list of parameters
and an arrow. Type parameters may stand in front of the list, and a type behind it. -/
inductive ArrowHead : List Token → Prop where
  | named {name arrow : Token} {body : List Token} (isName : name.kind.isName = true)
      (isArrow : arrow.kind = .mark .arrow) : ArrowHead (name :: arrow :: body)
  | listed {types parameters result body : List Token} {arrow : Token}
      (isTypes : types = [] ∨ Enclosed .less .greater types)
      (isParameters : Enclosed .openParen .closeParen parameters)
      (isResult : ∀ t ∈ result.head?, t.kind = .mark .colon) (isArrow : arrow.kind = .mark .arrow) :
      ArrowHead (types ++ parameters ++ result ++ arrow :: body)

/-- What can follow an `async` word that is deleted from an initializer. -/
inductive ArrowSign : List Token → Prop where
  | named {name arrow : Token} {body : List Token} (isName : name.kind.isName = true)
      (isArrow : arrow.kind = .mark .arrow) : ArrowSign (name :: arrow :: body)
  | opened {first : Token} {body : List Token}
      (opens : first.kind = .mark .openParen ∨ first.kind = .mark .less) : ArrowSign (first :: body)

theorem ArrowHead.sign {ts : List Token} (h : ArrowHead ts) : ArrowSign ts := by
  cases h with
  | named isName isArrow => exact .named isName isArrow
  | listed isTypes isParameters =>
    obtain ⟨first, inner, last, rfl, opens, -⟩ := isParameters
    rcases isTypes with rfl | ⟨less, types, greater, rfl, opens', -⟩
    · exact .opened (.inl opens)
    · exact .opened (.inr opens')

/-- Its line goes on behind a word, and not with a semicolon. -/
def Token.GoesOn (a : Token) (rest : List Token) : Prop :=
  ∃ t ∈ rest.head?, t.kind ∉ ([.mark .semicolon, .endOfInput] : List TokenKind) ∧ t.line ≤ a.line

namespace Cursor

variable {c n b : Cursor} {a : Token} {form : ExportForm} {rest : List Token}

/-- An `async` word behind `export` that is read as a modifier of `function`. -/
def ModifiesFunction (c : Cursor) (a : Token) : Prop :=
  ∃ lead f rest, c.ahead = lead ++ a :: f :: rest ∧ f.kind = .keyword .functionWord ∧
    ((∃ d, lead = [d] ∧ d.kind = .keyword .defaultWord) ∨
      ∀ t ∈ lead, t.kind = .keyword .declareWord ∨ t.kind = .keyword .abstractWord)

/-- The initializer of one of the declarators that are read from here on. -/
inductive DeclaratorInitializer (tokens : List Token) : Cursor → Prop where
  /-- Of the declarator that is read next. -/
  | here {c n : Cursor} {names : List String} {equals : Token}
      (binds : c.bindingNames = .ok (names, n)) (ahead : n.skipAnnotation.ahead = equals :: tokens)
      (isEquals : equals.kind = .mark .equals) : DeclaratorInitializer tokens c
  /-- Of a later one. -/
  | later {c n : Cursor} {names : List String} (binds : c.bindingNames = .ok (names, n))
      (comma : n.skipDeclaratorRest.atMark .comma = true)
      (others : DeclaratorInitializer tokens n.skipDeclaratorRest.advance) :
      DeclaratorInitializer tokens c

/-- Variables are declared behind `export`. -/
def DeclaresVariables (c : Cursor) : Prop :=
  (variableKind? c.modifiers.2.kind).isSome = true ∧ c.modifiers.2.atEnumeration = false

/-- The initializer of the first variable that is declared behind `export`. -/
def FirstInitializer (c : Cursor) (tokens : List Token) : Prop :=
  c.DeclaresVariables ∧ ∃ names n equals, c.modifiers.2.advance.bindingNames = .ok (names, n) ∧
    n.skipAnnotation.ahead = equals :: tokens ∧ equals.kind = .mark .equals

/-- The initializer of any variable that is declared behind `export`. -/
def Initializer (c : Cursor) (tokens : List Token) : Prop :=
  c.DeclaresVariables ∧ DeclaratorInitializer tokens c.modifiers.2.advance

/-- The words that stand in front of `async function` behind `export`. -/
def modifierWords : List TokenKind :=
  [.keyword .defaultWord, .keyword .declareWord, .keyword .abstractWord]

/-- The ways in which they stand there: `default` or not, and at most one of the others. -/
def modifierLists : List (List TokenKind) :=
  [[], [.keyword .defaultWord], [.keyword .declareWord], [.keyword .abstractWord],
    [.keyword .defaultWord, .keyword .declareWord], [.keyword .defaultWord, .keyword .abstractWord]]

/-- An `async` word behind `export` that makes an exported function asynchronous: it precedes
`function`, or it begins an arrow function that is the default export or an initializer. -/
inductive MakesAsync (c : Cursor) (a : Token) : Prop where
  | function {lead rest : List Token} {f : Token} (ahead : c.ahead = lead ++ a :: f :: rest)
      (word : f.kind = .keyword .functionWord)
      (modifiers : lead.map (·.kind) ∈ modifierLists)
  | default {d : Token} {rest : List Token} (ahead : c.ahead = d :: a :: rest)
      (word : d.kind = .keyword .defaultWord) (arrow : ArrowHead rest)
  | initializer {rest : List Token} (initializes : c.Initializer (a :: rest))
      (arrow : ArrowHead rest)

/-- Where an `async` word behind `export` is deleted. -/
inductive AsyncPlace (c : Cursor) (a : Token) : Prop where
  | function (modifies : c.ModifiesFunction a)
  | default {d : Token} {rest : List Token} (ahead : c.ahead = d :: a :: rest)
      (word : d.kind = .keyword .defaultWord) (goesOn : a.GoesOn rest)
  | initializer {rest : List Token} (first : c.FirstInitializer (a :: rest)) (sign : ArrowSign rest)

/-- The tokens that are looked at tell what an `async` word behind `export` is. -/
structure TellsAsync (c : Cursor) : Prop where
  /-- At most one word stands in front of `async function`. -/
  modifiers {lead rest : List Token} {a f : Token} (ahead : c.ahead = lead ++ a :: f :: rest)
    (words : ∀ t ∈ lead, t.kind ∈ modifierWords) (async : a.kind = .keyword .asyncWord)
    (word : f.kind = .keyword .functionWord) : lead.length ≤ 1
  /-- A default expression that begins with `async` is an arrow function. -/
  expression {d a : Token} {rest : List Token} (ahead : c.ahead = d :: a :: rest)
    (word : d.kind = .keyword .defaultWord) (async : a.kind = .keyword .asyncWord)
    (other : ∀ f ∈ rest.head?, f.kind ≠ .keyword .functionWord) : a.GoesOn rest ↔ ArrowHead rest
  /-- What looks like an arrow function is one. -/
  initializer {a : Token} {rest : List Token} (first : c.FirstInitializer (a :: rest))
    (async : a.kind = .keyword .asyncWord) (sign : ArrowSign rest) : ArrowHead rest
  /-- Only the first declarator is an asynchronous arrow function. -/
  later {a : Token} {rest : List Token} (initializes : c.Initializer (a :: rest))
    (async : a.kind = .keyword .asyncWord) (arrow : ArrowHead rest) : c.FirstInitializer (a :: rest)

theorem FirstInitializer.initializer {tokens : List Token} (h : c.FirstInitializer tokens) :
    c.Initializer tokens := by
  obtain ⟨declares, names, n, equals, binds, ahead, isEquals⟩ := h
  exact ⟨declares, .here binds ahead isEquals⟩

/-- Where the tokens tell what an `async` word is, those are deleted that make a function
asynchronous. -/
theorem TellsAsync.asyncPlace_iff (h : c.TellsAsync) (ha : a.kind = .keyword .asyncWord) :
    c.AsyncPlace a ↔ c.MakesAsync a := by
  constructor
  · intro hplace
    cases hplace with
    | function modifies =>
      obtain ⟨lead, f, rest, ahead, word, ⟨d, rfl, hd⟩ | hlead⟩ := modifies
      · exact .function ahead word (by simp [hd, modifierLists])
      · have hwords : ∀ t ∈ lead, t.kind ∈ modifierWords := fun t ht => by
          rcases hlead t ht with hk | hk <;> simp [hk, modifierWords]
        have hlength := h.modifiers ahead hwords ha word
        apply MakesAsync.function ahead word
        match lead, hlength with
        | [], _ => simp [modifierLists]
        | [t], _ => rcases hlead t (by simp) with hk | hk <;> simp [hk, modifierLists]
    | @default d rest ahead word goesOn =>
      by_cases other : ∀ f ∈ rest.head?, f.kind ≠ .keyword .functionWord
      · exact .default ahead word ((h.expression ahead word ha other).1 goesOn)
      · obtain ⟨f, hf, hfunction⟩ : ∃ f ∈ rest.head?, f.kind = .keyword .functionWord := by
          simpa using other
        obtain ⟨body, rfl⟩ := List.head?_eq_some_iff.1 hf
        exact @MakesAsync.function _ _ [d] _ _ ahead hfunction (by simp [word, modifierLists])
    | initializer first sign =>
      exact .initializer first.initializer (h.initializer first ha sign)
  · intro hmakes
    cases hmakes with
    | @function lead rest f ahead word modifiers =>
      have hwords : ∀ ks ∈ modifierLists, ∀ k ∈ ks, k ∈ modifierWords := by decide
      have hlead : ∀ t ∈ lead, t.kind ∈ modifierWords := fun t ht =>
        hwords _ modifiers _ (List.mem_map_of_mem ht)
      have hlength := h.modifiers ahead hlead ha word
      refine .function ⟨lead, f, rest, ahead, word, ?_⟩
      match lead, hlength with
      | [], _ => exact .inr (by simp)
      | [t], _ =>
        have hk := hlead t (by simp)
        simp only [modifierWords, List.mem_cons, List.not_mem_nil, or_false] at hk
        exact hk.imp (fun hk => ⟨t, rfl, hk⟩) fun hk => by simpa using hk
    | @default d rest ahead word arrow =>
      by_cases other : ∀ f ∈ rest.head?, f.kind ≠ .keyword .functionWord
      · exact .default ahead word ((h.expression ahead word ha other).2 arrow)
      · obtain ⟨f, hf, hfunction⟩ : ∃ f ∈ rest.head?, f.kind = .keyword .functionWord := by
          simpa using other
        obtain ⟨body, rfl⟩ := List.head?_eq_some_iff.1 hf
        exact .function ⟨[d], f, body, ahead, hfunction, .inl ⟨d, rfl, word⟩⟩
    | initializer initializes arrow =>
      exact .initializer (h.later initializes ha arrow) arrow.sign

/-- The `async` word of a default export is the first word behind `default`, unless that is a name on
its own. -/
theorem asyncToken_of_defaultExported {default : Token}
    (hok : c.defaultExported default = .ok (form, n)) :
    form.asyncToken =
      if c.atWord .asyncWord = true ∧ (c.asyncModifiesFunction = true ∨ c.atLoneName = false) then
        some c.current
      else none := by
  have other : ∀ {w : Keyword}, c.kind = .keyword w → w ≠ .asyncWord →
      c.atWord .asyncWord = false := fun hk hw => by simp [atWord, hk, hw]
  cases readsDefault_of_defaultExported hok with
  | asyncFunction modifies reads =>
    have hasync := (asyncModifiesFunction_iff.1 modifies).1
    rw [if_pos ⟨beq_iff_eq.2 hasync, .inl modifies⟩]
    cases reads
    rfl
  | plainFunction word reads =>
    rw [other (kind_of_atWord word) (by decide), if_neg (by simp)]
    cases reads
    rfl
  | ofClass begins reads =>
    have hword : c.kind = .keyword .classWord ∨ c.kind = .keyword .abstractWord := by
      simp only [atClass, Bool.or_eq_true, Bool.and_eq_true] at begins
      exact begins.imp kind_of_atWord fun h => kind_of_atWord h.1
    have hasync : c.atWord .asyncWord = false := by
      rcases hword with hk | hk <;> exact other hk (by decide)
    rw [hasync, if_neg (by simp)]
    cases reads
    rfl
  | interface word _ unnamed =>
    rw [other (kind_of_atWord word) (by decide), if_neg (by simp), unnamed]
    rfl
  | name plain lone reads =>
    rw [if_neg (by simp [plain, lone])]
    cases reads
    rfl
  | expression _ more reads =>
    cases reads
    simp [ExportForm.asyncToken, more]

/-- The modifiers `declare` and `abstract` are passed over up to an `async` in front of `function`. -/
theorem modifiersFrom_of_words {found : Modifiers} {lead : List Token} {f : Token}
    (hlead : ∀ t ∈ lead, t.kind = .keyword .declareWord ∨ t.kind = .keyword .abstractWord)
    (hc : c.ahead = lead ++ a :: f :: rest) (ha : a.kind = .keyword .asyncWord)
    (hf : f.kind = .keyword .functionWord) :
    (modifiersFrom found c).1.async = some a ∧
      (modifiersFrom found c).2.kind = .keyword .functionWord := by
  induction lead generalizing c found with
  | nil =>
    have hcurrent : c.current = a := current_eq_of_cons hc
    have hnext : c.advance.kind = .keyword .functionWord := by
      rw [kind, current_eq_of_cons (ahead_advance hc), hf]
    have hkind : c.kind = .keyword .asyncWord := by rw [kind, hcurrent, ha]
    rw [modifiersFrom, dif_neg (by simp [atWord, hkind]), dif_neg (by simp [atWord, hkind]),
      dif_pos (by simp [asyncModifiesFunction, atWord, hkind, followingKind_eq, hnext]),
      Seam.modifiersFrom_of_function hnext, hcurrent]
    exact ⟨rfl, hnext⟩
  | cons t lead ih =>
    obtain ⟨hword, hlead⟩ := List.forall_mem_cons.1 hlead
    have hnext : c.advance.ahead = lead ++ a :: f :: rest := ahead_advance hc
    have hkind : c.kind = t.kind := by rw [kind, current_eq_of_cons hc]
    rw [modifiersFrom]
    rcases hword with hword | hword
    · rw [dif_pos (by simp [atWord, hkind, hword])]
      exact ih hlead hnext
    · rw [dif_neg (by simp [atWord, hkind, hword]), dif_pos (by simp [atWord, hkind, hword])]
      exact ih hlead hnext

/-- An `async` word behind an equals sign is told by the sign of an arrow function. -/
theorem asyncInitializer_eq_some_iff {equals : Token} (hc : c.ahead = equals :: a :: rest)
    (hequals : equals.kind = .mark .equals) (ha : a.kind = .keyword .asyncWord) :
    c.asyncInitializer = some a ↔ ArrowSign rest := by
  have hahead : c.advance.ahead = a :: rest := ahead_advance hc
  have hcurrent : c.advance.current = a := current_eq_of_cons hahead
  have hstart : c.atMark .equals = true ∧ c.advance.atWord .asyncWord = true := by
    simp [atMark, atWord, kind, current_eq_of_cons hc, hcurrent, hequals, ha]
  have hbegins : c.asyncInitializer = some a ↔ c.advance.asyncBeginsArrow = true := by
    simp [asyncInitializer, hstart, hcurrent]
  rw [hbegins, asyncBeginsArrow, hstart.2, Bool.true_and]
  simp only [Bool.or_eq_true, Bool.and_eq_true, beq_iff_eq, followingKind, peek, hahead]
  constructor
  · intro h
    -- an opening parenthesis is one token of lookahead, a name with its arrow is two
    rcases rest with _ | ⟨t, _ | ⟨u, body⟩⟩
    · simp [Token.endOfInput, TokenKind.isName] at h
    · simp only [List.getElem?_cons_succ, List.getElem?_cons_zero, List.getElem?_nil,
        Option.getD_some, Option.getD_none, Token.endOfInput, reduceCtorEq, and_false,
        or_false] at h
      exact .opened h
    · rcases h with h | ⟨hname, harrow⟩
      · exact .opened h
      · exact .named hname harrow
  · intro h
    cases h with
    | named isName isArrow => exact .inr ⟨isName, isArrow⟩
    | opened opens => exact .inl opens

/-- When a word at the beginning of the default export is not all of it. -/
theorem atLoneName_eq_false_iff (hc : c.ahead = a :: rest) (hname : a.kind.isName = true) :
    c.atLoneName = false ↔ a.GoesOn rest := by
  have hcurrent : c.current = a := current_eq_of_cons hc
  cases rest with
  | nil =>
    simp [atLoneName, atName, kind, hcurrent, hname, peek, hc, Token.endOfInput, Token.GoesOn]
  | cons t ts =>
    have hfollowing : c.peek 1 = t := by simp [peek, hc]
    simp [atLoneName, atName, kind, hcurrent, hname, hfollowing, Token.GoesOn, and_assoc]

/-- Where the `async` word of a declaration stands. -/
theorem asyncPlace_of_exportDeclaration (hok : c.exportDeclaration = .ok (form, n))
    (ha : form.asyncToken = some a) : c.AsyncPlace a := by
  cases hm : c.modifiers.1.async with
  | some other =>
    obtain ⟨lead, h⟩ := Seam.exists_modifies rfl hm
    obtain ⟨_, -, hfound⟩ := bind_eq_ok.1 ((Seam.declared_of_function h.function).symm.trans hok)
    cases hfound
    obtain rfl : other = a := Option.some.inj (hm.symm.trans ha)
    obtain ⟨rest, hrest⟩ := exists_cons_of_kind (c := (modifiersFrom ⟨false, none⟩ c).2)
      (by simp [h.function])
    exact .function ⟨lead, _, rest, by rw [h.ahead, hrest], h.function, .inr h.words⟩
  | none =>
    obtain ⟨kind, names, hkind, hlist, hdeclarators, -⟩ := Seam.exists_variable_of_async hok hm ha
    obtain ⟨bound, b, hnames, hinitializer, -⟩ := Seam.declarators_cases hdeclarators
    obtain ⟨q, rest, hb, hq, hasync, -⟩ := Seam.exists_of_asyncInitializer hinitializer.symm
    exact .initializer ⟨⟨by simp [hkind], hlist⟩, bound, b, q, hnames, hb, hq⟩
      ((asyncInitializer_eq_some_iff hb hq hasync).1 hinitializer.symm)

/-- Where the `async` word of an export stands. -/
theorem asyncPlace_of_exportForm (hok : c.exportForm = .ok (form, n))
    (ha : form.asyncToken = some a) : c.AsyncPlace a := by
  rcases Seam.exportForm_cases hok with hkind | ⟨-, hnone, -⟩ | hdeclaration
  · obtain ⟨others, hc⟩ := exists_cons_of_kind (c := c) (by simp [hkind])
    obtain ⟨heq, hahead, -⟩ := Seam.exportForm_of_default hkind hc
    rw [heq] at hok
    rw [asyncToken_of_defaultExported hok] at ha
    split at ha
    · next hasync =>
      obtain rfl : c.advance.current = a := Option.some.inj ha
      have hword : c.advance.current.kind = .keyword .asyncWord := kind_of_atWord hasync.1
      obtain ⟨rest, hrest⟩ := exists_cons_of_kind (c := c.advance)
        (by simp [kind_of_atWord hasync.1])
      have hdefault : c.ahead = c.current :: c.advance.current :: rest := by
        rw [hc, ← hahead, hrest]
      rcases hasync.2 with hmodifies | hmore
      · have hfunction := (asyncModifiesFunction_iff.1 hmodifies).2
        obtain ⟨body, hbody⟩ := exists_cons_of_kind (c := c.advance.advance) (by simp [hfunction])
        rw [ahead_advance hrest] at hbody
        exact .function ⟨[c.current], _, body, by rw [hdefault, hbody]; rfl, hfunction,
          .inl ⟨_, rfl, hkind⟩⟩
      · exact .default hdefault hkind
          ((atLoneName_eq_false_iff hrest (by simp [hword, TokenKind.isName])).1 hmore)
    · cases ha
  · rw [ha] at hnone
    cases hnone
  · exact asyncPlace_of_exportDeclaration hdeclaration ha

theorem asyncToken_of_default {d : Token} (hok : c.exportForm = .ok (form, n))
    (hc : c.ahead = d :: a :: rest) (hd : d.kind = .keyword .defaultWord)
    (ha : a.kind = .keyword .asyncWord)
    (h : c.advance.followingKind = .keyword .functionWord ∨ c.advance.atLoneName = false) :
    form.asyncToken = some a := by
  obtain ⟨heq, hahead, -⟩ := Seam.exportForm_of_default hd hc
  rw [heq] at hok
  have hcurrent : c.advance.current = a := current_eq_of_cons hahead
  have hasync : c.advance.atWord .asyncWord = true := by simp [atWord, kind, hcurrent, ha]
  have htold := h.imp_left fun hk =>
    asyncModifiesFunction_iff.2 ⟨kind_of_atWord hasync, (followingKind_eq _).symm.trans hk⟩
  rw [asyncToken_of_defaultExported hok, if_pos ⟨hasync, htold⟩, hcurrent]

/-- An `async` word in front of `function` is found. -/
theorem asyncToken_of_modifiesFunction (hok : c.exportForm = .ok (form, n))
    (ha : a.kind = .keyword .asyncWord) (h : c.ModifiesFunction a) :
    form.asyncToken = some a := by
  obtain ⟨lead, f, rest, hc, hf, ⟨d, rfl, hd⟩ | hlead⟩ := h
  · refine asyncToken_of_default hok hc hd ha (.inl ?_)
    obtain ⟨-, hahead, -⟩ := Seam.exportForm_of_default hd hc
    rw [followingKind, peek, hahead]
    exact hf
  · obtain ⟨hasync, hfunction⟩ : c.modifiers.1.async = some a ∧
        c.modifiers.2.kind = .keyword .functionWord :=
      modifiersFrom_of_words hlead hc ha hf
    have hdeclaration : c.exportForm = c.exportDeclaration := by
      cases lead with
      | nil =>
        have hkind : c.kind = .keyword .asyncWord := by rw [kind, current_eq_of_cons hc, ha]
        simp [exportForm, atWord, atMark, hkind]
      | cons t lead =>
        have hkind : c.kind = t.kind := by rw [kind, current_eq_of_cons hc]
        apply Seam.exportForm_of_kind
        rcases hlead t List.mem_cons_self with hk | hk <;> rw [hkind, hk] <;> decide
    rw [hdeclaration] at hok
    obtain ⟨_, -, hfound⟩ := bind_eq_ok.1 ((Seam.declared_of_function hfunction).symm.trans hok)
    cases hfound
    exact hasync

/-- An `async` word at the beginning of the first initializer is found by its sign. -/
theorem asyncToken_of_firstInitializer (hok : c.exportForm = .ok (form, n))
    (ha : a.kind = .keyword .asyncWord) (first : c.FirstInitializer (a :: rest))
    (sign : ArrowSign rest) : form.asyncToken = some a := by
  obtain ⟨⟨hvariable, hlist⟩, names, b, equals, hnames, hb, hequals⟩ := first
  obtain ⟨kind, hkind⟩ := Option.isSome_iff_exists.1 hvariable
  have hm : c.modifiers.1.async = none := by
    cases hm : c.modifiers.1.async with
    | none => rfl
    | some other =>
      obtain ⟨lead, hmodifies⟩ := Seam.exists_modifies rfl hm
      rw [modifiers, hmodifies.function] at hkind
      cases hkind
  rw [exportForm_of_variable (by rw [hkind]; rfl), exportDeclaration,
    declared_of_variable hkind hlist] at hok
  obtain ⟨⟨found, m⟩, hfound, hok⟩ := bind_eq_ok.1 hok
  obtain ⟨names', b', hnames', hasync, -⟩ := Seam.declarators_cases hfound
  cases hnames.symm.trans hnames'
  rw [(asyncInitializer_eq_some_iff hb hequals ha).2 sign] at hasync
  cases hok
  simp [ExportForm.asyncToken, hm, hasync]

/-- Which `async` word of an export is found. -/
theorem asyncToken_eq_some_iff (hok : c.exportForm = .ok (form, n))
    (ha : a.kind = .keyword .asyncWord) : form.asyncToken = some a ↔ c.AsyncPlace a := by
  refine ⟨asyncPlace_of_exportForm hok, fun hplace => ?_⟩
  cases hplace with
  | function modifies => exact asyncToken_of_modifiesFunction hok ha modifies
  | default ahead word goesOn =>
    obtain ⟨-, hahead, -⟩ := Seam.exportForm_of_default word ahead
    have hmore := (atLoneName_eq_false_iff hahead (by simp [ha, TokenKind.isName])).2 goesOn
    exact asyncToken_of_default hok ahead word ha (.inr hmore)
  | initializer first sign => exact asyncToken_of_firstInitializer hok ha first sign

section Telling

variable {names : List String}

theorem exists_cons_of_kinds {k₁ k₂ : TokenKind} (h : (c.ahead.take 2).map (·.kind) = [k₁, k₂]) :
    ∃ t u, c.ahead = t :: u :: c.ahead.drop 2 ∧ t.kind = k₁ ∧ u.kind = k₂ := by
  match hc : c.ahead, h with
  | t :: u :: rest, h => exact ⟨t, u, by simpa using h⟩

/-- At most one word stands in front of `async function` if the second word behind `export` is none
of those that may stand there. -/
theorem length_le_one_of_modifierWords {t u : Token} {lead others : List Token}
    (hc : c.ahead = t :: u :: rest) (hu : u.kind ∉ modifierWords) (ahead : c.ahead = lead ++ others)
    (words : ∀ t ∈ lead, t.kind ∈ modifierWords) : lead.length ≤ 1 := by
  match lead, ahead, words with
  | [], _, _ => simp
  | [_], _, _ => simp
  | x :: y :: _, ahead, words =>
    obtain ⟨-, rfl, -⟩ : t = x ∧ u = y ∧ rest = _ := by simpa using hc.symm.trans ahead
    exact absurd (words u (by simp)) hu

/-- An asynchronous function is told by its two words. -/
theorem tellsAsync_of_function
    (h : (c.ahead.take 2).map (·.kind) = [.keyword .asyncWord, .keyword .functionWord]) :
    c.TellsAsync := by
  obtain ⟨t, u, hc, ht, hu⟩ := exists_cons_of_kinds h
  have hplain : ¬ c.DeclaresVariables := by
    have hkind : c.modifiers.2.kind = .keyword .functionWord :=
      (@modifiersFrom_of_words c t _ _ [] u (by simp) hc ht hu).2
    simp [DeclaresVariables, hkind, variableKind?]
  refine ⟨fun ahead words _ _ => ?_, fun ahead word => ?_, fun first => absurd first.1 hplain,
    fun initializes => absurd initializes.1 hplain⟩
  · exact length_le_one_of_modifierWords hc (by simp [hu, modifierWords]) ahead words
  · obtain ⟨rfl, -⟩ : t = _ ∧ _ := List.cons.inj (hc.symm.trans ahead)
    simp [ht] at word

/-- An asynchronous arrow function as the default export is told by its first word. -/
theorem tellsAsync_of_arrow
    (h : (c.ahead.take 2).map (·.kind) = [.keyword .defaultWord, .keyword .asyncWord])
    (arrow : ArrowHead (c.ahead.drop 2)) (goesOn : (c.peek 1).GoesOn (c.ahead.drop 2)) :
    c.TellsAsync := by
  obtain ⟨t, u, hc, ht, hu⟩ := exists_cons_of_kinds h
  have hkind : c.kind = .keyword .defaultWord := by rw [kind, current_eq_of_cons hc, ht]
  have hplain : ¬ c.DeclaresVariables := by
    simp [DeclaresVariables, modifiers_eq (c := c) (by simp [hkind]), hkind, variableKind?]
  refine ⟨fun ahead words _ _ => ?_, fun ahead _ _ _ => ?_, fun first => absurd first.1 hplain,
    fun initializes => absurd initializes.1 hplain⟩
  · exact length_le_one_of_modifierWords hc (by simp [hu, modifierWords]) ahead words
  · rw [peek, ahead] at goesOn
    rw [ahead] at arrow
    exact iff_of_true goesOn arrow

/-- A single variable is told by its initializer, if an arrow function stands there. -/
theorem tellsAsync_of_variable {k₁ k₂ : TokenKind} (h : (c.ahead.take 2).map (·.kind) = [k₁, k₂])
    (declares : (variableKind? k₁).isSome = true) (name : k₂ ∉ modifierWords)
    (binds : c.advance.bindingNames = .ok (names, n))
    (single : n.skipDeclaratorRest.atMark .comma = false)
    (arrow : ArrowHead (n.skipAnnotation.ahead.drop 2)) : c.TellsAsync := by
  obtain ⟨t, u, hc, rfl, rfl⟩ := exists_cons_of_kinds h
  obtain ⟨declared, hdeclared⟩ := Option.isSome_iff_exists.1 declares
  have hvariable := (variableKind?_eq_some hdeclared).1
  have hkind : c.kind = t.kind := by rw [kind, current_eq_of_cons hc]
  have hmodifiers : c.modifiers.2 = c := by
    rw [modifiers_eq]
    rw [hkind]
    simp only [List.mem_cons, List.not_mem_nil, or_false] at hvariable
    rcases hvariable with hk | hk | hk <;> rw [hk] <;> decide
  refine ⟨fun ahead words _ _ => ?_, fun ahead word => ?_, fun first _ _ => ?_,
    fun initializes _ _ => ?_⟩
  · exact length_le_one_of_modifierWords hc name ahead words
  · obtain ⟨rfl, -⟩ : t = _ ∧ _ := List.cons.inj (hc.symm.trans ahead)
    simp [word] at hvariable
  · obtain ⟨-, names', n', equals, binds', ahead, -⟩ := first
    rw [hmodifiers] at binds'
    cases binds.symm.trans binds'
    rwa [ahead] at arrow
  · obtain ⟨declares, hinitializer⟩ := initializes
    cases hinitializer with
    | here binds' ahead isEquals => exact ⟨declares, _, _, _, binds', ahead, isEquals⟩
    | later binds' comma others =>
      rw [hmodifiers] at binds'
      cases binds.symm.trans binds'
      simp [single] at comma

end Telling

end Cursor

section Deletion

variable {text : List Char} {s : TokenStream} {o : Outline} {e : ExportStatement} {k : Nat}
  {words : List Token}

/-- Leaving out some words, with the spaces and tabs behind each, leaves the others alone. -/
theorem inOrder_removeWord (hs : tokenize text = .ok s) (hmem : ∀ a ∈ words, a ∈ s.tokens)
    (hsorted : words.Pairwise fun a b => a.start.offset < b.start.offset) (hk : k ≤ text.length)
    (hle : ∀ a ∈ words, k ≤ a.start.offset) :
    Edit.InOrder text k (words.map (removeWord text)) := by
  have hordered := TokenStream.ordered_of_tokenize hs
  induction words generalizing k with
  | nil => exact hk
  | cons a words ih =>
    obtain ⟨ha, hmem⟩ := List.forall_mem_cons.1 hmem
    obtain ⟨hfirst, hsorted⟩ := List.pairwise_cons.1 hsorted
    obtain ⟨hfront, -⟩ := List.forall_mem_cons.1 hle
    have hlong := hordered.nonempty a ha
    have hinside := TokenStream.stop_le_length hs ha
    have hprefix : (text.drop a.stop).takeWhile isInlineBlank <+: text.drop a.stop :=
      List.takeWhile_prefix _
    have hlength := hprefix.length_le
    rw [List.length_drop] at hlength
    refine ⟨hfront, ?_, ih hmem hsorted ?_ fun b hb => ?_⟩
    · simp only [removeWord]
      omega
    · simp only [removeWord]
      omega
    · exact TokenStream.add_length_le hs (hmem b hb)
        (hordered.stop_le_start ha (hmem b hb) (hfirst b hb)) hprefix fun c hc =>
          isSpace_of_isInlineBlank (List.all_eq_true.1 List.all_takeWhile c hc)

/-- The edits of `async` words stand in the order of the text. -/
theorem inOrder_asyncEdits (hs : tokenize text = .ok s) (ho : outline text = .ok o) :
    Edit.InOrder text 0 (o.asyncEdits text) := by
  have hsorted := Outline.pairwise_asyncEdits hs ho (List.nil_append o.exports).symm
  rw [Outline.asyncEdits, List.pairwise_map] at hsorted
  apply inOrder_removeWord hs ?_ hsorted (Nat.zero_le _) fun _ _ => Nat.zero_le _
  intro a ha
  obtain ⟨e, he, ha⟩ := List.mem_filterMap.1 ha
  obtain ⟨front, back, hcut⟩ := List.append_of_mem he
  obtain ⟨site⟩ := exists_asyncSite hs ho hcut ha
  exact site.async_mem

end Deletion

/-- Of the exports of a module, `async` words go with the spaces and tabs behind them, and nothing
else goes. Those go that stand in the places where `async` is looked for. Where the tokens there tell
what the word is, those go that make an exported function asynchronous, and no name `async` goes. -/
theorem removeAsyncExports_deletes {text : List Char} {s : TokenStream} {o : Outline}
    (hs : tokenize text = .ok s) (ho : outline text = .ok o) :
    ∃ words : List Token,
      removeAsyncExports text = .ok (Edit.splice text 0 (words.map (removeWord text))) ∧
      Edit.InOrder text 0 (words.map (removeWord text)) ∧ (∀ a ∈ words, a ∈ s.tokens) ∧
      (∀ a, a ∈ words ↔ a.kind = .keyword .asyncWord ∧
        ∃ e ∈ o.exports, (s.behindFirst e.span).AsyncPlace a) ∧
      ((∀ e ∈ o.exports, (s.behindFirst e.span).TellsAsync) → ∀ a, a ∈ words ↔
        a.kind = .keyword .asyncWord ∧ ∃ e ∈ o.exports, (s.behindFirst e.span).MakesAsync a) := by
  let words := o.exports.filterMap (·.form.asyncToken)
  have hordered : Edit.InOrder text 0 (words.map (removeWord text)) := inOrder_asyncEdits hs ho
  have hsite : ∀ a ∈ words, a ∈ s.tokens ∧ a.kind = .keyword .asyncWord := by
    intro a ha
    obtain ⟨e, he, ha⟩ := List.mem_filterMap.1 ha
    obtain ⟨front, back, hcut⟩ := List.append_of_mem he
    obtain ⟨site⟩ := exists_asyncSite hs ho hcut ha
    exact ⟨site.async_mem, site.frees.kind⟩
  have hform : ∀ e ∈ o.exports, ∀ a, a.kind = .keyword .asyncWord →
      (e.form.asyncToken = some a ↔ (s.behindFirst e.span).AsyncPlace a) := by
    intro e he a ha
    obtain ⟨-, -, n, -, -, hform⟩ := exists_exportForm hs ho he
    exact Cursor.asyncToken_eq_some_iff hform ha
  have hplaces : ∀ a, a ∈ words ↔ a.kind = .keyword .asyncWord ∧
      ∃ e ∈ o.exports, (s.behindFirst e.span).AsyncPlace a := by
    intro a
    refine ⟨fun ha => ⟨(hsite a ha).2, ?_⟩, fun ⟨ha, e, he, hplace⟩ => ?_⟩
    · obtain ⟨e, he, hfound⟩ := List.mem_filterMap.1 ha
      exact ⟨e, he, (hform e he a (hsite a ha).2).1 hfound⟩
    · exact List.mem_filterMap.2 ⟨e, he, (hform e he a ha).2 hplace⟩
  refine ⟨words, ?_, hordered, fun a ha => (hsite a ha).1, hplaces, fun htells a => ?_⟩
  · rw [removeAsyncExports, ho, ← hordered.applyAll_eq_splice]
    rfl
  · rw [hplaces a]
    refine and_congr_right fun ha => exists_congr fun e => and_congr_right fun he => ?_
    exact (htells e he).asyncPlace_iff ha

/-- A function, an arrow function as the default export and a variable lose their words. -/
theorem removeAsyncExports_deletes_three :
    let text := ("export async function load(): void\nexport default async () => 1\n" ++
      "export const f: F = async x => x").toList
    ∃ s o, ∃ words : List Token, tokenize text = .ok s ∧ outline text = .ok o ∧
      removeAsyncExports text = .ok (Edit.splice text 0 (words.map (removeWord text))) ∧
      (removeAsyncExports text).toOption = some ("export function load(): void\n" ++
        "export default () => 1\nexport const f: F = x => x").toList ∧
      (∀ e ∈ o.exports, (s.behindFirst e.span).TellsAsync) ∧ ∀ a, a ∈ words ↔
        a.kind = .keyword .asyncWord ∧ ∃ e ∈ o.exports, (s.behindFirst e.span).MakesAsync a := by
  intro text
  let s := (tokenize text).toOption.getD ⟨[], .start⟩
  let o := (outline text).toOption.getD ⟨[], []⟩
  let c (k : Nat) : Cursor := Cursor.advance^[k] (.ofStream s)
  let bound := ((c 16).advance.bindingNames).toOption.getD ([], c 0)
  obtain ⟨htokens, houtline, output, hplaces, hbinds⟩ :
      (tokenize text).toOption.isSome = true ∧ (outline text).toOption.isSome = true ∧
        (removeAsyncExports text).toOption = some ("export function load(): void\n" ++
          "export default () => 1\nexport const f: F = x => x").toList ∧
        (o.exports.map fun e => s.behindFirst e.span) = [c 1, c 9, c 16] ∧
        (c 16).advance.bindingNames.toOption.isSome = true := by
    decide +kernel
  have hs : tokenize text = .ok s := eq_ok_getD htokens _
  have ho : outline text = .ok o := eq_ok_getD houtline _
  obtain ⟨words, result, -, -, -, exact⟩ := removeAsyncExports_deletes hs ho
  have hfunction : (c 1).TellsAsync := Cursor.tellsAsync_of_function (by decide +kernel)
  have harrow : (c 9).TellsAsync := by
    have hhead : (c 9).ahead.drop 2 = [] ++ [⟨.mark .openParen, "(", "(", ⟨56, 2, 22⟩⟩,
        ⟨.mark .closeParen, ")", ")", ⟨57, 2, 23⟩⟩] ++ [] ++
        ⟨.mark .arrow, "=>", "=>", ⟨59, 2, 25⟩⟩ :: (c 9).ahead.drop 5 := by
      decide +kernel
    refine Cursor.tellsAsync_of_arrow (by decide +kernel) ?_ ?_
    · rw [hhead]
      exact .listed (.inl rfl) ⟨_, [], _, rfl, rfl, rfl, by simp, rfl⟩ (by simp) rfl
    · exact ⟨⟨.mark .openParen, "(", "(", ⟨56, 2, 22⟩⟩, by rw [hhead]; rfl, by decide,
        by decide +kernel⟩
  have hvariable : (c 16).TellsAsync := by
    have hbinds : (c 16).advance.bindingNames = .ok bound := eq_ok_getD hbinds _
    have hhead : (Cursor.skipAnnotation bound.2).ahead.drop 2 =
        ⟨.identifier, "x", "x", ⟨90, 3, 27⟩⟩ :: ⟨.mark .arrow, "=>", "=>", ⟨92, 3, 29⟩⟩ ::
          (Cursor.skipAnnotation bound.2).ahead.drop 4 := by
      decide +kernel
    have harrow : ArrowHead ((Cursor.skipAnnotation bound.2).ahead.drop 2) := by
      rw [hhead]
      exact .named rfl rfl
    have hkinds : ((c 16).ahead.take 2).map (·.kind) = [.keyword .constWord, .identifier] := by
      decide +kernel
    exact Cursor.tellsAsync_of_variable hkinds rfl (by decide) hbinds (by decide +kernel) harrow
  have htells : ∀ e ∈ o.exports, (s.behindFirst e.span).TellsAsync := by
    intro e he
    have hmem := List.mem_map_of_mem (f := fun e => s.behindFirst e.span) he
    rw [hplaces] at hmem
    simp only [List.mem_cons, List.not_mem_nil, or_false] at hmem
    rcases hmem with h | h | h <;> rw [h] <;> assumption
  exact ⟨s, o, words, hs, ho, result, output, htells, exact htells⟩

theorem ArrowHead.exists_arrow {ts : List Token} (h : ArrowHead ts) :
    ∃ t ∈ ts, t.kind = .mark .arrow := by
  cases h with
  | named _ isArrow => exact ⟨_, by simp, isArrow⟩
  | listed _ _ _ isArrow => exact ⟨_, by simp, isArrow⟩

theorem Cursor.DeclaratorInitializer.suffix {c : Cursor} {tokens : List Token}
    (h : DeclaratorInitializer tokens c) : tokens <:+ c.ahead := by
  induction h with
  | here binds ahead =>
    have hreach := (reaches_of_bindingNames binds).trans (Cursor.reaches_skipAnnotation _)
    exact (ahead ▸ List.suffix_cons _ _).trans hreach.suffix
  | later binds _ _ ih =>
    have hreach := ((reaches_of_bindingNames binds).trans (reaches_skipDeclaratorRest _)).trans
      (reaches_advance _)
    exact ih.trans hreach.suffix

/-- Nothing is made asynchronous without the word `function` or an arrow. -/
theorem Cursor.MakesAsync.exists_sign {c : Cursor} {a : Token} (h : c.MakesAsync a) :
    ∃ t ∈ c.ahead, t.kind ∈ ([.keyword .functionWord, .mark .arrow] : List TokenKind) := by
  cases h with
  | @function lead rest f ahead word => exact ⟨f, by simp [ahead], by simp [word]⟩
  | default ahead _ arrow =>
    obtain ⟨t, ht, isArrow⟩ := arrow.exists_arrow
    exact ⟨t, by simp [ahead, ht], by simp [isArrow]⟩
  | initializer initializes arrow =>
    obtain ⟨t, ht, isArrow⟩ := arrow.exists_arrow
    have hreach := (reaches_modifiersFrom ⟨false, none⟩ c).trans (reaches_advance _)
    exact ⟨t, (initializes.2.suffix.trans hreach.suffix).subset (List.mem_cons_of_mem _ ht),
      by simp [isArrow]⟩

section Keeping

variable {text : List Char} {c : Cursor} {a : Token}

/-- Nothing is deleted from a text, although a word of an export makes a function asynchronous. -/
def KeepsAsync (text : List Char) : Prop :=
  ∃ s o, tokenize text = .ok s ∧ outline text = .ok o ∧
    (removeAsyncExports text).toOption = some text ∧
    ∃ e ∈ o.exports, ∃ a, a.kind = .keyword .asyncWord ∧ (s.behindFirst e.span).MakesAsync a

theorem keepsAsync_of_makesAsync
    (read : (tokenize text).toOption.isSome = true ∧ (outline text).toOption.isSome = true ∧
      (removeAsyncExports text).toOption = some text ∧
      ((outline text).toOption.getD ⟨[], []⟩).exports.map
        (fun e => ((tokenize text).toOption.getD ⟨[], .start⟩).behindFirst e.span) = [c])
    (ha : a.kind = .keyword .asyncWord) (makes : c.MakesAsync a) : KeepsAsync text := by
  obtain ⟨htokens, houtline, hresult, hplaces⟩ := read
  refine ⟨_, _, eq_ok_getD htokens ⟨[], .start⟩, eq_ok_getD houtline ⟨[], []⟩, hresult, ?_⟩
  obtain ⟨e, he, rfl⟩ := List.mem_map.1 (hplaces ▸ List.mem_singleton_self c)
  exact ⟨e, he, a, ha, makes⟩

/-- The tokens of a text behind its first ones. -/
def Cursor.behind (text : List Char) (k : Nat) : Cursor :=
  Cursor.advance^[k] (.ofStream ((tokenize text).toOption.getD ⟨[], .start⟩))

/-- Only the first declarator is looked at. -/
theorem keepsAsync_later : KeepsAsync "export const a = 1, b = async x => x".toList := by
  let text := "export const a = 1, b = async x => x".toList
  have hahead : (Cursor.skipAnnotation (.behind text 7)).ahead =
      [⟨.mark .equals, "=", "=", ⟨22, 1, 23⟩⟩,
        ⟨.keyword .asyncWord, "async", "async", ⟨24, 1, 25⟩⟩,
        ⟨.identifier, "x", "x", ⟨30, 1, 31⟩⟩, ⟨.mark .arrow, "=>", "=>", ⟨32, 1, 33⟩⟩,
        ⟨.identifier, "x", "x", ⟨35, 1, 36⟩⟩] := by
    decide +kernel
  obtain ⟨hdeclares, hfirst, hcomma, hplace, hsecond⟩ :
      ((Cursor.variableKind? (Cursor.behind text 1).modifiers.2.kind).isSome = true ∧
        (Cursor.behind text 1).modifiers.2.atEnumeration = false) ∧
      (Cursor.behind text 1).modifiers.2.advance.bindingNames.toOption =
        some (["a"], .behind text 3) ∧
      (Cursor.behind text 3).skipDeclaratorRest.atMark .comma = true ∧
      (Cursor.behind text 3).skipDeclaratorRest.advance = .behind text 6 ∧
      (Cursor.behind text 6).bindingNames.toOption = some (["b"], .behind text 7) := by
    decide +kernel
  have hlater : Cursor.DeclaratorInitializer _ (.behind text 6) :=
    .here (eq_ok_of_toOption hsecond) hahead rfl
  have hinitializes : (Cursor.behind text 1).Initializer _ :=
    ⟨hdeclares, .later (eq_ok_of_toOption hfirst) hcomma (hplace ▸ hlater)⟩
  exact keepsAsync_of_makesAsync (by decide +kernel) rfl (.initializer hinitializes (.named rfl rfl))

/-- Behind `default`, only a word is looked at that does not stand on a line of its own. -/
theorem keepsAsync_line : KeepsAsync "export default async\nx => x".toList := by
  let text := "export default async\nx => x".toList
  have hahead : (Cursor.behind text 1).ahead =
      [⟨.keyword .defaultWord, "default", "default", ⟨7, 1, 8⟩⟩,
        ⟨.keyword .asyncWord, "async", "async", ⟨15, 1, 16⟩⟩,
        ⟨.identifier, "x", "x", ⟨21, 2, 1⟩⟩, ⟨.mark .arrow, "=>", "=>", ⟨23, 2, 3⟩⟩,
        ⟨.identifier, "x", "x", ⟨26, 2, 6⟩⟩] := by
    decide +kernel
  exact keepsAsync_of_makesAsync (by decide +kernel) rfl (.default hahead rfl (.named rfl rfl))

/-- Behind `default declare`, a function is not told from an expression. -/
theorem keepsAsync_declared : KeepsAsync "export default declare async function f(): void".toList := by
  let text := "export default declare async function f(): void".toList
  have hahead : (Cursor.behind text 1).ahead =
      [⟨.keyword .defaultWord, "default", "default", ⟨7, 1, 8⟩⟩,
        ⟨.keyword .declareWord, "declare", "declare", ⟨15, 1, 16⟩⟩] ++
      ⟨.keyword .asyncWord, "async", "async", ⟨23, 1, 24⟩⟩ ::
      ⟨.keyword .functionWord, "function", "function", ⟨29, 1, 30⟩⟩ ::
      (Cursor.behind text 5).ahead := by
    decide +kernel
  exact keepsAsync_of_makesAsync (by decide +kernel) rfl (.function hahead rfl (by decide))

end Keeping

/-- A name `async` is deleted where a function of that name is called in the first initializer, and
where the default export begins with it: no function is made asynchronous there. The arrow function
of a second variable keeps its word, as does one whose word stands on a line of its own behind
`default`, and a function behind `default declare`. -/
theorem removeAsyncExports_takesNames :
    (∀ rewriting ∈ [("export const x = async(1)", "export const x = (1)"),
        ("export default async.waterfall()", "export default .waterfall()")],
      ∃ s o, tokenize rewriting.1.toList = .ok s ∧ outline rewriting.1.toList = .ok o ∧
        (removeAsyncExports rewriting.1.toList).toOption = some rewriting.2.toList ∧
        ∀ e ∈ o.exports, ∀ a, ¬ (s.behindFirst e.span).MakesAsync a) ∧
    ∀ text ∈ ["export const a = 1, b = async x => x", "export default async\nx => x",
        "export default declare async function f(): void"],
      ∃ s o, tokenize text.toList = .ok s ∧ outline text.toList = .ok o ∧
        (removeAsyncExports text.toList).toOption = some text.toList ∧
        ∃ e ∈ o.exports, ∃ a, a.kind = .keyword .asyncWord ∧
          (s.behindFirst e.span).MakesAsync a := by
  constructor
  · have hplain : ∀ rewriting ∈ [("export const x = async(1)", "export const x = (1)"),
        ("export default async.waterfall()", "export default .waterfall()")],
        (tokenize rewriting.1.toList).toOption.isSome = true ∧
        (outline rewriting.1.toList).toOption.isSome = true ∧
        (removeAsyncExports rewriting.1.toList).toOption = some rewriting.2.toList ∧
        ∀ t ∈ ((tokenize rewriting.1.toList).toOption.getD ⟨[], .start⟩).tokens,
          t.kind ∉ ([.keyword .functionWord, .mark .arrow] : List TokenKind) := by
      decide +kernel
    intro rewriting hrewriting
    obtain ⟨htokens, houtline, hresult, hsigns⟩ := hplain rewriting hrewriting
    refine ⟨_, _, eq_ok_getD htokens ⟨[], .start⟩, eq_ok_getD houtline ⟨[], []⟩, hresult, ?_⟩
    intro e _ a hmakes
    obtain ⟨t, ht, hsign⟩ := hmakes.exists_sign
    exact hsigns t ((List.dropWhile_suffix _).subset
      ((Cursor.reaches_advance _).suffix.subset ht)) hsign
  · intro text htext
    simp only [List.mem_cons, List.not_mem_nil, or_false] at htext
    rcases htext with rfl | rfl | rfl
    · exact keepsAsync_later
    · exact keepsAsync_line
    · exact keepsAsync_declared

end ComponentRegistry
