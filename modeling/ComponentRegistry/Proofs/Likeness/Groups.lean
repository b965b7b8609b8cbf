import ComponentRegistry.Proofs.Likeness.Export
import ComponentRegistry.Proofs.Rewrite.Exchange
import ComponentRegistry.Proofs.Syntax.Binding

/-! # What stands in a bracketed group

An expression is passed over without a look at what its groups contain, but for one thing: lists of
type arguments count across brackets. A group may contain anything that leaves as many of them open.
-/

namespace ComponentRegistry

/-- A bracketed group. -/
structure Group where
  /-- The opening bracket. -/
  opener : Token
  /-- What stands between the brackets. -/
  inside : List Token
  /-- The closing bracket. -/
  closer : Token
  opens : opener.kind.isOpener = true
  /-- The brackets inside match. -/
  matched : Matched (fun _ => True) inside
  closes : closer.kind.isCloser = true

/-- The tokens of a group, its brackets included. -/
def Group.tokens (g : Group) : List Token := g.opener :: (g.inside ++ [g.closer])

namespace Reach

/-- Number of open lists of type arguments after several more tokens. -/
def anglesOver (angles : Nat) (previous : Option Token) : List Token → Nat
  | [] => angles
  | t :: rest => anglesOver (anglesAfter angles previous t) (some t) rest

end Reach

/-- Number of open lists of type arguments behind a group. -/
def Group.anglesAfter (g : Group) (angles : Nat) : Nat :=
  Reach.anglesOver angles (some g.opener) g.inside

namespace Reach

variable {f f' : Position} {d angles : Nat} {p : Option Token} {t : Token} {ts rest : List Token}
  {outside : TokenKind → Prop}

theorem anglesOver_append (ts us : List Token) (angles : Nat) (p : Option Token) :
    anglesOver angles p (ts ++ us) = anglesOver (anglesOver angles p ts) (ts.getLast?.or p) us := by
  induction ts generalizing angles p with
  | nil => rfl
  | cons t ts ih =>
    rw [List.cons_append, anglesOver, ih, anglesOver]
    cases ts <;> simp [List.getLast?_cons]

theorem anglesAfter_opener (h : t.kind.isOpener = true) : anglesAfter angles p t = angles := by
  have hne : t.kind ≠ .mark .less ∧ t.kind ≠ .mark .greater := by
    constructor <;> intro hkind <;> simp [hkind, TokenKind.isOpener] at h
  simp [anglesAfter, hne]

theorem anglesAfter_closer (h : t.kind.isCloser = true) : anglesAfter angles p t = angles := by
  have hne : t.kind ≠ .mark .less ∧ t.kind ≠ .mark .greater := by
    constructor <;> intro hkind <;> simp [hkind, TokenKind.isCloser] at h
  simp [anglesAfter, hne]

/-- Nothing stops an expression inside of brackets. -/
theorem expressionFrom_inside (f : Position) (d angles : Nat) (p : Option Token) (t : Token)
    (rest : List Token) : expressionFrom f (d + 1) angles p (t :: rest) =
      expressionFrom f (depthAfter (d + 1) t) (anglesAfter angles p t) (some t) rest := by
  rw [expressionFrom, if_neg fun h => d.succ_ne_zero h.1]

/-- Inside of brackets, an expression goes on over tokens whose brackets match. -/
theorem expressionFrom_matched (h : Matched outside ts) :
    expressionFrom f (d + 1) angles p (ts ++ rest) =
      expressionFrom f (d + 1) (anglesOver angles p ts) (ts.getLast?.or p) rest := by
  induction h generalizing d angles p rest with
  | nil => rfl
  | @token _ t ts _ opens closes others ih =>
    have hdepth : depthAfter (d + 1) t = d + 1 := by simp [depthAfter, opens, closes]
    rw [List.cons_append, expressionFrom_inside, hdepth, ih, anglesOver]
    cases ts <;> simp [List.getLast?_cons]
  | @group _ o c inner ts opens inside closes others ihInside ihRest =>
    rw [List.cons_append, List.append_assoc, List.cons_append, expressionFrom_inside,
      depthAfter_opener opens, ihInside, expressionFrom_inside, depthAfter_closer closes, ihRest,
      ← List.cons_append, anglesOver_append, List.getLast?_append, anglesOver, anglesOver]
    cases inner <;> cases ts <;> simp [List.getLast?_cons]

/-- An expression goes on behind a group. -/
theorem expressionFrom_group (g : Group) (back : List Token) :
    expressionFrom f d angles p (g.tokens ++ back) =
      expressionFrom f d (g.anglesAfter angles) (some g.closer) back := by
  obtain ⟨hcloser, hcomma, hsemicolon⟩ := isCloser_of_isOpener g.opens
  have hends : endsStatement p g.opener = false := by
    cases p with
    | none => rfl
    | some q =>
      have hname : g.opener.kind.isName = false ∧ g.opener.kind ≠ .operator := by
        have hopens := g.opens
        constructor
        · cases hkind : g.opener.kind <;> simp_all [TokenKind.isOpener, TokenKind.isName]
        · intro hkind
          simp [hkind, TokenKind.isOpener] at hopens
      simp [endsStatement, hname]
  have hstops : stopsExpression angles p g.opener = false := by
    simp [stopsExpression, hcomma, hsemicolon, hcloser, hends]
  rw [Group.tokens, List.cons_append, List.append_assoc, expressionFrom, anglesAfter_opener g.opens,
    if_neg (by simp [hstops]), depthAfter_opener g.opens, expressionFrom_matched g.matched,
    List.singleton_append, expressionFrom_inside, depthAfter_closer g.closes,
    anglesAfter_closer g.closes]
  rfl

/-- An expression that does not stop within some tokens goes on behind them. -/
theorem expressionFrom_append (h : (expressionFrom f d angles p ts).ahead = []) :
    expressionFrom f' d angles p (ts ++ rest) =
      expressionFrom f' (ts.foldl depthAfter d) (anglesOver angles p ts) (ts.getLast?.or p)
        rest := by
  induction ts generalizing d angles p with
  | nil => rfl
  | cons t ts ih =>
    rw [expressionFrom] at h
    rw [List.cons_append, expressionFrom]
    split at h
    · cases h
    · next hstays =>
      rw [if_neg hstays, ih h, List.foldl_cons, anglesOver]
      cases ts <;> simp [List.getLast?_cons]

theorem ahead_expressionFrom_eq_nil
    (h : (expressionFrom f d angles p (ts ++ rest)).remaining ≤ rest.length) :
    (expressionFrom f d angles p ts).ahead = [] := by
  induction ts generalizing d angles p with
  | nil => rfl
  | cons t ts ih =>
    rw [List.cons_append, expressionFrom] at h
    rw [expressionFrom]
    split at h
    · simp only [Cursor.remaining, List.length_cons, List.length_append] at h
      omega
    · next hstays =>
      rw [if_neg hstays]
      exact ih h

/-- Signs that close lists of type arguments. -/
theorem exists_expressionFrom_greater (hkind : t.kind = .mark .greater) (angles : Nat)
    (p : Option Token) (rest : List Token) (n : Nat) :
    ∃ q, expressionFrom f 0 angles p (List.replicate n t ++ rest) =
      expressionFrom f 0 (angles - n) q rest := by
  induction n generalizing angles p with
  | zero => exact ⟨p, rfl⟩
  | succ n ih =>
    have hends : endsStatement p t = false := by
      cases p <;> simp [endsStatement, hkind, TokenKind.isName]
    have hstops : stopsExpression (anglesAfter angles p t) p t = false := by
      simp [stopsExpression, hkind, hends, TokenKind.isCloser]
    have hdepth : depthAfter 0 t = 0 := by
      simp [depthAfter, hkind, TokenKind.isOpener, TokenKind.isCloser]
    have hangles : anglesAfter angles p t = angles - 1 := by simp [anglesAfter, hkind]
    obtain ⟨q, hq⟩ := ih (angles - 1) (some t)
    refine ⟨q, ?_⟩
    rw [List.replicate_succ, List.cons_append, expressionFrom, hstops, if_neg (by simp), hdepth,
      hangles, hq, Nat.sub_sub, Nat.add_comm 1 n]

/-- A comma ends an expression where no list of type arguments is open. -/
theorem ahead_expressionFrom_comma (hkind : t.kind = .mark .comma) :
    (expressionFrom f 0 angles p [t]).ahead = if angles = 0 then [t] else [] := by
  have hends : endsStatement p t = false := by
    cases p <;> simp [endsStatement, hkind, TokenKind.isName]
  have hangles : anglesAfter angles p t = angles := by simp [anglesAfter, hkind]
  have hstops : stopsExpression angles p t = (angles == 0) := by
    simp [stopsExpression, hkind, hends, TokenKind.isCloser]
  simp only [expressionFrom, hangles, hstops, true_and, beq_iff_eq]
  split <;> rfl

end Reach

/-- What stands in front of a seam is read alike. -/
def Seam.likeness (S : Seam) : Likeness where
  place := S.placed
  token := S.Same
  line_lt h h' := (S.line_lt h h').symm
  start h := h.start
  kind h := h.kind
  value h _ := h.value
  word h _ _ := by rw [h.value]
  lexeme h _ := h.lexeme
  adjoins h h' _ := by
    simp only [Token.stop, h.lexeme]
    exact (S.offset_eq _ h.start h'.start).symm
  last h := ⟨rfl, rfl, rfl, fun hkind => (nomatch hkind), h⟩

namespace Cursor

/-- The declarators that are read from a place on, one of which has its initial value at another. -/
inductive ReachesValue : Cursor → Cursor → Prop where
  /-- The value of the variables that are read next. -/
  | here {c n : Cursor} {names : List String} (binds : c.bindingNames = .ok (names, n))
      (sign : n.skipAnnotation.atMark .equals = true) : ReachesValue c n.skipAnnotation.advance
  /-- The value of later ones. -/
  | later {c n i : Cursor} {names : List String} (binds : c.bindingNames = .ok (names, n))
      (comma : n.skipDeclaratorRest.atMark .comma = true)
      (others : ReachesValue n.skipDeclaratorRest.advance i) : ReachesValue c i

/-- The export of variables, one of which has its initial value at a place. -/
structure ExportsValue (c i : Cursor) : Prop where
  word : c.atWord .exportWord = true
  keyword : (variableKind? c.advance.modifiers.2.kind).isSome = true
  /-- The words `const enum` begin an enumeration. -/
  plain : c.advance.modifiers.2.atEnumeration = false
  value : c.advance.modifiers.2.advance.ReachesValue i

variable {c i : Cursor}

theorem ReachesValue.remaining_lt (h : c.ReachesValue i) : i.remaining < c.remaining := by
  induction h with
  | @here c n names binds sign =>
    have := remaining_lt_of_bindingNames binds
    have := remaining_skipAnnotation_le n
    have := remaining_advance_le n.skipAnnotation
    omega
  | @later c n i names binds comma others ih =>
    have := remaining_lt_of_bindingNames binds
    have := remaining_skipDeclaratorRest_le n
    have := remaining_advance_le n.skipDeclaratorRest
    omega

end Cursor

/-- Two token streams that differ in what stands in one bracketed group. What follows the group may
have moved. -/
structure Refill (T : Likeness) where
  /-- The group in the one stream. -/
  group : Group
  /-- The group in the other stream. -/
  other : Group
  /-- What follows the group in the one stream. -/
  back : List Token
  /-- What follows the group in the other stream. -/
  back' : List Token
  /-- Where the one text ends. -/
  finish : Position
  /-- Where the other text ends. -/
  finish' : Position
  opener : other.opener = group.opener
  closer : T.token group.closer other.closer
  behind : List.Forall₂ T.token back back'
  ends : T.place finish finish'

namespace Refill

variable {T : Likeness} (r : Refill T) {front : List Token} {p : Option Token} {c : Cursor}

/-- A place in the one stream, by the tokens in front of the group. -/
def place (front : List Token) (p : Option Token) : Cursor :=
  ⟨p, front ++ (r.group.tokens ++ r.back), r.finish⟩

/-- The same place in the other stream. -/
def place' (front : List Token) (p : Option Token) : Cursor :=
  ⟨p, front ++ (r.other.tokens ++ r.back'), r.finish'⟩

/-- The seam behind the opening bracket of the group. -/
def seam : Seam :=
  .inFront (r.group.inside ++ (r.group.closer :: r.back))
    (r.other.inside ++ (r.other.closer :: r.back'))

theorem along_skipExpression {f : Position} (outermost : front.foldl Reach.depthAfter 0 = 0)
    (stays : (Reach.expressionFrom f 0 0 p front).ahead = [])
    (angles : r.other.anglesAfter (Reach.anglesOver 0 p front) =
      r.group.anglesAfter (Reach.anglesOver 0 p front)) :
    T.Along (r.place front p).skipExpression (r.place' front p).skipExpression := by
  rw [Cursor.skipExpression, Cursor.skipExpression, place, place']
  simp only [Reach.expressionFrom_append stays, outermost, Reach.expressionFrom_group, angles]
  exact Likeness.expressionFrom (.some r.closer) r.behind r.ends 0 _

theorem same_iff {t t' : Token} : r.seam.Same t t' ↔
    t' = t ∧ (t.kind = .mark .semicolon → t.value = ";") := by
  constructor
  · rintro ⟨hkind, hvalue, hlexeme, hsemicolon, hstart⟩
    obtain ⟨kind, value, lexeme, start⟩ := t
    obtain ⟨kind', value', lexeme', start'⟩ := t'
    obtain rfl := hkind
    obtain rfl := hvalue
    obtain rfl := hlexeme
    obtain rfl : start' = start := hstart
    exact ⟨rfl, hsemicolon⟩
  · rintro ⟨rfl, hsemicolon⟩
    exact ⟨rfl, rfl, rfl, hsemicolon, rfl⟩

theorem exists_append_of_tied {ts ts' : List Token} (h : r.seam.Tied ts ts') :
    ∃ us, ts = us ++ r.seam.old ∧ ts' = us ++ r.seam.new := by
  induction h with
  | seam => exact ⟨[], rfl, rfl⟩
  | @cons t t' ts ts' first _ ih =>
    obtain ⟨us, rfl, rfl⟩ := ih
    obtain ⟨rfl, -⟩ := r.same_iff.1 first
    exact ⟨t' :: us, rfl, rfl⟩

theorem tied_append {ts : List Token} (h : ∀ t ∈ ts, t.kind = .mark .semicolon → t.value = ";") :
    r.seam.Tied (ts ++ r.seam.old) (ts ++ r.seam.new) := by
  induction ts with
  | nil => exact .seam
  | cons t ts ih =>
    obtain ⟨first, others⟩ := List.forall_mem_cons.1 h
    exact .cons (r.same_iff.2 ⟨rfl, first⟩) (ih others)

theorem ahead_place (front : List Token) (p : Option Token) :
    (r.place front p).ahead = (front ++ [r.group.opener]) ++ r.seam.old ∧
      (r.place' front p).ahead = (front ++ [r.group.opener]) ++ r.seam.new := by
  constructor
  · simp [place, Group.tokens, seam, Seam.inFront]
  · simp [place', Group.tokens, seam, Seam.inFront, r.opener]

theorem tied_place (hfront : ∀ t ∈ front, t.kind = .mark .semicolon → t.value = ";") :
    r.seam.Tied (r.place front p).ahead (r.place' front p).ahead := by
  rw [(r.ahead_place front p).1, (r.ahead_place front p).2]
  refine r.tied_append (List.forall_mem_append.2 ⟨hfront, ?_⟩)
  rintro t ht hkind
  have hopens := r.group.opens
  rw [← List.mem_singleton.1 ht, hkind] at hopens
  cases hopens

/-- The same place in the other stream is the only one that matches. -/
theorem eq_place (h : r.seam.Matches (r.place front p) c) (hfinish : c.finish = r.finish') :
    c = r.place' front p := by
  obtain ⟨previous, ahead, finish⟩ := c
  obtain ⟨hprevious, hahead⟩ := h
  have hp : previous = p := by
    cases hprevious with
    | none => rfl
    | some hsame => exact congrArg some (r.same_iff.1 hsame).1
  obtain ⟨us, hold, hnew⟩ := r.exists_append_of_tied hahead
  rw [(r.ahead_place front p).1] at hold
  obtain rfl := List.append_cancel_right hold
  rw [← (r.ahead_place front p).2] at hnew
  obtain rfl : finish = r.finish' := hfinish
  obtain rfl : ahead = (r.place' front previous).ahead := hp ▸ hnew
  rw [hp]
  rfl

end Refill

namespace Likeness

variable {T : Likeness} {S : Seam} {c c' i : Cursor}

/-- Declarators are read alike when the initial value of one of them is passed over alike, and the
streams are the same in front of it. -/
theorem alike_declarators {finish : Position} (hvalue : c.ReachesValue i) (hc : S.Matches c c')
    (hfinish : c'.finish = finish) (hinside : S.old.length < i.remaining)
    (halong : ∀ i', S.Matches i i' → i'.finish = finish →
      T.Along i.skipExpression i'.skipExpression) :
    T.Alike (T.Through fun found found' => found'.1 = found.1) c.declarators c'.declarators := by
  induction hvalue generalizing c' with
  | @here c n names binds sign =>
    have hle := Cursor.remaining_skipAnnotation_le n
    have hle₁ := Cursor.remaining_advance_le n.skipAnnotation
    obtain ⟨n', binds', hn⟩ := hc.bindingNames binds (by omega)
    have htyped := hn.skipAnnotation_of_lt (by omega)
    have sign' : n'.skipAnnotation.atMark .equals = true := by
      rwa [htyped.atMark_eq (by omega)]
    have hrest : T.Along n.skipDeclaratorRest n'.skipDeclaratorRest := by
      rw [Cursor.skipDeclaratorRest, Cursor.skipDeclaratorRest, PatternState.skipInitializer,
        PatternState.skipInitializer, if_pos sign, if_pos sign']
      have hreaches := (Cursor.reaches_of_bindingNames binds').trans
        ((Cursor.reaches_skipAnnotation n').trans (Cursor.reaches_advance _))
      exact halong _ (htyped.advance (by omega)) (hreaches.finish_eq.trans hfinish)
    rw [Along.declarators_eq c, Along.declarators_eq c', binds, binds']
    refine .ite (hrest.atMark_eq .comma) (fun _ => ?_) fun _ => .ok ⟨rfl, hrest⟩
    refine hrest.advance.declarators.map ?_
    rintro ⟨⟨more, async⟩, m⟩ ⟨⟨more', async'⟩, m'⟩ ⟨heq, hm⟩
    exact ⟨congrArg (names ++ ·) heq, hm⟩
  | @later c n i names binds comma others ih =>
    have hlt := others.remaining_lt
    have hle := Cursor.remaining_skipAnnotation_le n
    have hle₁ := PatternState.remaining_skipInitializer_le n.skipAnnotation
    have hle₂ := Cursor.remaining_advance_le n.skipDeclaratorRest
    have hrest : n.skipDeclaratorRest.remaining ≤ n.skipAnnotation.remaining := hle₁
    obtain ⟨n', binds', hn⟩ := hc.bindingNames binds (by omega)
    have hskip : S.Matches n.skipDeclaratorRest n'.skipDeclaratorRest :=
      (hn.skipAnnotation_of_lt (by omega)).skipInitializer_of_lt
        (Nat.lt_of_lt_of_le (by omega) (Nat.le_refl n.skipDeclaratorRest.remaining))
    have comma' : n'.skipDeclaratorRest.atMark .comma = true := by
      rwa [hskip.atMark_eq (by omega)]
    rw [Along.declarators_eq c, Along.declarators_eq c', binds, binds']
    simp only [bind, Except.bind, if_pos comma, if_pos comma']
    have hreaches := (Cursor.reaches_of_bindingNames binds').trans
      ((Cursor.reaches_skipDeclaratorRest n').trans (Cursor.reaches_advance _))
    refine (ih (hskip.advance (by omega)) (hreaches.finish_eq.trans hfinish) hinside halong).map ?_
    rintro ⟨⟨more, async⟩, m⟩ ⟨⟨more', async'⟩, m'⟩ ⟨heq, hm⟩
    exact ⟨congrArg (names ++ ·) heq, hm⟩

/-- So is the statement that exports them. -/
theorem alike_exportStatement {finish : Position} (hvalue : c.ExportsValue i)
    (hc : S.Tied c.ahead c'.ahead) (hfinish : c'.finish = finish)
    (hinside : S.old.length < i.remaining)
    (halong : ∀ i', S.Matches i i' → i'.finish = finish →
      T.Along i.skipExpression i'.skipExpression) :
    T.Alike (T.Through fun s s' => SameForm s.form s'.form ∧ s'.terminated = s.terminated)
      c.exportStatement c'.exportStatement := by
  obtain ⟨word, keyword, plain, value⟩ := hvalue
  have hlt := value.remaining_lt
  have hle := Cursor.remaining_advance_le c.advance.modifiers.2
  have hle₁ := Cursor.remaining_modifiersFrom_le ⟨false, none⟩ c.advance
  have hle₂ := Cursor.remaining_advance_le c
  change c.advance.modifiers.2.remaining ≤ _ at hle₁
  obtain ⟨hsame, hnext⟩ := hc.inside (by omega)
  have word' : c'.atWord .exportWord = true := by
    rwa [Cursor.atWord, Cursor.kind, hsame.kind, ← Cursor.kind, ← Cursor.atWord]
  obtain ⟨hambient, -, hmodifiers⟩ :=
    hnext.modifiersFrom ⟨false, none⟩ ⟨false, none⟩ rfl .none
      (Nat.lt_of_le_of_lt hinside (Nat.lt_of_lt_of_le hlt hle))
  change c'.advance.modifiers.1.ambient = c.advance.modifiers.1.ambient at hambient
  change S.Matches c.advance.modifiers.2 c'.advance.modifiers.2 at hmodifiers
  have hkind := hmodifiers.kind_eq (by omega)
  have hfollowing := hmodifiers.followingKind_eq (by omega)
  have plain' : c'.advance.modifiers.2.atEnumeration = false := by
    rwa [Cursor.atEnumeration, Cursor.atWord, Cursor.atWord, hkind, hfollowing]
  obtain ⟨kind, hvariable⟩ := Option.isSome_iff_exists.1 keyword
  have hreaches := (Cursor.reaches_advance c').trans
    ((Cursor.reaches_modifiersFrom ⟨false, none⟩ c'.advance).trans (Cursor.reaches_advance _))
  have hdeclarators := alike_declarators value (hmodifiers.advance (by omega))
    (hreaches.finish_eq.trans hfinish) hinside halong
  have hform : T.Alike (T.Through SameForm) c.advance.exportForm c'.advance.exportForm := by
    rw [Cursor.exportForm_of_variable keyword, Cursor.exportForm_of_variable (hkind ▸ keyword),
      Cursor.exportDeclaration, Cursor.exportDeclaration,
      Cursor.declared_of_variable hvariable plain,
      Cursor.declared_of_variable (hkind ▸ hvariable) plain', hambient]
    refine hdeclarators.andThen fun found found' n n' _ heq hn => .ok ⟨?_, hn⟩
    rw [heq]
    rfl
  have hexpect : ∀ {c : Cursor}, c.atWord .exportWord = true →
      c.expect (.keyword .exportWord) = .ok (c.current, c.advance) := fun h =>
    if_pos (Cursor.kind_of_atWord h)
  rw [Cursor.exportStatement, Cursor.exportStatement, hexpect word, hexpect word']
  refine hform.andThen fun form form' n n' _ hform hn => ?_
  obtain ⟨hterminated, hending⟩ := hn.exportEnding hform
  exact .ok ⟨⟨hform, hterminated⟩, hending⟩

end Likeness

namespace Refill

variable {T : Likeness} (r : Refill T) {front : List Token} {p : Option Token}

/-- Where a group leaves more or fewer lists of type arguments open, something can follow that shows
the difference. -/
theorem angles_eq_of_along {S : Seam} {g g' : Group} (opener : g'.opener = g.opener)
    (closer : S.Same g.closer g'.closer) (outermost : front.foldl Reach.depthAfter 0 = 0)
    (stays : (Reach.expressionFrom .start 0 0 p front).ahead = [])
    (h : ∀ r : Refill S.likeness, r.group = g → r.other = g' →
      S.likeness.Along (r.place front p).skipExpression (r.place' front p).skipExpression) :
    g'.anglesAfter (Reach.anglesOver 0 p front) = g.anglesAfter (Reach.anglesOver 0 p front) := by
  let mark (m : Mark) (word : String) (place : Position) : Token := ⟨.mark m, word, word, place⟩
  have same {m : Mark} (word : String) (hm : m ≠ .semicolon) :
      S.Same (mark m word g.closer.start) (mark m word g'.closer.start) :=
    ⟨rfl, rfl, rfl, fun hk => absurd (TokenKind.mark.inj hk) hm, closer.start⟩
  generalize hn : g.anglesAfter (Reach.anglesOver 0 p front) = n
  generalize hn' : g'.anglesAfter (Reach.anglesOver 0 p front) = n'
  -- As many lists are closed as both groups leave open; a comma tells whether one is left.
  let back (place : Position) : List Token :=
    List.replicate (min n n') (mark .greater ">" place) ++ [mark .comma "," place]
  have hback : List.Forall₂ S.Same (back g.closer.start) (back g'.closer.start) := by
    refine List.rel_append ?_ (.cons (same "," (by decide)) .nil)
    induction min n n' with
    | zero => exact .nil
    | succ m ih => exact .cons (same ">" (by decide)) ih
  have hahead : ∀ (x : Group) (f : Position), (Reach.expressionFrom f 0 0 p
      (front ++ (x.tokens ++ back x.closer.start))).ahead.length =
        if x.anglesAfter (Reach.anglesOver 0 p front) - min n n' = 0 then 1 else 0 := by
    intro x f
    obtain ⟨q, hq⟩ := Reach.exists_expressionFrom_greater (f := f)
      (t := mark .greater ">" x.closer.start) rfl (x.anglesAfter (Reach.anglesOver 0 p front))
      (some x.closer) [mark .comma "," x.closer.start] (min n n')
    rw [Reach.expressionFrom_append stays, outermost, Reach.expressionFrom_group, hq,
      Reach.ahead_expressionFrom_comma rfl]
    split <;> rfl
  have hlength := (h ⟨g, g', _, _, g.closer.start, g'.closer.start, opener, closer, hback,
    closer.start⟩ rfl rfl).ahead.length_eq
  have heq := (hahead g _).symm.trans (hlength.trans (hahead g' _))
  rw [hn, hn'] at heq
  split at heq <;> split at heq <;> omega

/-- Behind a front that an expression passes over, one group can stand for another whatever follows
exactly if both leave as many lists of type arguments open. -/
theorem along_skipExpression_iff {S : Seam} {g g' : Group} (opener : g'.opener = g.opener)
    (closer : S.Same g.closer g'.closer) (outermost : front.foldl Reach.depthAfter 0 = 0)
    (stays : (Reach.expressionFrom .start 0 0 p front).ahead = []) :
    (∀ r : Refill S.likeness, r.group = g → r.other = g' →
      S.likeness.Along (r.place front p).skipExpression (r.place' front p).skipExpression) ↔
      g'.anglesAfter (Reach.anglesOver 0 p front) = g.anglesAfter (Reach.anglesOver 0 p front) := by
  refine ⟨fun h => ?_, ?_⟩
  · exact angles_eq_of_along opener closer outermost stays h
  · rintro angles r rfl rfl
    exact r.along_skipExpression outermost stays angles

/-- What a group outside of all other brackets contains makes no difference to where an expression
ends, if it leaves as many lists of type arguments open. If the expression is an initial value of
exported variables, these and all that follows are the same. -/
theorem skipped_alike (outermost : front.foldl Reach.depthAfter 0 = 0)
    (passed : (r.place front p).skipExpression.remaining ≤ r.back.length)
    (angles : r.other.anglesAfter (Reach.anglesOver 0 p front) =
      r.group.anglesAfter (Reach.anglesOver 0 p front)) :
    T.Along (r.place front p).skipExpression (r.place' front p).skipExpression ∧
      ∀ lead q, (r.place (lead ++ front) q).ExportsValue (r.place front p) →
        (∀ t ∈ lead ++ front, t.kind = .mark .semicolon → t.value = ";") →
        T.Alike (T.Through fun s s' => Likeness.SameForm s.form s'.form ∧
            s'.terminated = s.terminated)
          (r.place (lead ++ front) q).exportStatement
          (r.place' (lead ++ front) q).exportStatement := by
  have stays : (Reach.expressionFrom r.finish 0 0 p front).ahead = [] := by
    refine Reach.ahead_expressionFrom_eq_nil (Nat.le_trans passed ?_)
    rw [List.length_append]
    exact Nat.le_add_left _ _
  have halong := r.along_skipExpression outermost stays angles
  refine ⟨halong, fun lead q hvalue hplain => ?_⟩
  have hinside : r.seam.old.length < (r.place front p).remaining := by
    rw [Cursor.remaining, (r.ahead_place front p).1]
    simp only [List.length_append, List.length_cons, List.length_nil]
    omega
  refine Likeness.alike_exportStatement hvalue (r.tied_place hplain) rfl hinside ?_
  intro i' hi hfinish
  rw [r.eq_place hi hfinish]
  exact halong

/-- A generic call in the place of a name. -/
theorem skipped_alike_call :
    let t (kind : TokenKind) (word : String) (offset : Nat) : Token :=
      ⟨kind, word, word, ⟨offset, 1, offset + 1⟩⟩
    let sign := t (.mark .equals) "=" 14
    let lead := [t (.keyword .exportWord) "export" 0, t (.keyword .constWord) "const" 7,
      t .identifier "a" 13, sign]
    let front := [t .identifier "f" 15]
    let T := (Seam.atBack ⟨18, 1, 19⟩ ⟨24, 1, 25⟩).likeness
    ∃ r : Refill T,
      tokenize "export const a=f(x),b=1".toList =
        .ok ⟨(r.place (lead ++ front) none).ahead, r.finish⟩ ∧
      tokenize "export const a=f(g<T>(y)),b=1".toList =
        .ok ⟨(r.place' (lead ++ front) none).ahead, r.finish'⟩ ∧
      front.foldl Reach.depthAfter 0 = 0 ∧
      (r.place front sign).skipExpression.remaining ≤ r.back.length ∧
      r.other.anglesAfter (Reach.anglesOver 0 sign front) =
        r.group.anglesAfter (Reach.anglesOver 0 sign front) ∧
      (r.place (lead ++ front) none).ExportsValue (r.place front sign) ∧
      T.Along (r.place front sign).skipExpression (r.place' front sign).skipExpression ∧
      T.Alike (T.Through fun s s' => Likeness.SameForm s.form s'.form ∧
          s'.terminated = s.terminated)
        (r.place (lead ++ front) none).exportStatement
        (r.place' (lead ++ front) none).exportStatement := by
  intro t sign lead front T
  let group : Group := ⟨t (.mark .openParen) "(" 16, [t .identifier "x" 17],
    t (.mark .closeParen) ")" 18, rfl, .token trivial rfl rfl .nil, rfl⟩
  let other : Group := ⟨t (.mark .openParen) "(" 16, [t .identifier "g" 17, t (.mark .less) "<" 18,
    t .identifier "T" 19, t (.mark .greater) ">" 20, t (.mark .openParen) "(" 21,
    t .identifier "y" 22, t (.mark .closeParen) ")" 23], t (.mark .closeParen) ")" 24, rfl,
    .token trivial rfl rfl (.token trivial rfl rfl (.token trivial rfl rfl
      (.token trivial rfl rfl (.group rfl (.token trivial rfl rfl .nil) rfl .nil)))), rfl⟩
  let r : Refill T :=
    { group
      other
      back := [t (.mark .comma) "," 19, t .identifier "b" 20, t (.mark .equals) "=" 21,
        t .number "1" 22]
      back' := [t (.mark .comma) "," 25, t .identifier "b" 26, t (.mark .equals) "=" 27,
        t .number "1" 28]
      finish := ⟨23, 1, 24⟩
      finish' := ⟨29, 1, 30⟩
      opener := rfl
      closer := ⟨rfl, rfl, rfl, nofun, rfl, rfl⟩
      behind := .cons ⟨rfl, rfl, rfl, nofun, rfl, rfl⟩ (.cons ⟨rfl, rfl, rfl, nofun, rfl, rfl⟩
        (.cons ⟨rfl, rfl, rfl, nofun, rfl, rfl⟩ (.cons ⟨rfl, rfl, rfl, nofun, rfl, rfl⟩ .nil)))
      ends := ⟨rfl, rfl⟩ }
  have hvalue : (r.place (lead ++ front) none).ExportsValue (r.place front sign) := by
    refine ⟨by decide +kernel, by decide +kernel, by decide +kernel, ?_⟩
    let next := r.place (sign :: front) (t .identifier "a" 13)
    have binds : (r.place (lead ++ front) none).advance.modifiers.2.advance.bindingNames =
        .ok (["a"], next) := by
      decide +kernel
    have hsign : next.skipAnnotation.atMark .equals = true := by decide +kernel
    exact .here binds hsign
  have hpassed : (r.place front sign).skipExpression.remaining ≤ r.back.length := by
    decide +kernel
  have hangles : r.other.anglesAfter (Reach.anglesOver 0 sign front) =
      r.group.anglesAfter (Reach.anglesOver 0 sign front) := by
    decide +kernel
  obtain ⟨halong, halike⟩ := r.skipped_alike rfl hpassed hangles
  exact ⟨r, by decide +kernel, by decide +kernel, rfl, hpassed, hangles, hvalue, halong,
    halike lead none hvalue (by decide)⟩

end Refill

/-- A comparison inside of a call makes a later variable disappear. -/
theorem outline_of_compared_argument :
    let names (text : String) : Option (List (List String)) :=
      (outline text.toList).toOption.map fun o => o.exports.map ExportStatement.names
    names "export const a = f(x), b = 2" = some [["a", "b"]] ∧
      names "export const a = f(x<y), b = 2" = some [["a"]] := by
  decide +kernel

end ComponentRegistry
