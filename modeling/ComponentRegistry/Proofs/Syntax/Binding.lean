import ComponentRegistry.Proofs.Syntax.Concatenation
import ComponentRegistry.Proofs.Syntax.LineBreak

/-! # What declarations bind

A pattern is a name, or members or elements in brackets that lead to further patterns. Keys, initial
values and brackets bind nothing, so that a declaration binds the names at the leaves of its
patterns, in the order of the text.
-/

namespace ComponentRegistry

/-- Tokens whose brackets match. Outside of all brackets stand only tokens of certain kinds. -/
inductive Matched : (TokenKind → Prop) → List Token → Prop where
  | nil : Matched outside []
  | token {t : Token} {ts : List Token} (allowed : outside t.kind)
      (opens : t.kind.isOpener = false) (closes : t.kind.isCloser = false)
      (rest : Matched outside ts) : Matched outside (t :: ts)
  | group {o c : Token} {inner ts : List Token} (opens : o.kind.isOpener = true)
      (inside : Matched (fun _ => True) inner) (closes : c.kind.isCloser = true)
      (rest : Matched outside ts) : Matched outside (o :: (inner ++ c :: ts))

/-- Whether a kind of token stands within one expression. -/
def TokenKind.Joins (kind : TokenKind) : Prop := kind ≠ .mark .comma ∧ kind ≠ .mark .semicolon

/-- What an initial value may be: tokens that are no angle brackets, with matching brackets, and
without a comma or a semicolon outside of them. -/
structure IsValue (ts : List Token) : Prop where
  nonempty : ts ≠ []
  matched : Matched TokenKind.Joins ts
  angles : ∀ t ∈ ts, t.kind ≠ .mark .less ∧ t.kind ≠ .mark .greater

/-- An equals sign and an initial value. -/
inductive Initializes : List Token → Prop where
  | sign {q : Token} {ts : List Token} (equals : q.kind = .mark .equals) (value : IsValue ts) :
      Initializes (q :: ts)

/-- An initial value that may be missing. -/
def MayInitialize (ts : List Token) : Prop := ts = [] ∨ Initializes ts

/-- What a member of an object is found under. -/
inductive IsKey : List Token → Prop where
  | name {t : Token} (word : t.kind.isName = true) : IsKey [t]
  | string {t : Token} (text : t.kind = .string) : IsKey [t]
  | computed {o c : Token} {inner : List Token} (opens : o.kind = .mark .openBracket)
      (inside : Matched (fun _ => True) inner) (closes : c.kind = .mark .closeBracket) :
      IsKey (o :: (inner ++ [c]))

/-- What separates a part of a pattern from those after it: a comma, or nothing in front of the
closing bracket. -/
inductive Separates (closer : Mark) (rest : List Token) : List Token → Prop where
  | comma {t : Token} (comma : t.kind = .mark .comma) : Separates closer rest (t :: rest)
  | last {t : Token} (closes : t.kind = .mark closer) (only : rest = [t]) :
      Separates closer rest rest

/-- What is read of a pattern. -/
inductive PatternPart where
  /-- All of it. -/
  | whole
  /-- The members of an object from some place on, with the closing brace. -/
  | members
  /-- The elements of an array from some place on, with the closing bracket. -/
  | elements

/-- How patterns are written, and the names at their leaves. -/
inductive Binds : PatternPart → List Token → List String → Prop where
  | name {t : Token} (word : t.kind.isName = true) : Binds .whole [t] [t.value]
  | object {o : Token} {ts : List Token} {names : List String} (opens : o.kind = .mark .openBrace)
      (members : Binds .members ts names) : Binds .whole (o :: ts) names
  | array {o : Token} {ts : List Token} {names : List String} (opens : o.kind = .mark .openBracket)
      (elements : Binds .elements ts names) : Binds .whole (o :: ts) names
  | noMember {c : Token} (closes : c.kind = .mark .closeBrace) : Binds .members [c] []
  | shorthand {t : Token} {value ts us : List Token} {names : List String}
      (word : t.kind.isName = true) (initial : MayInitialize value)
      (separates : Separates .closeBrace ts us) (rest : Binds .members ts names) :
      Binds .members (t :: (value ++ us)) (t.value :: names)
  | renamed {key pattern value ts us : List Token} {colon : Token} {bound names : List String}
      (isKey : IsKey key) (isColon : colon.kind = .mark .colon)
      (target : Binds .whole pattern bound) (initial : MayInitialize value)
      (separates : Separates .closeBrace ts us)
      (rest : Binds .members ts names) :
      Binds .members (key ++ colon :: (pattern ++ (value ++ us))) (bound ++ names)
  | otherMembers {dots : Token} {pattern ts us : List Token} {bound names : List String}
      (isDots : dots.kind = .mark .ellipsis) (target : Binds .whole pattern bound)
      (separates : Separates .closeBrace ts us) (rest : Binds .members ts names) :
      Binds .members (dots :: (pattern ++ us)) (bound ++ names)
  | noElement {c : Token} (closes : c.kind = .mark .closeBracket) : Binds .elements [c] []
  | hole {comma : Token} {ts : List Token} {names : List String}
      (isComma : comma.kind = .mark .comma) (rest : Binds .elements ts names) :
      Binds .elements (comma :: ts) names
  | element {pattern value ts us : List Token} {bound names : List String}
      (target : Binds .whole pattern bound) (initial : MayInitialize value)
      (separates : Separates .closeBracket ts us) (rest : Binds .elements ts names) :
      Binds .elements (pattern ++ (value ++ us)) (bound ++ names)
  | otherElements {dots : Token} {pattern ts us : List Token} {bound names : List String}
      (isDots : dots.kind = .mark .ellipsis) (target : Binds .whole pattern bound)
      (separates : Separates .closeBracket ts us) (rest : Binds .elements ts names) :
      Binds .elements (dots :: (pattern ++ us)) (bound ++ names)

/-- Patterns with their initial values, separated by commas. -/
inductive Declares : List Token → List String → Prop where
  | last {pattern value : List Token} {bound : List String} (target : Binds .whole pattern bound)
      (initial : Initializes value) : Declares (pattern ++ value) bound
  | more {pattern value ts : List Token} {comma : Token} {bound names : List String}
      (target : Binds .whole pattern bound) (initial : Initializes value)
      (isComma : comma.kind = .mark .comma) (rest : Declares ts names) :
      Declares (pattern ++ (value ++ comma :: ts)) (bound ++ names)

/-- How exported constants are written, and the names that they bind. -/
inductive DeclaresConstants : List Token → List String → Prop where
  | intro {first keyword last : Token} {ts : List Token} {names : List String}
      (exports : first.kind = .keyword .exportWord) (constant : keyword.kind = .keyword .constWord)
      (declarators : Declares ts names) (ends : last.kind = .mark .semicolon) :
      DeclaresConstants (first :: keyword :: (ts ++ [last])) names

theorem Separates.subset {closer : Mark} {ts us : List Token} (h : Separates closer ts us) :
    ts ⊆ us := by
  cases h with
  | comma comma => exact List.subset_cons_self _ _
  | last closes only => exact List.Subset.refl _

namespace Reach

variable {outside : TokenKind → Prop} {t : Token} {ts : List Token} {line d : Nat}
  {p : Option Token}

/-- A token is passed over that no expression ends in front of. -/
theorem expressionFrom_pass (f : Position) (rest : List Token)
    (angles : t.kind ≠ .mark .less ∧ t.kind ≠ .mark .greater)
    (passes : d = 0 → t.kind.Joins ∧ t.kind.isCloser = false ∧ endsStatement p t = false) :
    expressionFrom f d 0 p (t :: rest) = expressionFrom f (depthAfter d t) 0 (some t) rest := by
  have hangles : anglesAfter 0 p t = 0 := by simp [anglesAfter, angles]
  rw [expressionFrom, hangles, if_neg]
  rintro ⟨hd, hstops⟩
  obtain ⟨hjoins, hcloser, hends⟩ := passes hd
  simp [stopsExpression, hcloser, hends, hjoins.1, hjoins.2] at hstops

theorem endsStatement_of_line (hp : ∀ q ∈ p, q.kind.endsExpression = true → q.line = t.line) :
    endsStatement p t = false := by
  cases p with
  | none => rfl
  | some q =>
    cases hends : q.kind.endsExpression with
    | false => simp [endsStatement, hends]
    | true => simp [endsStatement, hp q rfl hends]

theorem depthAfter_opener (h : t.kind.isOpener = true) : depthAfter d t = d + 1 := by
  simp [depthAfter, h]

theorem isCloser_of_isOpener {kind : TokenKind} (h : kind.isOpener = true) :
    kind.isCloser = false ∧ kind.Joins := by
  cases kind with
  | mark m => cases m <;> simp_all [TokenKind.isOpener, TokenKind.isCloser, TokenKind.Joins]
  | _ => simp [TokenKind.isOpener] at h

theorem depthAfter_closer (h : t.kind.isCloser = true) : depthAfter (d + 1) t = d := by
  have hopener : ¬ t.kind.isOpener = true := fun hopens => by
    rw [(isCloser_of_isOpener hopens).1] at h
    cases h
  simp [depthAfter, h, hopener]

/-- On one line, an expression goes on over tokens whose brackets match. -/
theorem expressionFrom_of_matched (h : Matched outside ts)
    (angles : ∀ t ∈ ts, t.kind ≠ .mark .less ∧ t.kind ≠ .mark .greater)
    (same : ∀ t ∈ ts, t.line = line) (joins : d = 0 → ∀ kind, outside kind → kind.Joins)
    (hp : ∀ q ∈ p, q.kind.endsExpression = true → q.line = line) (f : Position)
    (rest : List Token) :
    expressionFrom f d 0 p (ts ++ rest) = expressionFrom f d 0 (ts.getLast?.or p) rest := by
  have next : ∀ t : Token, t.line = line →
      ∀ q ∈ some t, q.kind.endsExpression = true → q.line = line := by
    rintro t ht q ⟨⟩ -
    exact ht
  induction h generalizing d p rest with
  | nil => rfl
  | @token _ t ts allowed opens closes others ih =>
    obtain ⟨hangles, angles⟩ := List.forall_mem_cons.1 angles
    obtain ⟨hline, same⟩ := List.forall_mem_cons.1 same
    have hdepth : depthAfter d t = d := by simp [depthAfter, opens, closes]
    rw [List.cons_append, expressionFrom_pass f _ hangles fun hd => ⟨joins hd _ allowed, closes,
      endsStatement_of_line (hline ▸ hp)⟩, hdepth, ih angles same joins (next t hline)]
    cases ts <;> simp [List.getLast?_cons]
  | @group _ o c inner ts opens inside closes others ihInside ihRest =>
    obtain ⟨hopens, angles⟩ := List.forall_mem_cons.1 angles
    obtain ⟨anglesInside, angles⟩ := List.forall_mem_append.1 angles
    obtain ⟨hcloses, angles⟩ := List.forall_mem_cons.1 angles
    obtain ⟨hline, same⟩ := List.forall_mem_cons.1 same
    obtain ⟨sameInside, same⟩ := List.forall_mem_append.1 same
    obtain ⟨hline', same⟩ := List.forall_mem_cons.1 same
    obtain ⟨hcloser, hjoins⟩ := isCloser_of_isOpener opens
    -- Inside of the brackets the depth is positive, so that nothing there ends the expression.
    rw [List.cons_append, List.append_assoc, List.cons_append, expressionFrom_pass f _ hopens
      fun _ => ⟨hjoins, hcloser, endsStatement_of_line (hline ▸ hp)⟩, depthAfter_opener opens,
      ihInside anglesInside sameInside (fun hd => absurd hd d.succ_ne_zero) (next o hline),
      expressionFrom_pass f _ hcloses (fun hd => absurd hd d.succ_ne_zero),
      depthAfter_closer closes, ihRest angles same joins (next c hline')]
    rw [← List.cons_append, List.getLast?_append]
    cases ts <;> simp [List.getLast?_cons]

/-- A group goes on over tokens whose brackets match. -/
theorem groupFrom_of_matched (h : Matched outside ts) (f : Position) (rest : List Token) :
    groupFrom f (d + 1) p (ts ++ rest) = groupFrom f (d + 1) (ts.getLast?.or p) rest := by
  induction h generalizing d p rest with
  | nil => rfl
  | @token _ t ts allowed opens closes others ih =>
    have hdepth : depthAfter (d + 1) t = d + 1 := by simp [depthAfter, opens, closes]
    rw [List.cons_append, groupFrom, if_neg (by simp [closes]), hdepth, ih]
    cases ts <;> simp [List.getLast?_cons]
  | @group _ o c inner ts opens inside closes others ihInside ihRest =>
    rw [List.cons_append, List.append_assoc, List.cons_append, groupFrom,
      if_neg (by simp [isCloser_of_isOpener opens]), depthAfter_opener opens, ihInside, groupFrom,
      if_neg (by omega), depthAfter_closer closes, ihRest, ← List.cons_append,
      List.getLast?_append]
    cases ts <;> simp [List.getLast?_cons]

end Reach

/-- Whether a value ends in front of a kind of token. -/
def TokenKind.EndsValue (kind : TokenKind) : Prop :=
  kind = .mark .comma ∨ kind = .mark .semicolon ∨ kind.isCloser = true

namespace Cursor

variable {c n : Cursor} {ts us : List Token} {line : Nat}

theorem skipExpression_of_endsValue (h : n.kind.EndsValue) : n.skipExpression = n := by
  refine skipExpression_eq_self_iff.2 (.inr ?_)
  rcases h with hcomma | hsemicolon | hcloser
  · exact .inl (by simp [hcomma])
  · exact .inl (by simp [hsemicolon])
  · exact .inr (.inl hcloser)

/-- An initial value is passed over. -/
theorem Passes.skipExpression (h : Passes c n ts) (value : IsValue ts)
    (same : ∀ t ∈ ts, t.line = line) (hc : ∀ q ∈ c.previous, q.kind = .mark .equals)
    (hn : n.kind.EndsValue) : c.skipExpression = n := by
  have hprevious : ∀ q ∈ c.previous, q.kind.endsExpression = true → q.line = line := by
    intro q hq hends
    rw [hc q hq] at hends
    cases hends
  rw [Cursor.skipExpression, h.ahead, Reach.expressionFrom_of_matched value.matched value.angles
    same (fun _ _ hjoins => hjoins) hprevious, ← h.previous, ← h.finish]
  exact skipExpression_of_endsValue hn

/-- So is an equals sign with its value. -/
theorem Passes.skipInitializer (h : Passes c n ts) (initial : MayInitialize ts)
    (same : ∀ t ∈ ts, t.line = line) (hn : n.kind.EndsValue) :
    PatternState.skipInitializer c = n := by
  rcases initial with rfl | ⟨equals, value⟩
  · obtain rfl := h.eq_of_nil
    have hsign : n.atMark .equals = false := by
      rcases hn with hk | hk | hk <;> simp [atMark, hk]
      rintro hequals
      rw [hequals] at hk
      cases hk
    rw [PatternState.skipInitializer, hsign]
    rfl
  · obtain ⟨hcurrent, hpass⟩ := h.head
    have hsign : c.atMark .equals = true := by simp [atMark, h.kind_eq, equals]
    rw [PatternState.skipInitializer, if_pos hsign]
    refine hpass.skipExpression value (List.forall_mem_cons.1 same).2 ?_ hn
    rw [(passes_cons h.ahead).previous]
    rintro q ⟨⟩
    exact equals

/-- A group in brackets is passed over. -/
theorem Passes.skipGroup {o e : Token} {inner : List Token} {outside : TokenKind → Prop}
    (h : Passes c n (o :: (inner ++ [e]))) (opens : o.kind.isOpener = true)
    (inside : Matched outside inner) (closes : e.kind.isCloser = true) : c.skipGroup = n := by
  have hprevious := h.previous
  rw [Cursor.skipGroup, h.ahead, List.cons_append, List.append_assoc, Reach.groupFrom,
    if_neg (by simp [Reach.isCloser_of_isOpener opens]), Reach.depthAfter_opener opens,
    Reach.groupFrom_of_matched inside, List.singleton_append, Reach.groupFrom,
    if_pos ⟨closes, Nat.le_refl 1⟩]
  rw [← List.cons_append, List.getLast?_concat] at hprevious
  obtain ⟨previous, ahead, finish⟩ := n
  simp only [Cursor.mk.injEq, true_and]
  exact ⟨hprevious.symm, h.finish.symm⟩

end Cursor

namespace PatternState

open Cursor (Passes)

variable {c n : Cursor} {frame : PatternFrame} {frames : List PatternFrame} {names : List String}
  {key value ts us : List Token} {closer : Mark} {line : Nat}

theorem run_of_step {s t : PatternState} (h : s.step = .ok (some t)) : s.run = t.run := by
  rw [run]
  split <;> rename_i h' <;> rw [h] at h' <;> cases h'
  rfl

/-- The brackets that a pattern may leave are those that close it. -/
def closes : PatternFrame → Mark
  | .member | .objectRest => .closeBrace
  | .element => .closeBracket

theorem kind_of_separates (h : Passes c n us) (separates : Separates closer ts us)
    (hcloser : TokenKind.isCloser (.mark closer) = true) : c.kind.EndsValue := by
  cases separates with
  | comma comma => exact .inl (h.kind_eq.trans comma)
  | last closes only =>
    subst only
    exact .inr (.inr (by rw [h.kind_eq, closes, hcloser]))

theorem stepSeparator_of_separates (frames : List PatternFrame) (names : List String)
    (h : Passes c n us) (separates : Separates closer ts us)
    (hcloser : TokenKind.isCloser (.mark closer) = true) (cause : FaultCause) :
    ∃ m, stepSeparator closer cause frames names c = .ok ⟨.part, frames, names, m⟩ ∧
      Passes m n ts := by
  cases separates with
  | comma comma =>
    refine ⟨c.advance, ?_, h.head.2⟩
    rw [stepSeparator, if_pos (by simp [Cursor.atMark, h.kind_eq, comma])]
  | last closes only =>
    refine ⟨c, ?_, h⟩
    subst only
    have hcomma : c.atMark .comma = false := by
      rw [Cursor.atMark, h.kind_eq, closes, beq_eq_false_iff_ne]
      rintro ⟨⟩
      cases hcloser
    rw [stepSeparator, hcomma, if_neg Bool.false_ne_true,
      if_pos (by simp [Cursor.atMark, h.kind_eq, closes])]

/-- The bracket that the parts behind a part stand in. -/
def others : PatternFrame → PatternFrame
  | .member | .objectRest => .member
  | .element => .element

/-- Behind a part of a pattern, its initial value and a separator are passed over. -/
theorem run_bound (frame : PatternFrame) (value : List Token) (h : Passes c n (value ++ us))
    (initial : MayInitialize value) (hframe : frame = .objectRest → value = [])
    (separates : Separates (closes frame) ts us) (same : ∀ t ∈ value ++ us, t.line = line) :
    ∃ m, run ⟨.bound, frame :: frames, names, c⟩ =
      run ⟨.part, others frame :: frames, names, m⟩ ∧ Passes m n ts ∧ ∀ t ∈ ts, t.line = line := by
  obtain ⟨sameValue, sameRest⟩ := List.forall_mem_append.1 same
  have sameRest : ∀ t ∈ ts, t.line = line := fun t ht => sameRest t (separates.subset ht)
  obtain ⟨b, hvalue, hus⟩ := h.split
  have hcloser : TokenKind.isCloser (.mark (closes frame)) = true := by cases frame <;> rfl
  have hskip : skipInitializer c = b :=
    hvalue.skipInitializer initial sameValue (kind_of_separates hus separates hcloser)
  have hstep := stepSeparator_of_separates (others frame :: frames) names hus separates hcloser
  cases frame with
  | member =>
    obtain ⟨m, hm, hpass⟩ := hstep .expectedMemberSeparator
    rw [← hskip] at hm
    exact ⟨m, run_of_step (map_eq_ok.2 ⟨_, hm, rfl⟩), hpass, sameRest⟩
  | objectRest =>
    obtain ⟨m, hm, hpass⟩ := hstep .expectedMemberSeparator
    obtain rfl := hframe rfl
    obtain rfl := hvalue.eq_of_nil
    exact ⟨m, run_of_step (map_eq_ok.2 ⟨_, hm, rfl⟩), hpass, sameRest⟩
  | element =>
    obtain ⟨m, hm, hpass⟩ := hstep .expectedElementSeparator
    rw [← hskip] at hm
    exact ⟨m, run_of_step (map_eq_ok.2 ⟨_, hm, rfl⟩), hpass, sameRest⟩

theorem kind_ne_mark {kind : TokenKind} (h : kind.isName = true ∨ kind = .string) (m : Mark) :
    kind ≠ .mark m := by
  rintro rfl
  simp [TokenKind.isName] at h

/-- A name or a string as the key of a member, with what it is renamed to. -/
theorem stepMember_of_word (h : c.kind.isName = true ∨ c.kind = .string) :
    stepMember frames names c =
      if c.advance.atMark .colon then .ok ⟨.bind, .member :: frames, names, c.advance.advance⟩
      else .ok ⟨.bound, .member :: frames, names ++ [c.current.value], c.advance⟩ := by
  have hmark : ∀ m, ¬ c.atMark m = true := fun m hm => kind_ne_mark h m (Cursor.kind_of_atMark hm)
  have hword : c.expectModuleName = .ok (c.current, c.advance) := by
    rw [Cursor.expectModuleName]
    split
    · rfl
    · next hstring =>
      rw [Cursor.expectName, if_pos]
      exact h.resolve_right fun hk => hstring (by simp [Cursor.atString, hk])
  rw [stepMember, if_neg (hmark _), if_neg (hmark _), stepKey, if_neg (hmark _), hword]
  rfl

/-- Behind its key, a member that is renamed binds another pattern. -/
theorem step_key (h : Passes c n key) (isKey : IsKey key) (colon : n.kind = .mark .colon) :
    step ⟨.part, .member :: frames, names, c⟩ =
      .ok (some ⟨.bind, .member :: frames, names, n.advance⟩) := by
  have hcolon : n.atMark .colon = true := by simp [Cursor.atMark, colon]
  have word : ∀ t : Token, key = [t] → t.kind.isName = true ∨ t.kind = .string →
      stepMember frames names c = .ok ⟨.bind, .member :: frames, names, n.advance⟩ := by
    rintro t rfl ht
    obtain rfl := h.head.2.eq_of_nil
    rw [stepMember_of_word (h.kind_eq ▸ ht), if_pos hcolon]
  refine map_eq_ok.2 ⟨_, ?_, rfl⟩
  cases isKey with
  | name hword => exact word _ rfl (.inl hword)
  | string text => exact word _ rfl (.inr text)
  | computed opens inside hcloses =>
    have hbracket : c.kind = .mark .openBracket := h.kind_eq.trans opens
    have hskip := h.skipGroup (by rw [opens]; rfl) inside (by rw [hcloses]; rfl)
    rw [stepMember, if_neg (by simp [Cursor.atMark, hbracket]),
      if_neg (by simp [Cursor.atMark, hbracket]), stepKey,
      if_pos (by simp [Cursor.atMark, hbracket]), hskip, if_pos hcolon]

/-- A member that is not renamed binds its own name. -/
theorem step_shorthand {t : Token} (h : Passes c n [t]) (word : t.kind.isName = true)
    (hn : n.kind ≠ .mark .colon) :
    step ⟨.part, .member :: frames, names, c⟩ =
      .ok (some ⟨.bound, .member :: frames, names ++ [t.value], n⟩) := by
  obtain ⟨hcurrent, hpass⟩ := h.head
  obtain rfl := hpass.eq_of_nil
  refine map_eq_ok.2 ⟨_, ?_, rfl⟩
  rw [stepMember_of_word (.inl (h.kind_eq ▸ word)), if_neg (by simp [Cursor.atMark, hn]), hcurrent]

/-- The other steps, by the token they are taken at. -/
theorem step_name {t : Token} (h : c.kind.isName = true) (hcurrent : c.current = t) :
    step ⟨.bind, frames, names, c⟩ =
      .ok (some ⟨.bound, frames, names ++ [t.value], c.advance⟩) := by
  have hmark : ∀ m, ¬ c.atMark m = true := fun m hm =>
    kind_ne_mark (.inl h) m (Cursor.kind_of_atMark hm)
  have hname : c.expectName = .ok (c.current, c.advance) := by
    rw [Cursor.expectName, if_pos (show c.atName = true from h)]
  refine map_eq_ok.2 ⟨_, ?_, rfl⟩
  rw [stepBind, if_neg (hmark _), if_neg (hmark _), hname, hcurrent]
  rfl

theorem step_brace (h : c.kind = .mark .openBrace) : step ⟨.bind, frames, names, c⟩ =
    .ok (some ⟨.part, .member :: frames, names, c.advance⟩) := by
  simp [step, stepBind, Cursor.atMark, h, Except.map]

theorem step_bracket (h : c.kind = .mark .openBracket) : step ⟨.bind, frames, names, c⟩ =
    .ok (some ⟨.part, .element :: frames, names, c.advance⟩) := by
  simp [step, stepBind, Cursor.atMark, h, Except.map]

theorem step_closeBrace (h : c.kind = .mark .closeBrace) :
    step ⟨.part, .member :: frames, names, c⟩ = .ok (some ⟨.bound, frames, names, c.advance⟩) := by
  simp [step, stepMember, Cursor.atMark, h, Except.map]

theorem step_otherMembers (h : c.kind = .mark .ellipsis) :
    step ⟨.part, .member :: frames, names, c⟩ =
      .ok (some ⟨.bind, .objectRest :: frames, names, c.advance⟩) := by
  simp [step, stepMember, Cursor.atMark, h, Except.map]

theorem step_closeBracket (h : c.kind = .mark .closeBracket) :
    step ⟨.part, .element :: frames, names, c⟩ = .ok (some ⟨.bound, frames, names, c.advance⟩) := by
  simp [step, stepElement, Cursor.atMark, h, Except.map]

theorem step_hole (h : c.kind = .mark .comma) : step ⟨.part, .element :: frames, names, c⟩ =
    .ok (some ⟨.part, .element :: frames, names, c.advance⟩) := by
  simp [step, stepElement, Cursor.atMark, h, Except.map]

theorem step_otherElements (h : c.kind = .mark .ellipsis) :
    step ⟨.part, .element :: frames, names, c⟩ =
      .ok (some ⟨.bind, .element :: frames, names, c.advance⟩) := by
  simp [step, stepElement, Cursor.atMark, h, Except.map]

/-- Where a part of a pattern is read. -/
def entry (part : PatternPart) (frames : List PatternFrame) (names : List String) (c : Cursor) :
    PatternState :=
  match part with
  | .whole => ⟨.bind, frames, names, c⟩
  | .members => ⟨.part, .member :: frames, names, c⟩
  | .elements => ⟨.part, .element :: frames, names, c⟩

theorem kind_behind (h : Passes c n (value ++ us)) (initial : MayInitialize value)
    (separates : Separates closer ts us) (hcloser : TokenKind.isCloser (.mark closer) = true) :
    c.kind ≠ .mark .colon := by
  rcases initial with rfl | ⟨equals, -⟩
  · rcases kind_of_separates h separates hcloser with hk | hk | hk <;> intro hcolon
    · simp [hcolon] at hk
    · simp [hcolon] at hk
    · simp [hcolon, TokenKind.isCloser] at hk
  · simp [h.kind_eq, equals]

theorem exists_first (h : Binds .whole ts names) : ∃ t rest, ts = t :: rest ∧
    (t.kind.isName = true ∨ t.kind = .mark .openBrace ∨ t.kind = .mark .openBracket) := by
  cases h with
  | name word => exact ⟨_, _, rfl, .inl word⟩
  | object opens => exact ⟨_, _, rfl, .inr (.inl opens)⟩
  | array opens => exact ⟨_, _, rfl, .inr (.inr opens)⟩

/-- An element that is a pattern is read as one. -/
theorem step_element (h : Passes c n (ts ++ us)) (target : Binds .whole ts names)
    (bound : List String) : step ⟨.part, .element :: frames, bound, c⟩ =
      .ok (some ⟨.bind, .element :: frames, bound, c⟩) := by
  obtain ⟨t, rest, rfl, ht⟩ := exists_first target
  have hkind : c.kind = t.kind := h.kind_eq
  have hmark : ∀ m ∈ [Mark.closeBracket, .comma, .ellipsis], ¬ c.atMark m = true := by
    intro m hm hc
    rw [← hkind, Cursor.kind_of_atMark hc] at ht
    simp only [List.mem_cons, List.not_mem_nil, or_false] at hm
    obtain rfl | rfl | rfl := hm <;> simp [TokenKind.isName] at ht
  refine map_eq_ok.2 ⟨_, ?_, rfl⟩
  rw [stepElement, if_neg (hmark _ (by simp)), if_neg (hmark _ (by simp)),
    if_neg (hmark _ (by simp))]

/-- Reading a part of a pattern comes to its end, and to the names at its leaves. -/
theorem run_of_binds {part : PatternPart} (h : Binds part ts names) (hpass : Passes c n ts)
    (same : ∀ t ∈ ts, t.line = line) (frames : List PatternFrame) (before : List String) :
    run (entry part frames before c) = run ⟨.bound, frames, before ++ names, n⟩ := by
  induction h generalizing c n frames before with
  | @name t word =>
    obtain ⟨hcurrent, hrest⟩ := hpass.head
    obtain rfl := hrest.eq_of_nil
    exact run_of_step (step_name (hpass.kind_eq ▸ word) hcurrent)
  | object opens members ih =>
    obtain ⟨-, hrest⟩ := hpass.head
    rw [← ih hrest (List.forall_mem_cons.1 same).2]
    exact run_of_step (step_brace (hpass.kind_eq.trans opens))
  | array opens elements ih =>
    obtain ⟨-, hrest⟩ := hpass.head
    rw [← ih hrest (List.forall_mem_cons.1 same).2]
    exact run_of_step (step_bracket (hpass.kind_eq.trans opens))
  | noMember closes =>
    obtain rfl := hpass.head.2.eq_of_nil
    rw [List.append_nil]
    exact run_of_step (step_closeBrace (hpass.kind_eq.trans closes))
  | @shorthand t value ts us names word initial separates rest ih =>
    obtain ⟨-, same⟩ := List.forall_mem_cons.1 same
    have hpass : Passes c n ([t] ++ (value ++ us)) := hpass
    obtain ⟨m, hname, hbehind⟩ := hpass.split
    obtain ⟨l, hrun, hrest, same⟩ := run_bound .member value hbehind initial nofun separates same
    rw [entry, run_of_step (step_shorthand hname word (kind_behind hbehind initial separates rfl)),
      hrun]
    refine (ih hrest same frames _).trans ?_
    rw [List.append_assoc, List.singleton_append]
  | @renamed key pattern value ts us colon bound names isKey isColon target initial separates rest
      ihTarget ihRest =>
    obtain ⟨-, same⟩ := List.forall_mem_append.1 same
    obtain ⟨sameTarget, same⟩ := List.forall_mem_append.1 (List.forall_mem_cons.1 same).2
    obtain ⟨m, hkey, hbehind⟩ := hpass.split
    obtain ⟨k, htarget, hvalue⟩ := hbehind.head.2.split
    obtain ⟨l, hrun, hrest, same⟩ := run_bound .member value hvalue initial nofun separates same
    rw [entry, run_of_step (step_key hkey isKey (hbehind.kind_eq.trans isColon))]
    refine (ihTarget htarget sameTarget (.member :: frames) before).trans ?_
    rw [hrun, ← List.append_assoc]
    exact ihRest hrest same frames _
  | otherMembers isDots target separates rest ihTarget ihRest =>
    obtain ⟨sameTarget, same⟩ := List.forall_mem_append.1 (List.forall_mem_cons.1 same).2
    obtain ⟨k, htarget, hbehind⟩ := hpass.head.2.split
    obtain ⟨l, hrun, hrest, same⟩ :=
      run_bound .objectRest [] hbehind (.inl rfl) (fun _ => rfl) separates same
    rw [entry, run_of_step (step_otherMembers (hpass.kind_eq.trans isDots))]
    refine (ihTarget htarget sameTarget (.objectRest :: frames) before).trans ?_
    rw [hrun, ← List.append_assoc]
    exact ihRest hrest same frames _
  | noElement closes =>
    obtain rfl := hpass.head.2.eq_of_nil
    rw [List.append_nil]
    exact run_of_step (step_closeBracket (hpass.kind_eq.trans closes))
  | hole isComma rest ih =>
    obtain ⟨-, hrest⟩ := hpass.head
    rw [← ih hrest (List.forall_mem_cons.1 same).2]
    exact run_of_step (step_hole (hpass.kind_eq.trans isComma))
  | @element pattern value ts us bound names target initial separates rest ihTarget ihRest =>
    obtain ⟨sameTarget, same⟩ := List.forall_mem_append.1 same
    obtain ⟨k, htarget, hvalue⟩ := hpass.split
    obtain ⟨l, hrun, hrest, same⟩ := run_bound .element value hvalue initial nofun separates same
    rw [entry, run_of_step (step_element hpass target before)]
    refine (ihTarget htarget sameTarget (.element :: frames) before).trans ?_
    rw [hrun, ← List.append_assoc]
    exact ihRest hrest same frames _
  | otherElements isDots target separates rest ihTarget ihRest =>
    obtain ⟨sameTarget, same⟩ := List.forall_mem_append.1 (List.forall_mem_cons.1 same).2
    obtain ⟨k, htarget, hbehind⟩ := hpass.head.2.split
    obtain ⟨l, hrun, hrest, same⟩ :=
      run_bound .element [] hbehind (.inl rfl) (fun _ => rfl) separates same
    rw [entry, run_of_step (step_otherElements (hpass.kind_eq.trans isDots))]
    refine (ihTarget htarget sameTarget (.element :: frames) before).trans ?_
    rw [hrun, ← List.append_assoc]
    exact ihRest hrest same frames _

theorem run_of_done (names : List String) (c : Cursor) :
    run ⟨.bound, [], names, c⟩ = .ok (names, c) := by
  rw [run]
  rfl

end PatternState

namespace Cursor

variable {c n : Cursor} {ts : List Token} {names : List String} {line : Nat}

/-- A pattern binds the names at its leaves. -/
theorem Passes.bindingNames (h : Passes c n ts) (binds : Binds .whole ts names)
    (same : ∀ t ∈ ts, t.line = line) : c.bindingNames = .ok (names, n) :=
  (PatternState.run_of_binds binds h same [] []).trans (PatternState.run_of_done names n)

/-- How declarators are read, once the names of the first one are. -/
theorem declarators_eq (h : c.bindingNames = .ok (names, n)) :
    c.declarators =
      if n.skipDeclaratorRest.atMark .comma then
        n.skipDeclaratorRest.advance.declarators.map fun ((more, _), next) =>
          ((names ++ more, n.skipAnnotation.asyncInitializer), next)
      else .ok ((names, n.skipAnnotation.asyncInitializer), n.skipDeclaratorRest) := by
  rw [declarators]
  split <;> rename_i hnames <;> rw [h] at hnames <;> cases hnames
  rfl

/-- Behind its pattern, a declarator without a type ends with its initial value. -/
theorem Passes.skipDeclaratorRest (h : Passes c n ts) (initial : Initializes ts)
    (same : ∀ t ∈ ts, t.line = line) (hn : n.kind.EndsValue) : c.skipDeclaratorRest = n := by
  have hcolon : c.atMark .colon = false := by
    cases initial with
    | sign equals value => simp [atMark, h.kind_eq, equals]
  rw [Cursor.skipDeclaratorRest, skipAnnotation, hcolon]
  exact h.skipInitializer (.inr initial) same hn

/-- Declarators bind the names of all their patterns. -/
theorem Passes.declarators (declares : Declares ts names) (h : Passes c n ts)
    (same : ∀ t ∈ ts, t.line = line) (hn : n.kind = .mark .semicolon) :
    ∃ async, c.declarators = .ok ((names, async), n) := by
  induction declares generalizing c with
  | last target initial =>
    obtain ⟨sameTarget, same⟩ := List.forall_mem_append.1 same
    obtain ⟨m, htarget, hvalue⟩ := h.split
    have hrest := hvalue.skipDeclaratorRest initial same (.inr (.inl hn))
    refine ⟨m.skipAnnotation.asyncInitializer, ?_⟩
    rw [declarators_eq (htarget.bindingNames target sameTarget), hrest,
      if_neg (by simp [atMark, hn])]
  | more target initial isComma rest ih =>
    obtain ⟨sameTarget, same⟩ := List.forall_mem_append.1 same
    obtain ⟨sameValue, same⟩ := List.forall_mem_append.1 same
    obtain ⟨m, htarget, hbehind⟩ := h.split
    obtain ⟨k, hvalue, hothers⟩ := hbehind.split
    have hk : k.kind = .mark .comma := hothers.kind_eq.trans isComma
    have hrest := hvalue.skipDeclaratorRest initial sameValue (.inl hk)
    obtain ⟨async, hread⟩ := ih hothers.head.2 (List.forall_mem_cons.1 same).2
    refine ⟨m.skipAnnotation.asyncInitializer, ?_⟩
    rw [declarators_eq (htarget.bindingNames target sameTarget), hrest,
      if_pos (by simp [atMark, hk]), hread]
    rfl

/-- An export of constants is read to its semicolon. -/
theorem Passes.exportStatement (h : Passes c n ts) (declares : DeclaresConstants ts names)
    (same : ∀ t ∈ ts, t.line = line) (plain : ∀ t ∈ ts[2]?, t.kind ≠ .keyword .enumWord) :
    ∃ e, c.exportStatement = .ok (e, n) ∧ e.form.declared? = some .constBinding ∧
      e.names = names ∧ e.terminated = true := by
  obtain @⟨first, keyword, last, ts, names, exports, constant, declarators, ends⟩ := declares
  obtain ⟨hfirst, hbehind⟩ := h.head
  obtain ⟨m, hlist, hlast⟩ := hbehind.head.2.split
  obtain ⟨-, same⟩ := List.forall_mem_cons.1 same
  obtain ⟨sameList, -⟩ := List.forall_mem_append.1 (List.forall_mem_cons.1 same).2
  have hexport : c.expect (.keyword .exportWord) = .ok (first, c.advance) := by
    rw [expect, if_pos (h.kind_eq.trans exports), hfirst]
  have hkind : c.advance.kind = .keyword .constWord := hbehind.kind_eq.trans constant
  have hmodifiers : c.advance.modifiers = (⟨false, none⟩, c.advance) :=
    modifiers_eq (by simp [hkind])
  have henum : c.advance.atEnumeration = false := by
    obtain ⟨t, rest, ht⟩ := List.exists_cons_of_ne_nil (l := ts ++ [last]) (by simp)
    rw [ht] at hbehind plain
    simp [atEnumeration, atWord, hkind, followingKind_eq, hbehind.head.2.kind_eq,
      plain t rfl]
  obtain ⟨async, hread⟩ := hlist.declarators declarators sameList (hlast.kind_eq.trans ends)
  obtain rfl := hlast.head.2.eq_of_nil
  have hvariable : variableKind? c.advance.kind = some .constBinding := by
    rw [hkind]
    rfl
  have hform : c.advance.exportForm =
      .ok (.declaration .constBinding c.advance.current async names false, m) := by
    rw [exportForm_of_variable (by rw [hmodifiers, hvariable]; rfl), exportDeclaration,
      hmodifiers, declared_of_variable hvariable henum, hread]
    rfl
  have hending : m.exportEnding (.declaration .constBinding c.advance.current async names false) =
      (true, m.advance) := by
    simp [exportEnding, ExportForm.takesSemicolon, takeSemicolon, atMark, hlast.kind_eq, ends]
  have hread : c.exportStatement = .ok (⟨.declaration .constBinding c.advance.current async names
      false, true, ⟨first.start, m.advance.passedOffset⟩⟩, m.advance) := by
    refine bind_eq_ok.2 ⟨_, hexport, bind_eq_ok.2 ⟨_, hform, ?_⟩⟩
    simp only [hending]
  exact ⟨_, hread, rfl, rfl, rfl⟩

end Cursor

open Cursor (Passes ofStream atWord startsExport outlineFrom_of_surveys)

/-- On one line, exported constants are one statement that binds exactly the names at the leaves of
their patterns. A constant enumeration is none of constants, so that no name `enum` may follow
`const`. -/
theorem outline_of_declaresConstants {s : TokenStream} {names : List String} {line : Nat}
    (declares : DeclaresConstants s.tokens names) (same : ∀ t ∈ s.tokens, t.line = line)
    (plain : ∀ t ∈ s.tokens[2]?, t.kind ≠ .keyword .enumWord) :
    ∃ e, (Cursor.ofStream s).outlineFrom 0 = .ok ⟨[], [e]⟩ ∧
      (∀ text, tokenize text = .ok s → outline text = .ok ⟨[], [e]⟩) ∧
      e.form.declared? = some .constBinding ∧ e.names = names ∧ e.terminated = true := by
  have hpass : Passes (ofStream s) ⟨s.tokens.getLast?, [], s.finish⟩ s.tokens :=
    ⟨(List.append_nil _).symm, (Option.or_none).symm, rfl⟩
  obtain ⟨e, hread, hconst, hnames, hends⟩ := hpass.exportStatement declares same plain
  have hexport : (ofStream s).atWord .exportWord = true := by
    obtain ⟨⟨first, next⟩, hfirst, -⟩ := bind_eq_ok.1 hread
    obtain ⟨-, rfl, hkind⟩ := Cursor.passes_of_expect (by simp) hfirst
    rw [atWord, Cursor.kind, hkind, beq_self_eq_true]
  have hstarts : (ofStream s).startsExport = true := by
    rw [startsExport, hexport]
    rfl
  have hall : (ofStream s).outlineFrom 0 = .ok ⟨[], [e]⟩ :=
    outlineFrom_of_surveys (.statement (.exporting hstarts hread) (.done 0 _)) rfl
  refine ⟨e, hall, fun text hs => ?_, hconst, hnames, hends⟩
  rw [outline, hs]
  exact hall

/-- Defaults, keys of every sort, holes and the rest of an array and of an object, in one
declaration. -/
theorem outline_of_nested_constants :
    let text := "export const \x7ba = 1, 'k': [b, , ...c], [x]: d, ...e\x7d = f(1, 2), z = 3;".toList
    let names := ["a", "b", "c", "d", "e", "z"]
    ∃ s, tokenize text = .ok s ∧ DeclaresConstants s.tokens names ∧
      (∀ t ∈ s.tokens, t.line = 1) ∧ (∀ t ∈ s.tokens[2]?, t.kind ≠ .keyword .enumWord) ∧
      ∃ e, outline text = .ok ⟨[], [e]⟩ ∧ e.names = names ∧ e.terminated = true := by
  intro text names
  let kinds : List TokenKind := [.keyword .exportWord, .keyword .constWord, .mark .openBrace,
    .identifier, .mark .equals, .number, .mark .comma, .string, .mark .colon, .mark .openBracket,
    .identifier, .mark .comma, .mark .comma, .mark .ellipsis, .identifier, .mark .closeBracket,
    .mark .comma, .mark .openBracket, .identifier, .mark .closeBracket, .mark .colon, .identifier,
    .mark .comma, .mark .ellipsis, .identifier, .mark .closeBrace, .mark .equals, .identifier,
    .mark .openParen, .number, .mark .comma, .number, .mark .closeParen, .mark .comma,
    .identifier, .mark .equals, .number, .mark .semicolon]
  let s := (tokenize text).toOption.getD ⟨[], .start⟩
  obtain ⟨hs, hline⟩ : (tokenize text).toOption.isSome = true ∧ (∀ t ∈ s.tokens, t.line = 1) := by
    decide +kernel
  obtain ⟨t, hkinds, hnames, htokens⟩ : ∃ t : Nat → Token,
      (∀ k ∈ kinds.zipIdx, (t k.2).kind = k.1) ∧
      names = [3, 10, 14, 21, 24, 34].map (fun i => (t i).value) ∧
      s.tokens = (List.range 38).map t :=
    ⟨fun i => s.tokens[i]?.getD (Token.endOfInput s.finish), by decide +kernel⟩
  have h (i : Nat) {kind : TokenKind} (hi : kinds[i]? = some kind) : (t i).kind = kind :=
    hkinds (kind, i) (List.mk_mem_zipIdx_iff_getElem?.2 hi)
  have word (i : Nat) (hi : kinds[i]? = some .identifier) : (t i).kind.isName = true := by
    rw [h i hi]
    rfl
  have token {outside : TokenKind → Prop} {ts : List Token} (i : Nat) {kind : TokenKind}
      (hi : kinds[i]? = some kind) (allowed : outside kind) (opens : kind.isOpener = false)
      (closes : kind.isCloser = false) (rest : Matched outside ts) : Matched outside (t i :: ts) :=
    .token (h i hi ▸ allowed) (h i hi ▸ opens) (h i hi ▸ closes) rest
  have initial (i j : Nat) (hi : kinds[i]? = some (.mark .equals)) (hj : kinds[j]? = some .number) :
      Initializes [t i, t j] :=
    .sign (h i hi) ⟨List.cons_ne_nil _ _, token j hj (by simp [TokenKind.Joins]) rfl rfl .nil,
      by simp [h j hj]⟩
  have call : Initializes [t 26, t 27, t 28, t 29, t 30, t 31, t 32] := by
    have inside : Matched (fun _ => True) [t 29, t 30, t 31] :=
      token 29 rfl trivial rfl rfl
        (token 30 rfl trivial rfl rfl (token 31 rfl trivial rfl rfl .nil))
    have opens : (t 28).kind.isOpener = true := h 28 rfl ▸ rfl
    have closes : (t 32).kind.isCloser = true := h 32 rfl ▸ rfl
    refine .sign (h 26 rfl) ⟨List.cons_ne_nil _ _, ?_, ?_⟩
    · exact token 27 rfl (by simp [TokenKind.Joins]) rfl rfl (.group opens inside closes .nil)
    · simp [h 27 rfl, h 28 rfl, h 29 rfl, h 30 rfl, h 31 rfl, h 32 rfl]
  have elements : Binds .elements [t 10, t 11, t 12, t 13, t 14, t 15]
      [(t 10).value, (t 14).value] :=
    .element (.name (word 10 rfl)) (.inl rfl) (.comma (h 11 rfl)) (.hole (h 12 rfl)
      (.otherElements (h 13 rfl) (.name (word 14 rfl)) (.last (h 15 rfl) rfl)
        (.noElement (h 15 rfl))))
  have others : Binds .members [t 17, t 18, t 19, t 20, t 21, t 22, t 23, t 24, t 25]
      [(t 21).value, (t 24).value] :=
    .renamed (.computed (h 17 rfl) (token 18 rfl trivial rfl rfl .nil) (h 19 rfl)) (h 20 rfl)
      (.name (word 21 rfl)) (.inl rfl) (.comma (h 22 rfl)) (.otherMembers (h 23 rfl)
        (.name (word 24 rfl)) (.last (h 25 rfl) rfl) (.noMember (h 25 rfl)))
  have members : Binds .members ((List.range' 3 23).map t)
      [(t 3).value, (t 10).value, (t 14).value, (t 21).value, (t 24).value] :=
    .shorthand (word 3 rfl) (.inr (initial 4 5 rfl rfl)) (.comma (h 6 rfl))
      (.renamed (.string (h 7 rfl)) (h 8 rfl) (.array (h 9 rfl) elements) (.inl rfl)
        (.comma (h 16 rfl)) others)
  have declarators : Declares ((List.range' 2 35).map t)
      [(t 3).value, (t 10).value, (t 14).value, (t 21).value, (t 24).value, (t 34).value] :=
    .more (.object (h 2 rfl) members) call (h 33 rfl)
      (.last (.name (word 34 rfl)) (initial 35 36 rfl rfl))
  have declares : DeclaresConstants s.tokens names := by
    rw [htokens, hnames]
    exact .intro (h 0 rfl) (h 1 rfl) declarators (h 37 rfl)
  have plain : ∀ t ∈ s.tokens[2]?, t.kind ≠ .keyword .enumWord := by
    rw [htokens]
    rintro _ ⟨⟩
    simp [h 2 rfl]
  have hs := eq_ok_getD hs ⟨[], .start⟩
  obtain ⟨e, -, hall, -, hbound, hends⟩ := outline_of_declaresConstants declares hline plain
  exact ⟨s, hs, declares, hline, plain, e, hall text hs, hbound, hends⟩

/-- A name `enum` behind `const` is not bound: the two words are those of an enumeration. -/
theorem not_outline_of_constant_enum :
    let text := "export const enum = 1;".toList
    let sign : Token := ⟨.mark .equals, "=", "=", ⟨18, 1, 19⟩⟩
    ∃ s, tokenize text = .ok s ∧ DeclaresConstants s.tokens ["enum"] ∧
      (∀ t ∈ s.tokens, t.line = 1) ∧ outline text = .error ⟨.expectedName sign, sign.start⟩ := by
  intro text sign
  let s : TokenStream := ⟨[⟨.keyword .exportWord, "export", "export", ⟨0, 1, 1⟩⟩,
    ⟨.keyword .constWord, "const", "const", ⟨7, 1, 8⟩⟩,
    ⟨.keyword .enumWord, "enum", "enum", ⟨13, 1, 14⟩⟩, sign,
    ⟨.number, "1", "1", ⟨20, 1, 21⟩⟩, ⟨.mark .semicolon, ";", ";", ⟨21, 1, 22⟩⟩], ⟨22, 1, 23⟩⟩
  obtain ⟨hs, hline, hrefused⟩ : tokenize text = .ok s ∧ (∀ t ∈ s.tokens, t.line = 1) ∧
      outline text = .error ⟨.expectedName sign, sign.start⟩ := by
    decide +kernel
  have value : IsValue [⟨.number, "1", "1", ⟨20, 1, 21⟩⟩] :=
    ⟨List.cons_ne_nil _ _, .token (by simp [TokenKind.Joins]) rfl rfl .nil, by simp⟩
  have declares : DeclaresConstants s.tokens ["enum"] :=
    .intro rfl rfl (.last (.name rfl) (.sign rfl value)) rfl
  exact ⟨s, hs, declares, hline, hrefused⟩

end ComponentRegistry
