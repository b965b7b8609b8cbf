import ComponentRegistry.Proofs.Lexing.Nesting
import ComponentRegistry.Proofs.Seam.Basic

/-! # Passing over things in front of a seam

Expressions, types and groups that end in front of a seam end alike in both streams. One that ends
just at the seam does so because a line break ends it there, or because the one stream ends.
-/

namespace ComponentRegistry

/-- What is closed in the end stays closed when closing brackets too many are passed over. -/
theorem depthAfter_add_le {ts : List Token} {t : Token} {d : Nat} (hts : bracketDepth ts ≤ 0)
    (hd : d + bracketDepth (t :: ts) ≤ 0) : Reach.depthAfter d t + bracketDepth ts ≤ 0 := by
  simp only [bracketDepth] at hd hts ⊢
  rw [depthBy_cons, depthBy_singleton] at hd
  simp only [Reach.depthAfter]
  split
  · next hopen =>
    have hclose : t.kind.isCloser = false := by
      revert hopen
      cases t.kind <;> simp [TokenKind.isOpener, TokenKind.isCloser]
      next m => cases m <;> simp
    simp only [hopen, hclose, ↓reduceIte, Bool.false_eq_true] at hd
    omega
  · next hopen =>
    split
    · next hclose =>
      simp only [hopen, hclose, ↓reduceIte, Bool.false_eq_true] at hd
      omega
    · next hclose =>
      simp only [hopen, hclose, ↓reduceIte, Bool.false_eq_true] at hd
      omega

/-- Brackets that are all closed in the end leave no count behind. -/
theorem foldl_depthAfter_eq_zero {ts : List Token} {d : Nat}
    (hsuffix : ∀ us, us <:+ ts → bracketDepth us ≤ 0) (hd : d + bracketDepth ts ≤ 0) :
    ts.foldl Reach.depthAfter d = 0 := by
  induction ts generalizing d with
  | nil =>
    simp only [bracketDepth, depthBy_nil, Int.add_zero] at hd
    simp only [List.foldl_nil]
    omega
  | cons t ts ih =>
    have hlater : ∀ us, us <:+ ts → bracketDepth us ≤ 0 := fun us hus =>
      hsuffix us (hus.trans (List.suffix_cons t ts))
    exact ih hlater (depthAfter_add_le (hlater ts (List.suffix_refl ts)) hd)

namespace Seam

variable {S : Seam} {c c' n : Cursor}

/-- Where the other stream goes on after the end of the one, all brackets are closed in the end. -/
def Balanced (S : Seam) (c : Cursor) : Prop :=
  S.Extends → ∀ us, us <:+ c.ahead → bracketDepth us ≤ 0

theorem Balanced.reaches (h : S.Balanced c) (hn : Cursor.Reaches c n) : S.Balanced n :=
  fun hextends us hus => h hextends us (hus.trans hn.suffix)

section Tokens

variable {ts ts' : List Token} {p p' : Option Token} {f f' : Position} {t t' : Token}

theorem opensTypeArguments_eq (hp : Option.Rel S.Same p p') (ht : S.Same t t') :
    Reach.opensTypeArguments p' t' = Reach.opensTypeArguments p t := by
  cases hp with
  | none => rfl
  | some hsame =>
    simp only [Reach.opensTypeArguments, Token.stop, hsame.kind, hsame.lexeme]
    congr 1
    rw [Bool.eq_iff_iff, beq_iff_eq, beq_iff_eq]
    exact (S.offset_eq _ hsame.start ht.start).symm

theorem endsStatement_eq (hp : Option.Rel S.Same p p') (ht : S.Same t t') :
    Reach.endsStatement p' t' = Reach.endsStatement p t := by
  cases hp with
  | none => rfl
  | some hsame =>
    have hline := hsame.line_lt ht
    simp only [Reach.endsStatement, hsame.kind, ht.kind, ht.value, hline]

theorem anglesAfter_eq {angles : Nat} (hp : Option.Rel S.Same p p') (ht : S.Same t t') :
    Reach.anglesAfter angles p' t' = Reach.anglesAfter angles p t := by
  simp only [Reach.anglesAfter, opensTypeArguments_eq hp ht, ht.kind]

theorem depthAfter_eq {d : Nat} (ht : S.Same t t') :
    Reach.depthAfter d t' = Reach.depthAfter d t := by
  simp only [Reach.depthAfter, ht.kind]

theorem typeDepthAfter_eq {d : Int} (ht : S.Same t t') :
    Reach.typeDepthAfter d t' = Reach.typeDepthAfter d t := by
  simp only [Reach.typeDepthAfter, ht.kind]

theorem stopsExpression_eq {angles : Nat} (hp : Option.Rel S.Same p p') (ht : S.Same t t') :
    Reach.stopsExpression angles p' t' = Reach.stopsExpression angles p t := by
  simp only [Reach.stopsExpression, ht.kind, endsStatement_eq hp ht]

theorem stopsType_eq (hp : Option.Rel S.Same p p') (ht : S.Same t t') :
    Reach.stopsType p' t' = Reach.stopsType p t := by
  simp only [Reach.stopsType, ht.kind, endsStatement_eq hp ht]

/-- Of what stops an expression, only a line break can do so before a statement. -/
theorem endsStatement_of_stopsExpression [S.AtStatement] {angles : Nat} (hold : t ∈ S.old.head?)
    (h : Reach.stopsExpression angles p t = true) : Reach.endsStatement p t = true := by
  rcases AtStatement.begins t hold with hk | hk <;>
    simpa [Reach.stopsExpression, hk, TokenKind.isCloser] using h

theorem endsStatement_of_stopsType [S.AtStatement] (hold : t ∈ S.old.head?)
    (h : Reach.stopsType p t = true) : Reach.endsStatement p t = true := by
  rcases AtStatement.begins t hold with hk | hk <;>
    simpa [Reach.stopsType, hk, TokenKind.isCloser] using h

theorem Tied.groupFrom {d : Nat} (h : S.Tied ts ts')
    (hlt : S.old.length < (Reach.groupFrom f d p ts).remaining) :
    S.Matches (Reach.groupFrom f d p ts) (Reach.groupFrom f' d p' ts') := by
  induction h generalizing p p' d with
  | seam =>
    have := Reach.remaining_groupFrom_le f d p S.old
    omega
  | @cons t t' ts ts' first others ih =>
    simp only [Reach.groupFrom] at hlt ⊢
    rw [first.kind]
    split
    · exact ⟨.some first, others⟩
    · next hcloser =>
      rw [if_neg hcloser] at hlt
      rw [depthAfter_eq first]
      exact ih hlt

end Tokens

/-- A search for the end of a stretch of tokens: what it keeps count of, and where it stops. -/
structure Search (σ : Type) where
  /-- Whether no bracket is open. -/
  closed : σ → Bool
  /-- Whether a token outside of all brackets is not part of the stretch. -/
  stops : σ → Option Token → Token → Bool
  /-- The count after one more token. -/
  next : σ → Option Token → Token → σ

namespace Search

variable {σ : Type}

/-- The place where a search stops. -/
def stop (m : Search σ) (finish : Position) (x : σ) (p : Option Token) : List Token → Cursor
  | [] => ⟨p, [], finish⟩
  | t :: rest =>
    if m.closed x && m.stops x p t then ⟨p, t :: rest, finish⟩
    else m.stop finish (m.next x p t) (some t) rest

/-- The count after all of the tokens. -/
def count (m : Search σ) (x : σ) (p : Option Token) : List Token → σ
  | [] => x
  | t :: rest => m.count (m.next x p t) (some t) rest

theorem remaining_stop_le (m : Search σ) (f : Position) (x : σ) (p : Option Token)
    (ts : List Token) : (m.stop f x p ts).remaining ≤ ts.length := by
  induction ts generalizing x p with
  | nil => exact Nat.le_refl _
  | cons t rest ih =>
    simp only [stop]
    split
    · exact Nat.le_refl _
    · exact Nat.le_succ_of_le (ih ..)

/-- A search that goes by what tokens say and how they stand to each other. -/
structure Agrees (m : Search σ) (S : Seam) : Prop where
  stops_eq : ∀ {x p p' t t'}, Option.Rel S.Same p p' → S.Same t t' →
    m.stops x p' t' = m.stops x p t
  next_eq : ∀ {x p p' t t'}, Option.Rel S.Same p p' → S.Same t t' → m.next x p' t' = m.next x p t

/-- A search that a seam does not disturb: a line break stops it, and nothing else before the
statement after the seam does. -/
structure Fair (m : Search σ) (S : Seam) : Prop extends m.Agrees S where
  breaks : ∀ {x p t}, Reach.endsStatement p t = true → m.stops x p t = true
  begins : ∀ {x p t}, t ∈ S.old.head? → m.stops x p t = true → Reach.endsStatement p t = true
  semicolon : ∀ {x p t}, t.kind = .mark .semicolon →
    m.stops x p t = true ∧ m.closed (m.next x p t) = m.closed x

end Search

section Search

variable {σ : Type} {m : Search σ} {x : σ} {ts ts' : List Token} {p p' : Option Token}
  {f f' : Position}

/-- A search that ends at the seam does so because the one stream ends, or because a line break
stops it there. -/
theorem Search.Fair.stop_old (hm : m.Fair S) (hle : S.old.length ≤ (m.stop f x p S.old).remaining) :
    m.stop f x p S.old = ⟨p, S.old, f⟩ ∧
      ∀ t ∈ S.old.head?, m.closed x = true ∧ Reach.endsStatement p t = true := by
  have hbegins : ∀ t ∈ S.old.head?, m.stops x p t = true → Reach.endsStatement p t = true :=
    fun _ => hm.begins
  cases hold : S.old with
  | nil => simp [Search.stop]
  | cons t rest =>
    rw [hold] at hle hbegins
    simp only [Search.stop] at hle ⊢
    split
    · next hstops =>
      rw [Bool.and_eq_true] at hstops
      refine ⟨rfl, fun u hu => ?_⟩
      obtain rfl : t = u := by simpa using hu
      exact ⟨hstops.1, hbegins t hu hstops.2⟩
    · next hstops =>
      rw [if_neg hstops] at hle
      have := m.remaining_stop_le f (m.next x p t) (some t) rest
      simp only [List.length_cons] at hle
      omega

/-- A search that ends in front of a seam ends alike in both streams. -/
theorem Tied.search_of_lt (h : S.Tied ts ts') (hm : m.Agrees S) (hp : Option.Rel S.Same p p')
    (hlt : S.old.length < (m.stop f x p ts).remaining) :
    S.Matches (m.stop f x p ts) (m.stop f' x p' ts') := by
  induction h generalizing p p' x with
  | seam =>
    have := m.remaining_stop_le f x p S.old
    omega
  | @cons t t' ts ts' first others ih =>
    simp only [Search.stop] at hlt ⊢
    rw [hm.stops_eq hp first, hm.next_eq hp first]
    split
    · exact ⟨hp, .cons first others⟩
    · next hstops =>
      rw [if_neg hstops] at hlt
      exact ih (.some first) hlt

/-- A search that ends in front of a seam, or just at it, ends alike in both streams. -/
theorem Tied.search (h : S.Tied ts ts') (hm : m.Fair S) (hp : Option.Rel S.Same p p')
    (hle : S.old.length ≤ (m.stop f x p ts).remaining)
    (hcarries : (m.stop f x p ts).remaining = S.old.length →
      S.Carries (m.stop f x p ts).previous)
    (hsemicolon : (m.stop f x p ts).remaining = S.old.length →
      ∀ t ∈ p, t.kind = .mark .semicolon → m.closed x = false)
    (hclosed : S.Extends → (m.stop f x p ts).ahead = [] → m.closed (m.count x p ts) = true) :
    S.Matches (m.stop f x p ts) (m.stop f' x p' ts') := by
  induction h generalizing p p' x with
  | seam =>
    obtain ⟨hsame, hends⟩ := hm.stop_old hle
    rw [hsame] at hcarries hsemicolon hclosed ⊢
    have hnew : m.stop f' x p' S.new = ⟨p', S.new, f'⟩ := by
      cases hnew : S.new with
      | nil => rfl
      | cons t rest =>
        have hx : m.closed x = true := by
          cases hold : S.old with
          | nil =>
            have := hclosed ⟨hold, by simp [hnew]⟩ hold
            rwa [hold] at this
          | cons u us => exact (hends u (by simp [hold])).1
        have hplain : ∀ t ∈ p, t.kind ≠ .mark .semicolon := by
          intro u hu hkind
          simp [hsemicolon rfl u hu hkind] at hx
        have hends' : Reach.endsStatement p' t = true :=
          hcarries rfl (fun u hu => (hends u hu).2) hplain p' hp t (by simp [hnew])
        rw [Search.stop, hx, hm.breaks hends']
        rfl
    rw [hnew]
    exact ⟨hp, .seam⟩
  | @cons t t' ts ts' first others ih =>
    simp only [Search.stop, Search.count] at hle hcarries hsemicolon hclosed ⊢
    rw [hm.stops_eq hp first, hm.next_eq hp first]
    split
    · exact ⟨hp, .cons first others⟩
    · next hstops =>
      rw [if_neg hstops] at hle hcarries hsemicolon hclosed
      refine ih (.some first) hle hcarries (fun heq u hu hkind => ?_) hclosed
      obtain rfl : t = u := by simpa using hu
      -- The search passes a semicolon inside of brackets only.
      obtain ⟨hstop, hcount⟩ := hm.semicolon (x := x) (p := p) hkind
      rw [hcount]
      simpa [hstop] using hstops

end Search

/-- The search for the end of an expression. -/
def expressionSearch : Search (Nat × Nat) where
  closed x := x.1 == 0
  stops x p t := Reach.stopsExpression (Reach.anglesAfter x.2 p t) p t
  next x p t := (Reach.depthAfter x.1 t, Reach.anglesAfter x.2 p t)

/-- The search for the end of a type. -/
def typeSearch : Search Int where
  closed x := x == 0
  stops _ p t := Reach.stopsType p t
  next x _ t := Reach.typeDepthAfter x t

theorem expressionFrom_eq (f : Position) (d angles : Nat) (p : Option Token) (ts : List Token) :
    Reach.expressionFrom f d angles p ts = expressionSearch.stop f (d, angles) p ts := by
  induction ts generalizing d angles p with
  | nil => rfl
  | cons t rest ih => simp [Reach.expressionFrom, Search.stop, expressionSearch, ih]

theorem typeFrom_eq (f : Position) (d : Int) (p : Option Token) (ts : List Token) :
    Reach.typeFrom f d p ts = typeSearch.stop f d p ts := by
  induction ts generalizing d p with
  | nil => rfl
  | cons t rest ih => simp [Reach.typeFrom, Search.stop, typeSearch, ih]

theorem count_expressionSearch (x : Nat × Nat) (p : Option Token) (ts : List Token) :
    (expressionSearch.count x p ts).1 = ts.foldl Reach.depthAfter x.1 := by
  induction ts generalizing x p with
  | nil => rfl
  | cons t rest ih => exact ih ..

theorem count_typeSearch (x : Int) (p : Option Token) (ts : List Token) :
    typeSearch.count x p ts = ts.foldl Reach.typeDepthAfter x := by
  induction ts generalizing x p with
  | nil => rfl
  | cons t rest ih => exact ih ..

theorem agrees_expressionSearch (S : Seam) : expressionSearch.Agrees S where
  stops_eq hp ht := by simp only [expressionSearch, stopsExpression_eq hp ht, anglesAfter_eq hp ht]
  next_eq hp ht := by simp only [expressionSearch, depthAfter_eq ht, anglesAfter_eq hp ht]

theorem fair_expressionSearch (S : Seam) [S.AtStatement] : expressionSearch.Fair S where
  toAgrees := agrees_expressionSearch S
  breaks h := by simp [expressionSearch, Reach.stopsExpression, h]
  begins hold h := endsStatement_of_stopsExpression hold h
  semicolon h := by
    simp [expressionSearch, Reach.stopsExpression, Reach.depthAfter, h, TokenKind.isOpener,
      TokenKind.isCloser]

theorem agrees_typeSearch (S : Seam) : typeSearch.Agrees S where
  stops_eq hp ht := stopsType_eq hp ht
  next_eq _ ht := typeDepthAfter_eq ht

theorem fair_typeSearch (S : Seam) [S.AtStatement] : typeSearch.Fair S where
  toAgrees := agrees_typeSearch S
  breaks h := by simp [typeSearch, Reach.stopsType, h]
  begins hold h := endsStatement_of_stopsType hold h
  semicolon h := by
    simp [typeSearch, Reach.stopsType, Reach.typeDepthAfter, h, TokenKind.isOpener,
      TokenKind.isCloser]

theorem previous_advance (hc : c.kind ≠ .endOfInput) : c.advance.previous = some c.current := by
  simp [(Cursor.passes_advance hc).previous]

theorem not_semicolon_of_atMark {m : Mark} (hmark : c.atMark m = true) (hm : m ≠ .semicolon) :
    ∀ t ∈ c.advance.previous, t.kind ≠ .mark .semicolon := by
  have hkind : c.current.kind = .mark m := Cursor.kind_of_atMark hmark
  rw [previous_advance (by simp [Cursor.kind, hkind])]
  simp [hkind, hm]

theorem Matches.skipGroup (h : S.Matches c c') (hlt : S.old.length < c.skipGroup.remaining) :
    S.Matches c.skipGroup c'.skipGroup := h.ahead.groupFrom hlt

theorem Matches.skipExpression [S.AtStatement] (h : S.Matches c c')
    (hle : S.old.length ≤ c.skipExpression.remaining)
    (hcarries : c.skipExpression.remaining = S.old.length → S.Carries c.skipExpression.previous)
    (hstart : ∀ t ∈ c.previous, t.kind ≠ .mark .semicolon) (hbalanced : S.Balanced c) :
    S.Matches c.skipExpression c'.skipExpression := by
  simp only [Cursor.skipExpression, expressionFrom_eq] at hle hcarries ⊢
  refine h.ahead.search (fair_expressionSearch S) h.previous hle hcarries
    (fun _ t ht hkind => absurd hkind (hstart t ht)) fun hextends _ => ?_
  have hsuffix := hbalanced hextends
  have hzero := foldl_depthAfter_eq_zero (d := 0) hsuffix (by simpa using hsuffix _ (List.suffix_refl _))
  show ((expressionSearch.count (0, 0) c.previous c.ahead).1 == 0) = true
  rw [count_expressionSearch, hzero]
  rfl

/-- An expression that ends in front of the seam. -/
theorem Matches.skipExpression_of_lt (h : S.Matches c c')
    (hlt : S.old.length < c.skipExpression.remaining) :
    S.Matches c.skipExpression c'.skipExpression := by
  simp only [Cursor.skipExpression, expressionFrom_eq] at hlt ⊢
  exact h.ahead.search_of_lt (agrees_expressionSearch S) h.previous hlt

/-- A type that ends in front of the seam. -/
theorem Matches.skipType_of_lt (h : S.Matches c c') (hlt : S.old.length < c.skipType.remaining) :
    S.Matches c.skipType c'.skipType := by
  simp only [Cursor.skipType, typeFrom_eq] at hlt ⊢
  exact h.ahead.search_of_lt (agrees_typeSearch S) h.previous hlt

theorem Matches.skipType [S.AtStatement] (h : S.Matches c c')
    (hle : S.old.length ≤ c.skipType.remaining)
    (hcarries : c.skipType.remaining = S.old.length → S.Carries c.skipType.previous)
    (hstart : ∀ t ∈ c.previous, t.kind ≠ .mark .semicolon)
    (hclosed : S.Extends → c.skipType.ahead = [] → c.ahead.foldl Reach.typeDepthAfter 0 = 0) :
    S.Matches c.skipType c'.skipType := by
  simp only [Cursor.skipType, typeFrom_eq] at hle hcarries hclosed ⊢
  refine h.ahead.search (fair_typeSearch S) h.previous hle hcarries
    (fun _ t ht hkind => absurd hkind (hstart t ht)) fun hextends hend => ?_
  rw [count_typeSearch, hclosed hextends hend]
  rfl

end Seam

end ComponentRegistry
