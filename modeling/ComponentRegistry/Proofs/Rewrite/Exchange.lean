import Mathlib.Data.List.TakeWhile
import Mathlib.Order.Basic
import ComponentRegistry.Proofs.Lexing.Exchange
import ComponentRegistry.Proofs.Rewrite.Rendering
import ComponentRegistry.Proofs.Seam.Shifting
import ComponentRegistry.Proofs.Syntax.Ending
import ComponentRegistry.Proofs.Syntax.TopLevel

/-! # Exchanging an import

An import on lines of its own can be exchanged for the same import with other entries, or for
nothing. All other statements of the module stay as they are.
-/

namespace ComponentRegistry

open Lexer

/-- A token that goes on with no statement before it, and reads the same after every token. -/
def Token.Afresh (t : Token) : Prop :=
  t.kind ∉ ([.mark .semicolon, .mark .dot, .mark .openBrace, .mark .openParen, .mark .arrow,
    .mark .slash, .regex] : List TokenKind) ∧ t.value ∉ ["with", "assert", "#"]

instance (t : Token) : Decidable t.Afresh := inferInstanceAs (Decidable (_ ∧ _))

namespace Seam

/-- The seam in front of a stretch that is exchanged. -/
def inFront (old new : List Token) : Seam where
  placed p p' := p' = p.shift []
  line_lt := line_lt_of_shift
  offset_eq := offset_eq_of_shift
  old := old
  new := new

/-- Two places are as far behind two others. -/
def Behind (here here' p p' : Position) : Prop :=
  p'.offset + here.offset = p.offset + here'.offset ∧ p'.line + here.line = p.line + here'.line

theorem Behind.line_lt {here here' p p' q q' : Position} (hp : Behind here here' p p')
    (hq : Behind here here' q q') : p.line < q.line ↔ p'.line < q'.line := by
  obtain ⟨-, hp⟩ := hp
  obtain ⟨-, hq⟩ := hq
  omega

theorem Behind.offset_eq {here here' p p' q q' : Position} (n : Nat) (hp : Behind here here' p p')
    (hq : Behind here here' q q') : p.offset + n = q.offset ↔ p'.offset + n = q'.offset := by
  obtain ⟨hp, -⟩ := hp
  obtain ⟨hq, -⟩ := hq
  omega

/-- The seam at the end of a text, with places that are told from behind an exchanged stretch. -/
def atBack (here here' : Position) : Seam where
  placed := Behind here here'
  line_lt := Behind.line_lt
  offset_eq := Behind.offset_eq
  old := []
  new := []

instance (here here' : Position) : (atBack here here').AtStatement :=
  atStatement_of_nil rfl (by simp [atBack])

theorem behind_of_moved {here here' : Position} {t t' : Token} (h : Moved here here' t t') :
    Behind here here' t.start t'.start := by
  obtain ⟨passed, hstart, rfl⟩ := h
  simp only [Behind, hstart, Position.offset_advance, Position.line_advance]
  omega

theorem same_of_moved {here here' : Position} {t t' : Token} (h : Moved here here' t t')
    (hvalue : t.kind = .mark .semicolon → t.value = ";") : (atBack here here').Same t t' := by
  have hstart := behind_of_moved h
  obtain ⟨passed, -, rfl⟩ := h
  exact ⟨rfl, rfl, rfl, hvalue, hstart⟩

theorem tied_atBack {here here' : Position} {ts ts' : List Token}
    (h : List.Forall₂ (Moved here here') ts ts')
    (hvalue : ∀ t ∈ ts, t.kind = .mark .semicolon → t.value = ";") :
    (atBack here here').Tied ts ts' := by
  induction h with
  | nil => exact .seam
  | cons first others ih =>
    exact .cons (same_of_moved first (hvalue _ List.mem_cons_self))
      (ih fun u hu => hvalue u (List.mem_cons_of_mem _ hu))

/-- The last tokens go together where all do. -/
theorem last_of_moved {here here' : Position} {ts ts' : List Token}
    (h : List.Forall₂ (Moved here here') ts ts')
    (hvalue : ∀ t ∈ ts, t.kind = .mark .semicolon → t.value = ";") :
    Option.Rel (atBack here here').Same ts.getLast? ts'.getLast? := by
  have hreverse := List.forall₂_reverse_iff.2 h
  rw [← List.head?_reverse, ← List.head?_reverse]
  generalize ts'.reverse = us' at hreverse ⊢
  cases hts : ts.reverse with
  | nil =>
    rw [hts] at hreverse
    cases hreverse
    exact .none
  | cons t rest =>
    rw [hts] at hreverse
    have hmem : t ∈ ts := List.mem_reverse.1 (by simp [hts])
    cases hreverse with
    | cons first _ => exact .some (same_of_moved first (hvalue t hmem))

/-- In front of an exchanged stretch, imports may end anywhere. Exports end with a semicolon or leave
some more tokens before it. -/
theorem meets_inFront {S : Seam} {c n : Cursor} {found : Outline} (hold : S.old ≠ [])
    (hcloses : S.Closes)
    (hexports : ∀ e ∈ found.exports, e.terminated = false → S.old.length + 2 ≤ n.remaining)
    (hname : n.remaining = S.old.length + 1 → n.atName = true →
      ∀ t ∈ S.old.head?, n.current.line < t.line) : S.Meets c found n := by
  have hconcluded : ∀ e ∈ found.exports, S.Concluded e n := by
    intro e he
    refine ⟨fun hopen hle => ?_, fun hopen heq => ?_, hname, fun _ hopen heq _ => ?_⟩
    · have := hexports e he hopen
      omega
    · have := hexports e he hopen
      omega
    · have := hexports e he hopen
      omega
  exact ⟨fun _ _ _ => hcloses, hconcluded, fun hextends => absurd hextends.1 hold⟩

end Seam

namespace ImportStatement

variable {i : ImportStatement} {bindings : List Token} {entries : List Specifier} {c n : Cursor}

/-- An import that is written where a statement may begin is found there. -/
theorem surveys_of_words (h : BindingSpelling i.typeOnly bindings entries)
    (hc : Cursor.Spells c (i.words bindings) n) (hstart : c.atStatementStart = true)
    (hword : n.current.value ≠ "with" ∧ n.current.value ≠ "assert")
    (hend : i.terminated = false → n.kind ≠ .mark .semicolon) :
    ∃ x, Cursor.Surveys 0 c ⟨[x], []⟩ 0 n ∧ c.importStatement = .ok (some x, n) ∧
      x.source = i.source ∧ x.typeOnly = i.typeOnly ∧ x.specifiers = entries ∧
        x.terminated = i.terminated := by
  have hreads := importStatement_of_words h hc hword hend
  have himport : c.atWord .importWord = true := by
    rw [hc.atWord]
    decide
  have hnext := hc.cons.2.2
  have hkind : c.advance.kind ≠ .mark .openParen ∧ c.advance.kind ≠ .mark .dot := by
    cases htype : i.typeOnly with
    | true =>
      rw [htype] at hnext
      rw [hnext.kind]
      decide
    | false =>
      rw [htype] at hnext
      rcases h.kind_of_spells hnext with hk | hk | hk
      · simp [hk]
      · simp [hk]
      · constructor <;> intro hk' <;> simp [hk', TokenKind.isName] at hk
  have hstarts : c.startsImport = true := by
    rw [Cursor.startsImport, hstart, himport, Cursor.followingKind_eq, bne_iff_ne.2 hkind.1,
      bne_iff_ne.2 hkind.2]
    rfl
  exact ⟨_, .statement (.importing hstarts hreads) (.done 0 n), hreads, rfl, rfl, rfl, rfl⟩

/-- What can be put in the place of an import that is to keep certain entries: nothing where there
are none, and otherwise the import written anew. -/
inductive Puts (i : ImportStatement) : List Specifier → List Char → List Token → Prop where
  | nothing : Puts i [] [] []
  | anew {specifiers : List Specifier} {bindings : List Token} (some : specifiers ≠ [])
      (quotation : Quotation i.source.path i.source.written)
      (reading : Says (i.render specifiers) (i.words bindings))
      (spelled : BindingSpelling i.typeOnly bindings
        (outerEntries specifiers ++ innerEntries specifiers)) :
      Puts i specifiers (i.render specifiers) (i.words bindings)

namespace Puts

variable {specifiers : List Specifier} {y : List Char} {words : List Token}

theorem reading (h : i.Puts specifiers y words) : Says y words := by
  cases h with
  | nothing => exact says_nil
  | anew _ _ reading _ => exact reading

theorem apart (h : i.Puts specifiers y words) (back : List Char) : Apart y back := by
  cases h with
  | nothing =>
    intro c hc
    cases hc
  | anew _ quotation _ _ => exact apart_render quotation specifiers back

theorem head_ne (h : i.Puts specifiers y words) : ∀ c ∈ y.head?, c ≠ '#' := by
  intro c hc
  cases h with
  | nothing => cases hc
  | anew =>
    obtain rfl : 'i' = c := by
      unfold render at hc
      split at hc <;> simpa using hc
    decide

end Puts

end ImportStatement

/-- An import that lists certain entries in some order, from the same module as another one. -/
structure ImportStatement.Lists (i : ImportStatement) (specifiers : List Specifier)
    (x : ImportStatement) : Prop where
  source : x.source = i.source
  typeOnly : x.typeOnly = i.typeOnly
  specifiers : x.specifiers.Perm specifiers

/-- The same import elsewhere. -/
structure ImportStatement.Alike (i x : ImportStatement) : Prop where
  source : x.source = i.source
  typeOnly : x.typeOnly = i.typeOnly
  specifiers : x.specifiers = i.specifiers

theorem ImportStatement.Alike.refl (i : ImportStatement) : i.Alike i := ⟨rfl, rfl, rfl⟩

theorem ImportStatement.Alike.trans {i x y : ImportStatement} (h : i.Alike x) (h' : x.Alike y) :
    i.Alike y :=
  ⟨h'.source.trans h.source, h'.typeOnly.trans h.typeOnly, h'.specifiers.trans h.specifiers⟩

/-- The same export elsewhere. -/
structure ExportStatement.Alike (e x : ExportStatement) : Prop where
  kindName : x.form.kindName = e.form.kindName
  names : x.names = e.names
  defaultExportName : x.defaultExportName = e.defaultExportName

theorem ExportStatement.Alike.refl (e : ExportStatement) : e.Alike e := ⟨rfl, rfl, rfl⟩

theorem ExportStatement.Alike.trans {e x y : ExportStatement} (h : e.Alike x) (h' : x.Alike y) :
    e.Alike y :=
  ⟨h'.kindName.trans h.kindName, h'.names.trans h.names,
    h'.defaultExportName.trans h.defaultExportName⟩

namespace Seam

variable {S : Seam}

theorem SameImport.alike {i x : ImportStatement} (h : S.SameImport i x) : i.Alike x :=
  ⟨h.source, h.typeOnly, h.specifiers⟩

theorem SameExport.alike {e x : ExportStatement} (h : S.SameExport e x) : e.Alike x := by
  obtain ⟨form, terminated, span⟩ := e
  obtain ⟨form', terminated', span'⟩ := x
  obtain ⟨hform, -, -⟩ := h
  cases hform <;> exact ⟨rfl, rfl, rfl⟩

/-- The same tokens in front of a seam. -/
theorem tied_append {ts : List Token} (h : ∀ t ∈ ts, S.Same t t) :
    S.Tied (ts ++ S.old) (ts ++ S.new) := by
  induction ts with
  | nil => exact .seam
  | cons t ts ih =>
    exact .cons (h t List.mem_cons_self) (ih fun u hu => h u (List.mem_cons_of_mem t hu))

end Seam

/-- Whether a token lies inside of a stretch of a text. -/
def Token.Inside (x : Span) (t : Token) : Prop := x.start.offset ≤ t.start.offset ∧ t.stop ≤ x.stop

instance (x : Span) (t : Token) : Decidable (t.Inside x) := inferInstanceAs (Decidable (_ ∧ _))

namespace TokenStream

/-- The tokens from an offset on. -/
def onward (s : TokenStream) (offset : Nat) : List Token :=
  s.tokens.dropWhile fun t => t.start.offset < offset

variable {s : TokenStream} {front gap back : List Token} {offset : Nat}

theorem before_append (hs : s.tokens = front ++ back)
    (hback : ∀ t ∈ back.head?, offset ≤ t.start.offset) :
    s.before offset = front.takeWhile fun t => t.start.offset < offset := by
  have hstop : back.takeWhile (fun t => decide (t.start.offset < offset)) = [] := by
    cases back with
    | nil => rfl
    | cons t back =>
      have hle := hback t rfl
      rw [List.takeWhile_cons_of_neg]
      simpa using hle
  rw [before, hs, List.takeWhile_append, hstop]
  split
  · next hall =>
    rw [List.append_nil]
    exact ((List.takeWhile_prefix _).eq_of_length hall).symm
  · rfl

theorem onward_append (hs : s.tokens = front ++ back)
    (hback : ∀ t ∈ back.head?, offset ≤ t.start.offset) :
    s.onward offset = front.dropWhile (fun t => t.start.offset < offset) ++ back := by
  have hstay : back.dropWhile (fun t => decide (t.start.offset < offset)) = back := by
    cases back with
    | nil => rfl
    | cons t back =>
      have hle := hback t rfl
      rw [List.dropWhile_cons_of_neg]
      simpa using hle
  rw [onward, hs, List.dropWhile_append, hstay]
  split
  · next hnil => rw [List.isEmpty_iff.1 hnil, List.nil_append]
  · rfl

theorem within_append {x : Span} (hs : s.tokens = front ++ back)
    (hback : ∀ t ∈ back, x.stop ≤ t.start.offset) :
    s.within x = front.filter fun t => x.start.offset ≤ t.start.offset && t.start.offset < x.stop := by
  have hnone : back.filter
      (fun t => x.start.offset ≤ t.start.offset && decide (t.start.offset < x.stop)) = [] := by
    apply List.filter_eq_nil_iff.2
    intro t ht
    have hle := hback t ht
    simp
    omega
  rw [within, hs, List.filter_append, hnone, List.append_nil]

/-- The tokens from the end of a token on are those behind it. -/
theorem Ordered.onward_eq {t : Token} (h : s.Ordered) (hs : s.tokens = front ++ t :: back) :
    s.onward t.stop = back := by
  have hlong := h.nonempty t (by simp [hs])
  have hcut : s.tokens = (front ++ [t]) ++ back := by simp [hs]
  have hnone : (front ++ [t]).dropWhile (fun u => decide (u.start.offset < t.stop)) = [] := by
    apply List.dropWhile_eq_nil_iff.2
    intro u hu
    rcases List.mem_append.1 hu with hu | hu
    · have := h.start_lt hs hu
      simp
      omega
    · rw [List.mem_singleton.1 hu]
      simpa using hlong
  rw [onward_append hcut fun u hu => ?_, hnone, List.nil_append]
  exact (List.pairwise_append.1 (hcut ▸ h.apart)).2.2 t (by simp) u (List.mem_of_mem_head? hu)

/-- What begins behind a token, of the tokens up to some place, stands between the two. -/
theorem Ordered.countP_le {w : Token} (h : s.Ordered) (hs : s.tokens = front ++ gap ++ back)
    (hw : front.getLast? = some w) :
    (front ++ gap).countP (fun t => w.stop ≤ t.start.offset) ≤ gap.length := by
  obtain ⟨init, rfl⟩ := List.getLast?_eq_some_iff.1 hw
  have hcut : s.tokens = init ++ w :: (gap ++ back) := by rw [hs]; simp
  have hlong := h.nonempty w (by simp [hcut])
  have hnone : (init ++ [w]).countP (fun t => decide (w.stop ≤ t.start.offset)) = 0 := by
    apply List.countP_eq_zero.2
    intro t ht
    rcases List.mem_append.1 ht with ht | ht
    · have := h.start_lt hcut ht
      simp
      omega
    · rw [List.mem_singleton.1 ht]
      simpa using hlong
  rw [List.countP_append, hnone, Nat.zero_add]
  exact List.countP_le_length

variable {rest : List Token} {c n : Cursor} {t : Token}

/-- What a reader passes over lies inside of the stretch it takes up. -/
theorem Ordered.inside_of_passes (hs : s.Ordered) (hplace : Cursor.PlaceIn s front c)
    (hpass : Cursor.Passes c n (c.current :: rest)) (ht : t ∈ c.current :: rest) :
    t.Inside ⟨c.current.start, n.passedOffset⟩ := by
  obtain ⟨u, hu⟩ : ∃ u, (c.current :: rest).getLast? = some u :=
    ⟨_, List.getLast?_eq_some_getLast (List.cons_ne_nil _ _)⟩
  have hstop : n.passedOffset = u.stop := by
    simp [Cursor.passedOffset, hpass.previous, hu]
  have hcut : s.tokens = front ++ c.current :: (rest ++ n.ahead) := by
    rw [hplace.tokens, hpass.ahead, List.cons_append]
  refine ⟨hs.start_le hcut (List.mem_append_left n.ahead ht), ?_⟩
  show t.stop ≤ n.passedOffset
  rw [hstop]
  obtain ⟨init, hinit⟩ := List.getLast?_eq_some_iff.1 hu
  have hapart := hs.apart
  rw [hplace.tokens, hpass.ahead, List.pairwise_append, hinit] at hapart
  have hbefore := (List.pairwise_append.1 (List.pairwise_append.1 hapart.2.1).1).2.2
  rcases List.mem_append.1 (hinit ▸ ht) with ht | ht
  · have hle := hbefore t ht u (List.mem_singleton_self u)
    have hlong := hs.nonempty u (by
      rw [hplace.tokens, hpass.ahead, hinit]
      simp)
    omega
  · rw [List.mem_singleton.1 ht]

/-- What a reader leaves stands behind the stretch it takes up. -/
theorem Ordered.stop_le_of_passes (hs : s.Ordered) (hplace : Cursor.PlaceIn s front c)
    (hpass : Cursor.Passes c n (c.current :: rest)) (ht : t ∈ n.ahead) :
    n.passedOffset ≤ t.start.offset := by
  obtain ⟨u, hu⟩ : ∃ u, (c.current :: rest).getLast? = some u :=
    ⟨_, List.getLast?_eq_some_getLast (List.cons_ne_nil _ _)⟩
  have hstop : n.passedOffset = u.stop := by
    simp [Cursor.passedOffset, hpass.previous, hu]
  have hapart := hs.apart
  rw [hplace.tokens, hpass.ahead, List.pairwise_append] at hapart
  rw [hstop]
  exact (List.pairwise_append.1 hapart.2.1).2.2 u (List.mem_of_getLast? hu) t ht

end TokenStream

/-- An import that can be exchanged: on lines of its own, outside of all braces, and followed by a
token that goes on with nothing. An export before it has a semicolon or leaves some tokens between. -/
structure ImportStatement.Exchangeable (text : List Char) (s : TokenStream) (o : Outline)
    (i : ImportStatement) : Prop where
  line : BeginsLine (text.take i.span.start.offset)
  outside : blockDepth (s.before i.span.start.offset) = 0 ∧
    substitutionDepth (s.before i.span.start.offset) = 0
  closed : blockDepth (s.within i.span) = 0 ∧ substitutionDepth (s.within i.span) = 0
  next : ∀ t ∈ (s.onward i.span.stop).head?, t.Afresh ∧ (i.terminated = true ∨
    (Position.start.advance (text.take i.span.stop)).line < t.line)
  exports : ∀ e ∈ o.exports, e.span.start.offset < i.span.start.offset → e.terminated = false →
    2 ≤ (s.before i.span.start.offset).countP fun t => e.span.stop ≤ t.start.offset

instance (text : List Char) (s : TokenStream) (o : Outline) (i : ImportStatement) :
    Decidable (i.Exchangeable text s o) :=
  decidable_of_iff (BeginsLine (text.take i.span.start.offset) ∧
      (blockDepth (s.before i.span.start.offset) = 0 ∧
        substitutionDepth (s.before i.span.start.offset) = 0) ∧
      (blockDepth (s.within i.span) = 0 ∧ substitutionDepth (s.within i.span) = 0) ∧
      (∀ t ∈ (s.onward i.span.stop).head?, t.Afresh ∧ (i.terminated = true ∨
        (Position.start.advance (text.take i.span.stop)).line < t.line)) ∧
      ∀ e ∈ o.exports, e.span.start.offset < i.span.start.offset → e.terminated = false →
        2 ≤ (s.before i.span.start.offset).countP fun t => e.span.stop ≤ t.start.offset)
    ⟨fun ⟨line, outside, closed, next, exports⟩ => ⟨line, outside, closed, next, exports⟩,
      fun h => ⟨h.line, h.outside, h.closed, h.next, h.exports⟩⟩

/-- Where an import stands among the tokens of a text. -/
structure ImportStatement.StandsAt (s : TokenStream) (i : ImportStatement) (c n : Cursor)
    (own : List Token) (u : Token) : Prop where
  place : Cursor.PlaceIn s (s.before i.span.start.offset) c
  passes : Cursor.Passes c n own
  within : s.within i.span = own
  head : own.head? = some c.current
  start : c.current.start = i.span.start
  last : own.getLast? = some u
  stop : u.stop = i.span.stop
  onward : s.onward i.span.stop = n.ahead

namespace Cursor

variable {s : TokenStream} {o found : Outline} {c n m : Cursor} {d d' : Nat}

/-- An import that the search finds stands where it was read. -/
theorem Surveys.standsAt {i : ImportStatement} (hs : s.Ordered)
    (hfront : Surveys d (ofStream s) o d' c) (hat : StatementAt c ⟨[i], []⟩ n) :
    ∃ own u, i.StandsAt s c n own u := by
  obtain ⟨passed, hpassed⟩ := hfront.reaches
  obtain ⟨rest, hrest⟩ := hat.passes
  have hplace := (placeIn_ofStream s).passes hpassed
  rw [List.nil_append] at hplace
  obtain ⟨u, hu⟩ : ∃ u, (c.current :: rest).getLast? = some u :=
    ⟨_, List.getLast?_eq_some_getLast (List.cons_ne_nil _ _)⟩
  have hspan : i.span = ⟨c.current.start, n.passedOffset⟩ := hat.span_eq (by simp [Outline.spans])
  have hstop : n.passedOffset = u.stop := by
    simp [passedOffset, hrest.previous, hu]
  rw [hstop] at hspan
  have hcut : s.tokens = passed ++ c.current :: (rest ++ n.ahead) := by
    rw [hplace.tokens, hrest.ahead, List.cons_append]
  have hcut' : s.tokens = passed ++ c.current :: rest ++ n.ahead := by
    rw [hcut, List.append_assoc, List.cons_append]
  have hbefore : s.before i.span.start.offset = passed := by
    rw [hspan]
    exact hs.before_eq hcut
  have hown : s.within i.span = c.current :: rest := by
    rw [hspan]
    exact hs.within_eq hcut' hu
  have honward : s.onward i.span.stop = n.ahead := by
    obtain ⟨init, hinit⟩ := List.getLast?_eq_some_iff.1 hu
    rw [hspan]
    have hlast : s.tokens = (passed ++ init) ++ u :: n.ahead := by
      rw [hcut', hinit]
      simp
    exact hs.onward_eq hlast
  refine ⟨c.current :: rest, u, ⟨?_, hrest, hown, rfl, by rw [hspan], hu, by rw [hspan], honward⟩⟩
  rwa [hbefore]

/-- A statement may begin wherever one may begin at an earlier place after the same token. -/
theorem atStatementStart_of_line {c c' : Cursor} (hc : c.atStatementStart = true)
    (hprevious : c'.previous = c.previous) (hline : c.current.line ≤ c'.current.line) :
    c'.atStatementStart = true := by
  unfold atStatementStart at hc ⊢
  rw [hprevious]
  cases hp : c.previous with
  | none => rfl
  | some p =>
    rw [hp] at hc
    simp only [Bool.or_eq_true, Bool.and_eq_true, decide_eq_true_eq] at hc ⊢
    rcases hc with hc | ⟨hlt, hdot⟩
    · exact .inl hc
    · exact .inr ⟨by omega, hdot⟩

/-- A statement may begin on a line after an import, and on the same line after its semicolon. -/
theorem EndsImport.atStatementStart {i : ImportStatement} (h : EndsImport c i n)
    (hline : i.terminated = true ∨ ∀ t ∈ n.previous, t.line < n.current.line) :
    n.atStatementStart = true := by
  unfold Cursor.atStatementStart
  cases hp : n.previous with
  | none => rfl
  | some p =>
    obtain ⟨hdot, hsemicolon⟩ := h.last p hp
    rcases hline with hterminated | hline
    · simp [hsemicolon hterminated]
    · simp [hline p hp, hdot]

/-- The statements that the search finds end in front of the tokens that are left. -/
theorem Surveys.stop_le {front : List Token} (h : Surveys d c o d' m) (hs : s.Ordered)
    (hplace : PlaceIn s front c) {x : Span} (hx : x ∈ o.spans) :
    ∀ t ∈ m.ahead, x.start.offset < x.stop ∧ x.stop ≤ t.start.offset := by
  induction h generalizing front with
  | done => simp [Outline.spans] at hx
  | @statement c n m found o d first others ih =>
    obtain ⟨rest, hrest⟩ := first.passes
    rcases Outline.mem_spans_append.1 hx with hx | hx
    · intro t ht
      have hinside := hs.inside_of_passes hplace hrest List.mem_cons_self
      have hlong := hs.nonempty c.current (by simp [hplace.tokens, hrest.ahead])
      have hle := hs.stop_le_of_passes hplace hrest (others.reaches.suffix.subset ht)
      rw [first.span_eq hx]
      exact ⟨hlong.trans_le hinside.2, hle⟩
    · exact ih (hplace.passes hrest) hx
  | pass more nothing others ih => exact ih (hplace.passes (passes_advance more)) hx

end Cursor

section Exchange

variable {text : List Char} {s : TokenStream} {o o₁ : Outline} {i : ImportStatement}
  {c n : Cursor} {own new : List Token} {u : Token}

theorem exists_surveys (hs : tokenize text = .ok s) (ho : outline text = .ok o) :
    ∃ d m, Cursor.Surveys 0 (.ofStream s) o d m ∧ m.kind = .endOfInput := by
  rw [outline, hs] at ho
  exact Cursor.outlineFrom_eq_ok.1 ho

/-- A name in front of the place where a statement begins is on a line above it. -/
theorem Cursor.line_lt_of_atStatementStart (hend : Reaches n c)
    (hremaining : n.remaining = c.remaining + 1) (hname : n.atName = true)
    (hstart : c.atStatementStart = true) : n.current.line < c.current.line := by
  obtain ⟨passed, hpassed⟩ := hend
  have hone : passed.length = 1 := by
    have hlength := congrArg List.length hpassed.ahead
    rw [List.length_append] at hlength
    simp only [remaining] at hremaining
    omega
  obtain ⟨v, rfl⟩ := List.length_eq_one_iff.1 hone
  have hcurrent : n.current = v := current_eq_of_cons hpassed.ahead
  have hprevious : c.previous = some v := hpassed.previous
  have hkind : v.kind.isName = true := by
    rw [atName, kind, hcurrent] at hname
    exact hname
  rw [hcurrent]
  unfold atStatementStart at hstart
  rw [hprevious] at hstart
  cases hk : v.kind <;> simp_all [TokenKind.isName]

/-- What the search finds in front of a place does not depend on what stands there, as long as every
statement on its way is settled. -/
theorem Cursor.Surveys.inFront {s' : TokenStream} {passed : List Token}
    [(Seam.inFront c.ahead new).AtStatement] (hs : tokenize text = .ok s)
    (hfront : Surveys 0 (ofStream s) o₁ 0 c) (hplace : PlaceIn s passed c) (hc : c.ahead ≠ [])
    (htokens : s'.tokens = passed ++ new)
    (hmeets : ∀ {c₁ found n₁}, Reaches (ofStream s) c₁ → StatementAt c₁ found n₁ →
      Reaches n₁ c → (∀ e ∈ found.exports, e ∈ o₁.exports) →
        (Seam.inFront c.ahead new).Meets c₁ found n₁) :
    ∃ c', Surveys 0 (ofStream s') o₁ 0 c' ∧ PlaceIn s' passed c' := by
  obtain ⟨⟨q, hreads⟩, -⟩ := Lexer.reads_of_tokenize hs
  have hmatches : (Seam.inFront c.ahead new).Matches (ofStream s) (ofStream s') := by
    refine ⟨.none, ?_⟩
    show (Seam.inFront c.ahead new).Tied s.tokens s'.tokens
    rw [hplace.tokens, htokens]
    apply Seam.tied_append
    intro t ht
    refine ⟨rfl, rfl, rfl, fun hk => ?_, rfl⟩
    have hmem : t ∈ s.tokens := by
      rw [hplace.tokens]
      exact List.mem_append_left _ ht
    exact hreads.value_eq hmem (by rw [hk]; rfl)
  obtain ⟨o', c', hrun, ho, hc'⟩ := hmatches.surveys hfront (Nat.le_refl _)
    (fun hextends => absurd hextends.1 hc) hmeets
  have hshifts : (Seam.inFront c.ahead new).Shifts [] := fun _ _ h => h
  obtain rfl : o' = o₁ := (ho.eq_shift hshifts).trans (Outline.shift_nil o₁)
  have hnewahead : c'.ahead = new := (hc'.outside (Nat.le_refl _)).2
  obtain ⟨passed', hpassed⟩ := hrun.reaches
  have hplace' := (placeIn_ofStream s').passes hpassed
  rw [List.nil_append] at hplace'
  have heq : passed' = passed := by
    have hcut := hplace'.tokens
    rw [htokens, hnewahead] at hcut
    exact (List.append_cancel_right hcut).symm
  exact ⟨c', hrun, heq ▸ hplace'⟩

namespace ImportStatement

/-- An export in front of an import that can be exchanged ends with a semicolon, or at least two
tokens are left before the import. -/
theorem Exchangeable.remaining_le (hi : i.Exchangeable text s o) (hs : s.Ordered)
    (hsite : i.StandsAt s c n own u) {c₁ n₁ : Cursor} {e : ExportStatement} (he : e ∈ o.exports)
    (hreach : Cursor.Reaches (Cursor.ofStream s) c₁)
    (hat : Cursor.StatementAt c₁ ⟨[], [e]⟩ n₁) (hend : Cursor.Reaches n₁ c)
    (hopen : e.terminated = false) : c.remaining + 2 ≤ n₁.remaining := by
  obtain ⟨passed, hpassed⟩ := hreach
  obtain ⟨rest, hrest⟩ := hat.passes
  obtain ⟨gap, hgap⟩ := hend
  have hplace := ((Cursor.placeIn_ofStream s).passes hpassed).passes hrest
  rw [List.nil_append] at hplace
  obtain ⟨w, hw⟩ : ∃ w, (passed ++ c₁.current :: rest).getLast? = some w :=
    ⟨_, List.getLast?_eq_some_getLast (by simp)⟩
  have hspan : e.span = ⟨c₁.current.start, n₁.passedOffset⟩ :=
    hat.span_eq (by simp [Outline.spans])
  have hstop : n₁.passedOffset = w.stop := by
    simp [Cursor.passedOffset, hplace.previous, hw]
  have htokens : s.tokens = passed ++ c₁.current :: rest ++ gap ++ c.ahead := by
    rw [hplace.tokens, hgap.ahead, ← List.append_assoc]
  have hbefore : s.before i.span.start.offset = passed ++ c₁.current :: rest ++ gap :=
    List.append_cancel_right (hsite.place.tokens.symm.trans htokens)
  obtain ⟨others, hahead⟩ : ∃ others, c.ahead = c.current :: others := by
    obtain ⟨others, rfl⟩ := List.head?_eq_some_iff.1 hsite.head
    exact ⟨_, hsite.passes.ahead⟩
  have hlt : e.span.start.offset < i.span.start.offset := by
    rw [hspan, ← hsite.start]
    refine hs.start_lt (htokens.trans (by rw [hahead])) ?_
    simp
  have hcount := hi.exports e he hlt hopen
  rw [hspan, hstop, hbefore] at hcount
  simp only at hcount
  have hle := hs.countP_le htokens hw
  have hlength := congrArg List.length hgap.ahead
  rw [List.length_append] at hlength
  simp only [Cursor.remaining] at hlength ⊢
  omega

/-- What the search finds in front of an import does not depend on what stands there. -/
theorem Exchangeable.surveys_inFront (hi : i.Exchangeable text s o) (hs : tokenize text = .ok s)
    (hsite : i.StandsAt s c n own u)
    (hfront : Cursor.Surveys 0 (Cursor.ofStream s) o₁ 0 c) (hexports : ∀ e ∈ o₁.exports, e ∈ o.exports)
    (hat : Cursor.StatementAt c ⟨[i], []⟩ n) (hstart : c.atStatementStart = true)
    {s' : TokenStream} (htokens : s'.tokens = s.before i.span.start.offset ++ new)
    (hnew : ∀ t ∈ new.head?, t.Afresh) :
    ∃ c', Cursor.Surveys 0 (Cursor.ofStream s') o₁ 0 c' ∧
      Cursor.PlaceIn s' (s.before i.span.start.offset) c' := by
  have hordered := TokenStream.ordered_of_tokenize hs
  obtain ⟨others, hahead⟩ : ∃ others, c.ahead = c.current :: others := by
    obtain ⟨others, rfl⟩ := List.head?_eq_some_iff.1 hsite.head
    exact ⟨_, hsite.passes.ahead⟩
  have hold : ∀ t ∈ c.ahead.head?, t.kind = .keyword .importWord ∨ t.kind = .keyword .exportWord := by
    intro t ht
    rw [hahead] at ht
    obtain rfl : c.current = t := by simpa using ht
    exact hat.kind_ne
  have harrow : ∀ t v rest, c.ahead = t :: v :: rest → v.kind ≠ .mark .arrow := by
    intro t v rest hrest
    have hnext := hat.followingKind_ne
    rwa [Cursor.followingKind, Cursor.peek, hrest] at hnext
  have hafresh : ∀ t ∈ new.head?, t.kind ≠ .mark .arrow := by
    intro t ht hk
    exact (hnew t ht).1 (by simp [hk])
  let S := Seam.inFront c.ahead new
  have : S.AtStatement := ⟨hold, harrow, hafresh⟩
  have hcloses : S.Closes := by
    cases hn : new.head? with
    | none =>
      have hnil : S.new = [] := List.head?_eq_none_iff.1 hn
      refine ⟨?_, ?_⟩
      · rw [Seam.nextKind, hnil]
        decide
      · rw [Seam.nextValue, hnil]
        decide
    | some t =>
      have hfresh := hnew t hn
      have hkind : S.nextKind = t.kind := by
        show (new.head?.map Token.kind).getD _ = _
        rw [hn]
        rfl
      have hvalue : S.nextValue = t.value := by
        show (new.head?.map Token.value).getD _ = _
        rw [hn]
        rfl
      rw [Token.Afresh] at hfresh
      simp only [List.mem_cons, List.not_mem_nil, or_false, not_or] at hfresh
      refine ⟨?_, ?_⟩
      · rw [hkind]
        simp only [List.mem_cons, List.not_mem_nil, or_false, forall_eq_or_imp, forall_eq]
        exact ⟨hfresh.1.1, hfresh.1.2.1, hfresh.1.2.2.1, hfresh.1.2.2.2.1⟩
      · rw [hvalue]
        exact ⟨hfresh.2.1, hfresh.2.2.1⟩
  refine hfront.inFront hs hsite.place (by simp [hahead]) htokens
    fun {c₁ found n₁} hreach hat₁ hend hmem => ?_
  apply Seam.meets_inFront
  · simp [Seam.inFront, hahead]
  · exact hcloses
  · intro e he hopen
    have hfound : found = ⟨[], [e]⟩ := by
      cases hat₁ with
      | importing => cases he
      | exporting =>
        rw [List.mem_singleton.1 he]
    exact hi.remaining_le hordered hsite (hexports e (hmem e he)) hreach (hfound ▸ hat₁) hend hopen
  · intro hremaining hname t ht
    obtain rfl : c.current = t := by
      have hhead : c.ahead.head? = some t := ht
      rw [hahead] at hhead
      simpa using hhead
    exact Cursor.line_lt_of_atStatementStart hend hremaining hname hstart

/-- An import can still be exchanged when the text behind it changes, as long as that does not go on
with it. -/
theorem Exchangeable.of_changed {text' : List Char} {s' : TokenStream} {o' : Outline} {front rest rest' : List Token}
    {x : Nat} (hi : i.Exchangeable text s o) (hstart : i.span.start.offset ≤ x)
    (hstop : i.span.stop ≤ x) (htext : text'.take x = text.take x)
    (hs : s.tokens = front ++ rest) (hs' : s'.tokens = front ++ rest')
    (hrest : ∀ t ∈ rest, x ≤ t.start.offset) (hrest' : ∀ t ∈ rest', x ≤ t.start.offset)
    (hfirst : ∀ t' ∈ rest'.head?, t'.Afresh ∧ ∃ t ∈ rest.head?, t.line ≤ t'.line)
    (hexports : ∀ e ∈ o'.exports, e.span.start.offset < x → e ∈ o.exports) :
    i.Exchangeable text' s' o' := by
  have htake : ∀ k ≤ x, text'.take k = text.take k := by
    intro k hk
    have hcut := congrArg (List.take k) htext
    rwa [List.take_take, List.take_take, Nat.min_eq_left hk] at hcut
  have hbefore : ∀ k ≤ x, s'.before k = s.before k := by
    intro k hk
    rw [TokenStream.before_append hs' fun t ht => hk.trans (hrest' t (List.mem_of_mem_head? ht)),
      TokenStream.before_append hs fun t ht => hk.trans (hrest t (List.mem_of_mem_head? ht))]
  have hwithin : s'.within i.span = s.within i.span := by
    rw [TokenStream.within_append hs' fun t ht => hstop.trans (hrest' t ht),
      TokenStream.within_append hs fun t ht => hstop.trans (hrest t ht)]
  have honward := TokenStream.onward_append hs fun t ht =>
    hstop.trans (hrest t (List.mem_of_mem_head? ht))
  have honward' := TokenStream.onward_append hs' fun t ht =>
    hstop.trans (hrest' t (List.mem_of_mem_head? ht))
  constructor
  · rw [htake _ hstart]
    exact hi.line
  · rw [hbefore _ hstart]
    exact hi.outside
  · rw [hwithin]
    exact hi.closed
  · intro t' ht'
    rw [htake _ hstop]
    have hnext := hi.next
    rw [honward] at hnext
    rw [honward'] at ht'
    cases hfront : front.dropWhile fun t => decide (t.start.offset < i.span.stop) with
    | cons v others =>
      rw [hfront] at hnext ht'
      exact hnext t' ht'
    | nil =>
      rw [hfront] at hnext ht'
      obtain ⟨hfresh, t, ht, hle⟩ := hfirst t' ht'
      refine ⟨hfresh, (hnext t ht).2.imp_right fun hlt => ?_⟩
      omega
  · intro e he hlt hopen
    rw [hbefore _ hstart]
    exact hi.exports e (hexports e he (by omega)) hlt hopen

/-- What was put in the place of an import and what comes after it stand where the import stood, or
behind it. -/
theorem le_of_exchanged {p q : Option Token} {old here : Position} {y rest : List Char}
    {ts after after' : List Token}
    (hnew : Reads ⟨p, [], here, y ++ rest⟩ ts ⟨q, [], here.advance y, rest⟩)
    (hmoved : List.Forall₂ (Moved old (here.advance y)) after after') :
    ∀ t ∈ ts ++ after', here.offset ≤ t.start.offset ∧ here.line ≤ t.line := by
  have hbehind : ∀ t ∈ after', here.offset ≤ t.start.offset ∧ here.line ≤ t.line := by
    clear hnew
    induction hmoved with
    | nil => simp
    | cons first others ih =>
      intro t ht
      rcases List.mem_cons.1 ht with rfl | ht
      · obtain ⟨passed, -, rfl⟩ := first
        simp only [Token.line, Position.offset_advance, Position.line_advance]
        omega
      · exact ih t ht
  intro t ht
  rcases List.mem_append.1 ht with ht | ht
  · exact ⟨(hnew.ordered.2 t ht).1, (hnew.line_le t ht).1⟩
  · exact hbehind t ht

theorem afresh_of_moved {old here : Position} {after after' : List Token}
    (hmoved : List.Forall₂ (Moved old here) after after')
    (hafter : ∀ t ∈ after.head?, t.Afresh) : ∀ t ∈ after'.head?, t.Afresh := by
  intro t ht
  cases hmoved with
  | nil => cases ht
  | @cons v v' _ _ first others =>
    obtain rfl := Option.some.inj ht
    obtain ⟨passed, -, rfl⟩ := first
    have hv : v.Afresh := hafter v rfl
    exact hv

/-- A text goes on afresh with what was put in the place of an import. -/
theorem Puts.afresh {specifiers : List Specifier} {old here : Position} {y : List Char}
    {words ts after after' : List Token} (h : i.Puts specifiers y words)
    (hbare : ts.map Token.bare = words) (hmoved : List.Forall₂ (Moved old here) after after')
    (hafter : ∀ t ∈ after.head?, t.Afresh) : ∀ t ∈ (ts ++ after').head?, t.Afresh := by
  intro t ht
  cases h with
  | nothing =>
    rw [List.map_eq_nil_iff.1 hbare, List.nil_append] at ht
    exact afresh_of_moved hmoved hafter t ht
  | anew =>
    cases ts with
    | nil => cases hbare
    | cons v ts =>
      obtain rfl := Option.some.inj ht
      have hfirst : v.bare = Token.ofName "import" := (List.cons.inj hbare).1
      have hkind : v.kind = (Token.ofName "import").kind := by
        rw [← hfirst]
        rfl
      have hvalue : v.value = "import" := by
        change v.bare.value = "import"
        rw [hfirst]
        rfl
      rw [Token.Afresh, hkind, hvalue]
      decide

end ImportStatement

/-- What was put in the place of an import is found there. -/
theorem ImportStatement.Puts.surveys {specifiers : List Specifier} {y : List Char}
    {words : List Token} {c' n' : Cursor} (h : i.Puts specifiers y words)
    (hc : Cursor.Spells c' words n')
    (hstart : specifiers ≠ [] → c'.atStatementStart = true)
    (hword : n'.current.value ≠ "with" ∧ n'.current.value ≠ "assert")
    (hend : n'.kind ≠ .mark .semicolon) :
    ∃ found, Cursor.Surveys 0 c' ⟨found, []⟩ 0 n' ∧
      List.Forall₂ i.Lists (if specifiers = [] then [] else [specifiers]) found ∧
      (specifiers ≠ [] → ∃ x : ImportStatement, x.terminated = i.terminated ∧
        Cursor.EndsImport c' x n') := by
  cases h with
  | nothing =>
    obtain rfl := hc.eq_of_nil
    exact ⟨[], .done 0 _, .nil, fun hne => absurd rfl hne⟩
  | anew some _ _ spelled =>
    obtain ⟨x, hrun, hreads, hsource, htypeOnly, hspecifiers, hterminated⟩ :=
      surveys_of_words spelled hc (hstart some) hword fun _ => hend
    refine ⟨[x], hrun, ?_, fun _ =>
      ⟨x, hterminated, Cursor.endsImport_of_importStatement hreads⟩⟩
    rw [if_neg some]
    refine .cons ⟨hsource, htypeOnly, ?_⟩ .nil
    rw [hspecifiers]
    exact entries_perm specifiers

/-- A token begins no later than on the line on which it ends. -/
theorem TokenStream.line_le (hs : tokenize text = .ok s) (hu : u ∈ s.tokens) :
    u.line ≤ (Position.start.advance (text.take u.stop)).line := by
  have hrun : ∃ q, Reads (Scan.ofText text) s.tokens ⟨q, [], s.finish, []⟩ :=
    tokensFrom_eq_ok.1 hs
  obtain ⟨q, hrun⟩ := hrun
  obtain ⟨front, back, hcut⟩ := List.append_of_mem hu
  obtain ⟨m, hfront, hstop, -⟩ := (hcut ▸ hrun).cut_after
  have hplace := hfront.place.2.1
  have hline := (hfront.line_le u (by simp)).2
  rwa [hplace, hstop] at hline

/-- The statements behind an exchanged stretch are found again, as long as one may begin there. -/
theorem Cursor.Surveys.behind {here here' : Position} {n' m : Cursor} {d : Nat}
    (hrun : Surveys 0 n o d m) (hm : m.kind = .endOfInput)
    (hmoved : List.Forall₂ (Moved here here') n.ahead n'.ahead)
    (hvalue : ∀ t ∈ n.ahead, t.kind = .mark .semicolon → t.value = ";")
    (hstart : n.kind ≠ .endOfInput → n'.atStatementStart = n.atStatementStart) :
    ∃ o' m', Surveys 0 n' o' d m' ∧ m'.kind = .endOfInput ∧
      (Seam.atBack here here').SameOutline o o' := by
  have htied := Seam.tied_atBack hmoved hvalue
  obtain ⟨o', m', hrun', ho, hahead⟩ := htied.surveys hstart hrun (Nat.zero_le _)
    (fun hextends => absurd rfl hextends.2) fun _ _ _ _ => Seam.meets_of_nil rfl rfl
  refine ⟨o', m', hrun', ?_, ho⟩
  obtain ⟨previous, ahead, finish⟩ := m
  obtain ⟨previous', ahead', finish'⟩ := m'
  cases hahead with
  | seam => rfl
  | cons first others => exact first.kind.trans hm

/-- What the tokens of a text become when one of its imports is exchanged. -/
structure ImportStatement.TokensExchanged (text text' : List Char) (s s' : TokenStream)
    (i : ImportStatement) (n : Cursor) (y : List Char) (words ts after' : List Token) : Prop where
  tokenized : tokenize text' = .ok s'
  tokens : s'.tokens = s.before i.span.start.offset ++ (ts ++ after')
  bare : ts.map Token.bare = words
  moved : ∃ blanks, (∀ c ∈ blanks, Lexeme.isSpace c = true) ∧ (words ≠ [] → blanks = []) ∧
    List.Forall₂ (Moved ((Position.start.advance (text.take i.span.stop)).advance blanks)
      (i.span.start.advance y)) n.ahead after'
  later : ∀ t ∈ ts ++ after', i.span.start.offset ≤ t.start.offset ∧ i.span.start.line ≤ t.line
  earlier : ∀ t ∈ ts, t.line ≤ (i.span.start.advance y).line
  afresh : ∀ t ∈ (ts ++ after').head?, t.Afresh

namespace ImportStatement

variable {specifiers : List Specifier} {y blanks rest : List Char} {words ts after' : List Token}

theorem Puts.words_eq_nil (h : i.Puts specifiers y words) : words = [] ↔ specifiers = [] := by
  cases h with
  | nothing => simp
  | anew some => simp [some, ImportStatement.words]

theorem Exchangeable.tokens (hi : i.Exchangeable text s o) (hs : tokenize text = .ok s)
    (hsite : i.StandsAt s c n own u) (hputs : i.Puts specifiers y words)
    (hrest : text.drop i.span.stop = blanks ++ rest)
    (hblanks : ∀ c ∈ blanks, Lexeme.isSpace c = true) (hkeeps : specifiers ≠ [] → blanks = []) :
    ∃ s' ts after', i.TokensExchanged text (text.take i.span.start.offset ++ (y ++ rest)) s s' n y
      words ts after' := by
  have htokens : s.tokens = s.before i.span.start.offset ++ (own ++ n.ahead) := by
    rw [← hsite.passes.ahead]
    exact hsite.place.tokens
  have hnext := hi.next
  rw [hsite.onward] at hnext
  have hafter : ∀ v ∈ n.ahead.head?, v.kind ≠ .mark .slash ∧ v.kind ≠ .regex ∧ v.value ≠ "#" := by
    intro v hv
    have hfresh := (hnext v hv).1
    rw [Token.Afresh] at hfresh
    simp only [List.mem_cons, List.not_mem_nil, or_false, not_or] at hfresh
    exact ⟨hfresh.1.2.2.2.2.2.1, hfresh.1.2.2.2.2.2.2, hfresh.2.2.2⟩
  have hline := hi.line
  rw [← hsite.start] at hline
  have hclosed := hi.closed
  rw [hsite.within] at hclosed
  rw [← hsite.stop] at hrest
  obtain ⟨ts, after', finish, p, q, htokenize, hbare, hnew, hmoved⟩ :=
    tokenize_exchange hs htokens hsite.head hsite.last hline hi.outside hclosed hrest hblanks
      hputs.reading (hputs.apart rest) hputs.head_ne hafter
  rw [hsite.start] at htokenize hnew hmoved
  rw [hsite.stop] at hmoved
  refine ⟨_, ts, after', htokenize, rfl, hbare, ⟨blanks, hblanks, ?_, hmoved⟩,
    le_of_exchanged hnew hmoved, fun t ht => (hnew.line_le t ht).2,
    hputs.afresh hbare hmoved fun t ht => (hnext t ht).1⟩
  intro hne
  exact hkeeps fun hnil => hne (hputs.words_eq_nil.2 hnil)

/-- Nothing that comes afresh goes on with an import. -/
theorem current_of_afresh {k : Cursor} (h : ∀ t ∈ k.ahead.head?, t.Afresh) :
    (k.current.value ≠ "with" ∧ k.current.value ≠ "assert") ∧ k.kind ≠ .mark .semicolon := by
  cases hahead : k.ahead with
  | nil =>
    have hcurrent : k.current = Token.endOfInput k.finish := by
      simp [Cursor.current, Cursor.peek, hahead]
    rw [Cursor.kind, hcurrent]
    simp [Token.endOfInput]
  | cons t rest =>
    have hfresh := h t (by rw [hahead]; rfl)
    rw [Token.Afresh] at hfresh
    simp only [List.mem_cons, List.not_mem_nil, or_false, not_or] at hfresh
    rw [Cursor.kind, Cursor.current_eq_of_cons hahead]
    exact ⟨⟨hfresh.2.1, hfresh.2.2.1⟩, hfresh.1.1⟩

/-- Behind an import that can be exchanged a statement may begin. -/
theorem Exchangeable.atStatementStart (hi : i.Exchangeable text s o) (hs : tokenize text = .ok s)
    (hsite : i.StandsAt s c n own u) (hends : Cursor.EndsImport c i n)
    (hmore : n.kind ≠ .endOfInput) : n.atStatementStart = true := by
  obtain ⟨others, hahead⟩ := Cursor.exists_cons_of_kind hmore
  have hnext := hi.next
  rw [hsite.onward, hahead] at hnext
  apply hends.atStatementStart
  refine (hnext _ rfl).2.imp_right fun hlt t ht => ?_
  obtain rfl : u = t := by
    rw [hsite.passes.previous, hsite.last] at ht
    exact Option.some.inj ht
  have hmem : u ∈ s.tokens := by
    rw [hsite.place.tokens, hsite.passes.ahead]
    exact List.mem_append_right _ (List.mem_append_left _ (List.mem_of_getLast? hsite.last))
  have hle := TokenStream.line_le hs hmem
  rw [hsite.stop] at hle
  omega

/-- What is put in the place of an import is found there, and a statement may begin behind it. -/
theorem TokensExchanged.surveys {text' : List Char} {s' : TokenStream} {c' : Cursor}
    (hnew : i.TokensExchanged text text' s s' n y words ts after')
    (hi : i.Exchangeable text s o) (hsite : i.StandsAt s c n own u)
    (hputs : i.Puts specifiers y words) (hstart : c.atStatementStart = true)
    (hplace : Cursor.PlaceIn s' (s.before i.span.start.offset) c') :
    ∃ n' found, Cursor.Surveys 0 c' ⟨found, []⟩ 0 n' ∧ n'.ahead = after' ∧
      List.Forall₂ i.Lists (if specifiers = [] then [] else [specifiers]) found ∧
      (n'.kind ≠ .endOfInput → n'.atStatementStart = true) := by
  obtain ⟨blanks, -, hblanks, hmoved⟩ := hnew.moved
  have hahead : c'.ahead = ts ++ after' :=
    (List.append_cancel_left (hnew.tokens.symm.trans hplace.tokens)).symm
  have hnext := hi.next
  rw [hsite.onward] at hnext
  have hline : c.current.line = i.span.start.line := by
    rw [Token.line, hsite.start]
  have hstart' : ∀ t ∈ c'.ahead.head?, c'.atStatementStart = true := by
    intro t ht
    apply Cursor.atStatementStart_of_line hstart (hplace.previous.trans hsite.place.previous.symm)
    obtain ⟨others, hothers⟩ := List.head?_eq_some_iff.1 ht
    rw [hline, Cursor.current_eq_of_cons hothers]
    apply (hnew.later t _).2
    rw [← hahead, hothers]
    exact List.mem_cons_self
  have hspells : Cursor.Spells c' words ⟨ts.getLast?.or c'.previous, after', c'.finish⟩ :=
    ⟨ts, ⟨hahead, rfl, rfl⟩, hnew.bare⟩
  have hafresh := afresh_of_moved hmoved fun t ht => (hnext t ht).1
  generalize hn' : (⟨ts.getLast?.or c'.previous, after', c'.finish⟩ : Cursor) = n' at hspells
  have hahead' : n'.ahead = after' := by
    rw [← hn']
  obtain ⟨hword, hend⟩ := current_of_afresh (k := n') (by rwa [hahead'])
  have hfirst : specifiers ≠ [] → c'.atStatementStart = true := by
    intro hne
    have hwords := mt hputs.words_eq_nil.1 hne
    cases hts : ts with
    | nil =>
      rw [← hnew.bare, hts] at hwords
      exact absurd rfl hwords
    | cons t ts =>
      apply hstart' t
      rw [hahead, hts]
      rfl
  obtain ⟨found, hput, hlists, hends⟩ := hputs.surveys hspells hfirst hword hend
  refine ⟨n', found, hput, hahead', hlists, fun hmore => ?_⟩
  obtain ⟨others, hothers⟩ := Cursor.exists_cons_of_kind hmore
  by_cases hnone : specifiers = []
  · rw [hputs.words_eq_nil.2 hnone] at hspells
    obtain rfl := hspells.eq_of_nil
    apply hstart' n'.current
    rw [hothers]
    rfl
  · obtain ⟨x, hterminated, hx⟩ := hends hnone
    apply hx.atStatementStart
    rw [hterminated]
    -- What follows the import stands as many lines below it as before.
    rw [hahead'] at hothers
    rw [hblanks (mt hputs.words_eq_nil.1 hnone), hothers] at hmoved
    cases hold : n.ahead with
    | nil =>
      rw [hold] at hmoved
      cases hmoved
    | cons v after =>
      rw [hold] at hmoved hnext
      cases hmoved with
      | cons first _ =>
        obtain ⟨-, hbehind⟩ := Seam.behind_of_moved first
        refine (hnext v rfl).2.imp_right fun hlt t ht => ?_
        have hmem : t ∈ ts := by
          rw [← hn'] at ht
          cases hlast : ts.getLast? with
          | none =>
            have hnil := List.getLast?_eq_none_iff.1 hlast
            rw [← hnew.bare, hnil] at hputs
            exact absurd (hputs.words_eq_nil.1 rfl) hnone
          | some w =>
            rw [hlast] at ht
            obtain rfl : w = t := Option.some.inj ht
            exact List.mem_of_getLast? hlast
        have hle := hnew.earlier t hmem
        simp only [Position.advance_nil] at hbehind
        simp only [Token.line] at hlt hle ⊢
        omega

end ImportStatement

end Exchange

end ComponentRegistry
