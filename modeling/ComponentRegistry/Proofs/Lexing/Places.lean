import ComponentRegistry.Proofs.Lexing.Bracing
import ComponentRegistry.Proofs.Lexing.Exchange

/-! # Lines and columns

The line and the column of a place follow from the text before it. Those of tokens and of faults
keep to this rule, and the place of a fault is that of the character which is to blame.
-/

namespace ComponentRegistry

/-- Where the line of a place begins: behind the last line feed before it, or with the text. -/
structure LineBegins (text : List Char) (offset begins : Nat) : Prop where
  le : begins ≤ offset
  behind : begins = 0 ∨ text[begins - 1]? = some '\n'
  line : '\n' ∉ Lexer.slice text begins offset

namespace Position

/-- The line and the column of a place are what the text says. -/
structure Exact (text : List Char) (p : Position) : Prop where
  le : p.offset ≤ text.length
  line : p.line = 1 + (text.take p.offset).count '\n'
  column : ∃ begins, LineBegins text p.offset begins ∧ p.column = p.offset - begins + 1

theorem exact_start (text : List Char) : start.Exact text :=
  ⟨Nat.zero_le _, rfl, 0, ⟨Nat.le_refl 0, .inl rfl, by simp [Lexer.slice, start]⟩, rfl⟩

variable {text : List Char} {p : Position} {c : Char}

/-- One more character keeps the line and the column right. -/
theorem Exact.after (h : p.Exact text) (hc : text[p.offset]? = some c) :
    (p.after c).Exact text := by
  obtain ⟨hlt, -⟩ := List.getElem?_eq_some_iff.1 hc
  have htake : text.take (p.offset + 1) = text.take p.offset ++ [c] := by
    rw [List.take_add_one, hc, Option.toList_some]
  refine ⟨by rw [offset_after]; exact hlt, ?_, ?_⟩
  · rw [offset_after, htake, List.count_append, ← Nat.add_assoc, ← h.line]
    exact line_advance p [c]
  · rw [offset_after]
    by_cases hline : c = '\n'
    · subst hline
      refine ⟨p.offset + 1, ⟨Nat.le_refl _, .inr hc, ?_⟩, ?_⟩
      · rw [Lexer.slice_self]
        exact List.not_mem_nil
      · rw [Position.after, if_pos rfl, Nat.sub_self]
    · obtain ⟨begins, ⟨hle, hbehind, hnone⟩, hcolumn⟩ := h.column
      refine ⟨begins, ⟨Nat.le_succ_of_le hle, hbehind, ?_⟩, ?_⟩
      · have hlength : begins ≤ (text.take p.offset).length := by
          rw [List.length_take_of_le h.le]
          exact hle
        rw [Lexer.slice, htake, List.drop_append_of_le_length hlength, List.mem_append,
          List.mem_singleton]
        rintro (hmem | heq)
        · exact hnone hmem
        · exact hline heq.symm
      · rw [Position.after, if_neg hline]
        show p.column + 1 = _
        omega

theorem Exact.advance {passed rest : List Char} (h : p.Exact text)
    (hpassed : text.drop p.offset = passed ++ rest) : (p.advance passed).Exact text := by
  induction passed generalizing p with
  | nil => exact h
  | cons c passed ih =>
    have hc : text[p.offset]? = some c := by
      rw [← List.head?_drop, hpassed]
      rfl
    refine ih (h.after hc) ?_
    rw [offset_after, ← List.drop_drop, hpassed]
    rfl

/-- The place behind a stretch at the beginning of a text. -/
theorem exact_advance (text : List Char) (n : Nat) : (start.advance (text.take n)).Exact text :=
  (exact_start text).advance (List.take_append_drop n text).symm

end Position

namespace Lexer

section Reads

variable {text : List Char} {read : List Token} {m : Scan} {u : Token}

theorem Reads.exact (h : Reads (Scan.ofText text) read m) : m.here.Exact text := by
  rw [h.place.2.1]
  exact Position.exact_advance _ _

/-- A token begins at the place of its first character. -/
theorem Reads.start_exact (h : Reads (Scan.ofText text) read m) (hu : u ∈ read) :
    u.start.Exact text ∧ text[u.start.offset]? = u.lexeme.toList.head? := by
  obtain ⟨before, behind, rfl⟩ := List.append_of_mem hu
  obtain ⟨m, c, after, st, hread, hrest, hstep, htoken, -⟩ := h.cut
  rw [(Step.stop_token hstep htoken).1]
  refine ⟨hread.exact, ?_⟩
  obtain ⟨hne, hcut⟩ := cuts_step hstep
  obtain ⟨⟨kind, value⟩, -, rfl⟩ := Option.map_eq_some_iff.1 htoken
  rw [String.toList_ofList, ← List.head?_drop, ← hread.place.1, hrest, ← hcut,
    List.head?_append_of_ne_nil _ hne]

end Reads

/-- The character at the beginning of an enclosure. -/
def Bracket.opener : Bracket → Char
  | .block => '{'
  | .substitution => '\x60'

/-- An enclosure begins with a token: its brace, or the first stretch of the template around it. -/
structure Enclosure.BeganBy (x : Enclosure) (t : Token) : Prop where
  place : x.opened = t.start
  kind : match x.bracket with
    | .block => t.kind = .mark .openBrace
    | .substitution => t.kind = .template ∧ t.closesSubstitution = false

theorem mem_of_mem_leave {t : Token} {e : List Enclosure} {x : Enclosure} (hx : x ∈ t.leave e) :
    x ∈ e := by
  unfold Token.leave at hx
  split at hx
  · exact List.mem_of_mem_tail hx
  · exact hx

theorem began_of_mem_enclose {t : Token} {e : List Enclosure} {x : Enclosure} (hfits : t.Fits e)
    (hx : x ∈ t.enclose e) : x ∈ e ∨ x.BeganBy t := by
  unfold Token.enclose at hx
  split at hx
  · next hkind =>
    rcases List.mem_cons.1 hx with rfl | hx
    · exact .inr ⟨rfl, hkind⟩
    · exact .inl (mem_of_mem_leave hx)
  · split at hx
    · next hopens =>
      have hkind : t.kind = .template := by
        rw [Token.opensSubstitution, Bool.and_eq_true] at hopens
        exact eq_of_beq hopens.1
      rcases List.mem_cons.1 hx with rfl | hx
      · cases hcloses : t.closesSubstitution with
        | false => exact .inr ⟨by rw [Token.templateStart, hcloses]; rfl, hkind, hcloses⟩
        | true =>
          -- The template goes on, and so the enclosure is the one that was just left.
          obtain ⟨⟨bracket, opened⟩, htop, rfl⟩ :=
            Option.map_eq_some_iff.1 (hfits.substitution hcloses)
          rw [Token.templateStart, hcloses, htop]
          exact .inl (List.mem_of_mem_head? htop)
      · exact .inl (mem_of_mem_leave hx)
    · exact .inl (mem_of_mem_leave hx)

/-- Every brace that a run leaves open was open before, or began with a token of the run. -/
theorem Reads.began {s t : Scan} {ts : List Token} (h : Reads s ts t) {x : Enclosure}
    (hx : x ∈ t.enclosures) : x ∈ s.enclosures ∨ ∃ u ∈ ts, x.BeganBy u := by
  induction h with
  | done => exact .inl hx
  | @step p e here c after s ts t first _ ih =>
    rcases ih hx with hx | ⟨u, hu, hbegan⟩
    · obtain ⟨henclosures, hfits⟩ := encloses_step first
      rw [Step.next, henclosures] at hx
      cases htoken : s.token? here with
      | none =>
        rw [htoken] at hx
        exact .inl hx
      | some u =>
        rw [htoken] at hx
        rcases began_of_mem_enclose (hfits u htoken) hx with hx | hbegan
        · exact .inl hx
        · exact .inr ⟨u, List.mem_cons_self, hbegan⟩
    · exact .inr ⟨u, List.mem_append_right _ hu, hbegan⟩

/-- The first character of a token that an enclosure begins with. -/
theorem Reads.head?_of_began {s t : Scan} {ts : List Token} (h : Reads s ts t) {u : Token}
    (hu : u ∈ ts) {x : Enclosure} (hx : x.BeganBy u) :
    u.lexeme.toList.head? = some x.bracket.opener := by
  obtain ⟨bracket, opened⟩ := x
  have conveys := h.conveys hu
  cases bracket with
  | block =>
    have hkind : u.kind = .mark .openBrace := hx.kind
    have hvalue : u.value = "\x7b" := h.value_eq hu (by rw [hkind]; rfl)
    rw [hkind, hvalue] at conveys
    rw [show u.lexeme.toList = _ from conveys]
    rfl
  | substitution =>
    obtain ⟨hkind, hcloses⟩ := hx.kind
    rw [hkind] at conveys
    obtain ⟨lead, ending, hlead, -, hlexeme⟩ := conveys
    rcases List.mem_cons.1 hlead with rfl | hlead
    · rw [hlexeme]
      rfl
    · obtain rfl := List.mem_singleton.1 hlead
      rw [Token.closesSubstitution, hkind, hlexeme] at hcloses
      simp at hcloses

/-- The place at which an open brace is reported. -/
theorem Reads.opened_exact {text : List Char} {read : List Token} {m : Scan}
    (h : Reads (Scan.ofText text) read m) {x : Enclosure} (hx : x ∈ m.enclosures) :
    x.opened.Exact text ∧ text[x.opened.offset]? = some x.bracket.opener := by
  obtain hx | ⟨u, hu, hbegan⟩ := h.began hx
  · exact absurd hx List.not_mem_nil
  · rw [hbegan.place, ← h.head?_of_began hu hbegan]
    exact h.start_exact hu

/-- Why the lexer cannot go on from a place. -/
inductive Scan.Fails : Scan → Fault → Prop where
  | comment (never : Lexeme.blockComment inside = none) :
      Fails ⟨p, e, h, '/' :: '*' :: inside⟩ ⟨.unterminatedComment, h⟩
  | template (never : Lexeme.templateBody after = none) :
      Fails ⟨p, e, h, '\x60' :: after⟩ ⟨.unterminatedTemplate, h⟩
  | resumed (never : Lexeme.templateBody after = none) :
      Fails ⟨p, ⟨.substitution, opened⟩ :: e, h, '}' :: after⟩ ⟨.unterminatedTemplate, opened⟩
  | unexpected : Fails ⟨p, [], h, '}' :: after⟩ ⟨.unexpectedCloseBrace, h⟩
  | unclosed (x : Enclosure) : Fails ⟨p, x :: e, h, []⟩ x.unclosed

theorem templateStep_error {opened : Position} {lead : Char} {after : List Char}
    {e : List Enclosure} {fault : Fault} (hstep : templateStep opened lead after e = .error fault) :
    Lexeme.templateBody after = none ∧ fault = ⟨.unterminatedTemplate, opened⟩ := by
  unfold templateStep at hstep
  split at hstep
  · next hbody =>
    cases hstep
    exact ⟨hbody, rfl⟩
  · cases hstep

theorem fails_of_step {p : Option Token} {e : List Enclosure} {h : Position} {c : Char}
    {after : List Char} {fault : Fault} (hstep : step p e h c after = .error fault) :
    Scan.Fails ⟨p, e, h, c :: after⟩ fault := by
  unfold step at hstep
  split at hstep
  · cases hstep
  · split at hstep
    · cases hstep
    · split at hstep
      · cases hstep
      · next never =>
        cases hstep
        exact .comment never
    · cases hstep
    · cases hstep
    · obtain ⟨never, rfl⟩ := templateStep_error hstep
      exact .template never
    · cases hstep
    · cases hstep
    · match e with
      | [] =>
        cases hstep
        exact .unexpected
      | ⟨.block, _⟩ :: _ => cases hstep
      | ⟨.substitution, _⟩ :: _ =>
        obtain ⟨never, rfl⟩ := templateStep_error hstep
        exact .resumed never
    · cases hstep
    · cases hstep
    · split at hstep
      · cases hstep
      · split at hstep
        · cases hstep
        · split at hstep <;> cases hstep

/-- Where there are no tokens, a run leads to a place from which the lexer cannot go on. -/
theorem exists_fails_of_tokensFrom {p : Option Token} {e : List Enclosure} {h : Position}
    {text : List Char} {fault : Fault} (herror : tokensFrom p e h text = .error fault) :
    ∃ read m, Reads ⟨p, e, h, text⟩ read m ∧ m.Fails fault := by
  fun_induction tokensFrom p e h text with
  | case1 => cases herror
  | case2 p h x e =>
    cases herror
    exact ⟨[], _, .done _, .unclosed x⟩
  | case3 p e h c after fault' hstep =>
    cases herror
    exact ⟨[], _, .done _, fails_of_step hstep⟩
  | case4 =>
    rename_i p e h c after s hstep _ hfound ih
    obtain ⟨read, m, hread, hfails⟩ := ih herror
    exact ⟨_, m, .step hstep (Step.next_of_none hfound p h ▸ hread), hfails⟩
  | case5 =>
    rename_i p e h c after s hstep _ kind value hfound _ ih
    obtain ⟨read, m, hread, hfails⟩ := ih (map_eq_error herror)
    exact ⟨_, m, .step hstep (Step.next_of_some hfound p h ▸ hread), hfails⟩

/-- Where a fault is placed, when some tokens were read before the lexer stopped at a place. The
innermost open brace tells which template goes on there, and what is left open at the end. -/
inductive Blames (text : List Char) (read : List Token) (stop : Position) : Fault → Prop where
  /-- A comment begins and never ends. -/
  | comment (begins : ['/', '*'] <+: text.drop stop.offset)
      (never : ¬ ['*', '/'] <:+: text.drop (stop.offset + 2)) :
      Blames text read stop ⟨.unterminatedComment, stop⟩
  /-- A template begins, and its first stretch never ends. -/
  | template (begins : text[stop.offset]? = some '\x60')
      (never : Lexeme.templateBody (text.drop (stop.offset + 1)) = none) :
      Blames text read stop ⟨.unterminatedTemplate, stop⟩
  /-- A template goes on behind an embedded expression, and this stretch never ends. -/
  | resumed {place : Position} (begins : text[place.offset]? = some '\x60')
      (innermost : (openBraces read).head? = some ⟨.substitution, place⟩)
      (resumes : text[stop.offset]? = some '}')
      (never : Lexeme.templateBody (text.drop (stop.offset + 1)) = none) :
      Blames text read stop ⟨.unterminatedTemplate, place⟩
  /-- The text ends in an embedded expression. -/
  | embedded {place : Position} (begins : text[place.offset]? = some '\x60')
      (innermost : (openBraces read).head? = some ⟨.substitution, place⟩)
      (ends : stop.offset = text.length) : Blames text read stop ⟨.unterminatedTemplate, place⟩
  /-- The text ends in a block. -/
  | block {place : Position} (begins : text[place.offset]? = some '{')
      (innermost : (openBraces read).head? = some ⟨.block, place⟩)
      (ends : stop.offset = text.length) : Blames text read stop ⟨.unclosedBrace, place⟩
  /-- A brace closes where none is open. -/
  | unexpected (closes : text[stop.offset]? = some '}') (outside : openBraces read = []) :
      Blames text read stop ⟨.unexpectedCloseBrace, stop⟩

theorem Reads.blames {text : List Char} {read : List Token} {m : Scan} {fault : Fault}
    (h : Reads (Scan.ofText text) read m) (hfails : m.Fails fault) :
    fault.place.Exact text ∧ Blames text read m.here fault := by
  have hplace := h.place.1
  have henclosures : m.enclosures = openBraces read := h.enclosures_eq
  have hnext : text[m.here.offset]? = m.rest.head? := by rw [hplace, List.head?_drop]
  have hafter : text.drop (m.here.offset + 1) = m.rest.tail := by rw [hplace, List.tail_drop]
  cases hfails with
  | comment never =>
    refine ⟨h.exact, .comment ?_ ?_⟩
    · rw [← hplace]
      exact ⟨_, rfl⟩
    · rw [← List.drop_drop, ← hplace]
      exact Lexeme.not_infix_of_blockComment_eq_none never
  | template never => exact ⟨h.exact, .template hnext (hafter ▸ never)⟩
  | resumed never =>
    obtain ⟨hexact, hchar⟩ := h.opened_exact List.mem_cons_self
    refine ⟨hexact, .resumed hchar ?_ hnext (hafter ▸ never)⟩
    rw [← henclosures]
    rfl
  | unexpected => exact ⟨h.exact, .unexpected hnext henclosures.symm⟩
  | unclosed x =>
    have hend := Nat.le_antisymm h.exact.le (List.drop_eq_nil_iff.1 hplace.symm)
    obtain ⟨hexact, hchar⟩ := h.opened_exact List.mem_cons_self
    have htop : (openBraces read).head? = some x := by rw [← henclosures]; rfl
    obtain ⟨bracket, opened⟩ := x
    cases bracket with
    | block => exact ⟨hexact, .block hchar htop hend⟩
    | substitution => exact ⟨hexact, .embedded hchar htop hend⟩

section Tokenize

variable {text : List Char}

theorem start_exact_of_tokenize {s : TokenStream} (hs : tokenize text = .ok s) {t : Token}
    (ht : t ∈ s.toList) : t.start.Exact text := by
  obtain ⟨⟨q, hreads⟩, -⟩ := reads_of_tokenize hs
  have hrun : Reads (Scan.ofText text) s.tokens ⟨q, [], s.finish, []⟩ := hreads
  rcases List.mem_append.1 ht with ht | ht
  · exact (hrun.start_exact ht).1
  · obtain rfl := List.mem_singleton.1 ht
    exact hrun.exact

theorem blames_of_tokenize {fault : Fault} (hfault : tokenize text = .error fault) :
    fault.place.Exact text ∧
      ∃ read m, Reads (Scan.ofText text) read m ∧ Blames text read m.here fault := by
  obtain ⟨read, m, hreads, hfails⟩ := exists_fails_of_tokensFrom hfault
  have hrun : Reads (Scan.ofText text) read m := hreads
  obtain ⟨hexact, hblames⟩ := hrun.blames hfails
  exact ⟨hexact, read, m, hrun, hblames⟩

end Tokenize

/-- Every place that the lexer reports is exact, those of tokens and those of faults. -/
structure Placed (text : List Char) : Prop where
  tokens : ∀ s, tokenize text = .ok s → ∀ t ∈ s.toList, t.start.Exact text
  faults : ∀ fault, tokenize text = .error fault → fault.place.Exact text ∧
    ∃ read m, Reads (Scan.ofText text) read m ∧ Blames text read m.here fault

theorem tokenize_placed (text : List Char) : Placed text := by
  constructor
  · intro s hs t ht
    exact start_exact_of_tokenize hs ht
  · intro fault hfault
    exact blames_of_tokenize hfault

/-- A template on the line after a quote that was tried in vain. Left open, it is reported where it
began; closed, the words after it stand on the line on which it ended. -/
theorem tokenize_placed_resumed :
    let unclosed := "don't\n \x60a$\x7bb\x7d\n$\x7b\x7bc\x7d\x7d\n".toList
    let closed := "don't\n \x60a\nb\x60 c".toList
    (tokenize unclosed = .error ⟨.unterminatedTemplate, ⟨7, 2, 2⟩⟩ ∧ Placed unclosed) ∧
      ∃ s, tokenize closed = .ok s ∧ s.toList.map Token.start =
        [⟨0, 1, 1⟩, ⟨3, 1, 4⟩, ⟨4, 1, 5⟩, ⟨7, 2, 2⟩, ⟨13, 3, 4⟩, ⟨14, 3, 5⟩] ∧ Placed closed := by
  intro unclosed closed
  have starts : (tokenize closed).toOption.map (fun s => s.toList.map Token.start) =
      some [⟨0, 1, 1⟩, ⟨3, 1, 4⟩, ⟨4, 1, 5⟩, ⟨7, 2, 2⟩, ⟨13, 3, 4⟩, ⟨14, 3, 5⟩] := by
    decide +kernel
  obtain ⟨s, hs, hstarts⟩ := exists_of_toOption_map starts
  exact ⟨⟨by decide +kernel, tokenize_placed _⟩, s, hs, hstarts, tokenize_placed _⟩

end Lexer

end ComponentRegistry
