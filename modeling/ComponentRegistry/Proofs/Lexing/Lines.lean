import ComponentRegistry.Proofs.Lexing.Concatenation

/-! # Reading up to a line

What stands at the beginning of a line can be exchanged without a change to what is read above it.
Only a backslash at the end of the line above could carry a quote over.
-/

namespace ComponentRegistry

namespace Lexeme

theorem quotedBody_of_append {quote : Char} (hquote : quote ≠ '\\') {text more : List Char}
    (h : quotedBody quote (text ++ more) = none) : quotedBody quote text = none := by
  cases htext : quotedBody quote text with
  | none => rfl
  | some found =>
    obtain ⟨body, rest⟩ := found
    have hfound := quotedBody_replace hquote htext (rest ++ more)
    rw [← List.cons_append, ← List.append_assoc, quotedBody_append htext, h] at hfound
    cases hfound

theorem regexBody_of_append {inClass : Bool} {text more : List Char}
    (h : regexBody inClass (text ++ more) = none) : regexBody inClass text = none := by
  cases htext : regexBody inClass text with
  | none => rfl
  | some found =>
    obtain ⟨body, rest⟩ := found
    have hfound := regexBody_replace htext (rest ++ more)
    rw [← List.cons_append, ← List.append_assoc, regexBody_append htext, h] at hfound
    cases hfound

theorem isSpace_cases {c : Char} (h : isSpace c = true) :
    c ∈ [' ', '\t', '\r', '\n', '\uFEFF'] := by
  simpa [isSpace, or_assoc] using h

/-- No blank is a letter or a digit, the byte order mark included. -/
theorem isAlphanumeric_eq_false {c : Char} (h : isSpace c = true) :
    CharacterClass.isAlphanumeric c = false := by
  have hletter : CharacterClass.within CharacterClass.letterBoundaries 0xFEFF = false := by
    decide +kernel
  have hnumeric : CharacterClass.within CharacterClass.numericBoundaries 0xFEFF = false := by
    decide +kernel
  have hcases := isSpace_cases h
  simp only [List.mem_cons, List.not_mem_nil, or_false] at hcases
  rcases hcases with rfl | rfl | rfl | rfl | rfl
  · decide
  · decide
  · decide
  · decide
  · rw [CharacterClass.isAlphanumeric, if_neg (by decide)]
    exact Bool.or_eq_false_iff.2 ⟨hletter, hnumeric⟩

theorem not_isSpace_of_among {c d e : Char} (hd : isSpace d = false)
    (he : isSpace e = false)
    (hc : (CharacterClass.isAlphanumeric c || c == d || c == e) = true) : isSpace c = false := by
  cases hspace : isSpace c with
  | false => rfl
  | true =>
    simp only [isAlphanumeric_eq_false hspace, Bool.false_or, Bool.or_eq_true, beq_iff_eq] at hc
    rcases hc with rfl | rfl
    · simp [hspace] at hd
    · simp [hspace] at he

theorem not_isSpace_of_isAlphanumeric {c : Char} (hc : CharacterClass.isAlphanumeric c = true) :
    isSpace c = false := by
  cases hspace : isSpace c with
  | false => rfl
  | true => simp [isAlphanumeric_eq_false hspace] at hc

theorem not_isSpace_of_continuesName {c : Char} (hc : continuesName c = true) : isSpace c = false :=
  not_isSpace_of_among (d := '_') (e := '$') (by decide) (by decide) hc

theorem not_isSpace_of_continuesNumeral {c : Char} (hc : continuesNumeral c = true) :
    isSpace c = false :=
  not_isSpace_of_among (d := '.') (e := '_') (by decide) (by decide) hc

end Lexeme

namespace Lexer

/-- A lexeme over a line break ends in no blank, unless it is that line break. -/
def Step.Solid (s : Step) : Prop :=
  s.lexeme.length = 1 ∨ '\n' ∉ s.lexeme ∨ ∀ c ∈ s.lexeme.getLast?, Lexeme.isSpace c = false

theorem solid_of_last {s : Step} (front : List Char) {c : Char} (hs : s.lexeme = front ++ [c])
    (hc : Lexeme.isSpace c = false) : s.Solid := by
  refine .inr (.inr ?_)
  simp [hs, hc]

/-- A character and those of some kind after it. -/
theorem solid_of_takeWhile {s : Step} {P : Char → Bool} (front : List Char) {after : List Char}
    {c : Char} (hP : ∀ c, P c = true → Lexeme.isSpace c = false)
    (hs : s.lexeme = front ++ c :: after.takeWhile P)
    (hc : front = [] ∨ Lexeme.isSpace c = false) : s.Solid := by
  rcases List.eq_nil_or_concat (after.takeWhile P) with hnil | ⟨init, d, hlast⟩
  · rw [hnil] at hs
    rcases hc with rfl | hc
    · exact .inl (by simp [hs])
    · exact solid_of_last _ hs hc
  · have hd : P d = true := by
      apply List.all_eq_true.1 (List.all_takeWhile (l := after) (p := P))
      simp [hlast]
    apply solid_of_last (front ++ c :: init) _ (hP d hd)
    simp [hs, hlast]

theorem solid_templateStep {opened : Position} {lead : Char} {after : List Char}
    {e : List Enclosure} {s : Step} (h : templateStep opened lead after e = .ok s) : s.Solid := by
  unfold templateStep at h
  split at h
  · cases h
  · next body ending rest _ =>
    cases h
    cases ending with
    | closed => exact solid_of_last (lead :: body) rfl (by decide)
    | substitution =>
      apply solid_of_last (lead :: body ++ ['$']) (c := '\x7b') _ (by decide)
      simp [Lexeme.TemplateEnd.delimiter]

theorem solid_quoteStep {quote : Char} (hquote : quote = '"' ∨ quote = '\x27') (after : List Char)
    (e : List Enclosure) : (quoteStep quote after e).Solid := by
  unfold quoteStep
  split
  · apply solid_of_last _ rfl
    rcases hquote with rfl | rfl <;> decide
  · exact .inl rfl

theorem solid_slashStep (p : Option Token) (after : List Char) (e : List Enclosure) :
    (slashStep p after e).Solid := by
  unfold slashStep
  split
  · next body rest _ =>
    exact solid_of_takeWhile ('/' :: body) (fun _ => Lexeme.not_isSpace_of_isAlphanumeric) rfl
      (.inr (by decide))
  · exact .inl rfl

theorem solid_step {p : Option Token} {e : List Enclosure} {h : Position} {c : Char}
    {after : List Char} {s : Step} (hstep : step p e h c after = .ok s) : s.Solid := by
  cases takes_step hstep with
  | blank | openBrace | closeBrace | equals | dot => exact .inl rfl
  | lineComment =>
    refine .inr (.inl ?_)
    simp only [skipped, List.mem_cons, not_or]
    refine ⟨by decide, fun hmem => ?_⟩
    exact absurd (List.all_eq_true.1 List.all_takeWhile _ hmem) (by decide)
  | @blockComment _ body =>
    apply solid_of_last ('/' :: '*' :: body ++ ['*']) (c := '/') _ (by decide)
    simp [skipped]
  | quote hc => exact solid_quoteStep hc _ _
  | template read | resume read => exact solid_templateStep read
  | slash => exact solid_slashStep _ _ _
  | arrow => exact solid_of_last ['='] rfl (by decide)
  | number =>
    exact solid_of_takeWhile [] (fun _ => Lexeme.not_isSpace_of_continuesNumeral) rfl (.inl rfl)
  | name =>
    exact solid_of_takeWhile [] (fun _ => Lexeme.not_isSpace_of_continuesName) rfl (.inl rfl)
  | ellipsis => exact solid_of_last ['.', '.'] rfl (by decide)
  | single =>
    unfold singleStep
    split <;> exact .inl rfl

/-- The end of a line, or the beginning of the text, and blanks after it. The line above does not
end in a backslash. -/
def BeginsLine (front : List Char) : Prop :=
  (∀ c ∈ front, Lexeme.isSpace c = true) ∨ ∃ above blanks, front = above ++ '\n' :: blanks ∧
    above.getLast? ≠ some '\\' ∧ ∀ c ∈ blanks, Lexeme.isSpace c = true

theorem beginsLine_iff {front : List Char} :
    BeginsLine front ↔ front.all Lexeme.isSpace = true ∨ ∃ k < front.length,
      front[k]? = some '\n' ∧ (front.take k).getLast? ≠ some '\\' ∧
        (front.drop (k + 1)).all Lexeme.isSpace = true := by
  simp only [List.all_eq_true]
  refine or_congr_right ⟨?_, ?_⟩
  · rintro ⟨above, blanks, rfl, habove, hblanks⟩
    exact ⟨above.length, by simp, by simp, by simpa using habove, by simpa using hblanks⟩
  · rintro ⟨k, hk, hline, habove, hblanks⟩
    rw [List.getElem?_eq_getElem hk, Option.some.injEq] at hline
    refine ⟨front.take k, front.drop (k + 1), ?_, habove, hblanks⟩
    rw [← hline, List.getElem_cons_drop, List.take_append_drop]

instance (front : List Char) : Decidable (BeginsLine front) := decidable_of_iff' _ beginsLine_iff

theorem BeginsLine.of_suffix {front a : List Char} (h : BeginsLine front) (ha : a <:+ front) :
    BeginsLine a := by
  rcases h with hblank | ⟨above, blanks, rfl, habove, hblank⟩
  · exact .inl fun c hc => hblank c (ha.subset hc)
  · obtain ⟨b, hb⟩ := ha
    rcases List.append_eq_append_iff.1 hb with ⟨d, rfl, ha⟩ | ⟨d, -, hline⟩
    · right
      refine ⟨d, blanks, ha, ?_, hblank⟩
      intro hlast
      apply habove
      rw [List.getLast?_append, hlast]
      rfl
    · left
      intro c hc
      have hmem : c ∈ '\n' :: blanks := hline ▸ List.mem_append_right d hc
      rcases List.mem_cons.1 hmem with rfl | hc
      · decide
      · exact hblank c hc

/-- Blanks hold no tokens. -/
theorem reads_blanks (p : Option Token) (e : List Enclosure) (h : Position) {blanks : List Char}
    (hblanks : ∀ c ∈ blanks, Lexeme.isSpace c = true) (more : List Char) :
    Reads ⟨p, e, h, blanks ++ more⟩ [] ⟨p, e, h.advance blanks, more⟩ := by
  induction blanks generalizing h with
  | nil => exact .done _
  | cons c blanks ih =>
    have hstep : step p e h c (blanks ++ more) = .ok (skipped [c] (blanks ++ more) e) := by
      rw [step_eq, if_pos (hblanks c List.mem_cons_self)]
    exact .step hstep (ih (h.after c) fun d hd => hblanks d (List.mem_cons_of_mem c hd))

theorem Reads.eq_of_blanks {s t : Scan} {ts : List Token} {blanks : List Char} (h : Reads s ts t)
    (hrest : s.rest = blanks ++ t.rest) (hblanks : ∀ c ∈ blanks, Lexeme.isSpace c = true) :
    ts = [] ∧ t = ⟨s.previous, s.enclosures, s.here.advance blanks, t.rest⟩ := by
  induction h generalizing blanks with
  | done s =>
    obtain rfl : blanks = [] := List.append_left_eq_self.1 hrest.symm
    exact ⟨rfl, rfl⟩
  | @step p e h c after st ts t first others ih =>
    obtain ⟨r, hr, -⟩ := others.passes
    have hlength := congrArg List.length (cuts_step first).2
    have hpos := List.length_pos_iff.2 (cuts_step first).1
    simp only [Step.next] at hr
    cases blanks with
    | nil =>
      simp only [List.nil_append] at hrest
      simp only [hr, List.length_append, hrest] at hlength
      omega
    | cons d blanks =>
      obtain ⟨rfl, rfl⟩ := List.cons.inj hrest
      rw [step_eq, if_pos (hblanks c List.mem_cons_self)] at first
      cases first
      obtain ⟨rfl, ht⟩ := ih rfl fun d hd => hblanks d (List.mem_cons_of_mem c hd)
      exact ⟨rfl, ht⟩

/-- A run up to blanks at the beginning of a line passes the end of the line above. -/
theorem Reads.cut_line {s t : Scan} {ts : List Token} {above blanks : List Char} (h : Reads s ts t)
    (hrest : s.rest = above ++ '\n' :: blanks ++ t.rest)
    (hblanks : ∀ c ∈ blanks, Lexeme.isSpace c = true) :
    ∃ m, Reads s ts m ∧ m.rest = '\n' :: blanks ++ t.rest ∧
      t = ⟨m.previous, m.enclosures, m.here.advance ('\n' :: blanks), t.rest⟩ := by
  induction h generalizing above with
  | done s =>
    have hlength := congrArg List.length hrest
    simp only [List.length_append, List.length_cons] at hlength
    omega
  | @step p e h c after st ts t first others ih =>
    have hline : ∀ d ∈ '\n' :: blanks, Lexeme.isSpace d = true := by
      intro d hd
      rcases List.mem_cons.1 hd with rfl | hd
      · decide
      · exact hblanks d hd
    obtain ⟨r, hr, -⟩ := others.passes
    have hcut := (cuts_step first).2
    have hnext : (st.next p h).rest = r ++ t.rest := hr
    simp only [Step.next] at hr
    simp only at hrest
    rw [hr, hrest, ← List.append_assoc] at hcut
    rcases List.append_eq_append_iff.1 (List.append_cancel_right hcut) with
      ⟨front, rfl, hfront⟩ | ⟨back, hback, hsplit⟩
    · have hbelow : (st.next p h).rest = front ++ '\n' :: blanks ++ t.rest := by
        rw [hnext, hfront]
      obtain ⟨m, hm, hmrest, ht⟩ := ih hbelow
      exact ⟨m, .step first hm, hmrest, ht⟩
    · cases back with
      | nil =>
        have hbelow : (st.next p h).rest = [] ++ '\n' :: blanks ++ t.rest := by
          rw [hnext, hsplit]
          rfl
        obtain ⟨m, hm, hmrest, ht⟩ := ih hbelow
        exact ⟨m, .step first hm, hmrest, ht⟩
      | cons d back =>
        obtain ⟨rfl, rfl⟩ := List.cons.inj hsplit
        -- A lexeme that goes on over the line break would end in a blank.
        cases above with
        | nil =>
          obtain ⟨hnone, ht⟩ := (Reads.step first others).eq_of_blanks hrest hline
          rw [hnone]
          exact ⟨_, .done _, hrest, ht⟩
        | cons a above =>
          exfalso
          have hlast : ∃ d ∈ st.lexeme.getLast?, Lexeme.isSpace d = true := by
            rw [hback, List.getLast?_append]
            refine ⟨('\n' :: back).getLast (by simp), ?_, hline _ ?_⟩
            · rw [List.getLast?_eq_some_getLast (List.cons_ne_nil _ back)]
              rfl
            · exact List.mem_append_left r (List.getLast_mem (List.cons_ne_nil _ back))
          obtain ⟨d, hd, hspace⟩ := hlast
          rcases solid_step first with hone | hnone | hsolid
          · simp [hback] at hone
          · simp [hback] at hnone
          · simp [hsolid d hd] at hspace

theorem joint_line (blanks more more' : List Char) :
    Joint ('\n' :: blanks ++ more) ('\n' :: blanks ++ more') where
  head _ _ := rfl
  dots := by simp

theorem keepsAlone_line {s : Scan} {ts : List Token} {above : List Char}
    (habove : above.getLast? ≠ some '\\') (more more' : List Char) :
    KeepsAlone s ts above ('\n' :: more) ('\n' :: more') := by
  intro us t vs b _ hb _ halone
  constructor
  · intro hkind q hq hlexeme
    have hne : q ≠ '\\' := by
      rcases hq with rfl | rfl <;> decide
    apply Lexeme.quotedBody_newline (Lexeme.quotedBody_of_append hne (halone.quote hkind q hq hlexeme))
    intro hlast
    obtain ⟨front, rfl⟩ := hb
    apply habove
    rw [List.getLast?_append, hlast]
    rfl
  · intro hkind hfollow
    exact Lexeme.regexBody_newline (Lexeme.regexBody_of_append (halone.slash hkind hfollow)) more'

/-- What is read above a line does not depend on that line. -/
theorem Reads.onto_line {s t : Scan} {ts : List Token} {front : List Char} (h : Reads s ts t)
    (hrest : s.rest = front ++ t.rest) (hfront : BeginsLine front) (more' : List Char) :
    Reads (s.onto (front ++ more')) ts (t.onto more') := by
  rcases hfront with hblank | ⟨above, blanks, rfl, habove, hblank⟩
  · obtain ⟨rfl, ht⟩ := h.eq_of_blanks hrest hblank
    rw [ht]
    exact reads_blanks _ _ _ hblank more'
  · obtain ⟨m, hm, hmrest, ht⟩ := h.cut_line hrest hblank
    have hline : ∀ d ∈ '\n' :: blanks, Lexeme.isSpace d = true := by
      intro d hd
      rcases List.mem_cons.1 hd with rfl | hd
      · decide
      · exact hblank d hd
    have habove : Reads (s.onto (above ++ ('\n' :: blanks ++ more'))) ts
        (m.onto ('\n' :: blanks ++ more')) :=
      hm.onto (by rw [hmrest, hrest, List.append_assoc])
        (hmrest ▸ joint_line blanks t.rest more') (hmrest ▸ keepsAlone_line habove _ _)
    have hbelow := reads_blanks m.previous m.enclosures m.here hline more'
    have hall := habove.append hbelow
    rw [List.append_nil] at hall
    rw [ht, List.append_assoc]
    exact hall

end Lexer

end ComponentRegistry
