import ComponentRegistry.Proofs.Lexing.Exchange
import ComponentRegistry.Proofs.Lexing.Losslessness
import ComponentRegistry.Rewrite.AsyncExport

/-! # Leaving out a word

A word can be left out of a text together with the blanks after it, when it stands after another
word or an equals sign. The tokens before it stay where they are, and those after it move up.
-/

namespace ComponentRegistry

namespace Lexeme

/-- Characters that mean nothing to a quotation or a regular expression. -/
def Inert (c : Char) : Prop := c ∉ ['\n', '\\', '"', '\x27', '/', '[', ']']

theorem inert_of_continuesName {c : Char} (h : continuesName c = true) : Inert c := by
  intro hmem
  simp only [List.mem_cons, List.not_mem_nil, or_false] at hmem
  rcases hmem with rfl | rfl | rfl | rfl | rfl | rfl | rfl <;> revert h <;> decide

theorem inert_of_isInlineBlank {c : Char} (h : isInlineBlank c = true) : Inert c := by
  intro hmem
  simp only [List.mem_cons, List.not_mem_nil, or_false] at hmem
  rcases hmem with rfl | rfl | rfl | rfl | rfl | rfl | rfl <;> revert h <;> decide

/-- No quotation and no regular expression finds an end in a text that it does not find in another
one. -/
structure Hides (more more' : List Char) : Prop where
  quote : ∀ q, q = '"' ∨ q = '\x27' → quotedBody q more = none → quotedBody q more' = none
  slash : ∀ inClass, regexBody inClass more = none → regexBody inClass more' = none

/-- A stretch of text behind which no quotation and no regular expression finds an end that it finds
no longer in front of it. -/
def Unseen (w : List Char) : Prop := ∀ back, Hides (w ++ back) back

variable {front w back more more' : List Char}

theorem Hides.trans {more'' : List Char} (h : Hides more more') (h' : Hides more' more'') :
    Hides more more'' where
  quote q hq hnone := h'.quote q hq (h.quote q hq hnone)
  slash inClass hnone := h'.slash inClass (h.slash inClass hnone)

theorem Unseen.append {v : List Char} (hv : Unseen v) (hw : Unseen w) : Unseen (v ++ w) := by
  intro back
  rw [List.append_assoc]
  exact (hv _).trans (hw back)

theorem getLast?_ne_of_cons {c d : Char} (h : (c :: back).getLast? ≠ some d) :
    back.getLast? ≠ some d := by
  cases back with
  | nil => simp
  | cons b back => simpa [List.getLast?_cons_cons] using h

/-- A quote finds a partner behind some characters if it finds one without them. -/
theorem quotedBody_inert {quote : Char} (hquote : quote = '"' ∨ quote = '\x27')
    (hw : ∀ c ∈ w, Inert c) : quotedBody quote (w ++ back) = none ↔ quotedBody quote back = none := by
  induction w with
  | nil => rfl
  | cons c w ih =>
    obtain ⟨hc, hw⟩ := List.forall_mem_cons.1 hw
    simp only [Inert, List.mem_cons, List.not_mem_nil, or_false, not_or] at hc
    have hne : c ≠ quote := by
      rcases hquote with rfl | rfl
      · exact hc.2.2.1
      · exact hc.2.2.2.1
    rw [List.cons_append, quotedBody.eq_4 _ _ _ hc.1 fun _ _ heq => absurd heq hc.2.1,
      if_neg hne, Option.map_eq_none_iff]
    exact ih hw

/-- A slash begins a regular expression in front of some characters if it does so without them. -/
theorem regexBody_inert {inClass : Bool} (hw : ∀ c ∈ w, Inert c) :
    regexBody inClass (w ++ back) = none ↔ regexBody inClass back = none := by
  induction w with
  | nil => rfl
  | cons c w ih =>
    obtain ⟨hc, hw⟩ := List.forall_mem_cons.1 hw
    simp only [Inert, List.mem_cons, List.not_mem_nil, or_false, not_or] at hc
    have hclass : classAfter inClass c = inClass := by simp [classAfter, hc]
    rw [List.cons_append, regexBody.eq_6 _ _ _ hc.1 (fun heq => absurd heq hc.2.1)
      (fun _ heq => absurd heq hc.2.1) (fun _ _ heq => absurd heq hc.2.1),
      if_neg (fun heq => hc.2.2.2.2.1 heq.1), hclass, Option.map_eq_none_iff]
    exact ih hw

theorem unseen_of_inert (hw : ∀ c ∈ w, Inert c) : Unseen w := fun _ =>
  ⟨fun _ hq => (quotedBody_inert hq hw).1, fun _ => (regexBody_inert hw).1⟩

theorem hides_inert (hw : ∀ c ∈ w, Inert c) (back : List Char) : Hides back (w ++ back) :=
  ⟨fun _ hq => (quotedBody_inert hq hw).2, fun _ => (regexBody_inert hw).2⟩

/-- What stands behind a text may be exchanged for something that hides no less. -/
theorem Hides.quote_append {quote : Char} (hhides : Hides more more')
    (hquote : quote = '"' ∨ quote = '\x27') (hfront : front.getLast? ≠ some '\\')
    (h : quotedBody quote (front ++ more) = none) : quotedBody quote (front ++ more') = none := by
  have hplain : quote ≠ '\\' := by
    rcases hquote with rfl | rfl <;> decide
  have hnone := quotedBody_of_append hplain h
  fun_induction quotedBody quote front with
  | case1 => exact hhides.quote quote hquote h
  | case2 => rfl
  | case3 c text ih =>
    simp only [List.cons_append, quotedBody, Option.map_eq_none_iff] at h hnone ⊢
    exact ih (getLast?_ne_of_cons hfront) h hnone
  | case4 => cases hnone
  | case5 c text hline hescape hne ih =>
    have hc : c ≠ '\\' := by
      rintro rfl
      cases text with
      | nil => exact hfront rfl
      | cons d text => exact hescape d text rfl rfl
    rw [List.cons_append, quotedBody.eq_4 _ _ _ hline fun _ _ heq => absurd heq hc, if_neg hne,
      Option.map_eq_none_iff] at h ⊢
    exact ih (getLast?_ne_of_cons hfront) h (by simpa using hnone)

theorem Hides.slash_append {inClass : Bool} (hhides : Hides more more')
    (hfront : front.getLast? ≠ some '\\') (h : regexBody inClass (front ++ more) = none) :
    regexBody inClass (front ++ more') = none := by
  have hnone := regexBody_of_append h
  fun_induction regexBody inClass front with
  | case1 => exact hhides.slash _ h
  | case2 => rfl
  | case3 => exact absurd rfl hfront
  | case4 => rfl
  | case5 inClass c text hline ih =>
    rw [List.cons_append, List.cons_append, regexBody.eq_5 _ _ _ hline,
      Option.map_eq_none_iff] at h ⊢
    exact ih (getLast?_ne_of_cons hfront) h (by simpa using hnone)
  | case6 => cases hnone
  | case7 inClass c text hline hlone hescape hplain hclose ih =>
    have hc : c ≠ '\\' := by
      rintro rfl
      cases text with
      | nil => exact hlone rfl rfl
      | cons d text => exact hplain d text rfl rfl
    rw [List.cons_append, regexBody.eq_6 _ _ _ hline (fun heq => absurd heq hc)
      (fun _ heq => absurd heq hc) (fun _ _ heq => absurd heq hc), if_neg hclose,
      Option.map_eq_none_iff] at h ⊢
    exact ih (getLast?_ne_of_cons hfront) h (by simpa using hnone)

end Lexeme

/-- Whether a token is a quote or a slash that has no partner further on its line, as far as the token
alone shows. -/
def Token.isHalf (t : Token) : Bool := t.isLoneQuote || t.kind == .mark .slash

namespace Lexer

theorem standsAlone_of_not_isHalf {t : Token} (h : t.isHalf = false) (p : Option Token)
    (after : List Char) : StandsAlone p t after := by
  simp only [Token.isHalf, Bool.or_eq_false_iff, beq_eq_false_iff_ne] at h
  refine ⟨fun hkind q hq hlexeme => ?_, fun hkind => absurd hkind h.2⟩
  rcases hq with rfl | rfl <;> simp [Token.isLoneQuote, hkind, hlexeme] at h

/-- A token keeps to itself where what stands further behind it hides no less. -/
theorem StandsAlone.exchange {p : Option Token} {u : Token} {f more more' : List Char}
    (h : StandsAlone p u (f ++ more)) (hhides : Lexeme.Hides more more')
    (hlast : f.getLast? ≠ some '\\') : StandsAlone p u (f ++ more') where
  quote hkind q hq hlexeme := hhides.quote_append hq hlast (h.quote hkind q hq hlexeme)
  slash hkind hfollow := hhides.slash_append hlast (h.slash hkind hfollow)

variable {s t : Scan} {ts : List Token} {p : Option Token} {e : List Enclosure} {here : Position}
  {c : Char} {after : List Char} {st : Step}

/-- A run that gets anywhere has a last step. -/
theorem Reads.exists_last (h : Reads s ts t) : (ts = [] ∧ t = s) ∨ ∃ us p e here c after st,
    Reads s us ⟨p, e, here, c :: after⟩ ∧ Lexer.step p e here c after = .ok st ∧
      ts = us ++ (st.token? here).toList ∧ t = st.next p here := by
  induction h with
  | done => exact .inl ⟨rfl, rfl⟩
  | @step p e here c after st ts t first others ih =>
    right
    rcases ih with ⟨rfl, rfl⟩ | ⟨us, p', e', here', c', after', st', hrun, hstep, rfl, rfl⟩
    · exact ⟨[], p, e, here, c, after, st, .done _, first, by simp, rfl⟩
    · exact ⟨_, p', e', here', c', after', st', .step first hrun, hstep,
        (List.append_assoc ..).symm, rfl⟩

/-- What a step is that leads to a word: a blank, a comment, or an equals sign. It does not depend
on the word. -/
structure Step.LeadsUp (st : Step) (p : Option Token) (e : List Enclosure) (here : Position)
    (c : Char) (b : List Char) : Prop where
  lexeme : st.lexeme = c :: b
  onto : ∀ back : List Char, back.head? ≠ some '>' →
    Lexer.step p e here c (b ++ back) = .ok (st.onto back)
  first : c ≠ '.'
  last : (c :: b).getLast? ≠ some '\\'
  token : ∀ u ∈ st.token? here, u.kind = .mark .equals

theorem not_continuesName_of_dropWhile {d : Char} {more : List Char}
    (h : after.dropWhile Lexeme.continuesName = d :: more) : Lexeme.continuesName d = false := by
  have hhead := List.head?_dropWhile_not Lexeme.continuesName after
  rw [h] at hhead
  simpa using hhead

theorem exists_leadsUp {d : Char} {more : List Char} (hstep : step p e here c after = .ok st)
    (hrest : st.rest = d :: more) (hd : Lexeme.continuesName d = true)
    (hkind : ∀ u ∈ st.token? here, u.kind.isName = true ∨ u.kind = .mark .equals) :
    ∃ b, st.LeadsUp p e here c b := by
  -- A token of any other kind cannot stand here.
  have hother : ∀ {kind value}, st.found = some (kind, value) → kind.isName = false →
      kind ≠ .mark .equals → False := by
    intro kind value hfound hname hequals
    rcases hkind ⟨kind, String.ofList value, String.ofList st.lexeme, here⟩
      (by rw [Step.token?, hfound]; rfl) with hk | hk
    · simp [hname] at hk
    · exact hequals hk
  cases takes_step hstep with
  | blank hc =>
    refine ⟨[], rfl, fun back _ => by rw [step_eq, if_pos hc]; rfl, ?_, ?_,
      by simp [Step.token?, skipped]⟩
    · rintro rfl
      revert hc
      decide
    · intro hlast
      obtain rfl : c = '\\' := by simpa using hlast
      revert hc
      decide
  | @lineComment _ tail =>
    have hhead := List.head?_dropWhile_not Lexeme.staysOnLine ('/' :: tail)
    simp only [skipped] at hrest
    rw [hrest] at hhead
    obtain rfl : d = '\n' := by simpa [Lexeme.staysOnLine] using hhead
    exact absurd hd (by decide)
  | @blockComment _ body _ _ closed =>
    refine ⟨'*' :: body ++ ['*', '/'], rfl, fun back _ => ?_, by decide, ?_,
      by simp [Step.token?, skipped]⟩
    · have hbody := Lexeme.blockComment_replace closed back
      rw [step_eq, if_neg (by decide), if_neg (by simp), if_pos (by simp)]
      simp only [List.cons_append, List.append_assoc, List.nil_append, List.tail_cons, hbody]
      rfl
    · rw [← List.cons_append, List.getLast?_append]
      simp
  | quote =>
    unfold quoteStep at hother
    split at hother <;> exact (hother rfl rfl (by simp)).elim
  | template read | resume read =>
    unfold templateStep at read
    split at read
    · cases read
    · cases read
      exact (hother rfl rfl (by simp)).elim
  | slash =>
    obtain ⟨⟨kind, value⟩, hfound, hk⟩ := found_slashStep p after e
    rcases hk with rfl | rfl <;> exact (hother hfound rfl (by simp)).elim
  | openBrace | closeBrace | arrow | number | ellipsis | dot => exact (hother rfl rfl (by simp)).elim
  | equals =>
    refine ⟨[], rfl, fun back hback => ?_, by decide, by simp, by simp [Step.token?, verbatim]⟩
    rw [step_eq, List.nil_append]
    simp [Lexeme.isSpace, hback]
    rfl
  | name => exact absurd hd (by simp [not_continuesName_of_dropWhile hrest])
  | single =>
    unfold singleStep at hother
    split at hother
    · next m hm =>
      have hne : TokenKind.mark m ≠ .mark .equals := by
        rintro ⟨⟩
        unfold Mark.ofChar? at hm
        split at hm <;> cases hm
      exact (hother rfl rfl hne).elim
    · exact (hother rfl rfl (by simp)).elim

/-- A run up to a word does not depend on whether the word is there. -/
theorem Reads.onto_omit {a w back : List Char} {d : Char} (h : Reads s ts t) (hts : ts ≠ [])
    (hlast : ∀ u ∈ ts.getLast?, u.kind.isName = true ∨ u.kind = .mark .equals)
    (hrest : s.rest = a ++ t.rest) (hcut : t.rest = w ++ back)
    (hw : Lexeme.Unseen w ∨ ∀ u ∈ ts, u.isHalf = false)
    (hd : d ∈ w.head?) (hname : Lexeme.continuesName d = true) (hback : back.head? ≠ some '>') :
    Reads (s.onto (a ++ back)) ts (t.onto back) := by
  rcases h.exists_last with ⟨rfl, -⟩ | ⟨us, p, e, here, c, after, st, hrun, hstep, rfl, rfl⟩
  · exact absurd rfl hts
  obtain ⟨more, hmore⟩ : ∃ more, st.rest = d :: more := by
    obtain ⟨w', rfl⟩ : ∃ w', w = d :: w' := List.head?_eq_some_iff.1 hd
    exact ⟨w' ++ back, hcut⟩
  obtain ⟨b, hleads⟩ := exists_leadsUp hstep hmore hname fun u hu => by
    apply hlast u
    rw [hu]
    simp
  -- In front of the last step the text goes on with the same characters.
  obtain ⟨front, hfront, -⟩ := hrun.passes
  have hafter : c :: after = c :: b ++ st.rest := by
    rw [← hleads.lexeme]
    exact (cuts_step hstep).2.symm
  simp only [Step.next] at hrest hcut hfront ⊢
  obtain rfl : a = front ++ c :: b := by
    rw [hfront, hafter, ← List.append_assoc] at hrest
    exact (List.append_cancel_right hrest).symm
  rw [hcut] at hafter
  have hjoint : Joint (c :: after) (c :: b ++ back) := by
    refine ⟨fun _ _ => rfl, ?_⟩
    have hne := hleads.first
    simp [hne]
  have halone : KeepsAlone s us front (c :: after) (c :: b ++ back) := by
    intro vs u xs f hsplit _ _ halone
    rcases hw with hw | hw
    swap
    · exact standsAlone_of_not_isHalf (hw u (by simp [hsplit])) _ _
    rw [hafter, ← List.append_assoc] at halone
    rw [← List.append_assoc]
    refine halone.exchange (hw back) ?_
    rw [List.getLast?_append]
    simpa using hleads.last
  have hbefore := hrun.onto hfront hjoint halone
  have hlast := Reads.step (hleads.onto back hback) (.done _)
  have hall := hbefore.append hlast
  rw [List.append_assoc]
  simpa [Scan.onto, Step.next, Step.onto, Step.token?] using hall

/-- Two words do not touch. -/
theorem Reads.stop_lt_of_isName {u : Token} {d : Char} (h : Reads s ts t) (hu : u ∈ ts.getLast?)
    (hname : u.kind.isName = true) (hd : d ∈ t.rest.head?)
    (hcontinues : Lexeme.continuesName d = true) : u.stop < t.here.offset := by
  rcases h.exists_last with ⟨rfl, -⟩ | ⟨us, p, e, here, c, after, st, hrun, hstep, rfl, rfl⟩
  · cases hu
  obtain ⟨more, hmore⟩ : ∃ more, st.rest = d :: more := List.head?_eq_some_iff.1 hd
  have hpos := List.length_pos_iff.2 (cuts_step hstep).1
  simp only [Step.next, Position.offset_advance]
  cases htoken : st.token? here with
  | none =>
    rw [htoken, Option.toList_none, List.append_nil] at hu
    have := (hrun.ordered.2 u (List.mem_of_getLast? hu)).2.2
    simp only at this
    omega
  | some v =>
    obtain rfl : v = u := by simpa [htoken] using hu
    obtain ⟨b, hleads⟩ := exists_leadsUp hstep hmore hcontinues fun w hw => by
      obtain rfl : v = w := by simpa [htoken] using hw
      exact .inl hname
    simp [hleads.token v htoken, TokenKind.isName] at hname

/-- A word opens and closes no brace. -/
theorem enclosures_of_isName {u : Token} (hstep : step p e here c after = .ok st)
    (hu : u ∈ st.token? here) (hname : u.kind.isName = true) : st.enclosures = e := by
  rw [(encloses_step hstep).1, Option.mem_def.1 hu]
  exact (enclose_of_isFlat (isFlat_of_isName hname) e).1

/-- A `>` is a token of its own. -/
theorem Reads.exists_greater {more : List Char} (h : Reads ⟨p, e, here, '>' :: more⟩ ts t)
    (hle : t.rest.length ≤ more.length) : ∃ v ∈ ts.head?, v.kind = .mark .greater := by
  cases h with
  | done =>
    simp only [List.length_cons] at hle
    omega
  | step first others =>
    have hstep : Lexer.step p e here '>' more = .ok (verbatim (.mark .greater) ['>'] more e) := rfl
    rw [hstep] at first
    cases first
    exact ⟨_, rfl, rfl⟩

/-- The interpreter line is told by what stands up to a place well behind it. -/
theorem interpreterLine_take {text : List Char} {k : Nat} (hk : k ≤ text.length)
    (hline : (interpreterLine text).length + 2 ≤ k) (back : List Char) :
    interpreterLine (text.take k ++ back) = interpreterLine text := by
  rcases interpreterLine_cases text with hnil | ⟨body, rest, htext, hbody, -, hrest⟩
  · rw [hnil]
    apply interpreterLine_eq_nil
    rintro ⟨more, hmore⟩
    obtain ⟨c, d, text', rfl⟩ : ∃ c d text', text = c :: d :: text' := by
      rcases text with _ | ⟨c, _ | ⟨d, text'⟩⟩
      · simp at hk
        omega
      · simp at hk
        omega
      · exact ⟨c, d, text', rfl⟩
    obtain ⟨j, rfl⟩ := Nat.exists_eq_add_of_le' (Nat.le_trans (Nat.le_add_left 2 _) hline)
    simp only [List.take_succ_cons, List.cons_append, List.cons.injEq] at hmore
    obtain ⟨rfl, rfl, -⟩ := hmore
    rw [interpreterLine, List.takeWhile_cons_of_pos (by decide)] at hnil
    cases hnil
  · generalize '#' :: '!' :: body = first at htext hbody
    rw [hbody] at hline ⊢
    obtain ⟨rest', rfl⟩ : ∃ rest', rest = '\n' :: rest' := by
      cases rest with
      | nil =>
        rw [htext, List.append_nil] at hk
        omega
      | cons c rest' => exact ⟨rest', by rw [hrest c rfl]⟩
    have hfirst : interpreterLine first = first := by
      rw [htext, interpreterLine_append] at hbody
      exact hbody
    obtain ⟨j, hj⟩ : ∃ j, k - first.length = j + 1 := ⟨k - first.length - 1, by omega⟩
    rw [htext, List.take_append, List.take_of_length_le (by omega), hj, List.take_succ_cons,
      List.append_assoc, List.cons_append, interpreterLine_append, hfirst]

/-- A keyword takes up as many characters as its spelling. -/
theorem Reads.length_of_keyword {u : Token} {word : Keyword} (h : Reads s ts t) (hu : u ∈ ts)
    (hkind : u.kind = .keyword word) : u.lexeme.length = word.spelling.length := by
  have hconveys := h.conveys hu
  rw [hkind] at hconveys
  have hlexeme : u.lexeme.toList = u.value.toList := hconveys
  rw [String.toList_inj.1 hlexeme, h.value_eq hu (by rw [hkind]; rfl)]

/-- A stretch that begins with a word, behind another word or an equals sign, is left out. The run in
front of it stays, and the run behind it goes on from the same braces. The words of an interpreter
line are none, so that it stays what it is. -/
theorem Reads.leave_out {text w : List Char} {m n : Scan} {before after : List Token}
    {q : Option Token} {d : Char} {finish : Position} (hfront : Reads (Scan.ofText text) before m)
    (hbehind : Reads n after ⟨q, [], finish, []⟩) (hcut : m.rest = w ++ n.rest)
    (hbraces : n.enclosures = m.enclosures)
    (hexport : ∃ v ∈ before, v.kind = .keyword .exportWord)
    (hlast : ∀ u ∈ before.getLast?, u.kind.isName = true ∨ u.kind = .mark .equals)
    (hw : Lexeme.Unseen w ∨ ∀ u ∈ before, u.isHalf = false) (hd : d ∈ w.head?)
    (hname : Lexeme.continuesName d = true)
    (hafter : ∀ v ∈ after.head?,
      v.kind ≠ .mark .slash ∧ v.kind ≠ .regex ∧ v.kind ≠ .mark .greater) :
    ∃ after' finish',
      tokenize (text.take m.here.offset ++ n.rest) = .ok ⟨before ++ after', finish'⟩ ∧
      List.Forall₂ (Moved n.here m.here) after after' := by
  obtain ⟨hfrontRest, -, hfrontLe⟩ := hfront.place
  have hgreater : n.rest.head? ≠ some '>' := by
    intro hhead
    obtain ⟨more, hmore⟩ := List.head?_eq_some_iff.1 hhead
    have hn : n = ⟨n.previous, n.enclosures, n.here, '>' :: more⟩ := by rw [← hmore]
    obtain ⟨v, hv, hkind⟩ := (hn ▸ hbehind).exists_greater (Nat.zero_le _)
    exact (hafter v hv).2.2 hkind
  obtain ⟨after', ⟨q', e', finish', more'⟩, hmove, hmoved, hmore, hbrackets, -⟩ :=
    hbehind.moved ⟨m.previous, m.enclosures, m.here, n.rest⟩ rfl (by rw [hbraces])
      (.inr fun v hv => ⟨(hafter v hv).1, (hafter v hv).2.1⟩)
  simp only at hmore hbrackets hmoved
  obtain rfl : e' = [] := by simpa using hbrackets
  subst hmore
  -- Up to the stretch it reads as before.
  obtain ⟨v, hv, hvkind⟩ := hexport
  have hline : (interpreterLine text).length + 2 ≤ m.here.offset := by
    have hlength : v.lexeme.length = 6 := hfront.length_of_keyword hv hvkind
    obtain ⟨hbegin, -, hend⟩ := hfront.ordered.2 v hv
    simp only [Scan.ofText, Position.offset_advance, Position.start, Token.stop] at hbegin hend
    omega
  have hlong : m.here.offset < text.length := by
    by_contra hshort
    rw [hcut, List.drop_eq_nil_of_le (by omega)] at hfrontRest
    simp [(List.append_eq_nil_iff.1 hfrontRest).1] at hd
  have hstart := interpreterLine_take hlong.le hline
  have hall := hfront.onto_omit (List.ne_nil_of_mem hv) hlast
    (a := (text.take m.here.offset).drop (interpreterLine text).length) (by
      rw [← List.drop_append_of_le_length (by simp; omega), hfrontRest, List.take_append_drop]
      rfl) hcut hw hd hname hgreater
  have hscan : (Scan.ofText text).onto
      ((text.take m.here.offset).drop (interpreterLine text).length ++ n.rest) =
      Scan.ofText (text.take m.here.offset ++ n.rest) := by
    rw [Scan.ofText, Scan.ofText, Scan.onto, hstart n.rest,
      List.drop_append_of_le_length (by simp; omega)]
  rw [hscan] at hall
  exact ⟨after', finish', tokenize_of_reads (hall.append hmove), hmoved⟩

end Lexer

open Lexer

theorem isSpace_of_isInlineBlank {c : Char} (h : isInlineBlank c = true) :
    Lexeme.isSpace c = true := by
  rcases (by simpa [isInlineBlank] using h : c = ' ' ∨ c = '\t') with rfl | rfl <;> decide

theorem Lexeme.continuesName_of_isNameText {w : List Char} (h : isNameText w = true) :
    ∀ c ∈ w, continuesName c = true := by
  cases w with
  | nil => simp
  | cons c w =>
    simp only [isNameText, Bool.and_eq_true, List.all_eq_true] at h
    exact List.forall_mem_cons.2 ⟨continuesName_of_startsName h.1.1, h.2⟩

/-- What becomes of the tokens of a text when a word is left out together with some characters
behind it. -/
structure WordOmitted (text' : List Char) (word : Token) (blanks : List Char)
    (before after after' : List Token) (finish : Position) : Prop where
  tokenized : tokenize text' = .ok ⟨before ++ after', finish⟩
  moved : List.Forall₂ (Moved (word.start.advance (word.lexeme.toList ++ blanks)) word.start)
    after after'
  line : (word.start.advance (word.lexeme.toList ++ blanks)).line = word.start.line
  apart : ∀ u ∈ before.getLast?, u.kind.isName = true → u.stop < word.start.offset

/-- A word behind another word or an equals sign is left out together with blanks after it. The
words of an interpreter line are none, so that it stays what it is. -/
theorem tokenize_omit {text blanks back : List Char} {s : TokenStream} {before after : List Token}
    {word : Token} (hs : tokenize text = .ok s) (htokens : s.tokens = before ++ word :: after)
    (hword : word.kind.isName = true) (hexport : ∃ v ∈ before, v.kind = .keyword .exportWord)
    (hlast : ∀ u ∈ before.getLast?, u.kind.isName = true ∨ u.kind = .mark .equals)
    (hback : text.drop word.stop = blanks ++ back)
    (hblanks : ∀ c ∈ blanks, isInlineBlank c = true)
    (hafter : ∀ v ∈ after.head?,
      v.kind ≠ .mark .slash ∧ v.kind ≠ .regex ∧ v.kind ≠ .mark .greater) :
    ∃ after' finish,
      WordOmitted (text.take word.start.offset ++ back) word blanks before after after' finish := by
  have hrun : ∃ q, Reads (Scan.ofText text) s.tokens ⟨q, [], s.finish, []⟩ := tokensFrom_eq_ok.1 hs
  obtain ⟨q, hrun⟩ := hrun
  rw [htokens] at hrun
  obtain ⟨⟨p, e, here, rest⟩, c, rest', st, hfront, hrest, hstep, htoken, hbehind⟩ := hrun.cut
  simp only at hrest hstep htoken hbehind
  subst hrest
  obtain ⟨rfl, hstop, -⟩ := Step.stop_token hstep htoken
  obtain ⟨hfrontRest, -, -⟩ := hfront.place
  simp only at hfrontRest
  -- The word itself.
  have hlexeme : st.lexeme = word.lexeme.toList := by
    obtain ⟨⟨kind, value⟩, -, hfound⟩ := Option.map_eq_some_iff.1 htoken
    rw [← hfound, String.toList_ofList]
  have hcut := (cuts_step hstep).2
  rw [hlexeme] at hcut
  have hrest : st.rest = blanks ++ back := by
    rw [← hback, Token.stop, ← List.drop_drop, ← hfrontRest, ← hcut]
    exact (List.drop_left' rfl).symm
  have hname := hrun.isNameText (u := word) (by simp) hword
  obtain ⟨d, more, hhead⟩ : ∃ d more, word.lexeme.toList = d :: more := by
    rw [← hlexeme]
    exact List.exists_cons_of_ne_nil (cuts_step hstep).1
  have hchars := Lexeme.continuesName_of_isNameText hname
  have hfirst : Lexeme.continuesName d = true := hchars d (by rw [hhead]; exact List.mem_cons_self)
  have hinert : ∀ x ∈ word.lexeme.toList ++ blanks, Lexeme.Inert x := by
    intro x hx
    rcases List.mem_append.1 hx with hx | hx
    · exact Lexeme.inert_of_continuesName (hchars x hx)
    · exact Lexeme.inert_of_isInlineBlank (hblanks x hx)
  -- Behind the word and the blanks the text reads on from the same braces.
  rw [Step.next, enclosures_of_isName hstep htoken hword, hlexeme, hrest] at hbehind
  have hbehind := hbehind.behind_blanks (fun x hx => isSpace_of_isInlineBlank (hblanks x hx))
    (Nat.zero_le _)
  obtain ⟨after', finish, htokenized, hmoved⟩ := hfront.leave_out hbehind
    (w := word.lexeme.toList ++ blanks) (d := d) (by rw [← hcut, hrest, List.append_assoc]) rfl
    hexport hlast (.inl (Lexeme.unseen_of_inert hinert)) (by rw [hhead]; rfl) hfirst hafter
  simp only [← Position.advance_append] at hmoved
  refine ⟨after', finish, htokenized, hmoved, ?_, fun u hu hname => ?_⟩
  · rw [Position.line_advance, List.count_eq_zero.2]
    · rfl
    · intro hfeed
      exact hinert _ hfeed (by decide)
  · exact hfront.stop_lt_of_isName hu hname (d := d) (by simp [← hcut, hhead]) hfirst

end ComponentRegistry
