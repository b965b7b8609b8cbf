import ComponentRegistry.Proofs.Lexing.Reading

/-! # How far the lexer looks

A lexeme is told by its own characters and by what kind of character follows it. Only a quote or a
slash that stands alone depends on more: on the rest of its line, where its partner is missing.
-/

namespace ComponentRegistry

namespace Lexeme

/-- What is cut off does not depend on what follows it. -/
theorem quotedBody_replace {quote : Char} {text body rest : List Char} (hquote : quote ≠ '\\')
    (h : quotedBody quote text = some (body, rest)) (rest' : List Char) :
    quotedBody quote (body ++ quote :: rest') = some (body, rest') := by
  fun_induction quotedBody quote text generalizing body with
  | case1 => simp at h
  | case2 => simp at h
  | case3 c text ih =>
    obtain ⟨⟨b, a⟩, hb, heq⟩ := Option.map_eq_some_iff.1 h
    obtain ⟨rfl, rfl⟩ := Prod.mk.inj heq
    simp [quotedBody, ih hb]
  | case4 text hline hescape =>
    obtain ⟨rfl, rfl⟩ : [] = body ∧ text = rest := by simpa using h
    rw [List.nil_append, quotedBody.eq_4 _ _ _ hline fun _ _ heq => absurd heq hquote, if_pos rfl]
  | case5 c text hline hescape hne ih =>
    obtain ⟨⟨b, a⟩, hb, heq⟩ := Option.map_eq_some_iff.1 h
    obtain ⟨rfl, rfl⟩ := Prod.mk.inj heq
    have hplain : c ≠ '\\' := by
      rintro rfl
      cases text with
      | nil => simp [quotedBody] at hb
      | cons d text => exact hescape d text rfl rfl
    rw [List.cons_append, quotedBody.eq_4 _ _ _ hline fun _ _ heq => absurd heq hplain, if_neg hne,
      ih hb]
    rfl

theorem blockComment_replace {text body rest : List Char}
    (h : blockComment text = some (body, rest)) (rest' : List Char) :
    blockComment (body ++ '*' :: '/' :: rest') = some (body, rest') := by
  fun_induction blockComment text generalizing body with
  | case1 => simp at h
  | case2 text =>
    obtain ⟨rfl, rfl⟩ : [] = body ∧ text = rest := by simpa using h
    rfl
  | case3 c text hend ih =>
    obtain ⟨⟨b, a⟩, hb, heq⟩ := Option.map_eq_some_iff.1 h
    obtain ⟨rfl, rfl⟩ := Prod.mk.inj heq
    have hcut := blockComment_append hb
    rw [List.cons_append, blockComment.eq_3 _ _ fun rest' hc hslash => ?_, ih hb]
    · rfl
    · cases b with
      | nil => simp at hslash
      | cons d b =>
        rw [List.cons_append] at hslash hcut
        exact hend _ hc (by rw [← hcut, (List.cons.inj hslash).1])

theorem templateBody_replace {text body rest : List Char} {ending : TemplateEnd}
    (h : templateBody text = some (body, ending, rest)) (rest' : List Char) :
    templateBody (body ++ ending.delimiter ++ rest') = some (body, ending, rest') := by
  fun_induction templateBody text generalizing body with
  | case1 => simp at h
  | case2 c text ih =>
    obtain ⟨⟨b, e, a⟩, hb, heq⟩ := Option.map_eq_some_iff.1 h
    obtain ⟨rfl, rfl, rfl⟩ : _ ∧ _ ∧ _ := by simpa using heq
    have := ih hb
    simp_all [templateBody]
  | case3 text =>
    obtain ⟨rfl, rfl, rfl⟩ : _ ∧ _ ∧ _ := by simpa using h
    rfl
  | case4 text =>
    obtain ⟨rfl, rfl, rfl⟩ : _ ∧ _ ∧ _ := by simpa using h
    rfl
  | case5 c text hescape hclose hopen ih =>
    obtain ⟨⟨b, e, a⟩, hb, heq⟩ := Option.map_eq_some_iff.1 h
    obtain ⟨rfl, rfl, rfl⟩ : _ ∧ _ ∧ _ := by simpa using heq
    have hcut := templateBody_append hb
    have hplain : c ≠ '\\' := by
      rintro rfl
      cases text with
      | nil => simp [templateBody] at hb
      | cons d text => exact hescape d text rfl rfl
    rw [List.cons_append, List.cons_append, templateBody.eq_5 _ _ (fun _ _ heq => absurd heq hplain)
      (fun heq => hclose heq) fun rest'' hc hbrace => ?_, ih hb]
    · rfl
    · cases b with
      | nil =>
        cases e with
        | closed => simp [TemplateEnd.delimiter] at hbrace
        | substitution => simp [TemplateEnd.delimiter] at hbrace
      | cons d b =>
        rw [List.cons_append, List.cons_append] at hbrace hcut
        exact hopen _ hc (by rw [← hcut, (List.cons.inj hbrace).1])

theorem regexBody_replace {inClass : Bool} {text body rest : List Char}
    (h : regexBody inClass text = some (body, rest)) (rest' : List Char) :
    regexBody inClass (body ++ '/' :: rest') = some (body, rest') := by
  fun_induction regexBody inClass text generalizing body with
  | case1 => simp at h
  | case2 => simp at h
  | case3 => simp at h
  | case4 => simp at h
  | case5 inClass c text hline ih =>
    obtain ⟨⟨b, a⟩, hb, heq⟩ := Option.map_eq_some_iff.1 h
    obtain ⟨rfl, rfl⟩ := Prod.mk.inj heq
    rw [List.cons_append, List.cons_append, regexBody.eq_5 _ _ _ hline, ih hb]
    rfl
  | case6 inClass c text hline hlone hescape hplain hclose =>
    obtain ⟨rfl, rfl⟩ : [] = body ∧ text = rest := by simpa using h
    obtain ⟨rfl, rfl⟩ := hclose
    simp [regexBody]
  | case7 inClass c text hline hlone hescape hplain hclose ih =>
    obtain ⟨⟨b, a⟩, hb, heq⟩ := Option.map_eq_some_iff.1 h
    obtain ⟨rfl, rfl⟩ := Prod.mk.inj heq
    have hslash : c ≠ '\\' := by
      rintro rfl
      cases text with
      | nil => exact hlone rfl rfl
      | cons d text => exact hplain d text rfl rfl
    rw [List.cons_append, regexBody.eq_6 _ _ _ hline (fun heq => absurd heq hslash)
      (fun _ heq => absurd heq hslash) (fun _ _ heq => absurd heq hslash), if_neg hclose, ih hb]
    rfl

/-- The end of the text and the end of a line are the same to a quote that is not closed. -/
theorem quotedBody_newline {quote : Char} {text : List Char} (h : quotedBody quote text = none)
    (hlast : text.getLast? ≠ some '\\') (more : List Char) :
    quotedBody quote (text ++ '\n' :: more) = none := by
  fun_induction quotedBody quote text with
  | case1 => rfl
  | case2 => rfl
  | case3 c text ih =>
    have hlast' : text.getLast? ≠ some '\\' := by
      cases text with
      | nil => simp
      | cons d text => simpa [List.getLast?_cons_cons] using hlast
    simpa [quotedBody] using ih (by simpa using h) hlast'
  | case4 => cases h
  | case5 c text hline hescape hne ih =>
    have hplain : c ≠ '\\' := by
      rintro rfl
      cases text with
      | nil => exact hlast rfl
      | cons d text => exact hescape d text rfl rfl
    have hlast' : text.getLast? ≠ some '\\' := by
      cases text with
      | nil => simp
      | cons d text => simpa [List.getLast?_cons_cons] using hlast
    rw [List.cons_append, quotedBody.eq_4 _ _ _ hline fun _ _ heq => absurd heq hplain, if_neg hne,
      ih (by simpa using h) hlast']
    rfl

theorem regexBody_newline {inClass : Bool} {text : List Char} (h : regexBody inClass text = none)
    (more : List Char) : regexBody inClass (text ++ '\n' :: more) = none := by
  fun_induction regexBody inClass text with
  | case1 => rfl
  | case2 => rfl
  | case3 => rfl
  | case4 => rfl
  | case5 inClass c text hline ih =>
    rw [List.cons_append, List.cons_append, regexBody.eq_5 _ _ _ hline, ih (by simpa using h)]
    rfl
  | case6 => cases h
  | case7 inClass c text hline hlone hescape hplain hclose ih =>
    have hslash : c ≠ '\\' := by
      rintro rfl
      cases text with
      | nil => exact hlone rfl rfl
      | cons d text => exact hplain d text rfl rfl
    rw [List.cons_append, regexBody.eq_6 _ _ _ hline (fun heq => absurd heq hslash)
      (fun _ heq => absurd heq hslash) (fun _ _ heq => absurd heq hslash), if_neg hclose,
      ih (by simpa using h)]
    rfl

end Lexeme

namespace Lexer

variable {p p' : Option Token} {e e' : List Enclosure} {h h' : Position} {c : Char}
  {after more more' : List Char} {s : Step}

/-- What one step does, by the first characters. -/
theorem step_eq : step p e h c after =
    if Lexeme.isSpace c then .ok (skipped [c] after e)
    else if c = '/' ∧ after.head? = some '/' then
      .ok (skipped ('/' :: after.takeWhile Lexeme.staysOnLine)
        (after.dropWhile Lexeme.staysOnLine) e)
    else if c = '/' ∧ after.head? = some '*' then
      match Lexeme.blockComment after.tail with
      | some (body, rest) => .ok (skipped ('/' :: '*' :: body ++ ['*', '/']) rest e)
      | none => .error ⟨.unterminatedComment, h⟩
    else if c = '"' ∨ c = '\x27' then .ok (quoteStep c after e)
    else if c = '\x60' then templateStep h '\x60' after e
    else if c = '/' then .ok (slashStep p after e)
    else if c = '\x7b' then .ok (verbatim (.mark .openBrace) ['\x7b'] after (⟨.block, h⟩ :: e))
    else if c = '\x7d' then closeBraceStep h after e
    else if c = '=' ∧ after.head? = some '>' then
      .ok (verbatim (.mark .arrow) ['=', '>'] after.tail e)
    else if c = '=' then .ok (verbatim (.mark .equals) ['='] after e)
    else if startsNumeral c after then
      .ok (verbatim .number (c :: after.takeWhile Lexeme.continuesNumeral)
        (after.dropWhile Lexeme.continuesNumeral) e)
    else if Lexeme.startsName c then .ok (nameStep c after e)
    else if c = '.' ∧ after.take 2 = ['.', '.'] then
      .ok (verbatim (.mark .ellipsis) ['.', '.', '.'] (after.drop 2) e)
    else if c = '.' then .ok (verbatim (.mark .dot) ['.'] after e)
    else .ok (singleStep c after e) := by
  unfold step
  by_cases hspace : Lexeme.isSpace c = true
  · rw [if_pos hspace, if_pos hspace]
  rw [if_neg hspace, if_neg hspace]
  split
  · rw [if_pos ⟨rfl, rfl⟩]
  · next inside _ =>
    rw [if_neg (by simp), if_pos ⟨rfl, rfl⟩]
    rfl
  · rfl
  · rfl
  · rfl
  · next hline hblock =>
    have hhead : ∀ d, after.head? = some d → ∃ tail, after = d :: tail := fun d => by
      cases after <;> simp
    rw [if_neg fun hd => (hhead _ hd.2).elim hline, if_neg fun hd => (hhead _ hd.2).elim hblock]
    rfl
  · rfl
  · rfl
  · rfl
  · next harrow =>
    have hhead : ¬ ('=' = '=' ∧ after.head? = some '>') := by
      cases after with
      | nil => simp
      | cons d tail =>
        rintro ⟨-, hd⟩
        exact harrow tail (by simpa using hd)
    rw [if_neg (by simp), if_neg (by simp), if_neg (by simp), if_neg (by simp), if_neg (by simp),
      if_neg (by simp), if_neg (by simp), if_neg hhead, if_pos rfl]
  · next hdouble hsingle htick hslash hopen hclose hequals _ _ _ =>
    have hcomment : ∀ d, ¬ (c = '/' ∧ after.head? = some d) := fun d hc => hslash hc.1
    have hquote : ¬ (c = '"' ∨ c = '\x27') := fun hc => hc.elim hdouble hsingle
    have harrow : ¬ (c = '=' ∧ after.head? = some '>') := fun hc => hequals hc.1
    rw [if_neg (hcomment '/'), if_neg (hcomment '*'), if_neg hquote, if_neg htick, if_neg hslash,
      if_neg hopen, if_neg hclose, if_neg harrow, if_neg hequals]
    by_cases hnumeral : startsNumeral c after = true
    · rw [if_pos hnumeral, if_pos hnumeral]
    rw [if_neg hnumeral, if_neg hnumeral]
    by_cases hname : Lexeme.startsName c = true
    · rw [if_pos hname, if_pos hname]
    rw [if_neg hname, if_neg hname]
    split
    · rw [if_pos ⟨rfl, rfl⟩]
      rfl
    · next hdots =>
      rw [if_neg, if_pos rfl]
      rintro ⟨-, htake⟩
      match after, htake with
      | _ :: _ :: rest, htake =>
        obtain ⟨rfl, rfl⟩ : _ ∧ _ := by simpa using htake
        exact hdots rest rfl
    · next hdot _ =>
      rw [if_neg fun hc => hdot hc.1, if_neg hdot]

/-- The kinds of characters that end some lexeme in front of them, or go on with it. -/
def boundaries : List (Char → Bool) :=
  [Lexeme.continuesName, Lexeme.continuesNumeral, CharacterClass.isAlphanumeric,
    Lexeme.staysOnLine, CharacterClass.isDigit, (· == '/'), (· == '*'), (· == '>'), (· == '.')]

/-- What may stand in the place of the rest of a text, as far as the lexeme before it shows. -/
structure Joint (more more' : List Char) : Prop where
  /-- The first characters are alike. -/
  head : ∀ P ∈ boundaries, more'.head?.any P = more.head?.any P
  /-- Neither goes on with an ellipsis, or both do. -/
  dots : more'.take 2 = ['.', '.'] ↔ more.take 2 = ['.', '.']

variable {a r : List Char}

theorem Joint.any_head?_eq (hjoint : Joint more more') {P : Char → Bool} (hP : P ∈ boundaries) :
    (a ++ more').head?.any P = (a ++ more).head?.any P := by
  cases a with
  | cons => rfl
  | nil => exact hjoint.head P hP

theorem Joint.head?_eq (hjoint : Joint more more') {d : Char} (hd : (· == d) ∈ boundaries) :
    (a ++ more').head? = some d ↔ (a ++ more).head? = some d := by
  have htell : ∀ text : List Char, text.head? = some d ↔ text.head?.any (· == d) = true := by
    intro text
    cases text <;> simp
  rw [htell, htell, hjoint.any_head?_eq hd]

/-- A stretch of characters of one kind ends where it did. -/
theorem Joint.span_eq (hjoint : Joint more more') {P : Char → Bool} (hP : P ∈ boundaries)
    (hdrop : (a ++ more).dropWhile P = r ++ more) :
    (a ++ more').takeWhile P = (a ++ more).takeWhile P ∧
      (a ++ more').dropWhile P = r ++ more' := by
  have hcut : a = (a ++ more).takeWhile P ++ r := by
    refine List.append_cancel_right (?_ : a ++ more = _ ++ more)
    rw [List.append_assoc, ← hdrop, List.takeWhile_append_dropWhile]
  have hinside : ∀ d ∈ (a ++ more).takeWhile P, P d = true :=
    List.all_eq_true.1 List.all_takeWhile
  generalize (a ++ more).takeWhile P = front at hcut hinside ⊢
  subst hcut
  have hstop : (r ++ more').head?.any P = false := by
    rw [hjoint.any_head?_eq hP, ← hdrop]
    have hhead := List.head?_dropWhile_not P (front ++ r ++ more)
    cases hlist : (front ++ r ++ more).dropWhile P with
    | nil => rfl
    | cons d rest =>
      rw [hlist] at hhead
      simpa using hhead
  rw [List.append_assoc, List.takeWhile_append_of_pos hinside, List.dropWhile_append_of_pos hinside]
  cases hlist : r ++ more' with
  | nil => simp
  | cons d rest =>
    rw [hlist] at hstop
    have hd : P d = false := by simpa using hstop
    simp [hd]

/-- A token has no partner further on its line: a quote that is not closed, or a slash that begins
no regular expression. -/
structure StandsAlone (previous : Option Token) (t : Token) (after : List Char) : Prop where
  quote : t.kind = .operator → ∀ q, q = '"' ∨ q = '\x27' → t.lexeme = String.ofList [q] →
    Lexeme.quotedBody q after = none
  slash : t.kind = .mark .slash → regexMayFollow previous = true →
    Lexeme.regexBody false after = none

/-- The same step in front of another rest. -/
def Step.onto (s : Step) (rest : List Char) : Step := { s with rest := rest }

theorem quoteStep_onto (hquote : c = '"' ∨ c = '\x27')
    (hrest : (quoteStep c (a ++ more) e).rest = r ++ more)
    (halone : ∀ t, (quoteStep c (a ++ more) e).token? h = some t →
      StandsAlone p t (r ++ more) → StandsAlone p t (r ++ more')) :
    quoteStep c (a ++ more') e = (quoteStep c (a ++ more) e).onto (r ++ more') := by
  cases hbody : Lexeme.quotedBody c (a ++ more) with
  | none =>
    simp only [quoteStep, hbody, verbatim] at hrest halone ⊢
    obtain rfl : a = r := List.append_cancel_right hrest
    have hnone : Lexeme.quotedBody c (a ++ more') = none := by
      refine (halone _ rfl ⟨fun _ q _ hq => ?_, fun hk => by cases hk⟩).quote rfl c hquote rfl
      obtain rfl : c = q := by simpa using String.ofList_injective hq
      exact hbody
    rw [hnone]
    rfl
  | some found =>
    obtain ⟨body, rest⟩ := found
    simp only [quoteStep, hbody] at hrest ⊢
    have hcut := Lexeme.quotedBody_append hbody
    rw [hrest, ← List.cons_append, ← List.append_assoc] at hcut
    obtain rfl := List.append_cancel_right hcut
    have hplain : c ≠ '\\' := by
      rcases hquote with rfl | rfl <;> decide
    have hbody' := Lexeme.quotedBody_replace hplain hbody (r ++ more')
    rw [List.append_assoc, List.cons_append, hbody']
    rfl

theorem templateStep_onto {opened : Position} {lead : Char}
    (hstep : templateStep opened lead (a ++ more) e = .ok s) (hrest : s.rest = r ++ more) :
    templateStep opened lead (a ++ more') e = .ok (s.onto (r ++ more')) := by
  cases hbody : Lexeme.templateBody (a ++ more) with
  | none => simp [templateStep, hbody] at hstep
  | some found =>
    obtain ⟨body, ending, rest⟩ := found
    simp only [templateStep, hbody, Except.ok.injEq] at hstep
    subst hstep
    simp only at hrest
    have hcut := Lexeme.templateBody_append hbody
    rw [hrest, ← List.append_assoc] at hcut
    obtain rfl := List.append_cancel_right hcut
    have hbody' := Lexeme.templateBody_replace hbody (r ++ more')
    rw [List.append_assoc, templateStep, hbody']
    rfl

theorem closeBraceStep_onto (hstep : closeBraceStep h (a ++ more) e = .ok s)
    (hrest : s.rest = r ++ more) :
    closeBraceStep h (a ++ more') e = .ok (s.onto (r ++ more')) := by
  match e with
  | [] => simp [closeBraceStep] at hstep
  | ⟨.block, _⟩ :: _ =>
    simp only [closeBraceStep, Except.ok.injEq] at hstep
    subst hstep
    obtain rfl : a = r := List.append_cancel_right hrest
    rfl
  | ⟨.substitution, opened⟩ :: _ => exact templateStep_onto hstep hrest

theorem slashStep_onto (hjoint : Joint more more')
    (hrest : (slashStep p (a ++ more) e).rest = r ++ more)
    (halone : ∀ t, (slashStep p (a ++ more) e).token? h = some t →
      StandsAlone p t (r ++ more) → StandsAlone p t (r ++ more')) :
    slashStep p (a ++ more') e = (slashStep p (a ++ more) e).onto (r ++ more') := by
  by_cases hmay : regexMayFollow p = true
  · cases hbody : Lexeme.regexBody false (a ++ more) with
    | none =>
      simp only [slashStep, hmay, ↓reduceIte, hbody, verbatim] at hrest halone ⊢
      obtain rfl : a = r := List.append_cancel_right hrest
      have hnone : Lexeme.regexBody false (a ++ more') = none :=
        (halone _ rfl ⟨by simp, fun _ _ => hbody⟩).slash rfl hmay
      rw [hnone]
      rfl
    | some found =>
      obtain ⟨body, rest⟩ := found
      simp only [slashStep, hmay, ↓reduceIte, hbody, verbatim] at hrest ⊢
      have hcut := Lexeme.regexBody_append hbody
      -- The flags end where they did.
      obtain ⟨flags, hflags⟩ : ∃ flags, rest = flags ++ more := by
        have hsuffix : more <:+ rest := (List.suffix_append r more).trans
          (hrest ▸ List.dropWhile_suffix CharacterClass.isAlphanumeric)
        obtain ⟨flags, hflags⟩ := hsuffix
        exact ⟨flags, hflags.symm⟩
      rw [hflags] at hrest hcut ⊢
      rw [← List.cons_append, ← List.append_assoc] at hcut
      obtain rfl := List.append_cancel_right hcut
      obtain ⟨htake, hdrop⟩ := hjoint.span_eq (P := CharacterClass.isAlphanumeric)
        (by simp [boundaries]) hrest
      have hbody' := Lexeme.regexBody_replace hbody (flags ++ more')
      rw [List.append_assoc, List.cons_append, hbody']
      simp only [htake, hdrop, Step.onto]
  · simp only [slashStep, hmay, Bool.false_eq_true, ↓reduceIte, verbatim] at hrest ⊢
    obtain rfl : a = r := List.append_cancel_right hrest
    rfl

theorem startsNumeral_onto (hjoint : Joint more more') :
    startsNumeral c (a ++ more') = startsNumeral c (a ++ more) := by
  unfold startsNumeral
  rw [hjoint.any_head?_eq (by simp [boundaries])]

theorem dots_onto (hjoint : Joint more more') :
    (a ++ more').take 2 = ['.', '.'] ↔ (a ++ more).take 2 = ['.', '.'] := by
  match a with
  | [] => exact hjoint.dots
  | [d] =>
    have hhead := hjoint.head?_eq (a := []) (d := '.') (by simp [boundaries])
    cases more <;> cases more' <;> simp_all
  | _ :: _ :: _ => rfl

/-- A lexeme that is not looked for in what follows it. -/
theorem verbatim_onto {kind : TokenKind} {lexeme : List Char}
    (hrest : (verbatim kind lexeme (a ++ more) e).rest = r ++ more) :
    verbatim kind lexeme (a ++ more') e =
      (verbatim kind lexeme (a ++ more) e).onto (r ++ more') := by
  obtain rfl : a = r := List.append_cancel_right hrest
  rfl

theorem spaceStep_onto (hrest : (skipped [c] (a ++ more) e).rest = r ++ more) :
    skipped [c] (a ++ more') e = (skipped [c] (a ++ more) e).onto (r ++ more') := by
  obtain rfl : a = r := List.append_cancel_right hrest
  rfl

theorem lineCommentStep_onto (hjoint : Joint more more')
    (hrest : (a ++ more).dropWhile Lexeme.staysOnLine = r ++ more) :
    skipped ('/' :: (a ++ more').takeWhile Lexeme.staysOnLine)
        ((a ++ more').dropWhile Lexeme.staysOnLine) e =
      (skipped ('/' :: (a ++ more).takeWhile Lexeme.staysOnLine)
        ((a ++ more).dropWhile Lexeme.staysOnLine) e).onto (r ++ more') := by
  obtain ⟨htake, hdrop⟩ := hjoint.span_eq (P := Lexeme.staysOnLine) (by simp [boundaries]) hrest
  rw [htake, hdrop]
  rfl

/-- A block comment that begins in front of the rest ends there as well. -/
theorem blockCommentStep_onto {body rest : List Char} (hstar : (a ++ more).head? = some '*')
    (hbody : Lexeme.blockComment (a ++ more).tail = some (body, rest)) (hrest : rest = r ++ more)
    (hlength : body.length + 4 ≤ a.length + 1) :
    Lexeme.blockComment (a ++ more').tail = some (body, r ++ more') := by
  obtain ⟨b, rfl⟩ : ∃ b, a = '*' :: b := by
    cases a with
    | nil => simp at hlength
    | cons d b => exact ⟨b, by simpa using hstar⟩
  have hcut := Lexeme.blockComment_append hbody
  rw [hrest, List.cons_append, List.tail_cons, ← List.cons_append, ← List.cons_append,
    ← List.append_assoc] at hcut
  obtain rfl := List.append_cancel_right hcut
  have hbody' := Lexeme.blockComment_replace hbody (r ++ more')
  rw [List.cons_append, List.tail_cons, List.append_assoc, List.cons_append, List.cons_append,
    hbody']

theorem arrowStep_onto (hgreater : (a ++ more).head? = some '>')
    (hrest : (a ++ more).tail = r ++ more) (hlength : 2 ≤ a.length + 1) :
    verbatim (.mark .arrow) ['=', '>'] (a ++ more').tail e =
      (verbatim (.mark .arrow) ['=', '>'] (a ++ more).tail e).onto (r ++ more') := by
  obtain ⟨b, rfl⟩ : ∃ b, a = '>' :: b := by
    cases a with
    | nil => simp at hlength
    | cons d b => exact ⟨b, by simpa using hgreater⟩
  exact verbatim_onto hrest

theorem ellipsisStep_onto (hrest : (a ++ more).drop 2 = r ++ more) (hlength : 3 ≤ a.length + 1) :
    verbatim (.mark .ellipsis) ['.', '.', '.'] ((a ++ more').drop 2) e =
      (verbatim (.mark .ellipsis) ['.', '.', '.'] ((a ++ more).drop 2) e).onto (r ++ more') := by
  obtain ⟨d, d', b, rfl⟩ : ∃ d d' b, a = d :: d' :: b := by
    rcases a with _ | ⟨d, _ | ⟨d', b⟩⟩
    · simp at hlength
    · simp at hlength
    · exact ⟨d, d', b, rfl⟩
  exact verbatim_onto hrest

theorem numeralStep_onto (hjoint : Joint more more')
    (hrest : (a ++ more).dropWhile Lexeme.continuesNumeral = r ++ more) :
    verbatim .number (c :: (a ++ more').takeWhile Lexeme.continuesNumeral)
        ((a ++ more').dropWhile Lexeme.continuesNumeral) e =
      (verbatim .number (c :: (a ++ more).takeWhile Lexeme.continuesNumeral)
        ((a ++ more).dropWhile Lexeme.continuesNumeral) e).onto (r ++ more') := by
  obtain ⟨htake, hdrop⟩ :=
    hjoint.span_eq (P := Lexeme.continuesNumeral) (by simp [boundaries]) hrest
  rw [htake, hdrop]
  rfl

theorem nameStep_onto (hjoint : Joint more more') (hrest : (nameStep c (a ++ more) e).rest = r ++ more) :
    nameStep c (a ++ more') e = (nameStep c (a ++ more) e).onto (r ++ more') := by
  obtain ⟨htake, hdrop⟩ := hjoint.span_eq (P := Lexeme.continuesName) (by simp [boundaries]) hrest
  simp only [nameStep, htake, hdrop]
  rfl

theorem singleStep_onto (hrest : (singleStep c (a ++ more) e).rest = r ++ more) :
    singleStep c (a ++ more') e = (singleStep c (a ++ more) e).onto (r ++ more') := by
  unfold singleStep at hrest ⊢
  split at hrest <;> exact verbatim_onto hrest

/-- Two choices by the same condition, of which the second goes on as the first does. -/
theorem ite_onto {P : Prop} [Decidable P] {x y x' y' : Except Fault Step} {t : Step}
    (hstep : (if P then x else y) = .ok s) (hthen : P → x = .ok s → x' = .ok t)
    (helse : ¬P → y = .ok s → y' = .ok t) : (if P then x' else y') = .ok t := by
  split at hstep
  · next hP => rw [if_pos hP, hthen hP hstep]
  · next hP => rw [if_neg hP, helse hP hstep]

/-- A step does the same in front of another rest that looks the same from the lexeme. -/
theorem step_onto (hstep : step p e h c (a ++ more) = .ok s) (hrest : s.rest = r ++ more)
    (hjoint : Joint more more')
    (halone : ∀ t, s.token? h = some t → StandsAlone p t (r ++ more) →
      StandsAlone p t (r ++ more')) :
    step p e h c (a ++ more') = .ok (s.onto (r ++ more')) := by
  have hslash := hjoint.head?_eq (a := a) (d := '/') (by simp [boundaries])
  have hstar := hjoint.head?_eq (a := a) (d := '*') (by simp [boundaries])
  have hgreater := hjoint.head?_eq (a := a) (d := '>') (by simp [boundaries])
  -- A lexeme lies in front of the rest as a whole.
  have hlength : s.lexeme.length ≤ a.length + 1 := by
    have hcut := congrArg List.length (cuts_step hstep).2
    rw [hrest] at hcut
    simp only [List.length_append, List.length_cons] at hcut
    omega
  rw [step_eq] at hstep ⊢
  simp only [hslash, hstar, hgreater, startsNumeral_onto hjoint, dots_onto hjoint]
  -- The cases come in the order in which the first characters are looked at.
  refine ite_onto hstep (fun _ hs => ?space) fun _ hstep => ?_
  case space =>
    cases hs
    exact congrArg Except.ok (spaceStep_onto hrest)
  refine ite_onto hstep (fun _ hs => ?lineComment) fun _ hstep => ?_
  case lineComment =>
    cases hs
    exact congrArg Except.ok (lineCommentStep_onto hjoint hrest)
  refine ite_onto hstep (fun hc hs => ?blockComment) fun _ hstep => ?_
  case blockComment =>
    split at hs
    · next body rest hbody =>
      cases hs
      have hlong : body.length + 4 ≤ a.length + 1 := by
        simp only [skipped, List.length_cons, List.length_append, List.length_nil] at hlength
        omega
      rw [blockCommentStep_onto hc.2 hbody hrest hlong]
      rfl
    · cases hs
  refine ite_onto hstep (fun hquote hs => ?quote) fun _ hstep => ?_
  case quote =>
    cases hs
    exact congrArg Except.ok (quoteStep_onto hquote hrest halone)
  refine ite_onto hstep (fun _ hs => templateStep_onto hs hrest) fun _ hstep => ?_
  refine ite_onto hstep (fun _ hs => ?slash) fun _ hstep => ?_
  case slash =>
    cases hs
    exact congrArg Except.ok (slashStep_onto hjoint hrest halone)
  refine ite_onto hstep (fun _ hs => ?openBrace) fun _ hstep => ?_
  case openBrace =>
    cases hs
    exact congrArg Except.ok (verbatim_onto hrest)
  refine ite_onto hstep (fun _ hs => closeBraceStep_onto hs hrest) fun _ hstep => ?_
  refine ite_onto hstep (fun hc hs => ?arrow) fun _ hstep => ?_
  case arrow =>
    cases hs
    exact congrArg Except.ok (arrowStep_onto hc.2 hrest hlength)
  refine ite_onto hstep (fun _ hs => ?equals) fun _ hstep => ?_
  case equals =>
    cases hs
    exact congrArg Except.ok (verbatim_onto hrest)
  refine ite_onto hstep (fun _ hs => ?numeral) fun _ hstep => ?_
  case numeral =>
    cases hs
    exact congrArg Except.ok (numeralStep_onto hjoint hrest)
  refine ite_onto hstep (fun _ hs => ?name) fun _ hstep => ?_
  case name =>
    cases hs
    exact congrArg Except.ok (nameStep_onto hjoint hrest)
  refine ite_onto hstep (fun _ hs => ?ellipsis) fun _ hstep => ?_
  case ellipsis =>
    cases hs
    exact congrArg Except.ok (ellipsisStep_onto hrest hlength)
  refine ite_onto hstep (fun _ hs => ?dot) fun _ hstep => ?single
  case dot =>
    cases hs
    exact congrArg Except.ok (verbatim_onto hrest)
  case single =>
    cases hstep
    exact congrArg Except.ok (singleStep_onto hrest)

/-- The same place in front of another rest. -/
def Scan.onto (s : Scan) (rest : List Char) : Scan := { s with rest := rest }

/-- The tokens in front of a joint that have no partner behind it on the one side have none on the
other. -/
def KeepsAlone (s : Scan) (ts : List Token) (a more more' : List Char) : Prop :=
  ∀ us t vs b, ts = us ++ t :: vs → b <:+ a → t.stop + b.length = s.here.offset + a.length →
    StandsAlone (us.getLast?.or s.previous) t (b ++ more) →
    StandsAlone (us.getLast?.or s.previous) t (b ++ more')

/-- A run does the same in front of another rest that looks the same from its end. -/
theorem Reads.onto {s t : Scan} {ts : List Token} (hrun : Reads s ts t)
    (hrest : s.rest = a ++ t.rest) (hjoint : Joint t.rest more')
    (halone : KeepsAlone s ts a t.rest more') : Reads (s.onto (a ++ more')) ts (t.onto more') := by
  induction hrun generalizing a with
  | done s =>
    obtain rfl : a = [] := List.append_left_eq_self.1 hrest.symm
    exact .done _
  | @step p e h c after st ts t first others ih =>
    obtain ⟨r, hr, -⟩ := others.passes
    have hcut := (cuts_step first).2
    have hne := List.length_pos_iff.2 (cuts_step first).1
    simp only [Step.next] at hr
    simp only at hrest
    obtain ⟨b, rfl, hafter⟩ : ∃ b, a = c :: b ∧ after = b ++ t.rest := by
      cases a with
      | nil =>
        have hlength := congrArg List.length hcut
        rw [hrest, hr] at hlength
        simp only [List.length_append, List.nil_append] at hlength
        omega
      | cons d b =>
        obtain ⟨rfl, rfl⟩ := List.cons.inj hrest
        exact ⟨b, rfl, rfl⟩
    subst hafter
    have hcut' : st.lexeme ++ r = c :: b := by
      rw [hr, ← List.append_assoc, ← List.cons_append] at hcut
      exact List.append_cancel_right hcut
    have hsuffix : r <:+ c :: b := ⟨st.lexeme, hcut'⟩
    have hlength : st.lexeme.length + r.length = b.length + 1 := by
      simpa using congrArg List.length hcut'
    have hfirst := step_onto first hr hjoint fun u hu => by
      refine halone [] u ts r ?_ hsuffix ?_
      · simp [hu]
      · have := (Step.stop_token first hu).2.1
        simp only [this, Step.next, Position.offset_advance, List.length_cons]
        omega
    refine Reads.step (s := st.onto (r ++ more')) hfirst
      (ih hr hjoint fun us u vs b' hts hb' hstop => ?_)
    have := halone ((st.token? h).toList ++ us) u vs b' (by rw [hts, List.append_assoc])
      (hb'.trans hsuffix) (by
        simp only [Step.next, Position.offset_advance] at hstop
        simp only [List.length_cons]
        omega)
    rwa [getLast?_toList_append] at this

end Lexer

end ComponentRegistry
