import ComponentRegistry.Proofs.Lexing.Locality

/-! # Carriage returns at the ends of lines

A carriage return in front of every line feed changes no lexeme but those that go over the end of
a line: comments, templates, and strings that go on behind an escaped line feed. The last alone are
cut off, since what is escaped then is the carriage return.
-/

namespace ComponentRegistry

namespace Lines

/-- A text with a carriage return in front of every line feed. -/
def crlf : List Char → List Char
  | [] => []
  | c :: rest => if c = '\n' then '\r' :: '\n' :: crlf rest else c :: crlf rest

variable {c d : Char} {text : List Char}

@[simp] theorem crlf_nil : crlf [] = [] := rfl

theorem crlf_newline (text : List Char) : crlf ('\n' :: text) = '\r' :: '\n' :: crlf text := rfl

theorem crlf_cons (hc : c ≠ '\n') (text : List Char) : crlf (c :: text) = c :: crlf text :=
  if_neg hc

theorem crlf_append (front back : List Char) : crlf (front ++ back) = crlf front ++ crlf back := by
  induction front with
  | nil => rfl
  | cons c front ih =>
    simp only [List.cons_append, crlf, ih]
    split <;> rfl

theorem crlf_of_not_mem (h : '\n' ∉ text) : crlf text = text := by
  induction text with
  | nil => rfl
  | cons c text ih =>
    simp only [List.mem_cons, not_or] at h
    rw [crlf_cons (Ne.symm h.1), ih h.2]

theorem count_crlf (text : List Char) : (crlf text).count '\n' = text.count '\n' := by
  induction text with
  | nil => rfl
  | cons c text ih =>
    by_cases hc : c = '\n'
    · subst hc
      rw [crlf_newline, List.count_cons_of_ne (by decide), List.count_cons_self,
        List.count_cons_self, ih]
    · rw [crlf_cons hc, List.count_cons_of_ne hc, List.count_cons_of_ne hc, ih]

theorem length_le_crlf (text : List Char) : text.length ≤ (crlf text).length := by
  induction text with
  | nil => exact Nat.le_refl _
  | cons c text ih =>
    rw [crlf]
    split <;> simp only [List.length_cons] <;> omega

/-- The first character is another only at the end of a line. -/
theorem any_head?_crlf {P : Char → Bool} (hline : P '\n' = false) (hreturn : P '\r' = false)
    (text : List Char) : (crlf text).head?.any P = text.head?.any P := by
  cases text with
  | nil => rfl
  | cons c text =>
    by_cases hc : c = '\n'
    · subst hc
      simp [crlf_newline, hline, hreturn]
    · rw [crlf_cons hc]
      rfl

theorem head?_crlf (hline : d ≠ '\n') (hreturn : d ≠ '\r') (text : List Char) :
    (crlf text).head? = some d ↔ text.head? = some d := by
  have htell : ∀ text : List Char, text.head? = some d ↔ text.head?.any (· == d) = true := by
    intro text
    cases text <;> simp
  rw [htell, htell, any_head?_crlf (P := (· == d)) (beq_false_of_ne hline.symm)
    (beq_false_of_ne hreturn.symm)]

/-- So with the first two characters. -/
theorem crlf_eq_cons_cons {d' : Char} (hd : d ≠ '\n' ∧ d ≠ '\r') (hd' : d' ≠ '\n' ∧ d' ≠ '\r') :
    (∃ more, crlf text = d :: d' :: more) ↔ ∃ more, text = d :: d' :: more := by
  constructor
  · rintro ⟨more, hmore⟩
    have hfirst := (head?_crlf hd.1 hd.2 text).1 (by rw [hmore]; rfl)
    obtain ⟨rest, rfl⟩ := List.head?_eq_some_iff.1 hfirst
    rw [crlf_cons hd.1] at hmore
    have hsecond := (head?_crlf hd'.1 hd'.2 rest).1 (by rw [(List.cons.inj hmore).2]; rfl)
    obtain ⟨others, rfl⟩ := List.head?_eq_some_iff.1 hsecond
    exact ⟨others, rfl⟩
  · rintro ⟨more, rfl⟩
    exact ⟨crlf more, by rw [crlf_cons hd.1, crlf_cons hd'.1]⟩

/-- A stretch of characters of one kind ends where it did. -/
theorem span_crlf {P : Char → Bool} (hline : P '\n' = false) (hreturn : P '\r' = false)
    (text : List Char) :
    (crlf text).takeWhile P = text.takeWhile P ∧
      (crlf text).dropWhile P = crlf (text.dropWhile P) := by
  induction text with
  | nil => exact ⟨rfl, rfl⟩
  | cons c text ih =>
    by_cases hc : c = '\n'
    · subst hc
      simp [crlf_newline, hline, hreturn]
    · rw [crlf_cons hc]
      cases hP : P c with
      | false => simp [hP, crlf_cons hc]
      | true => simp [hP, ih.1, ih.2]

end Lines

namespace Lexeme

open Lines

theorem blockComment_crlf (text : List Char) :
    blockComment (crlf text) =
      (blockComment text).map fun (body, rest) => (crlf body, crlf rest) := by
  fun_induction blockComment text with
  | case1 => rfl
  | case2 rest =>
    rw [crlf_cons (by decide), crlf_cons (by decide)]
    rfl
  | case3 c rest hend ih =>
    by_cases hc : c = '\n'
    · subst hc
      simp [crlf_newline, blockComment, ih, Option.map_map, Function.comp_def]
    · have hend' : ∀ rest', c = '*' → crlf rest ≠ '/' :: rest' := by
        intro rest' hstar heq
        have hslash := (head?_crlf (d := '/') (by decide) (by decide) rest).1 (by rw [heq]; rfl)
        obtain ⟨tail, rfl⟩ := List.head?_eq_some_iff.1 hslash
        exact hend tail hstar rfl
      rw [crlf_cons hc, blockComment.eq_3 _ _ hend', ih]
      simp [Option.map_map, Function.comp_def, crlf_cons hc]

/-- A string on one line is the same string. -/
theorem quotedBody_crlf {quote : Char} (hquote : quote ≠ '\\') (hline : quote ≠ '\n')
    {text body rest : List Char} (h : quotedBody quote text = some (body, rest))
    (hbody : '\n' ∉ body) : quotedBody quote (crlf text) = some (body, crlf rest) := by
  rw [← quotedBody_append h, crlf_append, crlf_of_not_mem hbody, crlf_cons hline]
  exact quotedBody_replace hquote h _

theorem quotedBody_crlf_none {quote : Char} (hreturn : quote ≠ '\r') {text : List Char}
    (h : quotedBody quote text = none) : quotedBody quote (crlf text) = none := by
  fun_induction quotedBody quote text with
  | case1 => rfl
  | case2 text => simp [crlf_newline, quotedBody, Ne.symm hreturn]
  | case3 c text ih =>
    rw [crlf_cons (by decide)]
    by_cases hc : c = '\n'
    · subst hc
      simp [crlf_newline, quotedBody]
    · rw [crlf_cons hc, quotedBody, ih (by simpa using h)]
      rfl
  | case4 => cases h
  | case5 c text hline hescape hne ih =>
    have hbody := ih (by simpa using h)
    rw [crlf_cons hline]
    by_cases hslash : c = '\\'
    · cases text with
      | nil => simp [hslash, quotedBody, Ne.symm, show ¬ '\\' = quote from hslash ▸ hne]
      | cons d text => exact absurd rfl (hescape d text hslash)
    · rw [quotedBody.eq_4 _ _ _ hline fun _ _ heq => absurd heq hslash, if_neg hne, hbody]
      rfl

theorem templateBody_crlf (text : List Char) :
    templateBody (crlf text) =
      (templateBody text).map fun (body, ending, rest) => (crlf body, ending, crlf rest) := by
  fun_induction templateBody text with
  | case1 => rfl
  | case2 c text ih =>
    rw [crlf_cons (by decide)]
    by_cases hc : c = '\n'
    · subst hc
      simp [crlf_newline, templateBody, ih, Option.map_map, Function.comp_def,
        crlf_cons (c := '\\') (by decide)]
    · simp [crlf_cons hc, templateBody, ih, Option.map_map, Function.comp_def,
        crlf_cons (c := '\\') (by decide)]
  | case3 text => rfl
  | case4 text => rfl
  | case5 c text hescape hclose hopen ih =>
    by_cases hc : c = '\n'
    · subst hc
      simp [crlf_newline, templateBody, ih, Option.map_map, Function.comp_def]
    · have hopen' : ∀ rest', c = '$' → crlf text ≠ '\x7b' :: rest' := by
        intro rest' hdollar heq
        have hbrace := (head?_crlf (d := '\x7b') (by decide) (by decide) text).1 (by rw [heq]; rfl)
        obtain ⟨tail, rfl⟩ := List.head?_eq_some_iff.1 hbrace
        exact hopen tail hdollar rfl
      rw [crlf_cons hc]
      by_cases hslash : c = '\\'
      · cases text with
        | nil => simp [hslash, templateBody]
        | cons d text => exact absurd rfl (hescape d text hslash)
      · rw [templateBody.eq_5 _ _ (fun _ _ heq => absurd heq hslash) hclose hopen', ih]
        simp [Option.map_map, Function.comp_def, crlf_cons hc]

theorem regexBody_crlf (inClass : Bool) (text : List Char) :
    regexBody inClass (crlf text) =
      (regexBody inClass text).map fun (body, rest) => (body, crlf rest) := by
  fun_induction regexBody inClass text with
  | case1 => rfl
  | case2 => simp [crlf_newline, regexBody]
  | case3 => rfl
  | case4 => simp [crlf_newline, crlf_cons (c := '\\') (by decide), regexBody]
  | case5 inClass c text hline ih =>
    have hc : c ≠ '\n' := fun heq => hline heq
    rw [crlf_cons (by decide), crlf_cons hc, regexBody.eq_5 _ _ _ hline, ih]
    simp [Option.map_map, Function.comp_def]
  | case6 inClass c text hline hlone hescape hplain hclose =>
    obtain ⟨rfl, rfl⟩ := hclose
    simp [crlf_cons (c := '/') (by decide), regexBody]
  | case7 inClass c text hline hlone hescape hplain hclose ih =>
    have hc : c ≠ '\n' := fun heq => hline heq
    have hslash : c ≠ '\\' := by
      rintro rfl
      cases text with
      | nil => exact hlone rfl rfl
      | cons d text => exact hplain d text rfl rfl
    rw [crlf_cons hc, regexBody.eq_6 _ _ _ hline (fun heq => absurd heq hslash)
      (fun _ heq => absurd heq hslash) (fun _ _ heq => absurd heq hslash), if_neg hclose, ih]
    simp [Option.map_map, Function.comp_def]

/-- A regular expression stays on its line. -/
theorem not_mem_regexBody {inClass : Bool} {text body rest : List Char}
    (h : regexBody inClass text = some (body, rest)) : '\n' ∉ body := by
  fun_induction regexBody inClass text generalizing body with
  | case1 => cases h
  | case2 => cases h
  | case3 => cases h
  | case4 => cases h
  | case5 inClass c text hline ih =>
    obtain ⟨⟨b, a⟩, hb, heq⟩ := Option.map_eq_some_iff.1 h
    obtain ⟨rfl, rfl⟩ := Prod.mk.inj heq
    have hc : '\n' ≠ c := fun heq => hline heq.symm
    simp [hc, ih hb]
  | case6 =>
    obtain ⟨rfl, rfl⟩ : [] = body ∧ _ = rest := by simpa using h
    exact List.not_mem_nil
  | case7 inClass c text hline hlone hescape hplain hclose ih =>
    obtain ⟨⟨b, a⟩, hb, heq⟩ := Option.map_eq_some_iff.1 h
    obtain ⟨rfl, rfl⟩ := Prod.mk.inj heq
    have hc : '\n' ≠ c := fun heq => hline heq.symm
    simp [hc, ih hb]

end Lexeme

end ComponentRegistry
