import ComponentRegistry.Proofs.Lexing.CarriageReturn
import ComponentRegistry.Proofs.Lexing.Exchange
import ComponentRegistry.Proofs.Likeness.Basic

/-! # The tokens of a text with other line endings

A text with a carriage return in front of every line feed has the same tokens, on the same lines.
Step by step, the lexer takes the same lexemes off both texts; only a line feed between tokens takes
two steps, or none of the two where a comment has taken the carriage return with it.
-/

namespace ComponentRegistry

open Lines

/-- A place of a text, and the same place behind carriage returns. -/
def Position.Returned (text : List Char) (p p' : Position) : Prop :=
  ∃ passed, passed <+: text ∧ p = .advance .start passed ∧ p' = .advance .start (crlf passed)

/-- A token of a text, and the same token behind carriage returns. -/
structure Token.Returned (text : List Char) (t t' : Token) : Prop where
  kind : t'.kind = t.kind
  lexeme : t'.lexeme.toList = crlf t.lexeme.toList
  value : t'.value.toList = if t.kind = .template then crlf t.value.toList else t.value.toList
  /-- Only templates go over the end of a line. -/
  line : t.kind ≠ .template → '\n' ∉ t.lexeme.toList
  placed : ∃ passed, passed ++ t.lexeme.toList <+: text ∧ t.start = .advance .start passed ∧
    t'.start = .advance .start (crlf passed)

section Places

variable {text front front' : List Char} {p p' q q' : Position} {t t' u u' : Token}

theorem length_crlf_le_iff (h : front <+: text) (h' : front' <+: text) :
    (crlf front).length ≤ (crlf front').length ↔ front.length ≤ front'.length := by
  have hmono : ∀ {a b : List Char}, a <+: b →
      (crlf a).length + b.length ≤ (crlf b).length + a.length := by
    rintro a _ ⟨c, rfl⟩
    have := length_le_crlf c
    rw [crlf_append, List.length_append, List.length_append]
    omega
  rcases List.prefix_or_prefix_of_prefix h h' with hle | hle
  · have := hmono hle
    have := hle.length_le
    omega
  · have hone := hmono hle
    have := hle.length_le
    constructor
    · omega
    · intro heq
      exact hle.eq_of_length (by omega) ▸ Nat.le_refl _

theorem Position.Returned.offset_le_iff (h : p.Returned text p') (h' : q.Returned text q') :
    p'.offset ≤ q'.offset ↔ p.offset ≤ q.offset := by
  obtain ⟨passed, hpassed, rfl, rfl⟩ := h
  obtain ⟨passed', hpassed', rfl, rfl⟩ := h'
  simpa [Position.offset_advance, Position.start] using length_crlf_le_iff hpassed hpassed'

theorem Position.Returned.line_eq (h : p.Returned text p') : p'.line = p.line := by
  obtain ⟨passed, -, rfl, rfl⟩ := h
  rw [Position.line_advance, Position.line_advance, count_crlf]

theorem Token.Returned.start (h : t.Returned text t') : t.start.Returned text t'.start := by
  obtain ⟨passed, hpassed, hstart⟩ := h.placed
  exact ⟨passed, (List.prefix_append _ _).trans hpassed, hstart⟩

theorem Token.Returned.stop (h : t.Returned text t') :
    ∃ passed, passed <+: text ∧ t.stop = passed.length ∧ t'.stop = (crlf passed).length := by
  obtain ⟨passed, hpassed, hstart, hstart'⟩ := h.placed
  refine ⟨_, hpassed, ?_, ?_⟩
  · simp [Token.stop, hstart, Position.offset_advance, Position.start, ← String.length_toList]
  · simp [Token.stop, hstart', Position.offset_advance, Position.start, crlf_append,
      ← String.length_toList, h.lexeme]

theorem crlf_eq_iff {word : List Char} (hword : '\n' ∉ word) :
    crlf front = word ↔ front = word := by
  constructor
  · rintro rfl
    refine (crlf_of_not_mem fun hmem => hword ?_).symm
    rw [← List.count_pos_iff, count_crlf]
    exact List.count_pos_iff.2 hmem
  · rintro rfl
    exact crlf_of_not_mem hword

theorem Position.Returned.line_lt_iff (h : p.Returned text p') (h' : q.Returned text q') :
    p'.line < q'.line ↔ p.line < q.line := by
  rw [h.line_eq, h'.line_eq]

theorem Token.Returned.value_eq (h : t.Returned text t') (hkind : t.kind ≠ .template) :
    t'.value = t.value :=
  String.toList_inj.1 (by rw [h.value, if_neg hkind])

theorem Token.Returned.value_eq_iff (h : t.Returned text t') {word : String}
    (hword : '\n' ∉ word.toList) : t'.value = word ↔ t.value = word := by
  rw [← String.toList_inj, ← String.toList_inj, h.value]
  split
  · exact crlf_eq_iff hword
  · exact Iff.rfl

theorem Token.Returned.lexeme_eq (h : t.Returned text t') (hkind : t.kind ≠ .template) :
    t'.lexeme = t.lexeme :=
  String.toList_inj.1 (by rw [h.lexeme, crlf_of_not_mem (h.line hkind)])

theorem Token.Returned.stop_eq_iff (h : t.Returned text t') (h' : u.Returned text u') :
    t'.stop = u'.start.offset ↔ t.stop = u.start.offset := by
  obtain ⟨stop, hstop, hend, hend'⟩ := h.stop
  obtain ⟨start, hstart, hbegins, hbegins'⟩ := h'.start
  have hle := length_crlf_le_iff hstop hstart
  have hge := length_crlf_le_iff hstart hstop
  simp only [hend, hend', hbegins, hbegins', Position.offset_advance, Position.start, Nat.zero_add]
  omega

theorem Position.Returned.endOfInput (h : p.Returned text p') :
    (Token.endOfInput p).Returned text (Token.endOfInput p') := by
  obtain ⟨passed, hpassed, hp, hp'⟩ := h
  refine ⟨rfl, rfl, rfl, fun _ => List.not_mem_nil, passed, ?_, hp, hp'⟩
  rwa [show (Token.endOfInput p).lexeme.toList = [] from rfl, List.append_nil]

/-- The words that any token may stand for are on one line. -/
theorem not_mem_of_word {word : String} (h : word ∈ ["with", "assert", "require"]) :
    '\n' ∉ word.toList := by
  revert word
  decide

theorem ne_template_of_string {kind : TokenKind} (h : kind = .string) : kind ≠ .template := by
  rintro rfl
  cases h

/-- The grammar cannot tell a text from the one with carriage returns. -/
def Likeness.returned (text : List Char) : Likeness where
  place := Position.Returned text
  token := Token.Returned text
  line_lt := Position.Returned.line_lt_iff
  start := Token.Returned.start
  kind := Token.Returned.kind
  value := Token.Returned.value_eq
  word h _ hword := h.value_eq_iff (not_mem_of_word hword)
  lexeme h hkind := h.lexeme_eq (ne_template_of_string hkind)
  adjoins h h' _ := h.stop_eq_iff h'
  last := Position.Returned.endOfInput

end Places

namespace Lexer

/-- The same open brace. -/
def Enclosure.Returned (text : List Char) (x x' : Enclosure) : Prop :=
  x'.bracket = x.bracket ∧ x.opened.Returned text x'.opened

/-- What is left of a text. The carriage return of a line may have been taken. -/
def Remains (rest rest' : List Char) : Prop :=
  rest' = crlf rest ∨ ∃ after, rest = '\n' :: after ∧ rest' = '\n' :: crlf after

/-- The same lexeme, taken off both texts. Nothing is said of blanks and comments. -/
structure Step.Returned (text : List Char) (s s' : Step) : Prop where
  kind : s'.found.map Prod.fst = s.found.map Prod.fst
  value : ∀ k v, s.found = some (k, v) →
    s'.found = some (k, if k = .template then crlf v else v) ∧ s'.lexeme = crlf s.lexeme ∧
      (k ≠ .template → '\n' ∉ s.lexeme)
  rest : Remains s.rest s'.rest
  enclosures : List.Forall₂ (Enclosure.Returned text) s.enclosures s'.enclosures

section Steps

variable {text after rest lexeme : List Char} {p p' : Option Token} {h h' : Position}
  {e e' : List Enclosure} {c : Char} {kind : TokenKind}

theorem returned_skipped {lexeme' rest' : List Char} (hrest : Remains rest rest')
    (he : List.Forall₂ (Enclosure.Returned text) e e') :
    (skipped lexeme rest e).Returned text (skipped lexeme' rest' e') :=
  ⟨rfl, fun _ _ hfound => (nomatch hfound), hrest, he⟩

theorem returned_verbatim (hkind : kind ≠ .template) (hline : '\n' ∉ lexeme)
    (he : List.Forall₂ (Enclosure.Returned text) e e') :
    (verbatim kind lexeme rest e).Returned text (verbatim kind lexeme (crlf rest) e') := by
  refine ⟨rfl, fun k v hfound => ?_, .inl rfl, he⟩
  obtain ⟨rfl, rfl⟩ := Prod.mk.inj (Option.some.inj hfound)
  exact ⟨by rw [if_neg hkind]; rfl, (crlf_of_not_mem hline).symm, fun _ => hline⟩

theorem not_mem_takeWhile {P : Char → Bool} (hline : P '\n' = false) (after : List Char) :
    '\n' ∉ after.takeWhile P := fun hmem => by
  have hP : P '\n' = true := List.all_eq_true.1 List.all_takeWhile _ hmem
  rw [hline] at hP
  cases hP

theorem remains_of_line (after : List Char) :
    Remains (after.dropWhile Lexeme.staysOnLine) ((crlf after).dropWhile Lexeme.staysOnLine) := by
  induction after with
  | nil => exact .inl rfl
  | cons c after ih =>
    by_cases hc : c = '\n'
    · subst hc
      exact .inr ⟨after, rfl, rfl⟩
    · have hstays : Lexeme.staysOnLine c = true := by simp [Lexeme.staysOnLine, hc]
      rw [crlf_cons hc, List.dropWhile_cons_of_pos hstays, List.dropWhile_cons_of_pos hstays]
      exact ih

theorem returned_templateStep {opened opened' : Position} {lead : Char} (hlead : lead ≠ '\n')
    (ho : opened.Returned text opened') (he : List.Forall₂ (Enclosure.Returned text) e e') :
    (Likeness.returned text).Alike (Step.Returned text) (templateStep opened lead after e)
      (templateStep opened' lead (crlf after) e') := by
  unfold templateStep
  rw [Lexeme.templateBody_crlf]
  cases Lexeme.templateBody after with
  | none => exact .error ho
  | some read =>
    obtain ⟨body, ending, rest⟩ := read
    refine .ok ⟨rfl, fun k v hfound => ?_, .inl rfl, ?_⟩
    · obtain ⟨rfl, rfl⟩ := Prod.mk.inj (Option.some.inj hfound)
      refine ⟨rfl, ?_, fun hkind => absurd rfl hkind⟩
      have hdelimiter : crlf ending.delimiter = ending.delimiter := by cases ending <;> rfl
      simp only [List.cons_append, crlf_cons hlead, crlf_append, hdelimiter]
    · cases ending with
      | closed => exact he
      | substitution => exact .cons ⟨rfl, ho⟩ he

theorem returned_quoteStep (hc : c = '"' ∨ c = '\x27')
    (hstring : ∀ k v, (quoteStep c after e).found = some (k, v) → k = .string →
      '\n' ∉ (quoteStep c after e).lexeme)
    (he : List.Forall₂ (Enclosure.Returned text) e e') :
    (quoteStep c after e).Returned text (quoteStep c (crlf after) e') := by
  have hplain : c ≠ '\n' ∧ c ≠ '\r' ∧ c ≠ '\\' := by rcases hc with rfl | rfl <;> decide
  unfold quoteStep at hstring ⊢
  cases hbody : Lexeme.quotedBody c after with
  | none =>
    rw [Lexeme.quotedBody_crlf_none hplain.2.1 hbody]
    exact returned_verbatim (by simp) (by simpa using Ne.symm hplain.1) he
  | some read =>
    obtain ⟨body, rest⟩ := read
    rw [hbody] at hstring
    have hline := hstring _ _ rfl rfl
    have hplainBody : '\n' ∉ body := fun hmem => hline (by simp [hmem])
    rw [Lexeme.quotedBody_crlf hplain.2.2 hplain.1 hbody hplainBody]
    refine ⟨rfl, fun k v hfound => ?_, .inl rfl, he⟩
    obtain ⟨rfl, rfl⟩ := Prod.mk.inj (Option.some.inj hfound)
    exact ⟨rfl, (crlf_of_not_mem hline).symm, fun _ => hline⟩

theorem regexMayFollow_eq (hp : Option.Rel (Token.Returned text) p p') :
    regexMayFollow p' = regexMayFollow p := by
  cases hp with
  | none => rfl
  | @some t t' ht =>
    have hvalue : t.kind = .identifier → t'.value = t.value := fun hkind =>
      (Likeness.returned text).value ht (by simp [hkind])
    simp only [regexMayFollow, ht.kind]
    split <;> first | rfl | rw [hvalue ‹_›]

theorem returned_slashStep (hp : Option.Rel (Token.Returned text) p p')
    (he : List.Forall₂ (Enclosure.Returned text) e e') :
    (slashStep p after e).Returned text (slashStep p' (crlf after) e') := by
  have hread : (if regexMayFollow p' then Lexeme.regexBody false (crlf after) else none) =
      (if regexMayFollow p then Lexeme.regexBody false after else none).map fun read =>
        (read.1, crlf read.2) := by
    rw [regexMayFollow_eq hp, Lexeme.regexBody_crlf]
    split <;> rfl
  unfold slashStep
  rw [hread]
  cases hbody : (if regexMayFollow p then Lexeme.regexBody false after else none) with
  | none => exact returned_verbatim (by simp) (by simp) he
  | some read =>
    obtain ⟨body, rest⟩ := read
    have hregex : Lexeme.regexBody false after = some (body, rest) := by
      split at hbody
      · exact hbody
      · cases hbody
    obtain ⟨htake, hdrop⟩ :=
      span_crlf (P := CharacterClass.isAlphanumeric) (by decide) (by decide) rest
    simp only [Option.map_some, htake, hdrop]
    refine returned_verbatim (by simp) ?_ he
    simp [Lexeme.not_mem_regexBody hregex,
      not_mem_takeWhile (P := CharacterClass.isAlphanumeric) (by decide)]

theorem returned_closeBraceStep (hh : h.Returned text h')
    (he : List.Forall₂ (Enclosure.Returned text) e e') :
    (Likeness.returned text).Alike (Step.Returned text) (closeBraceStep h after e)
      (closeBraceStep h' (crlf after) e') := by
  cases he with
  | nil => exact .error hh
  | @cons x x' e e' hx he =>
    obtain ⟨bracket, opened⟩ := x
    obtain ⟨bracket', opened'⟩ := x'
    obtain ⟨hbracket, hopened⟩ := hx
    obtain rfl : bracket' = bracket := hbracket
    cases bracket' with
    | block => exact .ok (returned_verbatim (by simp) (by simp) he)
    | substitution => exact returned_templateStep (by decide) hopened he

/-- A lexeme that goes on for as long as characters are of one kind. -/
theorem returned_span {P : Char → Bool} (after : List Char) (hkind : kind ≠ .template)
    (hc : c ≠ '\n') (hline : P '\n' = false) (hreturn : P '\r' = false)
    (he : List.Forall₂ (Enclosure.Returned text) e e') :
    (verbatim kind (c :: after.takeWhile P) (after.dropWhile P) e).Returned text
      (verbatim kind (c :: (crlf after).takeWhile P) ((crlf after).dropWhile P) e') := by
  obtain ⟨htake, hdrop⟩ := span_crlf hline hreturn after
  rw [htake, hdrop]
  exact returned_verbatim hkind (by simp [Ne.symm hc, not_mem_takeWhile hline]) he

theorem returned_nameStep (hc : c ≠ '\n') (he : List.Forall₂ (Enclosure.Returned text) e e') :
    (nameStep c after e).Returned text (nameStep c (crlf after) e') := by
  have hkind : wordKind (c :: after.takeWhile Lexeme.continuesName) ≠ .template := by
    unfold wordKind
    split <;> simp
  have hword := (span_crlf (P := Lexeme.continuesName) (by decide) (by decide) after).1
  have hspan := returned_span (P := Lexeme.continuesName) after hkind hc (by decide) (by decide) he
  rw [hword] at hspan
  simpa only [nameStep, hword] using hspan

theorem take_two_iff {rest : List Char} :
    rest.take 2 = ['.', '.'] ↔ ∃ more, rest = '.' :: '.' :: more := by
  constructor
  · intro h
    exact ⟨rest.drop 2, (List.take_append_drop 2 rest).symm.trans (by rw [h]; rfl)⟩
  · rintro ⟨more, rfl⟩
    rfl

theorem take_two_crlf (after : List Char) :
    (crlf after).take 2 = ['.', '.'] ↔ after.take 2 = ['.', '.'] := by
  rw [take_two_iff, take_two_iff]
  exact crlf_eq_cons_cons (by decide) (by decide)

/-- One step takes the same lexeme off both texts, unless it is at a line feed or at a string that
goes on behind one. -/
theorem returned_step (hc : c ≠ '\n') (hp : Option.Rel (Token.Returned text) p p')
    (hh : h.Returned text h') (he : List.Forall₂ (Enclosure.Returned text) e e')
    (hstring : ∀ s k v, step p e h c after = .ok s → s.found = some (k, v) → k = .string →
      '\n' ∉ s.lexeme) :
    (Likeness.returned text).Alike (Step.Returned text) (step p e h c after)
      (step p' e' h' c (crlf after)) := by
  have hhead : ∀ {d : Char}, d ≠ '\n' → d ≠ '\r' →
      ((crlf after).head? = some d ↔ after.head? = some d) :=
    fun hline hreturn => head?_crlf hline hreturn after
  have hquote : c = '"' ∨ c = '\x27' → step p e h c after = .ok (quoteStep c after e) := by
    rintro (rfl | rfl) <;> rfl
  rw [step_eq, step_eq]
  refine .ite rfl (fun _ => .ok (returned_skipped (.inl rfl) he)) fun _ => ?_
  refine .ifThen (and_congr_right fun _ => hhead (by decide) (by decide)) (fun _ => ?_) fun _ => ?_
  · exact .ok (returned_skipped (remains_of_line after) he)
  refine .ifThen (and_congr_right fun _ => hhead (by decide) (by decide)) (fun hcomment => ?_)
    fun hno => ?_
  · obtain ⟨inside, rfl⟩ := List.head?_eq_some_iff.1 hcomment.2
    rw [crlf_cons (by decide), List.tail_cons, List.tail_cons, Lexeme.blockComment_crlf]
    cases Lexeme.blockComment inside with
    | none => exact .error hh
    | some read => exact .ok (returned_skipped (.inl rfl) he)
  refine .ifThen Iff.rfl (fun hc => ?_) fun _ => ?_
  · exact .ok (returned_quoteStep hc (fun k v => hstring _ k v (hquote hc)) he)
  refine .ifThen Iff.rfl (fun _ => returned_templateStep (by decide) hh he) fun _ => ?_
  refine .ifThen Iff.rfl (fun _ => .ok (returned_slashStep hp he)) fun _ => ?_
  refine .ifThen Iff.rfl (fun _ => ?_) fun _ => ?_
  · exact .ok (returned_verbatim (by simp) (by simp) (.cons ⟨rfl, hh⟩ he))
  refine .ifThen Iff.rfl (fun _ => returned_closeBraceStep hh he) fun _ => ?_
  refine .ifThen (and_congr_right fun _ => hhead (by decide) (by decide)) (fun harrow => ?_)
    fun _ => ?_
  · obtain ⟨rest, rfl⟩ := List.head?_eq_some_iff.1 harrow.2
    rw [crlf_cons (by decide)]
    exact .ok (returned_verbatim (by simp) (by simp) he)
  refine .ifThen Iff.rfl (fun _ => .ok (returned_verbatim (by simp) (by simp) he)) fun _ => ?_
  refine .ite ?_ (fun _ => ?_) fun _ => ?_
  · rw [startsNumeral, startsNumeral, any_head?_crlf (by decide) (by decide)]
  · exact .ok (returned_span after (by simp) hc (by decide) (by decide) he)
  refine .ite rfl (fun _ => .ok (returned_nameStep hc he)) fun _ => ?_
  refine .ifThen (and_congr_right fun _ => take_two_crlf after) (fun hdots => ?_) fun _ => ?_
  · obtain ⟨more, rfl⟩ := take_two_iff.1 hdots.2
    exact .ok (returned_verbatim (by simp) (by simp) he)
  refine .ifThen Iff.rfl (fun _ => .ok (returned_verbatim (by simp) (by simp) he)) fun _ => ?_
  unfold singleStep
  split
  · exact .ok (returned_verbatim (by simp) (by simpa using Ne.symm hc) he)
  · exact .ok (returned_verbatim (by simp) (by simpa using Ne.symm hc) he)

end Steps

/-- The rest of a text, from a place on. -/
def Scan.Within (text : List Char) (s : Scan) : Prop :=
  ∃ passed, passed ++ s.rest = text ∧ s.here = .advance .start passed

/-- The same place on the way through both texts. -/
structure Scan.Returned (text : List Char) (s s' : Scan) : Prop where
  previous : Option.Rel (Token.Returned text) s.previous s'.previous
  enclosures : List.Forall₂ (Enclosure.Returned text) s.enclosures s'.enclosures
  rest : Remains s.rest s'.rest
  within : s.Within text
  within' : s'.Within (crlf text)

/-- The same tokens up to the same place. -/
structure SameStream (text : List Char) (s s' : TokenStream) : Prop where
  tokens : List.Forall₂ (Token.Returned text) s.tokens s'.tokens
  finish : s.finish.Returned text s'.finish

/-- No string that is read from a place on goes over the end of a line. -/
def Scan.StringsOnLine (s : Scan) : Prop :=
  ∀ read m, Reads s read m → ∀ t ∈ read, t.kind = .string → '\n' ∉ t.lexeme.toList

section Runs

variable {text after : List Char} {p p' : Option Token} {h h' : Position}
  {e e' : List Enclosure} {c : Char} {st st' : Step}

theorem Scan.Within.next (hs : Scan.Within text ⟨p, e, h, c :: after⟩)
    (hstep : step p e h c after = .ok st) : (st.next p h).Within text := by
  obtain ⟨passed, hpassed, hhere⟩ := hs
  refine ⟨passed ++ st.lexeme, ?_, ?_⟩
  · rw [List.append_assoc, ← hpassed]
    exact congrArg (passed ++ ·) (cuts_step hstep).2
  · rw [Position.advance_append, ← show h = _ from hhere]
    rfl

theorem Scan.StringsOnLine.next (hs : Scan.StringsOnLine ⟨p, e, h, c :: after⟩)
    (hstep : step p e h c after = .ok st) : (st.next p h).StringsOnLine :=
  fun _ m hread t ht => hs _ m (.step hstep hread) t (List.mem_append_right _ ht)

theorem Scan.StringsOnLine.not_mem (hs : Scan.StringsOnLine ⟨p, e, h, c :: after⟩)
    (hstep : step p e h c after = .ok st) {v : List Char} (hfound : st.found = some (.string, v)) :
    '\n' ∉ st.lexeme := by
  have htoken : st.token? h = some ⟨.string, String.ofList v, String.ofList st.lexeme, h⟩ := by
    rw [Step.token?, hfound]
    rfl
  have hline := hs _ _ (.step hstep (.done _)) _ (by rw [htoken]; exact List.mem_cons_self) rfl
  rwa [String.toList_ofList] at hline

/-- Where a text has tokens, they tell. -/
theorem Scan.stringsOnLine_of_tokenize {stream : TokenStream} (h : tokenize text = .ok stream)
    (hline : ∀ t ∈ stream.tokens, t.kind = .string → '\n' ∉ t.lexeme.toList) :
    (Scan.ofText text).StringsOnLine := by
  intro read m hread t ht
  have hrun := (tokensFrom_of_reads hread).symm.trans h
  obtain ⟨others, -, rfl⟩ := map_eq_ok.1 hrun
  exact hline t (List.mem_append_left _ ht)

/-- Where nothing of a line ending was taken alone, the places answer each other. -/
theorem Scan.Returned.here {s s' : Scan} (hs : s.Returned text s') (hrest : s'.rest = crlf s.rest) :
    ∃ passed, passed ++ s.rest = text ∧ s.here = .advance .start passed ∧
      s'.here = .advance .start (crlf passed) := by
  obtain ⟨passed, hpassed, hhere⟩ := hs.within
  obtain ⟨passed', hpassed', hhere'⟩ := hs.within'
  refine ⟨passed, hpassed, hhere, ?_⟩
  rw [← hpassed, crlf_append, hrest] at hpassed'
  rw [hhere', List.append_cancel_right hpassed']

/-- The token that a step reads from both texts, if it reads one. -/
theorem Step.Returned.token? {passed : List Char} (hst : st.Returned text st')
    (hlexeme : passed ++ st.lexeme <+: text) (hh : h = .advance .start passed)
    (hh' : h' = .advance .start (crlf passed)) :
    Option.Rel (Token.Returned text) (st.token? h) (st'.token? h') := by
  cases hfound : st.found with
  | none =>
    have hfound' : st'.found = none := by
      have := hst.kind
      rw [hfound] at this
      simpa using this
    rw [Step.token?, Step.token?, hfound, hfound']
    exact .none
  | some found =>
    obtain ⟨kind, value⟩ := found
    obtain ⟨hfound', hlexeme', hline⟩ := hst.value _ _ hfound
    rw [Step.token?, Step.token?, hfound, hfound']
    refine .some ⟨rfl, ?_, ?_, ?_, passed, ?_, hh, hh'⟩
    · simp only [String.toList_ofList, hlexeme']
    · simp only [String.toList_ofList]
    · simpa only [String.toList_ofList] using hline
    · simpa only [String.toList_ofList] using hlexeme

theorem step_blank (hc : Lexeme.isSpace c = true) (p : Option Token) (e : List Enclosure)
    (h : Position) (after : List Char) : step p e h c after = .ok (skipped [c] after e) := by
  unfold step
  rw [if_pos hc]

theorem tokensFrom_blank (hc : Lexeme.isSpace c = true) (p : Option Token) (e : List Enclosure)
    (h : Position) (after : List Char) :
    tokensFrom p e h (c :: after) = tokensFrom p e (h.advance [c]) after := by
  rw [tokensFrom_cons (step_blank hc p e h after)]
  simp only [Step.next, Step.token?, skipped, Option.map_none, Option.none_or, Option.toList_none,
    List.nil_append]
  cases tokensFrom p e (h.advance [c]) after <;> rfl

theorem tokensFrom_eq (p : Option Token) (e : List Enclosure) (h : Position) (c : Char)
    (after : List Char) : tokensFrom p e h (c :: after) = step p e h c after >>= fun s =>
      (tokensFrom (s.next p h).previous s.enclosures (s.next p h).here s.rest).map fun stream =>
        ⟨(s.token? h).toList ++ stream.tokens, stream.finish⟩ := by
  cases hstep : step p e h c after with
  | ok s => exact tokensFrom_cons hstep
  | error fault =>
    rw [tokensFrom]
    split
    · next hfault =>
      cases hstep.symm.trans hfault
      rfl
    · next hok => cases hstep.symm.trans hok

theorem unclosed_place (x : Enclosure) : x.unclosed.place = x.opened := by
  obtain ⟨bracket, opened⟩ := x
  cases bracket <;> rfl

/-- From the same place on, both texts have the same tokens, or both have a fault. -/
theorem tokensFrom_returned {s s' : Scan} (hs : s.Returned text s') (hstrings : s.StringsOnLine) :
    (Likeness.returned text).Alike (SameStream text)
      (tokensFrom s.previous s.enclosures s.here s.rest)
      (tokensFrom s'.previous s'.enclosures s'.here s'.rest) := by
  induction hn : s.rest.length using Nat.strongRecOn generalizing s s' with
  | ind n ih =>
  obtain ⟨p, e, h, rest⟩ := s
  obtain ⟨p', e', h', rest'⟩ := s'
  simp only at hn ⊢
  rcases rest with _ | ⟨c, after⟩
  · obtain hrest | ⟨_, hrest, -⟩ := hs.rest
    · obtain ⟨passed, hpassed, hh, hh'⟩ := hs.here hrest
      obtain rfl : rest' = [] := hrest
      have hplace : h.Returned text h' := ⟨passed, ⟨_, hpassed⟩, hh, hh'⟩
      have henclosures := hs.enclosures
      cases henclosures with
      | nil =>
        rw [tokensFrom, tokensFrom]
        exact .ok ⟨.nil, hplace⟩
      | @cons x x' e e' hx _ =>
        rw [tokensFrom, tokensFrom]
        refine .error ?_
        rw [unclosed_place, unclosed_place]
        exact hx.2
    · cases hrest
  by_cases hc : c = '\n'
  · subst hc
    have hblank := step_blank (c := '\n') (by decide) p e h after
    obtain ⟨q', hq', hwithin'⟩ : ∃ q',
        tokensFrom p' e' h' rest' = tokensFrom p' e' q' (crlf after) ∧
          Scan.Within (crlf text) ⟨p', e', q', crlf after⟩ := by
      have hfeed := fun q => step_blank (c := '\n') (by decide) p' e' q (crlf after)
      obtain hrest | ⟨_, hrest, hrest'⟩ := hs.rest
      · obtain rfl : rest' = '\r' :: '\n' :: crlf after := hrest
        have hreturn := step_blank (c := '\r') (by decide) p' e' h' ('\n' :: crlf after)
        refine ⟨_, ?_, Scan.Within.next (hs.within'.next hreturn) (hfeed _)⟩
        rw [tokensFrom_blank (by decide), tokensFrom_blank (by decide)]
        rfl
      · obtain rfl := (List.cons.inj hrest).2
        obtain rfl : rest' = '\n' :: crlf after := hrest'
        exact ⟨_, tokensFrom_blank (by decide) .., hs.within'.next (hfeed h')⟩
    rw [tokensFrom_blank (by decide), hq']
    have hnext : Scan.Returned text ((skipped ['\n'] after e).next p h)
        ⟨p', e', q', crlf after⟩ :=
      ⟨hs.previous, hs.enclosures, .inl rfl, hs.within.next hblank, hwithin'⟩
    have hlt : after.length < n := hn ▸ Nat.lt_succ_self _
    exact ih after.length hlt hnext (hstrings.next hblank) rfl
  · have hrest : rest' = c :: crlf after := by
      obtain hrest | ⟨_, hrest, -⟩ := hs.rest
      · rw [show rest' = _ from hrest, crlf_cons hc]
      · exact absurd (List.cons.inj hrest).1 hc
    subst hrest
    obtain ⟨passed, hpassed, hh, hh'⟩ := hs.here (crlf_cons hc after).symm
    have hplace : h.Returned text h' := ⟨passed, ⟨_, hpassed⟩, hh, hh'⟩
    rw [tokensFrom_eq, tokensFrom_eq]
    refine (returned_step hc hs.previous hplace hs.enclosures ?_).bind
      fun st st' hstep hstep' hst => ?_
    · rintro st k v hstep hfound rfl
      exact hstrings.not_mem hstep hfound
    have hlexeme : passed ++ st.lexeme <+: text :=
      ⟨st.rest, by rw [List.append_assoc, (cuts_step hstep).2, ← hpassed]⟩
    have htoken := hst.token? hlexeme hh hh'
    have hnext : Scan.Returned text (st.next p h) (st'.next p' h') := by
      refine ⟨?_, hst.enclosures, hst.rest, hs.within.next hstep, hs.within'.next hstep'⟩
      simp only [Step.next]
      generalize st.token? h = token at htoken
      generalize st'.token? h' = token' at htoken
      cases htoken with
      | none => exact hs.previous
      | some ht => exact .some ht
    have hlt : (st.next p h).rest.length < n := hn ▸ length_rest_lt hstep
    refine (ih _ hlt hnext (hstrings.next hstep) rfl).map fun stream stream' hstream => ?_
    refine ⟨List.rel_append ?_ hstream.tokens, hstream.finish⟩
    generalize st.token? h = token at htoken
    generalize st'.token? h' = token' at htoken
    cases htoken with
    | none => exact .nil
    | some ht => exact .cons ht .nil

/-- The beginning of both texts. -/
theorem returned_ofText (text : List Char) :
    Scan.Returned text (Scan.ofText text) (Scan.ofText (crlf text)) := by
  refine ⟨.none, .nil, ?_, ⟨_, append_of_interpreterLine text, rfl⟩,
    ⟨_, append_of_interpreterLine (crlf text), rfl⟩⟩
  have hdrop : ∀ text : List Char, text.drop (text.takeWhile Lexeme.staysOnLine).length =
      text.dropWhile Lexeme.staysOnLine := fun text =>
    List.append_cancel_left ((List.prefix_iff_eq_append.1 (List.takeWhile_prefix _)).trans
      List.takeWhile_append_dropWhile.symm)
  by_cases hinterpreter : ∃ more, text = '#' :: '!' :: more
  · obtain ⟨more, rfl⟩ := hinterpreter
    show Remains (List.drop (List.takeWhile Lexeme.staysOnLine ('#' :: '!' :: more)).length _)
      (List.drop (List.takeWhile Lexeme.staysOnLine (crlf ('#' :: '!' :: more))).length _)
    rw [hdrop, hdrop]
    exact remains_of_line _
  · have hnone : ∀ {text : List Char}, (¬ ∃ more, text = '#' :: '!' :: more) →
        interpreterLine text = [] := fun hno =>
      interpreterLine_eq_nil fun ⟨more, hmore⟩ => hno ⟨more, hmore.symm⟩
    have hinterpreter' : ¬ ∃ more, crlf text = '#' :: '!' :: more :=
      (crlf_eq_cons_cons (by decide) (by decide)).not.2 hinterpreter
    simp only [Scan.ofText, hnone hinterpreter, hnone hinterpreter', List.length_nil,
      List.drop_zero]
    exact .inl rfl

theorem tokenize_returned {text : List Char} (hstrings : (Scan.ofText text).StringsOnLine) :
    (Likeness.returned text).Alike (SameStream text) (tokenize text) (tokenize (crlf text)) :=
  tokensFrom_returned (returned_ofText text) hstrings

end Runs

end Lexer

end ComponentRegistry
