import ComponentRegistry.Proofs.Lexing.Locality

/-! # Words that are written down

What names, marks and strings read as when they are written one after the other, wherever they
stand. Only a name depends on what comes after it, since it could go on there.
-/

namespace ComponentRegistry

/-- A token without its place. -/
def Token.bare (t : Token) : Token := { t with start := .start }

/-- The characters of a name. -/
def Lexeme.isNameText : List Char → Bool
  | [] => false
  | c :: rest => startsName c && !CharacterClass.isDigit c && rest.all continuesName

theorem Lexeme.continuesName_of_startsName {c : Char} (h : startsName c = true) :
    continuesName c = true := by
  simp only [startsName, continuesName, CharacterClass.isLetter, CharacterClass.isAlphanumeric,
    Bool.or_eq_true] at h ⊢
  rcases h with (h | h) | h
  · left
    left
    split at h
    · next hascii =>
      rw [if_pos hascii, Char.isAlphanum, h]
      rfl
    · next hascii =>
      rw [if_neg hascii, h]
      rfl
  · exact .inl (.inr h)
  · exact .inr h

namespace Lexer

/-- No name at the end of a text goes on in the text after it. -/
def Apart (front back : List Char) : Prop :=
  ∀ c ∈ front.getLast?, ∀ d ∈ back.head?,
    Lexeme.continuesName c = true → Lexeme.continuesName d = false

/-- A text reads as certain words wherever it stands. -/
def Says (text : List Char) (words : List Token) : Prop :=
  ∀ p e h more, Apart text more → ∃ ts q,
    Reads ⟨p, e, h, text ++ more⟩ ts ⟨q, e, h.advance text, more⟩ ∧ ts.map Token.bare = words

variable {a b : List Char} {ws us : List Token}

theorem Apart.of_back (h : Apart (a ++ b) more) : Apart b more := by
  intro c hc
  apply h
  rw [List.getLast?_append, Option.mem_def.1 hc]
  rfl

theorem Apart.of_front (h : Apart a b) (hb : b ≠ []) (more : List Char) : Apart a (b ++ more) := by
  intro c hc d hd
  apply h c hc
  cases b with
  | nil => exact absurd rfl hb
  | cons e rest => exact hd

/-- Whether a name goes on shows at the end of what is before it. -/
theorem Apart.of_suffix (h : Apart b more) (hb : b ≠ []) (a : List Char) : Apart (a ++ b) more := by
  intro c hc
  apply h
  rw [List.getLast?_append, List.getLast?_eq_some_getLast hb] at hc
  rwa [List.getLast?_eq_some_getLast hb]

theorem apart_of_last {c : Char} (hc : Lexeme.continuesName c = false) (a more : List Char) :
    Apart (a ++ [c]) more := by
  intro d hd e he hname
  rw [List.getLast?_concat, Option.mem_some_iff] at hd
  simp [← hd, hc] at hname

theorem apart_of_first {c : Char} (hc : Lexeme.continuesName c = false) (a more : List Char) :
    Apart a (c :: more) := by
  intro d _ e he _
  obtain rfl : c = e := by simpa using he
  exact hc

theorem Says.append (ha : Says a ws) (hb : Says b us) (hne : b ≠ []) (hapart : Apart a b) :
    Says (a ++ b) (ws ++ us) := by
  intro p e h more hmore
  obtain ⟨ts, q, hrun, rfl⟩ := ha p e h (b ++ more) (hapart.of_front hne more)
  obtain ⟨ts', q', hrun', rfl⟩ := hb q e (h.advance a) more hmore.of_back
  refine ⟨ts ++ ts', q', ?_, List.map_append⟩
  rw [List.append_assoc, Position.advance_append]
  exact hrun.append hrun'

/-- One lexeme that is the same in front of every rest it does not go on with. -/
theorem says_of_step {c : Char} {kind : TokenKind} {value : List Char}
    (hstep : ∀ p e h more, Apart (c :: a) more →
      step p e h c (a ++ more) = .ok ⟨some (kind, value), c :: a, more, e⟩) :
    Says (c :: a) [⟨kind, String.ofList value, String.ofList (c :: a), .start⟩] := by
  intro p e h more hmore
  exact ⟨_, _, .step (hstep p e h more hmore) (.done _), rfl⟩

theorem says_blank : Says [' '] [] := by
  intro p e h more _
  have hstep : step p e h ' ' more = .ok (skipped [' '] more e) := rfl
  exact ⟨_, _, .step hstep (.done _), rfl⟩

theorem Says.after_blank (ha : Says a ws) (hne : a ≠ []) : Says (' ' :: a) ws :=
  says_blank.append ha hne (apart_of_last (by decide) [] a)

theorem says_comma : Says [','] [⟨.mark .comma, ",", ",", .start⟩] :=
  says_of_step fun _ _ _ _ _ => rfl

theorem says_semicolon : Says [';'] [⟨.mark .semicolon, ";", ";", .start⟩] :=
  says_of_step fun _ _ _ _ _ => rfl

theorem says_star : Says ['*'] [⟨.mark .star, "*", "*", .start⟩] :=
  says_of_step fun _ _ _ _ _ => rfl

/-- Braces around some words. -/
theorem Says.enclosed (ha : Says a ws) :
    Says ('\x7b' :: (a ++ ['\x7d']))
      (⟨.mark .openBrace, "\x7b", "\x7b", .start⟩ :: ws ++
        [⟨.mark .closeBrace, "\x7d", "\x7d", .start⟩]) := by
  intro p e h more _
  have hopen : step p e h '\x7b' (a ++ '\x7d' :: more) =
      .ok (verbatim (.mark .openBrace) ['\x7b'] (a ++ '\x7d' :: more) (⟨.block, h⟩ :: e)) := rfl
  obtain ⟨ts, q, hrun, rfl⟩ := ha (some ⟨.mark .openBrace, "\x7b", "\x7b", h⟩) (⟨.block, h⟩ :: e)
    (h.advance ['\x7b']) ('\x7d' :: more) (apart_of_first (by decide) a more)
  have hclose : step q (⟨.block, h⟩ :: e) ((h.advance ['\x7b']).advance a) '\x7d' more =
      .ok (verbatim (.mark .closeBrace) ['\x7d'] more e) := rfl
  have hall := Reads.step hopen (hrun.append (.step hclose (.done _)))
  have hcut : '\x7b' :: (a ++ ['\x7d']) ++ more = '\x7b' :: (a ++ '\x7d' :: more) := by simp
  have hhere : h.advance ('\x7b' :: (a ++ ['\x7d'])) =
      ((h.advance ['\x7b']).advance a).advance ['\x7d'] := by
    rw [← Position.advance_append, ← Position.advance_append]
    simp
  rw [hcut, hhere]
  refine ⟨_, _, hall, ?_⟩
  rw [List.map_append, List.map_append]
  rfl

theorem step_name {c : Char} (hname : Lexeme.startsName c = true)
    (hdigit : CharacterClass.isDigit c = false) (p : Option Token) (e : List Enclosure)
    (h : Position) (after : List Char) : step p e h c after = .ok (nameStep c after e) := by
  have hne : ∀ d, Lexeme.startsName d = false → c ≠ d := by
    rintro d hd rfl
    simp [hd] at hname
  have hspace : Lexeme.isSpace c = false := by
    simp [Lexeme.isSpace, hne _ (by decide : Lexeme.startsName ' ' = false),
      hne _ (by decide : Lexeme.startsName '\t' = false),
      hne _ (by decide : Lexeme.startsName '\r' = false),
      hne _ (by decide : Lexeme.startsName '\n' = false),
      hne _ (by decide +kernel : Lexeme.startsName '\uFEFF' = false)]
  have hnumeral : startsNumeral c after = false := by
    simp [startsNumeral, hdigit, hne _ (by decide : Lexeme.startsName '.' = false)]
  rw [step_eq]
  simp [hspace, hnumeral, hname, hne _ (by decide : Lexeme.startsName '/' = false),
    hne _ (by decide : Lexeme.startsName '"' = false),
    hne _ (by decide : Lexeme.startsName '\x27' = false),
    hne _ (by decide : Lexeme.startsName '\x60' = false),
    hne _ (by decide : Lexeme.startsName '\x7b' = false),
    hne _ (by decide : Lexeme.startsName '\x7d' = false),
    hne _ (by decide : Lexeme.startsName '=' = false)]

/-- A name is read as such in front of every text that does not go on with it. -/
theorem step_nameText {c : Char} (hname : Lexeme.isNameText (c :: a) = true) (p : Option Token)
    (e : List Enclosure) (h : Position) {more : List Char} (hmore : Apart (c :: a) more) :
    step p e h c (a ++ more) =
      .ok ⟨some (wordKind (c :: a), c :: a), c :: a, more, e⟩ := by
  simp only [Lexeme.isNameText, Bool.and_eq_true, Bool.not_eq_true', List.all_eq_true] at hname
  obtain ⟨⟨hfirst, hdigit⟩, hrest⟩ := hname
  have hlast : ∀ d ∈ (c :: a).getLast?, Lexeme.continuesName d = true := by
    intro d hd
    rcases List.mem_cons.1 (List.mem_of_getLast? hd) with rfl | hd
    · exact Lexeme.continuesName_of_startsName hfirst
    · exact hrest d hd
  have hends : ∀ d ∈ more.head?, Lexeme.continuesName d = false := by
    intro d hd
    have hsome := List.getLast?_eq_some_getLast (List.cons_ne_nil c a)
    exact hmore _ hsome d hd (hlast _ hsome)
  rw [step_name hfirst hdigit, nameStep, List.takeWhile_append_of_pos hrest,
    List.dropWhile_append_of_pos hrest]
  cases more with
  | nil => simp [verbatim]
  | cons d more => simp [verbatim, hends d rfl]

theorem says_name (hname : Lexeme.isNameText a = true) :
    Says a [⟨wordKind a, String.ofList a, String.ofList a, .start⟩] := by
  cases a with
  | nil => cases hname
  | cons c rest => exact says_of_step fun p e h more hmore => step_nameText hname p e h hmore

/-- Where a step reads a name, its lexeme is the text of one. -/
def Step.Names (s : Step) : Prop :=
  ∀ kind value, s.found = some (kind, value) → kind.isName = true →
    Lexeme.isNameText s.lexeme = true

theorem names_of_found {s : Step} {kind : TokenKind} {value : List Char}
    (hfound : s.found = some (kind, value)) (hkind : kind.isName = false) : s.Names := by
  intro kind' value' hfound' hname
  rw [hfound, Option.some.injEq, Prod.mk.injEq] at hfound'
  rw [hfound'.1, hname] at hkind
  cases hkind

theorem names_templateStep {opened : Position} {lead : Char} {after : List Char}
    {e : List Enclosure} {s : Step} (h : templateStep opened lead after e = .ok s) : s.Names := by
  unfold templateStep at h
  split at h
  · cases h
  · cases h
    exact names_of_found rfl rfl

theorem names_step {p : Option Token} {e : List Enclosure} {h : Position} {c : Char}
    {after : List Char} {s : Step} (hstep : step p e h c after = .ok s) : s.Names := by
  cases takes_step hstep with
  | name digit starts =>
    intro kind value _ _
    simp [nameStep, verbatim, Lexeme.isNameText, starts, digit, List.all_takeWhile]
  | blank | lineComment | blockComment =>
    intro kind value hfound
    cases hfound
  | quote =>
    unfold quoteStep
    split <;> exact names_of_found rfl rfl
  | template read | resume read => exact names_templateStep read
  | slash =>
    unfold slashStep
    split <;> exact names_of_found rfl rfl
  | single =>
    unfold singleStep
    split <;> exact names_of_found rfl rfl
  | openBrace | closeBrace | arrow | equals | number | ellipsis | dot =>
    exact names_of_found rfl rfl

theorem Reads.isNameText {s t : Scan} {ts : List Token} (h : Reads s ts t) {u : Token}
    (hu : u ∈ ts) (hname : u.kind.isName = true) : Lexeme.isNameText u.lexeme.toList = true := by
  obtain ⟨m, c, after, st, kind, value, hstep, hfound, rfl⟩ := h.exists_step hu
  rw [String.toList_ofList]
  exact names_step hstep kind value hfound hname

/-- A string that closes reads the same wherever it stands. -/
theorem says_string {quote : Char} {body text rest : List Char}
    (hquote : quote = '"' ∨ quote = '\x27')
    (hbody : Lexeme.quotedBody quote text = some (body, rest)) :
    Says (quote :: (body ++ [quote])) [⟨.string, String.ofList (Lexeme.unescape body),
      String.ofList (quote :: (body ++ [quote])), .start⟩] := by
  apply says_of_step
  intro p e h more _
  have hne : quote ≠ '\\' := by
    rcases hquote with rfl | rfl <;> decide
  have hbody' := Lexeme.quotedBody_replace hne hbody more
  have hstep : step p e h quote (body ++ quote :: more) =
      .ok (quoteStep quote (body ++ quote :: more) e) := by
    rcases hquote with rfl | rfl <;> rfl
  rw [List.append_assoc, List.singleton_append, hstep, quoteStep, hbody']
  rfl

/-- A string as it is written, quotes included. It reads the same wherever it stands. -/
structure Quotation (value lexeme : String) : Prop where
  reading : Says lexeme.toList [⟨.string, value, lexeme, .start⟩]
  ne_nil : lexeme.toList ≠ []
  apart : ∀ more, Apart lexeme.toList more

/-- Where a step reads a string, it reads the same string wherever it stands. -/
def Step.Quotes (s : Step) : Prop :=
  ∀ value, s.found = some (.string, value) →
    Quotation (String.ofList value) (String.ofList s.lexeme)

theorem quotes_of_found {s : Step} {kind : TokenKind} {value : List Char}
    (hfound : s.found = some (kind, value)) (hkind : kind ≠ .string) : s.Quotes := by
  intro value' hvalue
  rw [hfound, Option.some.injEq, Prod.mk.injEq] at hvalue
  exact absurd hvalue.1 hkind

theorem quotes_skipped (lexeme rest : List Char) (e : List Enclosure) :
    (skipped lexeme rest e).Quotes := by
  intro value hvalue
  cases hvalue

theorem quotes_quoteStep {quote : Char} (hquote : quote = '"' ∨ quote = '\x27')
    (after : List Char) (e : List Enclosure) : (quoteStep quote after e).Quotes := by
  unfold quoteStep
  split
  · next body rest hbody =>
    intro value hvalue
    obtain rfl : Lexeme.unescape body = value := by simpa using hvalue
    have hlast : Lexeme.continuesName quote = false := by
      rcases hquote with rfl | rfl <;> decide
    refine ⟨?_, by simp, fun more => ?_⟩
    · rw [String.toList_ofList]
      exact says_string hquote hbody
    · rw [String.toList_ofList]
      exact apart_of_last hlast (quote :: body) more
  · exact quotes_of_found rfl (by simp)

theorem quotes_templateStep {opened : Position} {lead : Char} {after : List Char}
    {e : List Enclosure} {s : Step} (h : templateStep opened lead after e = .ok s) : s.Quotes := by
  unfold templateStep at h
  split at h
  · cases h
  · cases h
    exact quotes_of_found rfl (by simp)

theorem quotes_slashStep (p : Option Token) (after : List Char) (e : List Enclosure) :
    (slashStep p after e).Quotes := by
  unfold slashStep
  split <;> exact quotes_of_found rfl (by simp)

theorem quotes_nameStep (c : Char) (after : List Char) (e : List Enclosure) :
    (nameStep c after e).Quotes := by
  apply quotes_of_found rfl
  unfold wordKind
  split <;> simp

theorem quotes_singleStep (c : Char) (after : List Char) (e : List Enclosure) :
    (singleStep c after e).Quotes := by
  unfold singleStep
  split <;> exact quotes_of_found rfl (by simp)

theorem quotes_step {p : Option Token} {e : List Enclosure} {here : Position} {c : Char}
    {after : List Char} {s : Step} (h : step p e here c after = .ok s) : s.Quotes := by
  cases takes_step h with
  | blank | lineComment | blockComment => exact quotes_skipped _ _ _
  | quote hc => exact quotes_quoteStep hc _ _
  | template read | resume read => exact quotes_templateStep read
  | slash => exact quotes_slashStep _ _ _
  | openBrace | closeBrace | arrow | equals | number | ellipsis | dot =>
    exact quotes_of_found rfl (by simp)
  | name => exact quotes_nameStep _ _ _
  | single => exact quotes_singleStep _ _ _

/-- A string that was read somewhere reads the same wherever it stands. -/
theorem Reads.quotation {s t : Scan} {ts : List Token} (h : Reads s ts t) {u : Token}
    (hu : u ∈ ts) (hkind : u.kind = .string) : Quotation u.value u.lexeme := by
  obtain ⟨m, c, after, st, kind, value, hstep, hfound, rfl⟩ := h.exists_step hu
  obtain rfl : kind = .string := hkind
  exact quotes_step hstep value hfound

end Lexer

end ComponentRegistry
