import Mathlib.Data.List.Chain
import ComponentRegistry.Proofs.Lexing.Concatenation
import ComponentRegistry.Proofs.Lexing.Lines

/-! # Nothing is lost between text and tokens

A text consists of the lexemes of its tokens and of blanks and comments around them, and what each
token says can be read off its lexeme. What counts as a comment, as a string or as an escape is said
here without the lexer.
-/

namespace ComponentRegistry

namespace Lexeme

/-- A stretch of text, in front of some other text, that says nothing. -/
inductive Silent (after : List Char) : List Char → Prop where
  | blank {c : Char} (hc : c ∈ [' ', '\t', '\r', '\n', '\uFEFF']) : Silent after [c]
  | lineComment {body : List Char} (line : '\n' ∉ body) (ends : ∀ c ∈ after.head?, c = '\n') :
      Silent after ('/' :: '/' :: body)
  | blockComment {body : List Char} (first : ¬ ['*', '/'] <:+: body) :
      Silent after ('/' :: '*' :: body ++ ['*', '/'])

/-- Blanks and comments, one after the other, in front of some other text. -/
inductive Filler (after : List Char) : List Char → Prop where
  | nil : Filler after []
  | cons {piece rest : List Char} (first : Silent (rest ++ after) piece)
      (others : Filler after rest) : Filler after (piece ++ rest)

/-- What may stand in front of the first token. A `#!` line counts at the beginning of a text. -/
inductive LeadIn (after : List Char) : List Char → Prop where
  | plain {gap : List Char} (filler : Filler after gap) : LeadIn after gap
  | interpreter {body rest : List Char} (line : '\n' ∉ body)
      (ends : ∀ c ∈ (rest ++ after).head?, c = '\n') (filler : Filler after rest) :
      LeadIn after ('#' :: '!' :: body ++ rest)

/-- What stands between two equal quotes, and what it says. -/
inductive StringBody (quote : Char) : List Char → List Char → Prop where
  | nil : StringBody quote [] []
  | plain {c : Char} {body value : List Char} (inside : c ≠ quote)
      (unescaped : c ≠ '\\') (line : c ≠ '\n') (rest : StringBody quote body value) :
      StringBody quote (c :: body) (c :: value)
  | lineFeed {body value : List Char} (rest : StringBody quote body value) :
      StringBody quote ('\\' :: 'n' :: body) ('\n' :: value)
  | tab {body value : List Char} (rest : StringBody quote body value) :
      StringBody quote ('\\' :: 't' :: body) ('\t' :: value)
  | joined {body value : List Char} (rest : StringBody quote body value) :
      StringBody quote ('\\' :: '\n' :: body) value
  | itself {c : Char} {body value : List Char} (other : c ∉ ['n', 't', '\n'])
      (rest : StringBody quote body value) : StringBody quote ('\\' :: c :: body) (c :: value)

/-- The lexeme of a token of a kind, and what the token says. -/
def Conveys (kind : TokenKind) (lexeme value : List Char) : Prop :=
  match kind with
  | .endOfInput => False
  | .string => ∃ quote body, (quote = '"' ∨ quote = '\x27') ∧ lexeme = quote :: body ++ [quote] ∧
      StringBody quote body value
  | .template => ∃ lead ending, lead ∈ ['\x60', '}'] ∧ ending ∈ [['\x60'], ['$', '{']] ∧
      lexeme = lead :: value ++ ending
  | _ => lexeme = value

theorem StringBody.escape {quote c : Char} {body value : List Char}
    (rest : StringBody quote body value) :
    StringBody quote ('\\' :: c :: body) (unescaped c ++ value) := by
  unfold unescaped
  split
  · next hc =>
    subst hc
    exact .lineFeed rest
  · split
    · next hc =>
      subst hc
      exact .tab rest
    · split
      · next hc =>
        subst hc
        exact .joined rest
      · next hn ht hline => exact .itself (by simp [hn, ht, hline]) rest

theorem stringBody_of_quotedBody {quote : Char} {text body rest : List Char}
    (h : quotedBody quote text = some (body, rest)) : StringBody quote body (unescape body) := by
  fun_induction quotedBody quote text generalizing body with
  | case1 => cases h
  | case2 => cases h
  | case3 c text ih =>
    obtain ⟨⟨inside, after⟩, hinside, same⟩ := Option.map_eq_some_iff.1 h
    cases same
    exact (ih hinside).escape
  | case4 =>
    cases h
    exact .nil
  | case5 c text line escaped other ih =>
    obtain ⟨⟨inside, after⟩, hinside, same⟩ := Option.map_eq_some_iff.1 h
    cases same
    have unescaped : c ≠ '\\' := by
      rintro rfl
      cases text with
      | nil => cases hinside
      | cons d text => exact escaped d text rfl rfl
    rw [unescape]
    · exact .plain other unescaped line (ih hinside)
    · intro d tail hd
      exact absurd hd unescaped

theorem not_infix_of_blockComment {text body rest : List Char}
    (h : blockComment text = some (body, rest)) : ¬ ['*', '/'] <:+: body := by
  fun_induction blockComment text generalizing body with
  | case1 => cases h
  | case2 =>
    cases h
    simp
  | case3 c text later ih =>
    obtain ⟨⟨inside, after⟩, hinside, same⟩ := Option.map_eq_some_iff.1 h
    cases same
    intro within
    rcases List.infix_cons_iff.1 within with ⟨tail, start⟩ | within
    · have whole := blockComment_append hinside
      cases start
      exact later _ rfl whole.symm
    · exact ih hinside within

theorem not_infix_of_blockComment_eq_none {text : List Char} (h : blockComment text = none) :
    ¬ ['*', '/'] <:+: text := by
  fun_induction blockComment text with
  | case1 => simp
  | case2 => cases h
  | case3 c text later ih =>
    intro within
    rcases List.infix_cons_iff.1 within with ⟨tail, start⟩ | within
    · obtain ⟨rfl, rest⟩ := List.cons.inj start
      exact later tail rfl rest.symm
    · exact ih (Option.map_eq_none_iff.1 h) within

theorem not_mem_takeWhile_staysOnLine (text : List Char) : '\n' ∉ text.takeWhile staysOnLine := by
  intro mem
  exact absurd (List.all_eq_true.1 List.all_takeWhile _ mem) (by decide)

theorem head?_dropWhile_staysOnLine (text : List Char) :
    ∀ c ∈ (text.dropWhile staysOnLine).head?, c = '\n' := by
  intro c hc
  have stops := List.head?_dropWhile_not staysOnLine text
  rw [Option.mem_def.1 hc] at stops
  simpa [staysOnLine] using stops

end Lexeme

namespace Lexer

open Lexeme

/-- Whether a step passes over something that says nothing, or reads a token off its lexeme. -/
def Step.Faithful (s : Step) : Prop :=
  match s.found with
  | none => Silent s.rest s.lexeme
  | some (kind, value) => Conveys kind s.lexeme value

theorem faithful_templateStep {opened : Position} {lead : Char} {after : List Char}
    {e : List Enclosure} {s : Step} (hlead : lead ∈ ['\x60', '}'])
    (h : templateStep opened lead after e = .ok s) : s.Faithful := by
  unfold templateStep at h
  split at h
  · cases h
  · next body ending rest _ =>
    cases h
    refine ⟨lead, ending.delimiter, hlead, ?_, rfl⟩
    cases ending with
    | closed => exact List.mem_cons_self
    | substitution => exact List.mem_cons_of_mem _ List.mem_cons_self

theorem faithful_quoteStep {quote : Char} (hquote : quote = '"' ∨ quote = '\x27')
    (after : List Char) (e : List Enclosure) : (quoteStep quote after e).Faithful := by
  unfold quoteStep
  split
  · next body rest hbody => exact ⟨quote, body, hquote, rfl, stringBody_of_quotedBody hbody⟩
  · rfl

theorem faithful_slashStep (p : Option Token) (after : List Char) (e : List Enclosure) :
    (slashStep p after e).Faithful := by
  unfold slashStep
  split
  · rfl
  · rfl

theorem faithful_nameStep (c : Char) (after : List Char) (e : List Enclosure) :
    (nameStep c after e).Faithful := by
  have word : ∀ text, Conveys (wordKind text) text text := by
    intro text
    unfold wordKind
    split
    · rfl
    · rfl
  exact word _

theorem faithful_singleStep (c : Char) (after : List Char) (e : List Enclosure) :
    (singleStep c after e).Faithful := by
  unfold singleStep
  split
  · rfl
  · rfl

theorem faithful_step {p : Option Token} {e : List Enclosure} {h : Position} {c : Char}
    {after : List Char} {s : Step} (hstep : step p e h c after = .ok s) : s.Faithful := by
  cases takes_step hstep with
  | blank hc => exact .blank (isSpace_cases hc)
  | lineComment =>
    show Silent _ _
    exact .lineComment (not_mem_takeWhile_staysOnLine _) (head?_dropWhile_staysOnLine _)
  | blockComment closed => exact .blockComment (not_infix_of_blockComment closed)
  | quote hc => exact faithful_quoteStep hc _ _
  | template read => exact faithful_templateStep (by simp) read
  | resume read => exact faithful_templateStep (by simp) read
  | slash => exact faithful_slashStep _ _ _
  | name => exact faithful_nameStep _ _ _
  | single => exact faithful_singleStep _ _ _
  | openBrace | closeBrace | arrow | equals | number | ellipsis | dot => rfl

theorem Reads.conveys {s t : Scan} {ts : List Token} (h : Reads s ts t) {u : Token} (hu : u ∈ ts) :
    Conveys u.kind u.lexeme.toList u.value.toList := by
  obtain ⟨m, c, after, st, kind, value, hstep, hfound, rfl⟩ := h.exists_step hu
  have faithful := faithful_step hstep
  rw [Step.Faithful, hfound] at faithful
  simpa only [String.toList_ofList] using faithful

/-- The characters of a text from one place to another. -/
def slice (text : List Char) (a b : Nat) : List Char := (text.take b).drop a

theorem slice_self (text : List Char) (n : Nat) : slice text n n = [] := by
  rw [slice, List.drop_eq_nil_iff]
  exact List.length_take_le n text

theorem slice_of_append (front piece rest : List Char) (k : Nat) :
    slice (front ++ piece ++ rest) front.length ((front ++ piece).length + k) =
      piece ++ rest.take k := by
  rw [slice, List.take_length_add_append, List.append_assoc, List.drop_left]

theorem slice_append (front piece rest : List Char) :
    slice (front ++ piece ++ rest) front.length (front ++ piece).length = piece := by
  simpa using slice_of_append front piece rest 0

theorem take_append_slice (text : List Char) {a b : Nat} (h : a ≤ b) :
    text.take a ++ slice text a b = text.take b := by
  rw [slice, ← Nat.min_eq_left h, ← List.take_take, Nat.min_eq_left h, List.take_append_drop]

theorem slice_append_drop (text : List Char) {a b : Nat} (h : a ≤ b) :
    slice text a b ++ text.drop b = text.drop a := by
  have whole := congrArg (List.drop a) (List.take_append_drop b text)
  rcases Nat.le_total a text.length with inside | outside
  · rwa [List.drop_append_of_le_length (by simp; omega)] at whole
  · simp [slice, List.drop_eq_nil_of_le outside, List.drop_eq_nil_of_le (outside.trans h)]
    omega

theorem slice_append_slice (text : List Char) {a b c : Nat} (h : a ≤ b) (h' : b ≤ c) :
    slice text a b ++ slice text b c = slice text a c := by
  have whole := slice_append_drop (text.take c) h
  rwa [slice, List.take_take, Nat.min_eq_left h'] at whole

theorem length_slice {text : List Char} {a b : Nat} (h : b ≤ text.length) :
    (slice text a b).length = b - a := by
  rw [slice, List.length_drop, List.length_take, Nat.min_eq_left h]

/-- Between two places of a text there is nothing but blanks and comments. -/
structure Gap (text : List Char) (a b : Nat) : Prop where
  le : a ≤ b
  filler : Filler (text.drop b) (slice text a b)

theorem Gap.refl (text : List Char) (n : Nat) : Gap text n n := by
  refine ⟨Nat.le_refl n, ?_⟩
  rw [slice_self]
  exact .nil

theorem Gap.cons {front piece rest : List Char} {b : Nat} (first : Silent rest piece)
    (h : Gap (front ++ piece ++ rest) (front ++ piece).length b) :
    Gap (front ++ piece ++ rest) front.length b := by
  obtain ⟨k, rfl⟩ := Nat.exists_eq_add_of_le h.le
  have filler := h.filler
  have others := slice_of_append (front ++ piece) [] rest k
  simp only [List.append_nil, List.nil_append] at others
  rw [others, List.drop_length_add_append] at filler
  refine ⟨by simp; omega, ?_⟩
  rw [slice_of_append, List.drop_length_add_append]
  exact .cons (by rwa [List.take_append_drop]) filler

/-- From a place on, a text is cut into the lexemes of some tokens and the gaps in front of them. -/
structure Tiles (text : List Char) (n : Nat) (ts : List Token) : Prop where
  first : ∀ t ∈ ts.head?, Gap text n t.start.offset
  apart : ts.IsChain fun t u => t.start.offset < t.stop ∧ Gap text t.stop u.start.offset
  lexemes : ∀ t ∈ ts, slice text t.start.offset t.stop = t.lexeme.toList

theorem Tiles.cons {front rest : List Char} {ts : List Token} (t : Token)
    (start : t.start.offset = front.length) (ne : t.lexeme.toList ≠ [])
    (h : Tiles (front ++ t.lexeme.toList ++ rest) (front ++ t.lexeme.toList).length ts) :
    Tiles (front ++ t.lexeme.toList ++ rest) front.length (t :: ts) := by
  have stop : t.stop = (front ++ t.lexeme.toList).length := by
    rw [Token.stop, start, List.length_append, String.length_toList]
  have positive := List.length_pos_iff.2 ne
  refine ⟨?_, List.isChain_cons.2 ⟨?_, h.apart⟩, ?_⟩
  · intro u hu
    cases hu
    rw [start]
    exact .refl _ _
  · intro u hu
    rw [stop]
    refine ⟨?_, h.first u hu⟩
    rw [start, List.length_append]
    omega
  · intro u hu
    rcases List.mem_cons.1 hu with rfl | hu
    · rw [start, stop]
      exact slice_append _ _ _
    · exact h.lexemes u hu

theorem Reads.tiles {s t : Scan} {ts : List Token} (h : Reads s ts t) (ends : t.rest = [])
    (front : List Char) (place : s.here.offset = front.length) :
    Tiles (front ++ s.rest) front.length (ts ++ [Token.endOfInput t.here]) := by
  induction h generalizing front with
  | done s =>
    refine ⟨?_, List.isChain_singleton _, ?_⟩
    · intro u hu
      cases hu
      rw [show (Token.endOfInput s.here).start.offset = front.length from place]
      exact .refl _ _
    · intro u hu
      rw [List.nil_append, List.mem_singleton] at hu
      subst hu
      exact slice_self _ _
  | @step p e h c after s ts t first others ih =>
    have cut := cuts_step first
    have later := ih ends (front ++ s.lexeme) (by
      rw [Step.next, Position.offset_advance, List.length_append]
      exact congrArg (· + s.lexeme.length) place)
    have whole : front ++ c :: after = front ++ s.lexeme ++ s.rest := by
      rw [List.append_assoc, cut.2]
    have faithful := faithful_step first
    show Tiles (front ++ c :: after) front.length _
    rw [whole]
    cases hfound : s.found with
    | none =>
      rw [Step.Faithful, hfound] at faithful
      rw [Step.token?, hfound]
      refine ⟨fun u hu => (later.first u hu).cons faithful, later.apart, later.lexemes⟩
    | some found =>
      obtain ⟨kind, value⟩ := found
      rw [Step.token?, hfound]
      let token : Token := ⟨kind, String.ofList value, String.ofList s.lexeme, h⟩
      have lexeme : token.lexeme.toList = s.lexeme := String.toList_ofList
      rw [← lexeme] at later
      have tiles := later.cons token place (by rw [lexeme]; exact cut.1)
      rw [lexeme] at tiles
      exact tiles

/-- The tokens of a text hold all of it. -/
structure Lossless (text : List Char) (s : TokenStream) : Prop where
  /-- No token but the last is empty, and only blanks and comments stand between them. -/
  apart : s.toList.IsChain fun t u => t.start.offset < t.stop ∧ Gap text t.stop u.start.offset
  leadIn : ∀ t ∈ s.toList.head?, LeadIn (text.drop t.start.offset) (text.take t.start.offset)
  conveys : ∀ t ∈ s.tokens,
    Conveys t.kind (slice text t.start.offset t.stop) t.value.toList
  /-- The end of the text comes last, and only last. -/
  ends : ∃ words last, s.toList = words ++ [last] ∧ last.kind = .endOfInput ∧
    last.start.offset = text.length ∧ last.stop = text.length ∧
    ∀ t ∈ words, t.kind ≠ .endOfInput
  lexemes : ∀ t ∈ s.toList, slice text t.start.offset t.stop = t.lexeme.toList

theorem interpreterLine_cases (text : List Char) :
    interpreterLine text = [] ∨
      ∃ body rest, text = '#' :: '!' :: body ++ rest ∧ interpreterLine text = '#' :: '!' :: body ∧
        '\n' ∉ body ∧ ∀ c ∈ rest.head?, c = '\n' := by
  unfold interpreterLine
  split
  · next after =>
    right
    refine ⟨after.takeWhile staysOnLine, after.dropWhile staysOnLine, ?_, rfl,
      not_mem_takeWhile_staysOnLine _, head?_dropWhile_staysOnLine _⟩
    simp
  · exact .inl rfl

/-- The gap after a `#!` line, with that line in front of it. -/
theorem leadIn_of_gap {text : List Char} {b : Nat}
    (h : Gap text (interpreterLine text).length b) : LeadIn (text.drop b) (text.take b) := by
  rcases interpreterLine_cases text with none | ⟨body, rest, whole, line, inside, ends⟩
  · rw [none] at h
    exact .plain h.filler
  · rw [line] at h
    obtain ⟨k, rfl⟩ := Nat.exists_eq_add_of_le h.le
    have filler := h.filler
    have later := slice_of_append ('#' :: '!' :: body) [] rest k
    rw [List.append_nil, List.nil_append, ← whole] at later
    rw [later] at filler
    have front : text.take (('#' :: '!' :: body).length + k) = '#' :: '!' :: body ++ rest.take k := by
      rw [whole, List.take_length_add_append]
    have back : text.drop (('#' :: '!' :: body).length + k) = rest.drop k := by
      rw [whole, List.drop_length_add_append]
    rw [back] at filler ⊢
    rw [front]
    exact .interpreter inside (by rwa [List.take_append_drop]) filler

/-- The tokens of a text take it up, behind a `#!` line. -/
theorem tiles_of_tokenize {text : List Char} {s : TokenStream} (h : tokenize text = .ok s) :
    Tiles text (interpreterLine text).length s.toList := by
  obtain ⟨⟨q, reads⟩, -⟩ := reads_of_tokenize h
  have tiles := reads.tiles rfl (interpreterLine text)
    (by simp [Position.offset_advance, Position.start])
  rwa [append_of_interpreterLine] at tiles

/-- Tokens are lossless: they stand in order, nothing but blanks and comments stands around them,
and each says what its lexeme says. -/
theorem tokenize_lossless {text : List Char} {s : TokenStream} (h : tokenize text = .ok s) :
    Lossless text s := by
  obtain ⟨⟨q, reads⟩, finish⟩ := reads_of_tokenize h
  have tiles := tiles_of_tokenize h
  have place : s.finish.offset = text.length := by
    rw [finish, Position.offset_advance]
    simp [Position.start]
  refine ⟨tiles.apart, fun t ht => leadIn_of_gap (tiles.first t ht), ?_, ?_, tiles.lexemes⟩
  · intro t ht
    rw [tiles.lexemes t (List.mem_append_left _ ht)]
    exact reads.conveys ht
  · exact ⟨s.tokens, Token.endOfInput s.finish, rfl, rfl, place, place, fun t ht => reads.kind_ne ht⟩

/-- Every reader of lexemes has something to do here, and a template is left and taken up again. -/
theorem tokenize_lossless_mixed :
    ∃ text s, tokenize text = .ok s ∧
      s.tokens.map Token.value = ["a\n'", ":", "/[/]/g", "b", "c", "d\\\x60"] ∧
      Lossless text s := by
  let text := "#!run\n'a\\n\\'' // x\n: /[/]/g \x60b$\x7b/* y **/c\x7dd\\\x60\x60".toList
  have values : (tokenize text).toOption.map (fun s => s.tokens.map Token.value) =
      some ["a\n'", ":", "/[/]/g", "b", "c", "d\\\x60"] := by
    decide +kernel
  cases h : tokenize text with
  | error fault =>
    rw [h] at values
    cases values
  | ok s =>
    rw [h] at values
    exact ⟨text, s, h, Option.some.inj values, tokenize_lossless h⟩

end Lexer

end ComponentRegistry
