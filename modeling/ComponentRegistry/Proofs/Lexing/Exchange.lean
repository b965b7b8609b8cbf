import ComponentRegistry.Proofs.Lexing.Lines
import ComponentRegistry.Proofs.Lexing.Nesting
import ComponentRegistry.Proofs.Lexing.Writing

/-! # Exchanging a stretch of a text

A stretch at the beginning of a line, outside of all braces, can be exchanged for other words. The
tokens before it stay where they are, and those after it move with the text.
-/

namespace ComponentRegistry

namespace Lexer

/-- The beginning of a text, after its interpreter line. -/
def Scan.ofText (text : List Char) : Scan :=
  ⟨none, [], Position.start.advance (interpreterLine text),
    text.drop (interpreterLine text).length⟩

variable {text front back y blanks : List Char} {s t m : Scan} {ts us words : List Token} {u : Token}

theorem tokenize_of_reads {q : Option Token} {finish : Position}
    (h : Reads (Scan.ofText text) ts ⟨q, [], finish, []⟩) : tokenize text = .ok ⟨ts, finish⟩ :=
  tokensFrom_eq_ok.2 ⟨q, h⟩

/-- Where a run from the beginning of a text has come to. -/
theorem Reads.place (h : Reads (Scan.ofText text) ts m) :
    m.rest = text.drop m.here.offset ∧ m.here = Position.start.advance (text.take m.here.offset) ∧
      (interpreterLine text).length ≤ m.here.offset := by
  obtain ⟨passed, hrest, hhere⟩ := h.passes
  have hcut := append_of_interpreterLine text
  rw [Scan.ofText] at hrest hhere
  simp only at hrest hhere
  rw [hrest, ← List.append_assoc] at hcut
  rw [← Position.advance_append] at hhere
  have hle : (interpreterLine text).length ≤ (interpreterLine text ++ passed).length := by
    rw [List.length_append]
    omega
  generalize interpreterLine text ++ passed = above at hcut hhere hle
  have hoffset : m.here.offset = above.length := by
    rw [hhere, Position.offset_advance]
    exact Nat.zero_add _
  refine ⟨?_, ?_, hoffset ▸ hle⟩
  · rw [hoffset, ← hcut, List.drop_left]
  · rw [hoffset, ← hcut, List.take_left]
    exact hhere

/-- A run can be cut in front of a token. -/
theorem Reads.cut_before (h : Reads s (ts ++ u :: us) t) :
    ∃ m, Reads s ts m ∧ m.here = u.start ∧ Reads m (u :: us) t := by
  obtain ⟨⟨p, e, here, rest⟩, c, after, st, hfront, hrest, hstep, htoken, hback⟩ := h.cut
  simp only at hrest
  subst hrest
  have hall := Reads.step hstep hback
  rw [htoken] at hall
  exact ⟨_, hfront, (Step.stop_token hstep htoken).1.symm, hall⟩

/-- A run can be cut behind a token. -/
theorem Reads.cut_after (h : Reads s (ts ++ u :: us) t) :
    ∃ m, Reads s (ts ++ [u]) m ∧ m.here.offset = u.stop ∧ Reads m us t := by
  obtain ⟨⟨p, e, here, rest⟩, c, after, st, hfront, hrest, hstep, htoken, hback⟩ := h.cut
  simp only at hrest
  subst hrest
  have hone := Reads.step hstep (.done _)
  rw [htoken] at hone
  exact ⟨_, hfront.append hone, (Step.stop_token hstep htoken).2.1.symm, hback⟩

/-- A run goes on behind the blanks that it begins with. -/
theorem Reads.behind_blanks {p : Option Token} {e : List Enclosure} {here : Position}
    (h : Reads ⟨p, e, here, blanks ++ back⟩ ts t)
    (hblanks : ∀ c ∈ blanks, Lexeme.isSpace c = true) (hle : t.rest.length ≤ back.length) :
    Reads ⟨p, e, here.advance blanks, back⟩ ts t := by
  induction blanks generalizing here with
  | nil => exact h
  | cons c blanks ih =>
    cases h with
    | done =>
      simp only [List.length_append, List.length_cons] at hle
      omega
    | step first others =>
      rw [step_eq, if_pos (hblanks c List.mem_cons_self)] at first
      cases first
      exact ih others fun d hd => hblanks d (List.mem_cons_of_mem c hd)

/-- A number sign is a token of its own. -/
theorem Reads.exists_numberSign {p : Option Token} {e : List Enclosure} {here : Position}
    {more : List Char} (h : Reads ⟨p, e, here, '#' :: more⟩ ts t)
    (hle : t.rest.length ≤ more.length) : ∃ v ∈ ts.head?, v.value = "#" := by
  cases h with
  | done =>
    simp only [List.length_cons] at hle
    omega
  | step first others =>
    have hstep : Lexer.step p e here '#' more = .ok (verbatim .operator ['#'] more e) := rfl
    rw [hstep] at first
    cases first
    exact ⟨_, rfl, rfl⟩

theorem enclosures_eq_nil {e : List Enclosure} (hblock : openCount .block e = 0)
    (hsubstitution : openCount .substitution e = 0) : e = [] := by
  cases e with
  | nil => rfl
  | cons x outer =>
    obtain ⟨bracket, opened⟩ := x
    have hnonneg : ∀ b, 0 ≤ openCount b outer := fun b => Int.natCast_nonneg _
    have := hnonneg .block
    have := hnonneg .substitution
    cases bracket <;> simp [openCount] at * <;> omega

/-- No brace is open where as many were closed as opened. -/
theorem Reads.enclosures_eq_nil (h : Reads s ts m) (hs : s.enclosures = [])
    (hblock : blockDepth ts = 0) (hsubstitution : substitutionDepth ts = 0) :
    m.enclosures = [] := by
  have hcount := h.openCount_eq
  rw [hs, hblock, hsubstitution] at hcount
  exact Lexer.enclosures_eq_nil hcount.1 hcount.2

/-- The interpreter line is told by the text above a line. -/
theorem interpreterLine_of_beginsLine (h : BeginsLine front)
    (hfirst : front = [] → ¬ ['#', '!'] <+: back) :
    interpreterLine (front ++ back) = interpreterLine front := by
  rcases h with hblank | ⟨above, blanks, rfl, -, -⟩
  · cases front with
    | nil => exact interpreterLine_eq_nil (hfirst rfl)
    | cons c rest =>
      have hne : ∀ more, ¬ ['#', '!'] <+: c :: more := by
        rintro more ⟨_, heq⟩
        obtain rfl : '#' = c := (List.cons.inj heq).1
        exact absurd (hblank _ List.mem_cons_self) (by decide)
      rw [interpreterLine_eq_nil (hne rest), List.cons_append, interpreterLine_eq_nil (hne _)]
  · rw [List.append_assoc, List.cons_append, interpreterLine_append, interpreterLine_append]

/-- What is read above a line of a text does not depend on that line. -/
theorem Reads.onto_text (h : Reads (Scan.ofText text) ts m)
    (hline : BeginsLine (text.take m.here.offset))
    (hfirst : text.take m.here.offset = [] → ¬ ['#', '!'] <+: back) :
    Reads (Scan.ofText (text.take m.here.offset ++ back)) ts (m.onto back) := by
  obtain ⟨hrest, -, hle⟩ := h.place
  have htext : text.take m.here.offset ++ m.rest = text := by
    rw [hrest, List.take_append_drop]
  have hinterpreter : interpreterLine text = interpreterLine (text.take m.here.offset) := by
    have hfirst' : text.take m.here.offset = [] → ¬ ['#', '!'] <+: m.rest := by
      rintro hnil ⟨rest, hprefix⟩
      rw [hnil, ← hprefix] at htext
      have hlength := congrArg List.length hnil
      rw [List.length_take] at hlength
      rw [← htext] at hle hlength
      simp [interpreterLine] at hle hlength
      rw [List.takeWhile_cons_of_pos (by decide), List.length_cons] at hle
      omega
    have heq := interpreterLine_of_beginsLine hline hfirst'
    rwa [htext] at heq
  have hbegins := hline.of_suffix (List.drop_suffix (interpreterLine text).length _)
  have hle' : (interpreterLine text).length ≤ (text.take m.here.offset).length := by
    have hcut := congrArg List.length (append_of_interpreterLine (text.take m.here.offset))
    rw [List.length_append, ← hinterpreter] at hcut
    omega
  have hfront : (Scan.ofText text).rest =
      (text.take m.here.offset).drop (interpreterLine text).length ++ m.rest := by
    rw [← List.drop_append_of_le_length hle', htext]
    rfl
  have hall := h.onto_line hfront hbegins back
  have hstart : (Scan.ofText text).onto
      ((text.take m.here.offset).drop (interpreterLine text).length ++ back) =
      Scan.ofText (text.take m.here.offset ++ back) := by
    have hinterpreter' := interpreterLine_of_beginsLine hline hfirst
    rw [← hinterpreter] at hinterpreter'
    unfold Scan.ofText Scan.onto
    rw [hinterpreter', List.drop_append_of_le_length hle']
  rwa [hstart] at hall

end Lexer

open Lexer

variable {text y back blanks : List Char} {s : TokenStream} {before own after words : List Token}
  {t u : Token}

/-- A stretch of a text is exchanged for other words, and the blanks after it go as well. -/
theorem tokenize_exchange (hs : tokenize text = .ok s)
    (htokens : s.tokens = before ++ (own ++ after)) (ht : own.head? = some t)
    (hu : own.getLast? = some u) (hline : BeginsLine (text.take t.start.offset))
    (hbefore : blockDepth before = 0 ∧ substitutionDepth before = 0)
    (hown : blockDepth own = 0 ∧ substitutionDepth own = 0)
    (hback : text.drop u.stop = blanks ++ back)
    (hblanks : ∀ c ∈ blanks, Lexeme.isSpace c = true)
    (hwords : Says y words) (hapart : Apart y back)
    (hy : ∀ c ∈ y.head?, c ≠ '#')
    (hafter : ∀ v ∈ after.head?, v.kind ≠ .mark .slash ∧ v.kind ≠ .regex ∧ v.value ≠ "#") :
    ∃ ts after' finish p q,
      tokenize (text.take t.start.offset ++ (y ++ back)) = .ok ⟨before ++ (ts ++ after'), finish⟩ ∧
        ts.map Token.bare = words ∧
        Reads ⟨p, [], t.start, y ++ back⟩ ts ⟨q, [], t.start.advance y, back⟩ ∧
        List.Forall₂ (Moved ((Position.start.advance (text.take u.stop)).advance blanks)
          (t.start.advance y)) after after' := by
  have hrun : ∃ q, Reads (Scan.ofText text) s.tokens ⟨q, [], s.finish, []⟩ := tokensFrom_eq_ok.1 hs
  obtain ⟨q₀, hrun⟩ := hrun
  obtain ⟨rest, hrest⟩ : ∃ rest, own = t :: rest := List.head?_eq_some_iff.1 ht
  obtain ⟨init, hinit⟩ : ∃ init, own = init ++ [u] := by
    obtain ⟨init, hinit⟩ := List.getLast?_eq_some_iff.1 hu
    exact ⟨init, hinit⟩
  -- Up to the stretch the text reads as before.
  have hcut : s.tokens = before ++ t :: (rest ++ after) := by
    rw [htokens, hrest, List.cons_append]
  obtain ⟨m, hfront, hhere, -⟩ := (hcut ▸ hrun).cut_before
  have hnil := hfront.enclosures_eq_nil rfl hbefore.1 hbefore.2
  -- Behind the stretch the text reads from outside of all braces.
  have hcut' : s.tokens = (before ++ init) ++ u :: after := by
    rw [htokens, hinit, List.append_assoc, List.append_assoc, List.singleton_append]
  obtain ⟨n, hall, hstop, hrest'⟩ := (hcut' ▸ hrun).cut_after
  have hdepth : before ++ init ++ [u] = before ++ own := by
    rw [hinit, List.append_assoc]
  rw [hdepth] at hall
  have hnil' : n.enclosures = [] := by
    apply hall.enclosures_eq_nil rfl
    · rw [blockDepth, depthBy_append]
      exact (congrArg₂ _ hbefore.1 hown.1).trans rfl
    · rw [substitutionDepth, depthBy_append]
      exact (congrArg₂ _ hbefore.2 hown.2).trans rfl
  obtain ⟨hnrest, hnhere, -⟩ := hall.place
  rw [hstop] at hnrest hnhere
  have hscan' : n = ⟨n.previous, [], Position.start.advance (text.take u.stop), blanks ++ back⟩ := by
    rw [← hnil', ← hnhere, ← hback, ← hnrest]
  rw [hscan'] at hrest'
  have hbehind := hrest'.behind_blanks hblanks (Nat.zero_le _)
  have hfirst : text.take t.start.offset = [] → ¬ ['#', '!'] <+: y ++ back := by
    rintro - ⟨more, hprefix⟩
    cases y with
    | cons c y =>
      obtain rfl : '#' = c := (List.cons.inj hprefix).1
      exact hy _ rfl rfl
    | nil =>
      obtain rfl : '#' :: '!' :: more = back := hprefix
      obtain ⟨v, hv, hvalue⟩ := hbehind.exists_numberSign (Nat.zero_le _)
      exact (hafter v hv).2.2 hvalue
  rw [← hhere] at hline hfirst ⊢
  have hfront' := hfront.onto_text hline hfirst
  -- The words of the other stretch come next.
  obtain ⟨ts, q, hnew, hbare⟩ := hwords m.previous [] m.here back hapart
  have hscan : m.onto (y ++ back) = ⟨m.previous, [], m.here, y ++ back⟩ := by
    rw [← hnil]
    rfl
  rw [hscan] at hfront'
  -- Behind them the rest of the text reads as it did behind the old stretch.
  obtain ⟨after', ⟨q', e, here, more⟩, hmove, hmoved, hmore, hbrackets, -⟩ :=
    hbehind.moved ⟨q, [], m.here.advance y, back⟩ rfl rfl
      (.inr fun v hv => ⟨(hafter v hv).1, (hafter v hv).2.1⟩)
  simp only at hmore hbrackets hmoved
  obtain rfl : e = [] := by simpa using hbrackets
  subst hmore
  exact ⟨ts, after', here, m.previous, q, tokenize_of_reads (hfront'.append (hnew.append hmove)),
    hbare, hnew, hmoved⟩

end ComponentRegistry
