import ComponentRegistry.Proofs.Lexing.Exchange
import ComponentRegistry.Rewrite.DefaultExport

/-! # A statement at the end of a text

The line feeds at the end of a text can be exchanged for an empty line and a statement. No lexeme
before them looks over an empty line: a quote that is not closed looks over an escaped line feed, but
not over two.
-/

namespace ComponentRegistry

namespace Lexeme

variable {quote : Char} {text more : List Char}

/-- A quote that is not closed stays so when a line feed follows, unless that is escaped and there is
more on the next line. -/
theorem quotedBody_feed (h : quotedBody quote text = none) (hmore : ∀ c ∈ more.head?, c = '\n') :
    quotedBody quote (text ++ '\n' :: more) = none := by
  fun_induction quotedBody quote text with
  | case1 => rfl
  | case2 => rfl
  | case3 c text ih => simpa [quotedBody] using ih (by simpa using h)
  | case4 => cases h
  | case5 c text hline hescape hne ih =>
    by_cases hc : c = '\\'
    · subst hc
      -- The backslash was the last character, and escapes the line feed.
      obtain rfl : text = [] := by
        cases text with
        | nil => rfl
        | cons d text => exact (hescape d text rfl rfl).elim
      cases more with
      | nil => rfl
      | cons d more =>
        obtain rfl := hmore d rfl
        rfl
    · rw [List.cons_append, quotedBody.eq_4 _ _ _ hline fun _ _ heq => absurd heq hc, if_neg hne,
        ih (by simpa using h)]
      rfl

end Lexeme

namespace Lexer

variable {text front feeds more a : List Char} {s t : Scan} {ts : List Token}

theorem keepsAlone_feed (hmore : ∀ c ∈ more.head?, c = '\n') (feeds : List Char) :
    KeepsAlone s ts a feeds ('\n' :: more) := by
  intro us t vs b _ _ _ halone
  constructor
  · intro hkind q hq hlexeme
    have hne : q ≠ '\\' := by
      rcases hq with rfl | rfl <;> decide
    exact Lexeme.quotedBody_feed
      (Lexeme.quotedBody_of_append hne (halone.quote hkind q hq hlexeme)) hmore
  · intro hkind hfollow
    exact Lexeme.regexBody_newline (Lexeme.regexBody_of_append (halone.slash hkind hfollow)) more

theorem joint_feed (hfeeds : ∀ c ∈ feeds, c = '\n') (more : List Char) :
    Joint feeds ('\n' :: more) := by
  cases feeds with
  | nil => exact joint_newline more
  | cons c feeds =>
    obtain rfl := hfeeds c List.mem_cons_self
    exact ⟨fun _ _ => rfl, by simp⟩

theorem isSpace_of_feeds (hfeeds : ∀ c ∈ feeds, c = '\n') :
    ∀ c ∈ feeds, Lexeme.isSpace c = true := by
  intro c hc
  rw [hfeeds c hc]
  rfl

/-- A run to the end of a text comes past the place in front of its last line feeds. -/
theorem Reads.cut_feeds (h : Reads s ts t) (hend : t.rest = []) (hrest : s.rest = a ++ feeds)
    (hfeeds : ∀ c ∈ feeds, c = '\n') :
    ∃ m, Reads s ts m ∧ m.rest = feeds ∧ m.enclosures = t.enclosures := by
  cases feeds with
  | nil => exact ⟨t, h, hend, rfl⟩
  | cons c feeds =>
    obtain rfl := hfeeds c List.mem_cons_self
    have hspace := isSpace_of_feeds fun d hd => hfeeds d (List.mem_cons_of_mem _ hd)
    obtain ⟨m, hm, hmrest, ht⟩ := h.cut_line (by rw [hrest, hend, List.append_nil]) hspace
    refine ⟨m, hm, by rw [hmrest, hend, List.append_nil], ?_⟩
    rw [ht]

/-- What stands in front of the line feeds at the end of a text is read alike in front of another
line feed, with nothing on the next line. -/
theorem reads_before_feed {s : TokenStream} (more : List Char) (hs : tokenize (front ++ feeds) = .ok s)
    (hfeeds : ∀ c ∈ feeds, c = '\n') (hmore : ∀ c ∈ more.head?, c = '\n') :
    ∃ q, Reads (Scan.ofText (front ++ '\n' :: more)) s.tokens
      ⟨q, [], Position.start.advance front, '\n' :: more⟩ := by
  have hrun : ∃ q, Reads (Scan.ofText (front ++ feeds)) s.tokens ⟨q, [], s.finish, []⟩ :=
    tokensFrom_eq_ok.1 hs
  obtain ⟨q, hrun⟩ := hrun
  have hfirst : interpreterLine (front ++ feeds) = interpreterLine front := by
    cases feeds with
    | nil => rw [List.append_nil]
    | cons c feeds =>
      obtain rfl := hfeeds c List.mem_cons_self
      exact interpreterLine_append front feeds
  have hfront := append_of_interpreterLine front
  have hle : (interpreterLine front).length ≤ front.length := by
    have hlength := congrArg List.length hfront
    rw [List.length_append] at hlength
    omega
  have hscan : Scan.ofText (front ++ feeds) = ⟨none, [], Position.start.advance
      (interpreterLine front), front.drop (interpreterLine front).length ++ feeds⟩ := by
    rw [Scan.ofText, hfirst, List.drop_append_of_le_length hle]
  rw [hscan] at hrun
  obtain ⟨m, hm, hmrest, hnil⟩ := hrun.cut_feeds rfl rfl hfeeds
  obtain ⟨passed, hpassed, hhere⟩ := hm.passes
  simp only at hpassed hhere hnil
  obtain rfl := List.append_cancel_right (hmrest ▸ hpassed)
  rw [← Position.advance_append, hfront] at hhere
  have hjoint : Joint m.rest ('\n' :: more) := hmrest ▸ joint_feed hfeeds more
  have hall := hm.onto (by rw [hmrest]) hjoint (keepsAlone_feed hmore m.rest)
  refine ⟨m.previous, ?_⟩
  rw [Scan.ofText, interpreterLine_append, List.drop_append_of_le_length hle]
  simpa only [Scan.onto, hnil, hhere] using hall

end Lexer

open Lexer

theorem append_of_dropFinalLineFeeds (text : List Char) :
    ∃ feeds, text = dropFinalLineFeeds text ++ feeds ∧ ∀ c ∈ feeds, c = '\n' := by
  refine ⟨(text.reverse.takeWhile (· == '\n')).reverse, ?_, fun c hc => ?_⟩
  · rw [dropFinalLineFeeds, dropTrailing, ← List.reverse_append, List.takeWhile_append_dropWhile,
      List.reverse_reverse]
  · exact beq_iff_eq.1 (List.all_eq_true.1 List.all_takeWhile c (List.mem_reverse.1 hc))

/-- A statement below a text has the tokens that it has on its own, further down, and the text keeps
all of its own. -/
theorem tokenize_withTrailer {text statement : List Char} {s u : TokenStream}
    (hs : tokenize text = .ok s) (hu : tokenize statement = .ok u)
    (hinterpreter : ¬ ['#', '!'] <+: statement)
    (hfirst : ∀ t ∈ u.tokens.head?, t.kind ≠ .mark .slash ∧ t.kind ≠ .regex) :
    let u' := u.shift (dropFinalLineFeeds text ++ ['\n', '\n'])
    tokenize (withTrailer text (some statement)) =
      .ok ⟨s.tokens ++ u'.tokens, u'.finish.advance ['\n']⟩ := by
  intro u'
  obtain ⟨feeds, htext, hfeeds⟩ := append_of_dropFinalLineFeeds text
  rw [htext] at hs
  -- The text reads as before in front of an empty line, which is passed over.
  obtain ⟨q, hfront⟩ := reads_before_feed ('\n' :: (statement ++ ['\n'])) hs hfeeds (by simp)
  have hspace : ∀ c ∈ ['\n', '\n'], Lexeme.isSpace c = true := isSpace_of_feeds (by simp)
  have hempty := reads_blanks q [] (Position.start.advance (dropFinalLineFeeds text)) hspace
    (statement ++ ['\n'])
  have hhere : (Position.start.advance (dropFinalLineFeeds text)).advance ['\n', '\n'] =
      Position.start.shift (dropFinalLineFeeds text ++ ['\n', '\n']) := by
    have hline := Position.start_advance_newline (dropFinalLineFeeds text ++ ['\n'])
    rw [List.append_assoc] at hline
    rw [← Position.advance_append]
    exact hline
  -- The statement reads as it does alone, with a line feed behind it.
  rw [← List.append_nil statement] at hu
  obtain ⟨q', hback⟩ := reads_before_feed [] hu (by simp) (by simp)
  have hscan : Scan.ofText (statement ++ ['\n']) =
      ⟨none, [], Position.start, statement ++ ['\n']⟩ := by
    rw [Scan.ofText, interpreterLine_append, interpreterLine_eq_nil hinterpreter]
    rfl
  rw [hscan] at hback
  obtain ⟨ts, ⟨q'', e, here, rest⟩, hmove, hmoved, hrest, hbrackets, passed, hend, hend'⟩ :=
    hback.moved ⟨q, [], Position.start.shift (dropFinalLineFeeds text ++ ['\n', '\n']),
      statement ++ ['\n']⟩ rfl rfl (.inr hfirst)
  simp only at hmoved hrest hbrackets hend hend'
  obtain rfl : e = [] := by simpa using hbrackets
  obtain rfl : ts = u'.tokens := map_shift_of_moved hmoved
  obtain rfl : here = u'.finish := by
    rw [hend', Position.advance_shift, ← hend]
    exact congrArg _ (by simpa using (reads_of_tokenize hu).2.symm)
  subst hrest
  have hspace : ∀ c ∈ ['\n'], Lexeme.isSpace c = true := isSpace_of_feeds (by simp)
  have hlast := reads_blanks q'' [] u'.finish hspace []
  rw [List.append_nil] at hlast
  have hall := hfront.append ((hhere ▸ hempty).append (hmove.append hlast))
  rw [List.nil_append, List.append_nil] at hall
  rw [withTrailer, List.append_assoc, List.cons_append, List.cons_append]
  exact tokenize_of_reads hall

end ComponentRegistry
