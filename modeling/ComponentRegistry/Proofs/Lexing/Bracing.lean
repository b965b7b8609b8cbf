import ComponentRegistry.Proofs.Lexing.Losslessness
import ComponentRegistry.Proofs.Lexing.Nesting
import ComponentRegistry.Proofs.Outcome

/-! # Braces close what they opened

Blocks and embedded expressions share one closing brace, and they stand inside of each other to any
depth. The tokens of a text tell the two apart, and all that they open they close in order.
-/

namespace ComponentRegistry

namespace Lexer

open Lexeme

/-- The tokens of a text are well nested. -/
structure WellNested (text : List Char) (s : TokenStream) : Prop where
  /-- What a token begins and ends with stands in the text. -/
  lexemes : ∀ t ∈ s.tokens, slice text t.start.offset t.stop = t.lexeme.toList
  /-- No token closes anything but the innermost brace, which is open and of its own sort. -/
  fits : ∀ before t behind, s.tokens = before ++ t :: behind → t.Fits (openBraces before)
  /-- A closing brace inside of an embedded expression leads back into the template. -/
  resumes : ∀ before t behind, s.tokens = before ++ t :: behind → ['}'] <+: t.lexeme.toList →
    (openBraces before).head?.map Enclosure.bracket = some .substitution →
      t.kind = .template ∧ ∃ ending, ending ∈ [['\x60'], ['$', '{']] ∧
        t.lexeme.toList = '}' :: t.value.toList ++ ending
  closed : openBraces s.tokens = []

/-- Only a closing brace begins with one. -/
theorem step_closeBrace (p : Option Token) (e : List Enclosure) (h : Position)
    (after : List Char) : step p e h '}' after = closeBraceStep h after e := by
  rw [step, if_neg (by decide)]

theorem kind_of_templateStep {opened h : Position} {lead : Char} {after : List Char}
    {e : List Enclosure} {s : Step} (hstep : templateStep opened lead after e = .ok s) {t : Token}
    (ht : s.token? h = some t) : t.kind = .template := by
  unfold templateStep at hstep
  split at hstep
  · cases hstep
  · cases hstep
    cases ht
    rfl

/-- A token of a run closes only what the tokens before it have left open. -/
theorem Reads.fits {s t : Scan} {before behind : List Token} {u : Token}
    (h : Reads s (before ++ u :: behind) t) : u.Fits (before.foldl Token.enclose s.enclosures) := by
  obtain ⟨m, c, after, st, hreads, -, hstep, htoken, -⟩ := h.cut
  rw [← hreads.enclosures_eq]
  exact (encloses_step hstep).2 u htoken

/-- Inside of an embedded expression a closing brace begins a stretch of template text. -/
theorem Reads.kind_of_closing {s t : Scan} {before behind : List Token} {u : Token}
    (h : Reads s (before ++ u :: behind) t) (hlead : ['}'] <+: u.lexeme.toList)
    (htop : (before.foldl Token.enclose s.enclosures).head?.map Enclosure.bracket =
      some .substitution) : u.kind = .template := by
  obtain ⟨m, c, after, st, hreads, -, hstep, htoken, -⟩ := h.cut
  obtain ⟨⟨kind, value⟩, -, rfl⟩ := Option.map_eq_some_iff.1 htoken
  have hc : c = '}' := by
    rw [String.toList_ofList] at hlead
    have hcut := hlead.trans ((cuts_step hstep).2 ▸ List.prefix_append _ _)
    exact (List.cons_prefix_cons.1 hcut).1.symm
  subst hc
  rw [← hreads.enclosures_eq] at htop
  rw [step_closeBrace] at hstep
  obtain ⟨⟨bracket, opened⟩, hhead, rfl⟩ := Option.map_eq_some_iff.1 htop
  obtain ⟨outer, houter⟩ := List.head?_eq_some_iff.1 hhead
  rw [houter] at hstep
  exact kind_of_templateStep hstep htoken

/-- The tokens of every text that has tokens are well nested. -/
theorem tokenize_wellNested {text : List Char} {s : TokenStream} (h : tokenize text = .ok s) :
    WellNested text s := by
  obtain ⟨⟨q, reads⟩, -⟩ := reads_of_tokenize h
  have tiles := reads.tiles rfl (interpreterLine text)
    (by simp [Position.offset_advance, Position.start])
  rw [append_of_interpreterLine] at tiles
  refine ⟨fun t ht => tiles.lexemes t (List.mem_append_left _ ht), ?_, ?_, ?_⟩
  · intro before t behind hsplit
    rw [hsplit] at reads
    exact reads.fits
  · intro before t behind hsplit hlead htop
    rw [hsplit] at reads
    have hkind := reads.kind_of_closing hlead htop
    have conveys := reads.conveys (List.mem_append_right before List.mem_cons_self)
    rw [hkind] at conveys
    obtain ⟨lead, ending, -, hending, hlexeme⟩ := conveys
    rw [hlexeme] at hlead
    obtain rfl := (List.cons_prefix_cons.1 hlead).1
    exact ⟨hkind, ending, hending, hlexeme⟩
  · exact reads.enclosures_eq.symm

/-- A template inside of a block inside of a template. Strings and comments hide their braces. -/
theorem tokenize_wellNested_nested :
    ∃ text s, tokenize text = .ok s ∧
      (openBraces (s.tokens.take 6)).map Enclosure.bracket =
        [.substitution, .block, .substitution, .block] ∧ WellNested text s := by
  let text :=
    "\x7b\x60a$\x7b\x7bb:\x60\x7d$\x7bc\x7d\x60\x7d\x7d$\x7b'\x7d'\x7dd\x60/*\x7b*/\x7d".toList
  have brackets : (tokenize text).toOption.map
      (fun s => (openBraces (s.tokens.take 6)).map Enclosure.bracket) =
        some [.substitution, .block, .substitution, .block] := by
    decide +kernel
  obtain ⟨s, h, hbrackets⟩ := exists_of_toOption_map brackets
  exact ⟨text, s, h, hbrackets, tokenize_wellNested h⟩

end Lexer

end ComponentRegistry
