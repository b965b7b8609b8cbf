import ComponentRegistry.Proofs.Rewrite.DefaultDeclaration
import ComponentRegistry.Proofs.Rewrite.RoundTrip

/-! # A name that is stated below a text

Stating a name below a text changes nothing above: the text keeps its tokens where they are, in
whatever comment, quote or slash it breaks off, and whether it ends in line feeds or not. The
statement reads as it does on its own.
-/

namespace ComponentRegistry

open Lexer

/-- The words of a clause that exports a name. -/
theorem says_nameClause {name : String} (hname : Lexeme.isNameText name.toList = true) :
    Says (nameClause name) [.ofName "export", .ofMark .openBrace, .ofName name,
      .ofMark .closeBrace, .ofMark .semicolon] := by
  have hexport : Says "export".toList [.ofName "export"] := says_ofName (by decide)
  have hinside := ((says_ofName hname).after_blank (toList_ne_nil hname)).append says_blank
    (by simp) (apart_of_first (by decide) _ [])
  have hclause := hinside.enclosed.append says_semicolon (by simp)
    (apart_of_first (c := ';') (by decide) _ [])
  rw [nameClause_eq]
  exact hexport.append_blank hclause (by simp)

/-- A statement that exports a name, as the default or under itself, and its words. -/
inductive StatesName (name : String) : List Char → List Token → Prop where
  | default : StatesName name (defaultNameStatement name)
      [.ofName "export", .ofName "default", .ofName name, .ofMark .semicolon]
  | clause : StatesName name (nameClause name)
      [.ofName "export", .ofMark .openBrace, .ofName name, .ofMark .closeBrace, .ofMark .semicolon]

theorem StatesName.isStatement {name : String} {statement : List Char} {words : List Token}
    (h : StatesName name statement words) : IsStatement statement := by
  cases h with
  | default => exact isStatement_defaultNameStatement name
  | clause => exact isStatement_nameClause name

theorem StatesName.reads {name : String} {statement : List Char} {words : List Token}
    (h : StatesName name statement words) (hname : IsName name) : Says statement words := by
  cases h with
  | default => exact says_defaultNameStatement (isName_iff.1 hname)
  | clause => exact says_nameClause (isName_iff.1 hname)

/-- Line feeds at the end of a text, an empty line and a statement of a name: the tokens are those of
the text, where they were, then those of the statement, further down, and then the end. -/
theorem tokenize_stated {text statement : List Char} {words : List Token} {s : TokenStream}
    {name : String} (hs : tokenize text = .ok s) (hname : IsName name)
    (hstates : StatesName name statement words) :
    let front := dropFinalLineFeeds text ++ ['\n', '\n']
    let stated := front ++ statement ++ ['\n']
    ∃ u s', tokenize statement = .ok u ∧ u.tokens.map Token.bare = words ∧
      tokenize stated = .ok s' ∧
      s'.toList = s.tokens ++ u.tokens.map (Token.shift front) ++
        [Token.endOfInput (Position.start.advance stated)] := by
  intro front stated
  have hstatement := hstates.isStatement
  obtain ⟨u, hu, hwords⟩ := hstatement.exists_tokenize (hstates.reads hname)
  have hall := tokenize_withTrailer hs hu hstatement.not_interpreter fun w hw => by
    rw [hstatement.kind_first hu w hw]
    decide
  have hsame : withTrailer text (some statement) = stated := by
    simp [withTrailer, stated, front]
  rw [hsame] at hall
  refine ⟨u, _, hu, hwords, hall, ?_⟩
  rw [TokenStream.toList, (reads_of_tokenize hall).2]
  rfl

/-- A quote is left over in front of a comment that ends in a backslash, and line feeds follow. The
name is a keyword. -/
theorem tokenize_stated_below_backslash :
    let text := "x = <p>it's</p> // \\\n\n".toList
    let front := "x = <p>it's</p> // \\\n\n".toList
    let statement := "export default async;".toList
    ∃ s u s', tokenize text = .ok s ∧ IsName "async" ∧ tokenize statement = .ok u ∧
      u.tokens.map Token.bare =
        [.ofName "export", .ofName "default", .ofName "async", .ofMark .semicolon] ∧
      tokenize (front ++ statement ++ ['\n']) = .ok s' ∧
      s'.toList = s.tokens ++ u.tokens.map (Token.shift front) ++
        [Token.endOfInput ⟨44, 4, 1⟩] := by
  intro text front statement
  let s := (tokenize text).toOption.getD ⟨[], .start⟩
  obtain ⟨htokens, hdrop, hstatement, hfinish⟩ : (tokenize text).toOption.isSome = true ∧
      dropFinalLineFeeds text ++ ['\n', '\n'] = front ∧
      defaultNameStatement "async" = statement ∧
      Position.start.advance (front ++ statement ++ ['\n']) = ⟨44, 4, 1⟩ := by
    decide +kernel
  have hs : tokenize text = .ok s := eq_ok_getD htokens _
  have hname : IsName "async" := isName_iff.2 (by decide +kernel)
  obtain ⟨u, s', hu, hwords, hs', hall⟩ := tokenize_stated hs hname .default
  rw [hdrop, hstatement] at hs' hall
  rw [hstatement] at hu
  rw [hfinish] at hall
  exact ⟨s, u, s', hs, hname, hu, hwords, hs', hall⟩

end ComponentRegistry
