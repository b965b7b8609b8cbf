import ComponentRegistry.Proofs.Lexing.Omission
import ComponentRegistry.Proofs.Lexing.Places

/-! # Leaving out words in front of a word

Words can be left out of a text up to another word on their line, with the blanks and comments
between them. A comment on the line hides no end of a quotation from what stands before it: a quote
that is not closed in front of the comment is not closed in it either.
-/

namespace ComponentRegistry

namespace Lexeme

variable {w back after body : List Char} {quote : Char}

/-- A quote that finds no partner behind a stretch of its line finds none without it. -/
theorem quotedBody_of_line (hline : '\n' ∉ w) (hlast : w.getLast? ≠ some '\\')
    (h : quotedBody quote (w ++ back) = none) : quotedBody quote back = none := by
  fun_induction quotedBody quote w with
  | case1 => exact h
  | case2 => simp at hline
  | case3 c rest ih =>
    simp only [List.mem_cons, not_or] at hline
    simp only [List.cons_append, quotedBody, Option.map_eq_none_iff] at h
    exact ih hline.2.2 (getLast?_ne_of_cons (getLast?_ne_of_cons hlast)) h
  | case4 rest hfeed hescape =>
    rw [List.cons_append, quotedBody.eq_4 _ _ _ hfeed fun d tail heq htail => ?_, if_pos rfl] at h
    · cases h
    · subst heq
      cases rest with
      | nil => exact hlast rfl
      | cons d rest => exact hescape d rest rfl rfl
  | case5 c rest hfeed hescape hne ih =>
    rw [List.cons_append, quotedBody.eq_4 _ _ _ hfeed fun d tail heq htail => ?_, if_neg hne,
      Option.map_eq_none_iff] at h
    · exact ih (fun hmem => hline (List.mem_cons_of_mem _ hmem)) (getLast?_ne_of_cons hlast) h
    · subst heq
      cases rest with
      | nil => exact hlast rfl
      | cons d rest => exact hescape d rest rfl rfl

/-- A slash that ends no regular expression stands between the brackets of a class. -/
theorem regexBody_of_slash {inClass : Bool} (hline : '\n' ∉ w) (hlast : w.getLast? ≠ some '\\')
    (h : regexBody inClass (w ++ '/' :: back) = none) : regexBody true back = none := by
  fun_induction regexBody inClass w with
  | case1 inClass =>
    cases inClass with
    | false => simp [regexBody] at h
    | true => simpa [regexBody, classAfter] using h
  | case2 => simp at hline
  | case3 => exact absurd rfl hlast
  | case4 => simp at hline
  | case5 inClass c rest hfeed ih =>
    simp only [List.mem_cons, not_or] at hline
    rw [List.cons_append, List.cons_append, regexBody.eq_5 _ _ _ hfeed,
      Option.map_eq_none_iff] at h
    exact ih hline.2.2 (getLast?_ne_of_cons (getLast?_ne_of_cons hlast)) h
  | case6 inClass c rest hfeed hlone hescape hplain hclose =>
    obtain ⟨rfl, rfl⟩ := hclose
    simp [regexBody] at h
  | case7 inClass c rest hfeed hlone hescape hplain hclose ih =>
    have hc : c ≠ '\\' := by
      rintro rfl
      cases rest with
      | nil => exact hlast rfl
      | cons d rest => exact hplain d rest rfl rfl
    rw [List.cons_append, regexBody.eq_6 _ _ _ hfeed (fun heq => absurd heq hc)
      (fun _ heq => absurd heq hc) (fun _ _ heq => absurd heq hc), if_neg hclose,
      Option.map_eq_none_iff] at h
    exact ih (fun hmem => hline (List.mem_cons_of_mem _ hmem)) (getLast?_ne_of_cons hlast) h

theorem unseen_of_comment (hline : '\n' ∉ body) : Unseen ('/' :: '*' :: body ++ ['*', '/']) := by
  refine fun back => ⟨fun q _ h => ?_, fun inClass h => ?_⟩
  · refine quotedBody_of_line (w := '/' :: '*' :: body ++ ['*', '/']) ?_ ?_ h
    · simpa using hline
    · rw [List.getLast?_append]
      simp
  · cases inClass with
    | false => simp [regexBody] at h
    | true =>
      -- The comment begins inside of a class, and its last slash stands inside of one as well.
      have hinside : regexBody true (('*' :: body ++ ['*']) ++ '/' :: back) = none := by
        simpa [regexBody, classAfter] using h
      refine regexBody_of_slash ?_ ?_ hinside
      · simpa using hline
      · rw [List.getLast?_append]
        simp

/-- Blanks and comments on a line in front of something on it. -/
theorem Filler.unseen (h : Filler after w) (hline : '\n' ∉ w)
    (hafter : ∃ c ∈ after.head?, c ≠ '\n') : Unseen w := by
  induction h with
  | nil => exact unseen_of_inert (by simp)
  | @cons piece rest first others ih =>
    simp only [List.mem_append, not_or] at hline
    refine Unseen.append ?_ (ih hline.2)
    cases first with
    | blank hc =>
      refine unseen_of_inert fun d hd => ?_
      obtain rfl := List.mem_singleton.1 hd
      have hne : d ≠ '\n' := fun heq => hline.1 (by simp [heq])
      simp only [List.mem_cons, List.not_mem_nil, or_false] at hc
      rcases hc with rfl | rfl | rfl | rfl | rfl
      all_goals first | exact absurd rfl hne | simp [Inert]
    | lineComment _ ends =>
      obtain ⟨c, hc, hne⟩ := hafter
      cases rest with
      | nil => exact absurd (ends c hc) hne
      | cons d rest =>
        obtain rfl := ends d rfl
        exact absurd List.mem_cons_self hline.2
    | blockComment =>
      refine unseen_of_comment fun hmem => hline.1 ?_
      simp [hmem]

end Lexeme

namespace Lexer

open Lexeme

variable {text : List Char} {own before after : List Token} {k t : Token} {s : TokenStream}

/-- What stands between two tokens on a line, with the tokens in it. -/
theorem unseen_between
    (hchain : (t :: (own ++ [k])).IsChain fun t u =>
      t.start.offset < t.stop ∧ Gap text t.stop u.start.offset)
    (hlexemes : ∀ v ∈ own ++ [k], slice text v.start.offset v.stop = v.lexeme.toList)
    (hinert : ∀ v ∈ own ++ [k], v.lexeme.toList ≠ [] ∧ ∀ c ∈ v.lexeme.toList, Inert c) :
    t.stop ≤ k.start.offset ∧ ('\n' ∉ slice text t.stop k.start.offset →
      Unseen (slice text t.stop k.start.offset)) := by
  -- A gap on the line is unseen, since the token behind it does not begin with a line feed.
  have hgaps : ∀ {u v : Token}, Gap text u.stop v.start.offset → v ∈ own ++ [k] →
      '\n' ∉ slice text u.stop v.start.offset → Unseen (slice text u.stop v.start.offset) := by
    intro u v hgap hv hline
    refine hgap.filler.unseen hline ?_
    obtain ⟨hne, hplain⟩ := hinert v hv
    rw [← slice_append_drop text (Nat.le_add_right _ _), ← Token.stop, hlexemes v hv]
    obtain ⟨c, rest, hchars⟩ := List.exists_cons_of_ne_nil hne
    refine ⟨c, by rw [hchars]; rfl, ?_⟩
    rintro rfl
    exact hplain '\n' (by simp [hchars]) (by decide)
  induction own generalizing t with
  | nil =>
    have hgap := (List.isChain_cons.1 hchain).1 k rfl
    exact ⟨hgap.2.le, hgaps hgap.2 (by simp)⟩
  | cons v own ih =>
    rw [List.cons_append] at hchain
    obtain ⟨hfirst, hchain⟩ := List.isChain_cons.1 hchain
    obtain ⟨-, hgap⟩ := hfirst v rfl
    have hlater : ∀ u ∈ own ++ [k], u ∈ v :: own ++ [k] := fun u hu => List.mem_cons_of_mem v hu
    obtain ⟨hle, hunseen⟩ := ih hchain (fun u hu => hlexemes u (hlater u hu))
      (fun u hu => hinert u (hlater u hu)) fun hgap hu => hgaps hgap (hlater _ hu)
    have hlong : v.start.offset ≤ v.stop := Nat.le_add_right _ _
    have hcut : slice text t.stop k.start.offset = slice text t.stop v.start.offset ++
        (v.lexeme.toList ++ slice text v.stop k.start.offset) := by
      rw [← hlexemes v List.mem_cons_self, slice_append_slice text hlong hle,
        slice_append_slice text hgap.le (hlong.trans hle)]
    refine ⟨hgap.le.trans (hlong.trans hle), fun hline => ?_⟩
    rw [hcut] at hline ⊢
    simp only [List.mem_append, not_or] at hline
    refine (hgaps hgap List.mem_cons_self hline.1).append ?_
    exact (unseen_of_inert (hinert v List.mem_cons_self).2).append (hunseen hline.2.2)

theorem inert_of_isNameText {w : List Char} (h : isNameText w = true) :
    w ≠ [] ∧ ∀ c ∈ w, Inert c := by
  refine ⟨?_, fun c hc => inert_of_continuesName (continuesName_of_isNameText h c hc)⟩
  rintro rfl
  cases h

/-- A name stands for itself. -/
theorem Reads.isNameText_value {s t : Scan} {ts : List Token} (h : Reads s ts t) {u : Token}
    (hu : u ∈ ts) (hname : u.kind.isName = true) : Lexeme.isNameText u.value.toList = true := by
  have hconveys := h.conveys hu
  have hlexeme : u.lexeme.toList = u.value.toList := by
    cases hkind : u.kind with
    | identifier | keyword =>
      rw [hkind] at hconveys
      exact hconveys
    | _ =>
      rw [hkind] at hname
      cases hname
  rw [← hlexeme]
  exact h.isNameText hu hname

/-- Tokens that open and close no brace leave all as they are. -/
theorem foldl_enclose_of_isFlat (hflat : ∀ t ∈ own, isFlat t.kind = true) (e : List Enclosure) :
    own.foldl Token.enclose e = e := by
  induction own with
  | nil => rfl
  | cons t own ih =>
    obtain ⟨hfirst, hflat⟩ := List.forall_mem_cons.1 hflat
    rw [List.foldl_cons, (enclose_of_isFlat hfirst e).1, ih hflat]

theorem Reads.enclosures_eq_of_isFlat {s m n : Scan} (hfront : Reads s before m)
    (hall : Reads s (before ++ own) n) (hflat : ∀ t ∈ own, isFlat t.kind = true) :
    n.enclosures = m.enclosures := by
  rw [hall.enclosures_eq, List.foldl_append, ← hfront.enclosures_eq]
  exact foldl_enclose_of_isFlat hflat _

end Lexer

open Lexer

variable {text : List Char} {own before after : List Token} {k d : Token} {s : TokenStream}

/-- On one line there is no line feed. -/
theorem not_mem_slice_of_line (hs : tokenize text = .ok s) (hd : d ∈ s.tokens) (hk : k ∈ s.tokens)
    (hle : d.start.offset ≤ k.start.offset) (hline : d.line = k.line) :
    '\n' ∉ slice text d.start.offset k.start.offset := by
  obtain ⟨⟨q, hrun⟩, -⟩ := reads_of_tokenize hs
  have hcount : k.line = _ := (hrun.start_exact hk).1.line
  rw [← take_append_slice text hle, List.count_append, ← hline] at hcount
  have hcount' : d.line = _ := (hrun.start_exact hd).1.line
  exact List.count_eq_zero.1 (by omega)

/-- What stands behind a token of a text, up to a later one on the same line, with the tokens in
it. -/
theorem unseen_of_line (hs : tokenize text = .ok s)
    (htokens : s.tokens = before ++ d :: (own ++ k :: after))
    (hinert : ∀ v ∈ own ++ [k], v.lexeme.toList ≠ [] ∧ ∀ c ∈ v.lexeme.toList, Lexeme.Inert c) :
    d.stop ≤ k.start.offset ∧
      (d.line = k.line → Lexeme.Unseen (slice text d.stop k.start.offset)) := by
  have htiles := tiles_of_tokenize hs
  have hinside : (d :: (own ++ [k])) <:+: s.toList :=
    ⟨before, after ++ [Token.endOfInput s.finish], by simp [TokenStream.toList, htokens]⟩
  have hgaps := List.IsChain.infix htiles.apart hinside
  obtain ⟨hstop, hunseen⟩ := unseen_between hgaps
    (fun t ht => htiles.lexemes t (hinside.subset (List.mem_cons_of_mem d ht))) hinert
  refine ⟨hstop, fun hline => hunseen fun hmem => ?_⟩
  have hlong : d.start.offset ≤ d.stop := Nat.le_add_right _ _
  have hone := not_mem_slice_of_line hs (by simp [htokens]) (by simp [htokens])
    (hlong.trans hstop) hline
  rw [← slice_append_slice text hlong hstop] at hone
  exact hone (List.mem_append_right _ hmem)

/-- Words up to another word are left out, with all that stands between them. If that joins two
lines, no quote and no slash in front may find a partner on the other one. -/
theorem tokenize_drop (hs : tokenize text = .ok s)
    (htokens : s.tokens = before ++ (own ++ k :: after)) (hd : d ∈ own.head?)
    (hnames : ∀ t ∈ own ++ [k], t.kind.isName = true)
    (hexport : ∃ v ∈ before, v.kind = .keyword .exportWord)
    (hlast : ∀ u ∈ before.getLast?, u.kind.isName = true ∨ u.kind = .mark .equals)
    (hline : d.line = k.line ∨ ∀ u ∈ before, u.isHalf = false) :
    ∃ after' finish,
      tokenize (text.take d.start.offset ++ text.drop k.start.offset) =
          .ok ⟨before ++ after', finish⟩ ∧
        List.Forall₂ (Moved k.start d.start) (k :: after) after' := by
  have hrun : ∃ q, Reads (Scan.ofText text) s.tokens ⟨q, [], s.finish, []⟩ := tokensFrom_eq_ok.1 hs
  obtain ⟨q, hrun⟩ := hrun
  obtain ⟨own, rfl⟩ : ∃ rest, own = d :: rest := List.head?_eq_some_iff.1 hd
  have hcut : s.tokens = (before ++ d :: own) ++ k :: after := by
    rw [htokens, List.append_assoc]
  obtain ⟨m, hfront, hhere, -⟩ := (htokens ▸ hrun).cut_before
  obtain ⟨n, hall, hhere', hbehind⟩ := (hcut ▸ hrun).cut_before
  obtain ⟨hrest, -, -⟩ := hfront.place
  obtain ⟨hrest', -, -⟩ := hall.place
  rw [hhere] at hrest
  rw [hhere'] at hrest'
  have hmem : ∀ t ∈ d :: own ++ [k], t ∈ s.tokens := by
    intro t ht
    rw [hcut, List.append_assoc]
    refine List.mem_append_right _ ?_
    rcases List.mem_append.1 ht with ht | ht
    · exact List.mem_append_left _ ht
    · exact List.mem_append_right _ (by simp [List.mem_singleton.1 ht])
  have htexts : ∀ t ∈ d :: own ++ [k], Lexeme.isNameText t.lexeme.toList = true := fun t ht =>
    hrun.isNameText (hmem t ht) (hnames t ht)
  -- The stretch that goes begins with the first word.
  obtain ⟨hstop, hunseen⟩ := unseen_of_line hs htokens fun t ht =>
    inert_of_isNameText (htexts t (List.mem_cons_of_mem d ht))
  have hlong : d.start.offset ≤ d.stop := Nat.le_add_right _ _
  have hle := hlong.trans hstop
  have hfirst := slice_append_slice text hlong hstop
  rw [(tiles_of_tokenize hs).lexemes d (List.mem_append_left _ (hmem d (by simp)))] at hfirst
  have hname := htexts d (by simp)
  have hw : Lexeme.Unseen (slice text d.start.offset k.start.offset) ∨
      ∀ u ∈ before, u.isHalf = false := by
    refine hline.imp_left fun hline => ?_
    rw [← hfirst]
    exact (Lexeme.unseen_of_inert (inert_of_isNameText hname).2).append (hunseen hline)
  obtain ⟨c, word, hword⟩ := List.exists_cons_of_ne_nil (inert_of_isNameText hname).1
  have hc := Lexeme.continuesName_of_isNameText hname c (by simp [hword])
  obtain ⟨after', finish, htokenized, hmoved⟩ := hfront.leave_out (d := c) hbehind
    (by rw [hrest, hrest', slice_append_drop text hle])
    (hfront.enclosures_eq_of_isFlat hall fun t ht =>
      isFlat_of_isName (hnames t (List.mem_append_left _ ht)))
    hexport hlast hw (by rw [← hfirst, hword]; rfl) hc (by
      have hk := hnames k (by simp)
      intro v hv
      obtain rfl : k = v := by simpa using hv
      refine ⟨?_, ?_, ?_⟩ <;> intro hkind <;> rw [hkind] at hk <;> cases hk)
  rw [hhere, hrest'] at htokenized
  rw [hhere, hhere'] at hmoved
  exact ⟨after', finish, htokenized, hmoved⟩

end ComponentRegistry
