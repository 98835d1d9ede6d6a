import FlowCheck.Proofs.Token.Semicolon

/-!
# A text determines its tokens

What is found at a place does not depend on what has been reported up to there, and a text has one
stretch without tokens in front of the next one. So `Punctuated` leaves no choice: what it allows is
what a scan delivers.
-/
namespace FlowCheck

namespace Cursor

variable {c d : Cursor}

namespace After

theorem rest_eq (h : After 0 c d) : d.rest = c.rest := h.rest

theorem peek_eq (h : After 0 c d) : d.peek = c.peek := by rw [peek, peek, h.rest_eq]

theorem peekNext_eq (h : After 0 c d) : d.peekNext = c.peekNext := by
  rw [peekNext, peekNext, h.rest_eq]

theorem isAt_eq (h : After 0 c d) (p : Char → Bool) : d.isAt p = c.isAt p := by
  rw [isAt, isAt, h.peek_eq]

theorem report (h : After 0 c d) (fault : LexFault) : After 0 (c.report fault) (d.report fault) :=
  ⟨h.rest, h.pos⟩

theorem skips (h : After 0 c d) (n : Nat) : After 0 (c.skip n) (d.skip n) := by
  refine ⟨?_, h.skip n⟩
  rw [skip_rest, skip_rest, h.rest_eq, List.drop_zero]

theorem skipWhile (h : After 0 c d) (p : Char → Bool) :
    After 0 (c.skipWhile p) (d.skipWhile p) := by
  have hrun : d.runLength p = c.runLength p := by rw [runLength, runLength, h.rest_eq]
  rw [Cursor.skipWhile, Cursor.skipWhile, hrun]
  exact h.skips _

theorem ite {p : Prop} [Decidable p] {c' d' : Cursor} (h : After 0 c d) (h' : After 0 c' d') :
    After 0 (if p then c else c') (if p then d else d') := by
  split
  · exact h
  · exact h'

theorem textTo_eq {e f : Cursor} (h : After 0 c d) (h' : After 0 e f) :
    d.textTo f = c.textTo e := by
  rw [textTo, textTo, h.rest_eq, h'.rest_eq]

/-- A place reached by reading on, whatever has been reported there. -/
theorem skip_with (h : After 0 c d) (n : Nat) (reports reports' : List LexReport) :
    After 0 { c.skip n with reports } { d.skip n with reports := reports' } :=
  ⟨(h.skips n).rest, (h.skips n).pos⟩

end After

end Cursor

namespace Lexer

open Cursor

variable {c d : Cursor}

theorem radixDigits_after (radix : Radix) (h : After 0 c d) :
    After 0 (radixDigits radix c) (radixDigits radix d) := by
  unfold radixDigits
  dsimp only
  rw [h.isAt_eq]
  have hdigits := (After.ite (p := c.isAt (isDigitOf radix) = true) h
    (h.report (.badDigit radix))).skipWhile (isDigitOf radix)
  rw [hdigits.isAt_eq]
  exact .ite (hdigits.report _) hdigits

theorem fraction_after (h : After 0 c d) :
    (fraction d).1 = (fraction c).1 ∧ After 0 (fraction c).2 (fraction d).2 := by
  unfold fraction
  rw [h.peek_eq]
  split
  · exact ⟨rfl, h.advance.skipWhile _⟩
  · exact ⟨rfl, h⟩

theorem exponent_after (kind : LitKind) (h : After 0 c d) :
    (exponent kind d).1 = (exponent kind c).1 ∧
      After 0 (exponent kind c).2 (exponent kind d).2 := by
  unfold exponent
  dsimp only
  rw [h.isAt_eq, h.advance.isAt_eq]
  have hsign := After.ite (p := c.advance.isAt (fun ch => ch = '+' || ch = '-') = true)
    h.advance.advance h.advance
  rw [hsign.isAt_eq]
  split
  · exact ⟨rfl, (After.ite hsign (hsign.report _)).skipWhile _⟩
  · exact ⟨rfl, h⟩

theorem number_after (h : After 0 c d) :
    (number d).1 = (number c).1 ∧ After 0 (number c).2 (number d).2 := by
  have hradix : announcedRadix? d = announcedRadix? c := by
    rw [announcedRadix?, announcedRadix?, h.peek_eq, h.peekNext_eq]
  unfold number
  rw [hradix]
  split
  · exact ⟨rfl, radixDigits_after _ h.advance.advance⟩
  · obtain ⟨hkind, hstop⟩ := fraction_after (h.skipWhile isDigit)
    dsimp only
    rw [hkind]
    exact exponent_after _ hstop

theorem hexEscape_after (h : After 0 c d) :
    (hexEscape d).1 = (hexEscape c).1 ∧ After 0 (hexEscape c).2 (hexEscape d).2 := by
  unfold hexEscape
  dsimp only
  rw [h.peek_eq, h.advance.peek_eq]
  split
  · exact ⟨rfl, h.report _⟩
  · split
    · exact ⟨rfl, h.advance.report _⟩
    · exact ⟨rfl, h.advance.advance⟩

theorem escape_after (h : After 0 c d) :
    (escape d).1 = (escape c).1 ∧ After 0 (escape c).2 (escape d).2 := by
  unfold escape
  dsimp only
  rw [h.advance.peek_eq]
  split
  · exact ⟨rfl, h.advance.advance⟩
  · split
    · exact hexEscape_after h.advance.advance
    · exact ⟨rfl, (h.advance.report _).advance⟩

theorem stringContent_after (h : After 0 c d) :
    (stringContent d).1 = (stringContent c).1 ∧
      After 0 (stringContent c).2 (stringContent d).2 := by
  fun_induction stringContent c generalizing d with
  | case1 c hrest =>
    rw [stringContent, h.rest_eq, hrest]
    exact ⟨rfl, h.report _⟩
  | case2 c s rest hrest hq =>
    rw [stringContent, h.rest_eq, hrest]
    dsimp only
    rw [if_pos hq]
    exact ⟨rfl, h.advance⟩
  | case3 c s rest hrest hq hn =>
    rw [stringContent, h.rest_eq, hrest]
    dsimp only
    rw [if_neg hq, if_pos hn]
    exact ⟨rfl, h.report _⟩
  | case4 c s rest hrest hq hn hb escaped content =>
    rename_i ih
    obtain ⟨hvalue, hstop⟩ := escape_after h
    obtain ⟨hcontent, hend⟩ := ih hstop
    rw [stringContent, h.rest_eq, hrest]
    dsimp only
    rw [if_neg hq, if_neg hn, if_pos hb]
    exact ⟨by rw [hvalue, hcontent], hend⟩
  | case5 c s rest hrest hq hn hb content =>
    rename_i ih
    obtain ⟨hcontent, hend⟩ := ih h.advance
    rw [stringContent, h.rest_eq, hrest]
    dsimp only
    rw [if_neg hq, if_neg hn, if_neg hb]
    exact ⟨by rw [hcontent], hend⟩

theorem operator?_after (h : After 0 c d) {t : Token} {stop : Cursor}
    (ht : operator? c = some (t, stop)) : ∃ stop', operator? d = some (t, stop') ∧
      After 0 stop stop' := by
  unfold operator? at ht ⊢
  rw [h.peek_eq, h.peekNext_eq]
  cases hpeek : c.peek with
  | none => simp [hpeek] at ht
  | some first =>
    rw [hpeek] at ht
    dsimp only at ht ⊢
    cases hpair : c.peekNext.bind (pair? first) with
    | some pair =>
      rw [hpair] at ht
      cases ht
      exact ⟨_, rfl, h.advance.advance⟩
    | none =>
      rw [hpair] at ht
      obtain ⟨t', ht', he⟩ := Option.map_eq_some_iff.1 ht
      cases he
      exact ⟨_, by rw [ht']; rfl, h.advance⟩

/-- The token at a place does not depend on what has been reported. -/
theorem token?_after (h : After 0 c d) {t : Token} {text : String} {stop : Cursor}
    (ht : token? c = some (t, text, stop)) : ∃ stop', token? d = some (t, text, stop') ∧
      After 0 stop stop' := by
  unfold token? at ht ⊢
  rw [h.peek_eq]
  cases hpeek : c.peek with
  | none => simp [hpeek] at ht
  | some x =>
    rw [hpeek] at ht
    dsimp only at ht ⊢
    split at ht
    · rename_i hl
      cases ht
      have hword := h.skipWhile isWordChar
      exact ⟨_, by rw [if_pos hl, h.textTo_eq hword], hword⟩
    · rename_i hl
      rw [if_neg hl]
      split at ht
      · rename_i hd
        cases ht
        obtain ⟨hkind, hstop⟩ := number_after h
        exact ⟨_, by rw [if_pos hd, hkind, h.textTo_eq hstop], hstop⟩
      · rename_i hd
        rw [if_neg hd]
        split at ht
        · rename_i hq
          cases ht
          obtain ⟨hvalue, hstop⟩ := stringContent_after h.advance
          exact ⟨_, by rw [if_pos hq, hvalue], hstop⟩
        · rename_i hq
          obtain ⟨⟨t', stop'⟩, ho, he⟩ := Option.map_eq_some_iff.1 ht
          cases he
          obtain ⟨stop', ho', hstop⟩ := operator?_after h ho
          exact ⟨stop', by rw [if_neg hq, ho']; rfl, hstop⟩

theorem atToken_nil : AtToken [] := ⟨nofun, rfl⟩

/-- The place where text without tokens ends, in front of a token or at the end. -/
theorem gap_eq {rest : List Symbol} {gap gap' : Nat} (h : Tokenless (rest.drop gap) (rest.take gap))
    (h' : Tokenless (rest.drop gap') (rest.take gap')) (hat : AtToken (rest.drop gap))
    (hat' : AtToken (rest.drop gap')) (hlt : gap < rest.length) (hlt' : gap' < rest.length) :
    gap = gap' := by
  have heq := congrArg List.length (h.unique h' hat hat' (by simp))
  simp only [List.length_take] at heq
  omega

/-- The tokens of a text and the semicolons between them are determined by the text. -/
theorem Punctuated.unique {last : Option Token} {ls ls' : List Lexeme} (h : Punctuated last c ls)
    (hsame : After 0 c d) (h' : Punctuated last d ls') :
    ls.map (fun l => (l.token, l.text)) = ls'.map (fun l => (l.token, l.text)) := by
  have hlt {c stop : Cursor} {gap : Nat} {reports : List LexReport} {t : Token} {text : String}
      (ht : token? { c.skip gap with reports } = some (t, text, stop)) : gap < c.rest.length := by
    have hshort := (beyond_token? ht).length_lt
    rw [skip_rest, List.length_drop] at hshort
    omega
  -- A text that holds no token has none after a part of it.
  have hend {rest : List Symbol} {gap : Nat} (hall : Tokenless [] rest)
      (hgap : Tokenless (rest.drop gap) (rest.take gap)) (hat : AtToken (rest.drop gap))
      (hlt : gap < rest.length) : False := by
    have heq := congrArg List.length (hall.unique hgap atToken_nil hat (by simp))
    rw [List.length_take] at heq
    omega
  induction h generalizing d ls' with
  | @done last c u l hgap hu he htext =>
    cases h' with
    | @done _ _ u' l' _ hu' he' htext' =>
      rw [hsame.rest_eq] at hu'
      simp only [List.map_append, hu, hu', List.map_singleton, he, he', htext, htext']
    | token gap reports hgap' hat' _ ht =>
      have hbound := hlt ht
      rw [hsame.rest_eq] at hgap' hat' hbound
      exact (hend hgap hgap' hat' hbound).elim
  | @token last c stop u ls l gap reports hgap hat hu ht hpos hw hrest ih =>
    cases h' with
    | done hgap' =>
      rw [hsame.rest_eq] at hgap'
      exact (hend hgap' hgap hat (hlt ht)).elim
    | @token _ _ stop' u' ls' l' gap' reports' hgap' hat' hu' ht' hpos' hw' hrest' =>
      have hbound := hlt ht'
      rw [hsame.rest_eq] at hgap' hat' hu' hbound
      obtain rfl := gap_eq hgap hgap' hat hat' (hlt ht) hbound
      obtain ⟨stop'', hfound, hstop⟩ := token?_after (hsame.skip_with gap reports reports') ht
      obtain ⟨htoken, htext, rfl⟩ : l.token = l'.token ∧ l.text = l'.text ∧ stop'' = stop' := by
        simpa using hfound.symm.trans ht'
      rw [← htoken] at hrest'
      have hplace : After 0 { stop with reports := [] } { stop'' with reports := [] } :=
        ⟨hstop.rest, hstop.pos⟩
      have htail := ih hplace hrest'
      simp only [List.map_append, List.map_cons, hu, hu', htail, htoken, htext]

/-- Whatever is made of the tokens of a text and the semicolons due between them is its scan. -/
theorem scan_of_punctuated {source : Source} {ls : List Lexeme}
    (h : Punctuated none (Cursor.start source) ls) :
    (scan source).map (fun l => (l.token, l.text)) = ls.map (fun l => (l.token, l.text)) :=
  have hscan : Punctuated none (Cursor.start source) (scan source) :=
    lexemes_punctuated (.inl (Nat.le_refl _)) rfl
  hscan.unique (after_skip 0 _) h

end Lexer

end FlowCheck
