import FlowCheck.Proofs.Token.LongestMatch
import FlowCheck.Proofs.Token.Order
import FlowCheck.Proofs.Token.Tokenless

/-!
# Where semicolons are inserted

Whether a newline inserts a semicolon is decided by the last token before it, however many blanks,
comments and stray characters lie between them. `next` comes to one of four results, and each of
them says that no token lies between the cursor and the place that it is about; from this a whole
scan consists of the tokens of the text, none of which is passed over, and of the semicolons that
are due between them.
-/
namespace FlowCheck

namespace Cursor

/-- `d` is where `n` symbols more than at `c` have been read, whatever was reported on the way. -/
structure After (n : Nat) (c d : Cursor) : Prop where
  rest : d.rest = c.rest.drop n
  pos : d.pos = (c.skip n).pos

variable {c d e : Cursor} {n m : Nat}

theorem after_skip (n : Nat) (c : Cursor) : After n c (c.skip n) := ⟨skip_rest n c, rfl⟩

theorem after_report (c : Cursor) (fault : LexFault) : After 0 c (c.report fault) := ⟨rfl, rfl⟩

theorem After.advance (h : After 0 c d) : After 0 c.advance d.advance := by
  have hrest : d.rest = c.rest := h.rest
  have hpos : d.pos = c.pos := h.pos
  refine ⟨by rw [advance_rest, advance_rest, hrest, List.drop_zero], ?_⟩
  simp [Cursor.advance, Cursor.skip, peek, hrest, hpos]

/-- Where a cursor gets to does not depend on what has been reported. -/
theorem After.skip (h : After 0 c d) (m : Nat) : (d.skip m).pos = (c.skip m).pos := by
  induction m generalizing c d with
  | zero => exact h.pos
  | succ m ih => exact ih h.advance

theorem skip_add (n m : Nat) (c : Cursor) : c.skip (n + m) = (c.skip n).skip m := by
  induction n generalizing c with
  | zero => rw [Nat.zero_add, Cursor.skip]
  | succ n ih => rw [Nat.add_right_comm, Cursor.skip, Cursor.skip, ih]

theorem After.trans (h : After n c d) (h' : After m d e) : After (n + m) c e := by
  have hsame : After 0 (c.skip n) d := ⟨by rw [h.rest, skip_rest, List.drop_zero], h.pos⟩
  refine ⟨by rw [h'.rest, h.rest, List.drop_drop], ?_⟩
  rw [h'.pos, hsame.skip, skip_add]

theorem After.forget (h : After n c d) (reports : List LexReport) :
    { d with reports } = { c.skip n with reports } := by
  rw [Cursor.mk.injEq]
  exact ⟨by rw [h.rest, skip_rest], h.pos, rfl⟩

end Cursor

namespace Lexer

open Cursor

def hasNewline (text : List Symbol) : Bool := text.any (·.char = '\n')

/-- The text up to a place further on holds a newline if one of its two parts does. -/
theorem hasNewline_take_add {c d : Cursor} {n : Nat} (h : After n c d) (m : Nat) :
    hasNewline (c.rest.take (n + m)) =
      (hasNewline (c.rest.take n) || hasNewline (d.rest.take m)) := by
  rw [List.take_add, hasNewline, List.any_append, h.rest, hasNewline, hasNewline]

/-- The semicolons that are due after the token `last`, if there is one, where `gap` is the text up
to the next token, or up to the end if there is no next token. -/
def due (last : Option Token) (gap : List Symbol) (isEnd : Bool) : List (Token × String) :=
  if last.any Token.endsStatement then
    if hasNewline gap then [(.semi, "newline")] else if isEnd then [(.semi, "EOF")] else []
  else []

/-- The lexemes of the text after the token `last`: semicolons that are due and the end of the file
where no token is left, or semicolons that are due, the next token of the text, and the lexemes
after it. Nothing but blanks, newlines, comments and stray characters comes before the next token,
or after the last one. The text of a semicolon tells those that are written from the others. -/
inductive Punctuated : Option Token → Cursor → List Lexeme → Prop
  | done {last : Option Token} {c : Cursor} {u : List Lexeme} {l : Lexeme} :
      Tokenless [] c.rest →
      u.map (fun l => (l.token, l.text)) = due last c.rest true → l.token = .eof → l.text = "" →
      Punctuated last c (u ++ [l])
  | token {last : Option Token} {c stop : Cursor} {u ls : List Lexeme} {l : Lexeme}
      (gap : Nat) (reports : List LexReport) :
      Tokenless (c.rest.drop gap) (c.rest.take gap) → AtToken (c.rest.drop gap) →
      u.map (fun l => (l.token, l.text)) = due last (c.rest.take gap) false →
      token? { c.skip gap with reports } = some (l.token, l.text, stop) →
      l.pos = (c.skip gap).pos → (l.token = .semi → l.text = ";") →
      Punctuated (some l.token) { stop with reports := [] } ls →
      Punctuated last c (u ++ l :: ls)

theorem token?_nil {c : Cursor} (h : c.rest = []) : token? c = none := by
  simp [token?, peek, h]

theorem ne_eof_of_operator? {c stop : Cursor} {t : Token} (h : operator? c = some (t, stop)) :
    t ≠ .eof := by
  rintro rfl
  cases isSign_of_operator? h

/-- No token of the text is the end of the file, and a semicolon of the text is written. -/
theorem token?_spec {c stop : Cursor} {t : Token} {text : String}
    (h : token? c = some (t, text, stop)) : t ≠ .eof ∧ (t = .semi → text = ";") := by
  have hword (word : String) : Token.ofWord word ≠ .eof ∧ Token.ofWord word ≠ .semi := by
    rw [Token.ofWord]
    split <;> simp
  unfold token? at h
  split at h
  · cases h
  · split at h
    · cases h
      exact ⟨(hword _).1, fun hs => absurd hs (hword _).2⟩
    · split at h
      · cases h
        simp
      · split at h
        · cases h
          simp
        · obtain ⟨⟨t', stop'⟩, ho, he⟩ := Option.map_eq_some_iff.1 h
          cases he
          refine ⟨ne_eof_of_operator? ho, ?_⟩
          rintro rfl
          rfl

/-- What `next` comes to: a semicolon for a newline, one for the end of the text, the end of the
file, or a token. No token is passed over. -/
inductive Reaches (ends : Bool) (c : Cursor) : Token × String × Pos × Cursor → Prop
  | newline {pos : Pos} {stop : Cursor} (gap : Nat) : ends = true → After gap c stop →
      Tokenless stop.rest (c.rest.take gap) → hasNewline (c.rest.take gap) = true →
      Reaches ends c (.semi, "newline", pos, stop)
  | closed {pos : Pos} {stop : Cursor} : ends = true → stop.rest = [] → Tokenless [] c.rest →
      hasNewline c.rest = false → Reaches ends c (.semi, "EOF", pos, stop)
  | eof {pos : Pos} {stop : Cursor} : ends = false → Tokenless [] c.rest →
      Reaches ends c (.eof, "", pos, stop)
  | token {t : Token} {text : String} {stop : Cursor} (gap : Nat) (reports : List LexReport) :
      Tokenless (c.rest.drop gap) (c.rest.take gap) → AtToken (c.rest.drop gap) →
      (ends = true → hasNewline (c.rest.take gap) = false) →
      token? { c.skip gap with reports } = some (t, text, stop) →
      Reaches ends c (t, text, (c.skip gap).pos, stop)

/-- A stretch without tokens up to `d`, and one of `m` symbols from there on. -/
theorem tokenless_take_add {c d : Cursor} {n m : Nat} (h : After n c d)
    (hn : Tokenless d.rest (c.rest.take n)) (hm : Tokenless (d.rest.drop m) (d.rest.take m)) :
    Tokenless (c.rest.drop (n + m)) (c.rest.take (n + m)) := by
  rw [← List.drop_drop, List.take_add, ← h.rest]
  refine Tokenless.append ?_ hm
  rwa [List.take_append_drop]

/-- A stretch without tokens up to `d`, and none from there on. -/
theorem tokenless_of_after {c d : Cursor} {n : Nat} (h : After n c d)
    (hn : Tokenless d.rest (c.rest.take n)) (hd : Tokenless [] d.rest) : Tokenless [] c.rest := by
  rw [← List.take_append_drop n c.rest, ← h.rest]
  exact Tokenless.append (by rwa [List.append_nil]) hd

/-- A stretch without tokens that inserts no semicolon may as well be missing. -/
theorem Reaches.of_after {ends : Bool} {c d : Cursor} {n : Nat} {x : Token × String × Pos × Cursor}
    (h : After n c d) (hn : Tokenless d.rest (c.rest.take n))
    (hgap : ends = true → hasNewline (c.rest.take n) = false) (hx : Reaches ends d x) :
    Reaches ends c x := by
  cases hx with
  | newline gap he hstop hd hm =>
    have hend := h.trans hstop
    refine .newline (n + gap) he hend ?_ ?_
    · rw [hstop.rest] at hd
      rw [hend.rest]
      exact tokenless_take_add h hn hd
    · rw [hasNewline_take_add h, hm, Bool.or_true]
  | closed he hstop hd hm =>
    refine .closed he hstop (tokenless_of_after h hn hd) ?_
    have hall := hasNewline_take_add h d.rest.length
    rw [hgap he, List.take_length, hm, List.take_of_length_le] at hall
    · exact hall
    · rw [h.rest, List.length_drop]
      omega
  | eof he hd => exact .eof he (tokenless_of_after h hn hd)
  | token gap reports hd hat hm ht =>
    have hplace := h.trans (after_skip gap d)
    rw [hplace.pos]
    refine .token (n + gap) reports (tokenless_take_add h hn hd) ?_ (fun he => ?_)
      (hplace.forget reports ▸ ht)
    · rwa [← List.drop_drop, ← h.rest]
    · rw [hasNewline_take_add h, hgap he, hm he, Bool.or_false]

/-! ### The steps of `next` -/

/-- The body of a block comment is skipped up to the first end of it, or as a whole, and is known to
hold a newline if it does. -/
theorem after_blockComment (c : Cursor) :
    ∃ n, After n c (blockComment c).2 ∧ (blockComment c).1 = hasNewline (c.rest.take n) ∧
      (ClosesComment (c.rest.take n) ∨ (blockComment c).2.rest = [] ∧
        ¬['*', '/'] <:+: (c.rest.take n).map Symbol.char) := by
  have hnewline (n : Nat) : ((c.rest.map Symbol.char).take n).contains '\n' =
      hasNewline (c.rest.take n) := by
    rw [hasNewline, ← List.map_take, List.contains_eq_any_beq, List.any_map]
    refine congrArg (List.any _) (funext fun s => ?_)
    rw [Function.comp_apply, Bool.eq_iff_iff, beq_iff_eq, decide_eq_true_eq, eq_comm]
  unfold blockComment
  dsimp only
  cases hlength : commentLength? (c.rest.map Symbol.char) with
  | some n =>
    refine ⟨n, after_skip n c, hnewline n, .inl ?_⟩
    rw [ClosesComment, List.map_take]
    exact exists_of_commentLength? hlength
  | none =>
    have hend := after_skip (c.rest.map Symbol.char).length c
    refine ⟨_, hend.trans (after_report _ _), hnewline _, .inr ⟨?_, ?_⟩⟩
    · simp
    · simpa using not_infix_of_commentLength? hlength

/-- A block comment holds no token. -/
theorem tokenless_blockComment {c : Cursor} {s t : Symbol} {rest : List Symbol}
    (h : c.rest = s :: t :: rest) (hs : s.char = '/') (ht : t.char = '*') :
    ∃ n, After n c (blockComment c.advance.advance).2 ∧
      Tokenless (blockComment c.advance.advance).2.rest (c.rest.take n) ∧
      (blockComment c.advance.advance).1 = hasNewline (c.rest.take n) := by
  obtain ⟨n, hafter, hnewline, hbody⟩ := after_blockComment c.advance.advance
  have hopen : After 2 c c.advance.advance := after_skip 2 c
  have htake : c.rest.take (2 + n) = s :: t :: c.advance.advance.rest.take n := by
    rw [List.take_add, ← hopen.rest, h]
    rfl
  refine ⟨2 + n, hopen.trans hafter, ?_, ?_⟩
  · rw [htake]
    rcases hbody with hclosed | ⟨hend, hopened⟩
    · simpa using Tokenless.block hs ht hclosed .nil
    · exact .unclosed hs ht hopened hend
  · rw [htake, hnewline]
    simp [hasNewline, hs, ht]

/-- The newline that ends a line comment is not part of it. -/
theorem tokenless_lineComment {c : Cursor} {s t : Symbol} {rest : List Symbol}
    (h : c.rest = s :: t :: rest) (hs : s.char = '/') (ht : t.char = '/') :
    ∃ n, After n c (c.advance.skipWhile (· ≠ '\n')) ∧
      Tokenless (c.advance.skipWhile (· ≠ '\n')).rest (c.rest.take n) ∧
      hasNewline (c.rest.take n) = false := by
  have hskip := after_skip (c.advance.runLength (· ≠ '\n')) c.advance
  have hline : After _ c (c.advance.skipWhile (· ≠ '\n')) := (after_skip 1 c).trans hskip
  have hrest : c.advance.rest = t :: rest := by rw [advance_rest, h, List.tail_cons]
  obtain ⟨body, tail, rfl, hbody, htail⟩ := exists_line rest
  have hrun : 1 + c.advance.runLength (· ≠ '\n') = body.length + 2 := by
    rw [runLength, hrest, List.takeWhile_cons_of_pos (by simp [ht]), takeWhile_of_line hbody htail,
      List.length_cons]
    omega
  rw [hrun] at hline
  have htake : c.rest.take (body.length + 2) = s :: t :: body := by simp [h]
  have hdrop : c.rest.drop (body.length + 2) = tail := by simp [h]
  refine ⟨_, hline, ?_, ?_⟩
  · rw [hline.rest, htake, hdrop]
    have hwhole : Tokenless tail (s :: t :: (body ++ [])) := .line hs ht hbody htail .nil
    rwa [List.append_nil] at hwhole
  · rw [htake]
    simpa [hasNewline, hs, ht] using hbody

theorem hasNewline_take_one {c : Cursor} {s : Symbol} {rest : List Symbol} (h : c.rest = s :: rest)
    (hs : s.char ≠ '\n') : hasNewline (c.rest.take 1) = false := by
  simp [h, hasNewline, hs]

/-- A character that no token begins with holds none. -/
theorem tokenless_take_one {c : Cursor} {s : Symbol} {rest : List Symbol} (h : c.rest = s :: rest)
    (hs : beginsToken s.char = false) (tail : List Symbol) : Tokenless tail (c.rest.take 1) := by
  rw [h, List.take_succ_cons, List.take_zero]
  exact .char hs .nil

theorem beginsToken_of_isBlank {x : Char} (h : isBlank x = true) : beginsToken x = false := by
  simp only [isBlank, Bool.or_eq_true, decide_eq_true_eq] at h
  rcases h with (rfl | rfl) | rfl <;> decide

/-- The next symbol of two, where a cursor looks at both. -/
theorem rest_of_peekNext {c : Cursor} {s : Symbol} {rest : List Symbol} {x : Char}
    (h : c.rest = s :: rest) (hx : c.peekNext = some x) :
    ∃ t more, c.rest = s :: t :: more ∧ t.char = x := by
  simp only [peekNext, h, List.getElem?_cons_succ, Option.map_eq_some_iff] at hx
  obtain ⟨t, ht, rfl⟩ := hx
  obtain ⟨more, rfl⟩ := List.head?_eq_some_iff.1 (List.head?_eq_getElem? ▸ ht)
  exact ⟨t, more, h, rfl⟩

/-- A token is found exactly at a character that begins one. -/
theorem token?_isSome {c : Cursor} {s : Symbol} {rest : List Symbol} (h : c.rest = s :: rest) :
    (token? c).isSome = beginsToken s.char := by
  have hpeek : c.peek = some s.char := by rw [peek, h, List.head?_cons, Option.map_some]
  have hpair {y : Char} {t : Token} (ht : pair? s.char y = some t) : (single? s.char).isSome := by
    revert ht
    unfold pair?
    split <;> simp [single?, *]
  unfold token? beginsToken operator?
  rw [hpeek]
  by_cases hl : isLetter s.char = true
  · simp [hl]
  by_cases hd : isDigit s.char = true
  · simp [hl, hd]
  by_cases hq : s.char = '"'
  · dsimp only
    rw [if_neg hl, if_neg hd, if_pos hq, Option.isSome_some]
    simp [hq]
  simp only [hl, hd, hq]
  cases hp : c.peekNext.bind (pair? s.char) with
  | none => simp
  | some t =>
    obtain ⟨y, -, hy⟩ := Option.bind_eq_some_iff.1 hp
    simp [hpair hy]

theorem reaches_next (ends : Bool) (c : Cursor) : Reaches ends c (next ends c) := by
  fun_induction next ends c with
  | case1 c h he =>
    have hgap : Tokenless [] c.rest := h.symm ▸ .nil
    exact .closed he h hgap (by simp [h, hasNewline])
  | case2 c h he =>
    have hgap : Tokenless [] c.rest := h.symm ▸ .nil
    exact .eof (by simpa using he) hgap
  | case3 c s rest h hb ih =>
    have hgap := tokenless_take_one h (beginsToken_of_isBlank hb) c.advance.rest
    refine .of_after (after_skip 1 c) hgap (fun _ => hasNewline_take_one h ?_) ih
    rintro hn
    simp [isBlank, hn] at hb
  | case4 c s rest h hb hn he =>
    have hgap := tokenless_take_one h (by rw [hn]; decide) c.advance.rest
    exact .newline 1 he (after_skip 1 c) hgap (by simp [h, hasNewline, hn])
  | case5 c s rest h hb hn he ih =>
    have hgap := tokenless_take_one h (by rw [hn]; decide) c.advance.rest
    exact .of_after (after_skip 1 c) hgap (fun he' => absurd he' he) ih
  | case6 c s rest h hb hn hc ih =>
    rw [Bool.and_eq_true, decide_eq_true_eq, decide_eq_true_eq] at hc
    obtain ⟨t, more, htwo, ht⟩ := rest_of_peekNext h hc.2
    obtain ⟨n, hafter, hgap, hline⟩ := tokenless_lineComment htwo hc.1 ht
    exact .of_after hafter hgap (fun _ => hline) ih
  | case7 c s rest h hb hn hl hc comment he =>
    rw [Bool.and_eq_true, decide_eq_true_eq, decide_eq_true_eq] at hc
    obtain ⟨t, more, htwo, ht⟩ := rest_of_peekNext h hc.2
    obtain ⟨n, hafter, hgap, hcomment⟩ := tokenless_blockComment htwo hc.1 ht
    rw [Bool.and_eq_true] at he
    exact .newline n he.2 hafter hgap (hcomment.symm.trans he.1)
  | case8 c s rest h hb hn hl hc comment he ih =>
    rw [Bool.and_eq_true, decide_eq_true_eq, decide_eq_true_eq] at hc
    obtain ⟨t, more, htwo, ht⟩ := rest_of_peekNext h hc.2
    obtain ⟨n, hafter, hgap, hcomment⟩ := tokenless_blockComment htwo hc.1 ht
    refine .of_after hafter hgap (fun hends => ?_) ih
    have hbody : (blockComment c.advance.advance).1 = false := by
      simpa [hends] using he
    exact hcomment.symm.trans hbody
  | case9 c s rest h hb hn hl hc t text stop ht =>
    refine .token 0 c.reports .nil ⟨?_, ?_⟩ (by simp [hasNewline]) ht
    · have hsome := token?_isSome h
      rw [ht, Option.isSome_some] at hsome
      simp [h, ← hsome]
    · rw [Bool.and_eq_true, decide_eq_true_eq, decide_eq_true_eq, not_and] at hl hc
      rw [List.drop_zero]
      cases rest with
      | nil => rw [h]; rfl
      | cons t rest =>
        have hnext : c.peekNext = some t.char := by simp [peekNext, h]
        rw [hnext, Option.some.injEq] at hl hc
        simp only [h, opensComment]
        simpa using fun hs => ⟨hl hs, hc hs⟩
  | case10 c s rest h hb hn hl hc ht ih =>
    have hreport := after_report c (.unexpected s.char)
    have hskip := hreport.trans (after_skip 1 (c.report (.unexpected s.char)))
    have hnone := token?_isSome h
    rw [ht, Option.isSome_none] at hnone
    refine .of_after hskip (tokenless_take_one h hnone.symm _) (fun _ => ?_) ih
    exact hasNewline_take_one h hn

/-- A semicolon for a newline, and no other one up to the next token. -/
theorem Punctuated.newline {last : Option Token} {c d : Cursor} {n : Nat} {l : Lexeme}
    {ls : List Lexeme} (h : Punctuated none d ls) (hlast : last.any Token.endsStatement = true)
    (hd : After n c d) (hgap : Tokenless d.rest (c.rest.take n))
    (hn : hasNewline (c.rest.take n) = true)
    (hl : (l.token, l.text) = (.semi, "newline")) : Punctuated last c (l :: ls) := by
  have hdue (m : Nat) (isEnd : Bool) :
      [l].map (fun l => (l.token, l.text)) = due last (c.rest.take (n + m)) isEnd := by
    have hgap : hasNewline (c.rest.take (n + m)) = true := by
      rw [hasNewline_take_add hd, hn, Bool.true_or]
    rw [due, if_pos hlast, if_pos hgap, List.map_singleton, hl]
  cases h with
  | @done _ _ semis m hrest hsemis he htext =>
    obtain rfl := List.map_eq_nil_iff.1 hsemis
    have hall := hdue c.rest.length true
    rw [List.take_of_length_le (Nat.le_add_left _ _)] at hall
    exact .done (tokenless_of_after hd hgap hrest) hall he htext
  | @token _ _ _ semis ls m gap reports htext hat hsemis ht hpos hw hrest =>
    obtain rfl := List.map_eq_nil_iff.1 hsemis
    have hplace := hd.trans (after_skip gap d)
    refine .token (n + gap) reports (tokenless_take_add hd hgap htext) ?_ (hdue gap false)
      (hplace.forget reports ▸ ht) (hpos.trans hplace.pos) hw hrest
    rwa [← List.drop_drop, ← hd.rest]

/-- A semicolon for the end of the text. -/
theorem Punctuated.closed {last : Option Token} {c d : Cursor} {l : Lexeme} {ls : List Lexeme}
    (h : Punctuated none d ls) (hlast : last.any Token.endsStatement = true) (hd : d.rest = [])
    (hgap : Tokenless [] c.rest) (hn : hasNewline c.rest = false)
    (hl : (l.token, l.text) = (.semi, "EOF")) : Punctuated last c (l :: ls) := by
  cases h with
  | @done _ _ semis m _ hsemis he htext =>
    obtain rfl := List.map_eq_nil_iff.1 hsemis
    refine .done (u := [l]) hgap ?_ he htext
    simp [due, hlast, hn, hl]
  | token gap reports _ _ hsemis ht =>
    rw [token?_nil (by simp [hd])] at ht
    cases ht

/-- A scan from any place on, `last` being the token before it unless its semicolon is there. -/
theorem lexemes_punctuated {fuel : Nat} {ends : Bool} {c : Cursor} {last : Option Token}
    (hf : Fueled fuel ends c) (hlast : last.any Token.endsStatement = ends) :
    Punctuated last c (lexemes fuel ends c) := by
  induction fuel generalizing ends c last with
  | zero => rcases hf with h | ⟨-, -, h⟩ <;> omega
  | succ fuel ih =>
    have hr := reaches_next ends c
    rw [lexemes]
    rcases hnext : next ends c with ⟨t, text, pos, stop⟩
    rw [hnext] at hr
    dsimp only
    cases hr with
    | newline gap he hstop hgap hn =>
      rw [if_neg (by simp)]
      have hrest := ih (hf.next hnext (by simp)) (Option.any_none ..)
      exact hrest.newline (hlast.trans he) ⟨hstop.rest, hstop.pos⟩ hgap hn rfl
    | closed he hstop hgap hn =>
      rw [if_neg (by simp)]
      have hrest := ih (hf.next hnext (by simp)) (Option.any_none ..)
      exact hrest.closed (hlast.trans he) hstop hgap hn rfl
    | eof he hgap =>
      rw [if_pos rfl]
      refine .done (u := []) hgap ?_ rfl rfl
      simp [due, hlast, he]
    | token gap reports hgap hat hn ht =>
      obtain ⟨hne, hsemi⟩ := token?_spec ht
      rw [if_neg hne]
      refine .token (u := []) gap reports hgap hat ?_ ht rfl hsemi (ih (hf.next hnext hne) rfl)
      rw [List.map_nil, due, hlast]
      split
      · rename_i he
        rw [if_neg (by simp [hn he]), if_neg (by simp)]
      · rfl

end Lexer

end FlowCheck
