import Mathlib
import FlowCheck.Proofs.Parse.Expression
import FlowCheck.Proofs.RoundTrip.Expression
import FlowCheck.Proofs.Token.Layout
import FlowCheck.Tree.Summary

/-!
# One-line renderings can be read again

The text of an expression is laid out from the words of the expression, and no two of them run
together: binary operators stand between blanks, what can follow a name or a number is a bracket, a
comma or a point, and a point follows no number by assumption. So the text scans to the words that
the tree is written as, and from those the parser reads the tree again.
-/
namespace FlowCheck

open Lexer Parse

/-- Whether the text of the node says all of it: a number does not run into the point after it, and
the strings are written with no escape that the reader does not know. -/
def Node.Restorable : Node → Prop
  | .expr (.select _ (.literal _ kind _) _) => kind = .string
  | .expr (.literal _ .string text) =>
    ∀ c ∈ text.toList, ∀ letter ∈ ['a', 'b', 'f', 'v', 'u', 'U'],
      ¬['\\', letter] <+: Quoted.encodeChar '"' c
  | _ => True

/-! ### Strings -/

theorem digitValue?_hexDigit {n : Nat} (h : n < 16) : digitValue? (Quoted.hexDigit n) = some n := by
  have hall : ∀ n : Fin 16, digitValue? (Quoted.hexDigit n) = some n.1 := by decide
  exact hall ⟨n, h⟩

/-- Two digits of an escape are those of the character. -/
theorem isContent_hex {c : Char} (h : c.toNat < 0x80) :
    IsContent ('\\' :: 'x' :: Quoted.hex 2 c.toNat) [c] := by
  have hhigh := digitValue?_hexDigit (show c.toNat / 16 % 16 < 16 by omega)
  have hlow := digitValue?_hexDigit (show c.toNat % 16 < 16 by omega)
  have hvalue : c.toNat / 16 % 16 * 16 + c.toNat % 16 = c.toNat := by omega
  have hcontent := IsContent.hex hhigh hlow .nil
  rwa [hvalue, Char.ofNat_toNat] at hcontent

theorem isContent_encodeChar {c : Char} (h : ∀ letter ∈ ['a', 'b', 'f', 'v', 'u', 'U'],
    ¬['\\', letter] <+: Quoted.encodeChar '"' c) : IsContent (Quoted.encodeChar '"' c) [c] := by
  have hexcluded {letter : Char} {more : List Char} (hl : letter ∈ ['a', 'b', 'f', 'v', 'u', 'U'])
      (he : Quoted.encodeChar '"' c = '\\' :: letter :: more) : False :=
    h letter hl ⟨more, he.symm⟩
  unfold Quoted.encodeChar at hexcluded ⊢
  split
  · rename_i hmark
    have hmark : c = '"' ∨ c = '\\' := by simpa using hmark
    rcases hmark with rfl | rfl
    · exact .simple rfl .nil
    · exact .simple rfl .nil
  · rename_i hmark
    rw [if_neg hmark] at hexcluded
    have hmark : c ≠ '"' ∧ c ≠ '\\' := by simpa using hmark
    split
    · rename_i hprint
      have hne {x : Char} (hx : isPrintable x = false) : c ≠ x := by
        rintro rfl
        cases hx.symm.trans hprint
      exact .plain hmark.1 (hne (by decide +kernel)) hmark.2 (hne (by decide +kernel)) .nil
    · rename_i hprint
      rw [if_neg hprint] at hexcluded
      split
      · rename_i letter hletter
        rw [hletter] at hexcluded
        unfold Quoted.controlLetter? at hletter
        split at hletter <;> cases hletter
        case h_4 | h_5 | h_6 => exact .simple rfl .nil
        all_goals exact (hexcluded (by decide) rfl).elim
      · rename_i hletter
        rw [hletter] at hexcluded
        dsimp only at hexcluded
        split
        · rename_i hsmall
          exact isContent_hex hsmall
        · rename_i hlarge
          rw [if_neg hlarge] at hexcluded
          split at hexcluded
          · exact (hexcluded (by decide) rfl).elim
          · exact (hexcluded (by decide) rfl).elim

/-! ### Words in a row -/

namespace Lexer

variable {text tail : List Char} {ws : List Word}

theorem Laid.sign {t : Token} (h : Laid tail ws) (ht : isSign t = true)
    (ha : tail.head?.any (joins t) = false) : Laid (t.text.toList ++ tail) (t.word :: ws) :=
  .cons (.sign ht ha) h

/-- A sign that is part of no other one. -/
theorem Laid.lone {t : Token} (h : Laid tail ws) (ht : isSign t = true)
    (ha : ∀ y, joins t y = false) : Laid (t.text.toList ++ tail) (t.word :: ws) := by
  refine h.sign ht ?_
  cases tail with
  | nil => rfl
  | cons y tail => exact ha y

theorem eq_of_joins_not {y : Char} (h : joins .not y = true) : y = '=' := by
  by_contra hy
  have hpair : pair? '!' y = none := by
    unfold pair?
    split <;> simp_all
  simp [joins, Token.text, hpair] at h

/-- No operator in front of an operand runs into the operand. -/
theorem Laid.not_joined (h : Laid text ws) (hs : startsExpr (headToken ws) = true) :
    text.head?.any (joins .not) = false := by
  rw [Bool.eq_false_iff]
  intro hj
  obtain ⟨y, hy, hj⟩ := (Option.any_eq_true _ _).1 hj
  obtain rfl := eq_of_joins_not hj
  cases h with
  | nil => cases hy
  | blank _ => cases hy
  | cons hspell _ =>
    cases hspell with
    | word first _ _ =>
      obtain ⟨x, hx, hletter⟩ := (Option.any_eq_true _ _).1 first
      obtain ⟨more, rfl⟩ := List.head?_eq_some_iff.1 hx
      cases hy
      cases hletter
    | number grammar _ =>
      obtain ⟨x, more, rfl, hdigit⟩ := grammar.exists_digit
      cases hy
      cases hdigit
    | @sign t signs _ =>
      obtain ⟨x, more, htext, -⟩ := exists_mark signs
      rw [htext] at hy
      cases hy
      have hmark : t.text.toList.head? = some '=' := congrArg List.head? htext
      cases t with
      | op o => cases o <;> first | exact absurd hmark (by decide) | cases hs
      | literal kind => cases signs
      | _ => first | exact absurd hmark (by decide) | cases hs
    | string _ => cases hy

end Lexer

namespace Expr

/-- What comes after the text of `x` does not go on with its last word. -/
structure Apart (x : Expr) (tail : List Char) : Prop where
  word : tail.head?.any isWordChar = false
  point : tail.head? = some '.' → postfixLevel ≤ x.level ∧
    ∀ m k text, x = .literal m k text → k = .string

theorem Apart.of_head {x : Expr} {tail : List Char} (h : tail.head?.any extendsNumber = false) :
    x.Apart tail := by
  refine ⟨any_eq_false h fun y hy => by simp [extendsNumber, hy], fun hp => ?_⟩
  rw [hp] at h
  cases h

/-- An operator is no operand. -/
theorem Apart.operand {x y : Expr} {tail : List Char} (h : x.Apart tail)
    (hx : x.level < postfixLevel) : y.Apart tail :=
  ⟨h.word, fun hp => absurd (h.point hp).1 (Nat.not_le.2 hx)⟩

theorem Apart.number {m : Mark} {kind : LitKind} {text : String} {tail : List Char}
    (h : (literal m kind text).Apart tail) (hk : kind ≠ .string) :
    tail.head?.any extendsNumber = false := by
  rw [Bool.eq_false_iff]
  intro hx
  obtain ⟨x, hhead, hx⟩ := (Option.any_eq_true _ _).1 hx
  rcases Bool.or_eq_true_iff.1 hx with hword | hpoint
  · have hno := h.word
    rw [hhead, Option.any_some, hword] at hno
    cases hno
  · obtain rfl := of_decide_eq_true hpoint
    exact hk ((h.point hhead).2 m kind text rfl)

/-- Words of a tree in front of others. -/
theorem legible_parts (x : Expr) {ws : List Word} (h : ∀ w ∈ x.write ws, Legible w) :
    (∀ w ∈ x.write [], Legible w) ∧ ∀ w ∈ ws, Legible w := by
  rwa [← List.nil_append ws, ← x.write_append, List.forall_mem_append] at h

theorem legible_list_parts (xs : List Expr) {ws : List Word}
    (h : ∀ w ∈ writeList xs ws, Legible w) :
    (∀ w ∈ writeList xs [], Legible w) ∧ ∀ w ∈ ws, Legible w := by
  rwa [← List.nil_append ws, ← writeList_append, List.forall_mem_append] at h

/-- Nothing in the text of the expression is lost when it is read again. -/
def Restorable (x : Expr) : Prop := ∀ n ∈ x.walk everywhere, n.Restorable

mutual

/-- The text of an expression is laid out from the words that it is written as. -/
theorem laid_render (x : Expr) (hx : x.WellFormed) (hw : ∀ w ∈ x.write [], Legible w)
    (hn : x.Restorable) {tail : List Char} {ws : List Word} (ht : x.Apart tail)
    (h : Laid tail ws) : Laid (x.render.toList ++ tail) (x.write ws) := by
  match x with
  | .ident name =>
    obtain ⟨hfirst, hall, hname⟩ := hw (.name, name.text) (by simp [write, Ident.write])
    have hspells := Spells.word hfirst hall ht.word
    rw [String.ofList_toList, hname] at hspells
    exact .cons hspells h
  | .literal m kind text =>
    by_cases hk : kind = .string
    · subst hk
      have hchars := hn _ (mem_walk_self _)
      have hcontent : IsContent (text.toList.flatMap (Quoted.encodeChar '"')) text.toList :=
        .flatMap fun c hc => isContent_encodeChar (hchars c hc)
      have hlaid := Laid.cons (Spells.string hcontent) h
      rw [String.ofList_toList] at hlaid
      simpa [render, Quoted.text, write] using hlaid
    · have hgrammar := (hw (.literal kind, text) (by simp [write])).resolve_left hk
      have hspells := Spells.number hgrammar (ht.number hk)
      rw [String.ofList_toList] at hspells
      rw [render, if_neg hk]
      exact .cons hspells h
  | .unary m op y =>
    have hlevel : (Expr.unary m op y).level < postfixLevel := Nat.lt_succ_self _
    have hy := laid_render y hx.2 (List.forall_mem_cons.1 hw).2
      (fun n h => hn n (by simp [walk, Node.above, h])) (ht.operand hlevel) h
    have hstart := startsExpr_write hx.2 ws
    rw [render, String.toList_append, List.append_assoc]
    cases op with
    | not => exact hy.sign (t := .not) rfl (hy.not_joined hstart)
    | neg => exact hy.lone (t := .op .sub) rfl fun _ => rfl
  | .binary m op y z =>
    have hlevel : (Expr.binary m op y z).level < postfixLevel := by
      cases op <;> simp [level, postfixLevel, BinaryOp.precedence]
    obtain ⟨hwy, hwz⟩ := legible_parts y hw
    have hz := laid_render z hx.2.2.2 (List.forall_mem_cons.1 hwz).2
      (fun n h => hn n (by simp [walk, Node.above, h])) (ht.operand hlevel) h
    have hop := hz.blank.sign (t := .op op) rfl (joins_blank _)
    have hy := laid_render y hx.2.2.1 hwy
      (fun n h => hn n (by simp [walk, Node.above, h])) (.of_head rfl) hop.blank
    simpa [render, write, Token.text] using hy
  | .call m callee args =>
    obtain ⟨hwc, hwargs⟩ := legible_parts callee hw
    have hclose := h.lone (t := .rparen) rfl fun _ => rfl
    have hargs := laid_renderList args hx.2.2
      (legible_list_parts args (List.forall_mem_cons.1 hwargs).2).1
      (fun n h => hn n (by simp [walk, Node.above, h])) rfl hclose
    have hopen := hargs.lone (t := .lparen) rfl fun _ => rfl
    have hcallee := laid_render callee hx.2.1 hwc
      (fun n h => hn n (by simp [walk, Node.above, h])) (.of_head rfl) hopen
    simpa [render, write, Token.text] using hcallee
  | .index m y i =>
    obtain ⟨hwy, hwi⟩ := legible_parts y hw
    have hclose := h.lone (t := .rbrack) rfl fun _ => rfl
    have hi := laid_render i hx.2.2 (legible_parts i (List.forall_mem_cons.1 hwi).2).1
      (fun n h => hn n (by simp [walk, Node.above, h])) (.of_head rfl) hclose
    have hopen := hi.lone (t := .lbrack) rfl fun _ => rfl
    have hy := laid_render y hx.2.1 hwy
      (fun n h => hn n (by simp [walk, Node.above, h])) (.of_head rfl) hopen
    simpa [render, write, Token.text] using hy
  | .select m y sel =>
    obtain ⟨hwy, hwsel⟩ := legible_parts y hw
    obtain ⟨hfirst, hall, hname⟩ := hwsel (.name, sel.text) (by simp [Ident.write])
    have hspells := Spells.word hfirst hall ht.word
    rw [String.ofList_toList, hname] at hspells
    have hpoint := (Laid.cons hspells h).lone (t := .dot) rfl fun _ => rfl
    have hy := laid_render y hx.2 hwy
      (fun n h => hn n (by simp [walk, Node.above, h])) ⟨rfl, fun _ => ⟨hx.1, ?_⟩⟩ hpoint
    · simpa [render, write, Token.text, Ident.write] using hy
    · rintro m' k text rfl
      exact hn _ (mem_walk_self _)
  | .paren m y =>
    have hclose := h.lone (t := .rparen) rfl fun _ => rfl
    have hy := laid_render y hx (legible_parts y (List.forall_mem_cons.1 hw).2).1
      (fun n h => hn n (by simp [walk, Node.above, h])) (.of_head rfl) hclose
    simpa [render, write, Token.text] using hy.lone (t := .lparen) rfl fun _ => rfl
  | .sliceType m y => exact hx.elim

theorem laid_renderList (xs : List Expr) (hxs : AllWellFormed xs)
    (hw : ∀ w ∈ writeList xs [], Legible w) (hn : ∀ n ∈ walkList everywhere xs, n.Restorable)
    {tail : List Char} {ws : List Word} (ht : tail.head?.any extendsNumber = false)
    (h : Laid tail ws) : Laid ((renderList xs).toList ++ tail) (writeList xs ws) := by
  match xs with
  | [] => exact h
  | [x] =>
    exact laid_render x hxs.1 hw (fun n h => hn n (by simp [walkList, h])) (.of_head ht) h
  | x :: y :: rest =>
    obtain ⟨hwx, hwrest⟩ := legible_parts x hw
    have hrest := laid_renderList (y :: rest) hxs.2 (List.forall_mem_cons.1 hwrest).2
      (fun n h => hn n (by rw [walkList]; exact List.mem_append_right _ h)) ht h
    have hcomma := hrest.blank.lone (t := .comma) rfl fun _ => rfl
    have hx := laid_render x hxs.1 hwx
      (fun n h => hn n (by simp [walkList, h])) (.of_head rfl) hcomma
    simpa [renderList, writeList, writeTail, Token.text] using hx

end

/-! ### Reading and reading again -/

/-- The parser has read the expression somewhere in a text, and nothing was reported on the way. -/
structure ReadAt (source : Source) (s t : State) (x : Expr) : Prop where
  place : s.ahead <:+ scan source
  going : s.aborted = false
  result : Parse.expr s = some (x, t)
  faultless : t.faults = 0
  silent : ∀ used, s.ahead = used ++ t.ahead → ∀ l ∈ used, l.reports = []

/-- The parser delivers the expression from some text. -/
def IsRead (x : Expr) : Prop := ∃ source s t, ReadAt source s t x

/-- The text is read as `x` but for positions: nothing is reported, and nothing is left of the text
but the semicolon that its end stands for. -/
def RestoredFrom (x : Expr) (source : Source) : Prop :=
  (∀ l ∈ scan source, l.reports = []) ∧
    ∃ y t, Parse.expr (.ofLexemes (scan source)) = some (y, t) ∧ y.bare = x.bare ∧
      t.reports = [] ∧ t.faults = 0 ∧ t.ahead.map Spelling.content = Spelling.ending true

/-- A tree from a text is written as lexemes of that text, and its operands are as tight as the
grammar wants them. -/
theorem ReadAt.spans {source : Source} {s t : State} {x : Expr} (h : ReadAt source s t x) :
    ∃ used, Spans 1 used x ∧ ∀ l ∈ used, l ∈ scan source ∧ l.reports = [] := by
  obtain ⟨e, he, hlast⟩ := (scan_ordered source).1
  have hsound : s.Sound := by
    refine ⟨⟨e, ?_, hlast⟩, by simp [h.going], by simp [h.going]⟩
    obtain ⟨before, hbefore⟩ := h.place
    rw [← hbefore, List.getLast?_append, State.ahead, List.getLast?_cons] at he
    rw [State.ahead, List.getLast?_cons]
    exact he
  obtain ⟨y, v, used, hrun, hreads, hspans⟩ := yields_expr_spans hsound
  cases h.result.symm.trans hrun
  have hused := hreads.consumed h.faultless
  refine ⟨used, (hspans h.faultless).1, fun l hl => ⟨h.place.subset ?_, h.silent used hused l hl⟩⟩
  rw [hused]
  exact List.mem_append_left _ hl

/-- What comes last in the words of a tree in front of others. -/
theorem getLast?_write (x : Expr) (ws : List Word) :
    (x.write ws).getLast? = ws.getLast?.or (x.write []).getLast? := by
  conv => lhs; rw [← List.nil_append ws, ← x.write_append, List.getLast?_append]

/-- The end of the text after an expression ends the statement. -/
theorem exists_last (x : Expr) (hx : x.WellFormed) :
    ∃ w, (x.write []).getLast? = some w ∧ w.1.endsStatement = true := by
  match x with
  | .ident _ | .literal .. => exact ⟨_, rfl, rfl⟩
  | .unary m op y =>
    obtain ⟨w, hw, hends⟩ := exists_last y hx.2
    exact ⟨w, by rw [write, List.getLast?_cons, hw, Option.getD_some], hends⟩
  | .binary m op y z =>
    obtain ⟨w, hw, hends⟩ := exists_last z hx.2.2.2
    exact ⟨w, by rw [write, getLast?_write, List.getLast?_cons, hw]; rfl, hends⟩
  | .call m callee args =>
    refine ⟨Token.rparen.word, ?_, rfl⟩
    rw [write, ← List.nil_append [Token.rparen.word], ← writeList_append, ← List.cons_append,
      ← write_append, List.getLast?_concat]
  | .index m y i =>
    refine ⟨Token.rbrack.word, ?_, rfl⟩
    rw [write, ← List.nil_append [Token.rbrack.word], ← i.write_append, ← List.cons_append,
      ← y.write_append, List.getLast?_concat]
  | .select m y sel =>
    refine ⟨(.name, sel.text), ?_, rfl⟩
    rw [write, getLast?_write]
    rfl
  | .paren m y =>
    refine ⟨Token.rparen.word, ?_, rfl⟩
    rw [write, List.getLast?_cons, getLast?_write]
    rfl
  | .sliceType m y => exact hx.elim

theorem scan_render (file : String) {x : Expr} (hx : x.WellFormed)
    (hw : ∀ w ∈ x.write [], Legible w) (hn : x.Restorable) :
    (scan (.ofText file x.render.toList)).map Spelling.content =
      (x.write []).map (fun w => (w.1, w.2, [])) ++ Spelling.ending true := by
  have hlaid := laid_render x hx hw hn (.of_head rfl) .nil
  rw [List.append_nil] at hlaid
  obtain ⟨w, hlast, hends⟩ := exists_last x hx
  rw [scan_laid file hlaid, hlast, Option.any_some, hends]

end Expr

/-- The word of a lexeme is its own word. -/
theorem Lexeme.word_word (l : Lexeme) (p : Pos) (r : List LexReport) :
    (⟨l.word.1, l.word.2, p, r⟩ : Lexeme).word = l.word := by
  rw [word, l.word_fst]
  unfold word
  split <;> simp_all

theorem Lexeme.map_word_of_content {ls used : List Lexeme}
    (h : ls.map Spelling.content =
      (used.map word).map (fun w => (w.1, w.2, [])) ++ Spelling.ending true) :
    ls.map word = used.map word ++ [Token.semi.word, Token.eof.word] := by
  have hword := congrArg
    (List.map fun c => (⟨c.1, c.2.1, default, []⟩ : Lexeme).word) h
  rw [List.map_append, List.map_map, List.map_map, List.map_map] at hword
  refine hword.trans (congrArg₂ (· ++ ·) (List.map_congr_left fun l _ => ?_) rfl)
  exact l.word_word default []

namespace Expr

/-- A text that scans to the words of `x` is read as `x`. -/
theorem restoredFrom_of_content {source : Source} {x : Expr} (hx : x.WellFormed)
    {used : List Lexeme} (hused : used.map Lexeme.word = x.write [])
    (h : (scan source).map Spelling.content =
      (x.write []).map (fun w => (w.1, w.2, [])) ++ Spelling.ending true) :
    x.RestoredFrom source := by
  have hsilent : ∀ l ∈ scan source, l.reports = [] := by
    intro l hl
    have hcontent := List.mem_map_of_mem (f := Spelling.content) hl
    rw [h, List.mem_append] at hcontent
    rcases hcontent with hcontent | hcontent
    · obtain ⟨w, -, hw⟩ := List.mem_map.1 hcontent
      exact congrArg (·.2.2) hw.symm
    · simp only [Spelling.ending, if_true, List.singleton_append, List.mem_cons, List.not_mem_nil,
        or_false] at hcontent
      rcases hcontent with hcontent | hcontent <;> exact congrArg (·.2.2) hcontent
  rw [← hused] at h
  have hwords := Lexeme.map_word_of_content h
  have hne : scan source ≠ [] := fun e => by simp [e] at hwords
  have hstart : (scan source).map Lexeme.word = x.write [Token.semi.word] ++ [Token.eof.word] := by
    rw [hwords, hused, x.write_append, x.write_append]
    rfl
  obtain ⟨y, t, hrun, hquiet, hat, hy⟩ :=
    takes_expr hx (x.write_append _ _ ▸ At.ofLexemes hstart) rfl
  obtain ⟨hreports, hfaults, -⟩ := hquiet.silent_ofLexemes hsilent
  refine ⟨hsilent, y, t, hrun, hy, hreports, hfaults, ?_⟩
  -- what is left is as long as what the end of the text is read as, and both end the scan
  have hleft : t.ahead.map Spelling.content <:+ (scan source).map Spelling.content :=
    (State.ahead_ofLexemes hne ▸ hquiet.suffix).map _
  have hlength : (t.ahead.map Spelling.content).length = (Spelling.ending true).length := by
    have hcount := congrArg List.length hat.words
    rw [List.length_map] at hcount ⊢
    exact hcount
  rw [h] at hleft
  exact (List.suffix_of_suffix_length_le hleft (List.suffix_append _ _)
    (Nat.le_of_eq hlength)).eq_of_length hlength

theorem legible_word {l : Lexeme} (h : Legible (l.token, l.text)) : Legible l.word := by
  unfold Lexeme.word
  split
  · exact h
  · exact h
  · cases ht : l.token <;> simp_all [Token.word, Legible]

/-- The text of an expression that the parser has read is read as that expression. -/
theorem IsRead.restored {x : Expr} (hx : x.IsRead) (hn : x.Restorable) (file : String) :
    x.RestoredFrom (.ofText file x.render.toList) := by
  obtain ⟨source, s, t, h⟩ := hx
  obtain ⟨used, hspans, hmem⟩ := h.spans
  refine restoredFrom_of_content hspans.wellFormed hspans.words
    (scan_render file hspans.wellFormed (fun w hw => ?_) hn)
  rw [← hspans.words] at hw
  obtain ⟨l, hl, rfl⟩ := List.mem_map.1 hw
  exact legible_word (legible_of_mem_lexemes (hmem l hl).1 (hmem l hl).2)

/-- Rendering can be undone: the text of an expression that the parser has read is read as that
expression, and so no two of them have one text. Selectors of numbers are left out, for a number
would take their point, and so are strings that need an escape which the lexer does not know. -/
theorem restoredFrom_render {x : Expr} (hx : x.IsRead) (hn : x.Restorable) (file : String) :
    x.RestoredFrom (.ofText file x.render.toList) ∧
      ∀ y : Expr, y.IsRead → y.Restorable → y.bare ≠ x.bare → y.render ≠ x.render := by
  refine ⟨hx.restored hn file, fun y hy hny hne hrender => hne ?_⟩
  obtain ⟨-, z, t, hrun, hz, -⟩ := hx.restored hn file
  obtain ⟨-, z', t', hrun', hz', -⟩ := hy.restored hny file
  rw [hrender, hrun] at hrun'
  cases hrun'
  exact hz'.symm.trans hz

/-- What is read from the start of a text. -/
theorem isRead_of_source (source : Source) {x : Expr}
    (h : (scan source).flatMap Lexeme.reports = [] ∧
      (Parse.expr (.ofLexemes (scan source))).map (fun r => (r.1, r.2.faults)) = some (x, 0)) :
    x.IsRead := by
  obtain ⟨hsilent, hparsed⟩ := h
  obtain ⟨⟨y, t⟩, hrun, he⟩ := Option.map_eq_some_iff.1 hparsed
  obtain ⟨rfl, hfaults⟩ := Prod.mk.inj he
  obtain ⟨l, hlast, -⟩ := (scan_ordered source).1
  have hne : scan source ≠ [] := fun e => by simp [e] at hlast
  have hahead := State.ahead_ofLexemes hne
  have hgoing : (State.ofLexemes (scan source)).aborted = false := by
    cases scan source <;> rfl
  have hread {used : List Lexeme} (hused : (State.ofLexemes (scan source)).ahead = used ++ t.ahead) :
      ∀ l ∈ used, l.reports = [] := by
    intro l hl
    refine List.flatMap_eq_nil_iff.1 hsilent l ?_
    rw [← hahead, hused]
    exact List.mem_append_left _ hl
  exact ⟨source, _, t, hahead ▸ List.suffix_refl _, hgoing, hrun, hfaults, fun _ => hread⟩

/-- Operators in a row, a fraction with an exponent, and a string with every kind of escape. -/
def crowdedSource : Source :=
  .ofText "" "-!f(a,\"\\n\\x01\\\"é\")[1.5e+3]*(b-0xF).c".toList

/-- The tree of `crowdedSource`. -/
def crowded : Expr :=
  let mark (col : Nat) : Mark := ⟨⟨"", 1, col⟩, 0⟩
  let var (col : Nat) (text : String) : Expr := .ident ⟨mark col, text⟩
  let callee : Expr := .call (mark 3) (var 3 "f")
    [var 5 "a", .literal (mark 7) .string "\n\x01\"é"]
  let item : Expr := .index (mark 3) callee (.literal (mark 20) .float "1.5e+3")
  let difference : Expr := .binary (mark 29) .sub (var 29 "b") (.literal (mark 31) .int "0xF")
  .binary (mark 1) .mul (.unary (mark 1) .neg (.unary (mark 2) .not item))
    (.select (mark 28) (.paren (mark 28) difference) ⟨mark 36, "c"⟩)

/-- The tree of `a-b`. -/
def plainDifference : Expr :=
  .binary ⟨⟨"", 1, 1⟩, 0⟩ .sub (.ident ⟨⟨⟨"", 1, 1⟩, 0⟩, "a"⟩) (.ident ⟨⟨⟨"", 1, 3⟩, 0⟩, "b"⟩)

theorem restoredFrom_render_crowded :
    (crowded.IsRead ∧ crowded.Restorable) ∧ (plainDifference.IsRead ∧ plainDifference.Restorable) ∧
      crowded.RestoredFrom (.ofText "" crowded.render.toList) ∧
      plainDifference.render ≠ crowded.render := by
  have hread : crowded.IsRead := isRead_of_source crowdedSource (by cbv)
  have hread' : plainDifference.IsRead := isRead_of_source (.ofText "" "a-b".toList) (by cbv)
  have hnewline : Quoted.encodeChar '"' '\n' = ['\\', 'n'] := by decide +kernel
  have hcontrol : Quoted.encodeChar '"' '\x01' = ['\\', 'x', '0', '1'] := by decide +kernel
  have hquote : Quoted.encodeChar '"' '"' = ['\\', '"'] := rfl
  have hletter : Quoted.encodeChar '"' 'é' = ['é'] := by decide +kernel
  have hrestorable : crowded.Restorable := by
    simp [Restorable, crowded, walk, walkList, Node.above, Ident.walk, Node.Restorable, hnewline,
      hcontrol, hquote, hletter]
  have hrestorable' : plainDifference.Restorable := by
    simp [Restorable, plainDifference, walk, Node.above, Node.Restorable]
  have hboth := restoredFrom_render hread hrestorable ""
  refine ⟨⟨hread, hrestorable⟩, ⟨hread', hrestorable'⟩, hboth.1, hboth.2 _ hread' hrestorable' ?_⟩
  simp [crowded, plainDifference, bare]

end Expr

end FlowCheck
