import FlowCheck.Proofs.Source.Encoding
import FlowCheck.Proofs.Token.LongestMatch
import FlowCheck.Proofs.Token.Semicolon

/-!
# Laying tokens out and scanning them back

`Spells tail text w` says that `text` spells the token and literal `w` where `tail` comes after it:
the tail is there because the longest match must end with the text. A text that is laid out from
spellings, blanks between them or not, scans to what they spell and to the semicolon that the end of
the text stands for. Every name and number that a scan delivers without a report can be spelled.
-/
namespace FlowCheck

/-- What a lexeme says, its place aside. -/
def Spelling.content (l : Lexeme) : Token × String × List LexReport := (l.token, l.text, l.reports)

/-- What the end of the text is read as after a token that may or may not end a statement. -/
def Spelling.ending (ends : Bool) : List (Token × String × List LexReport) :=
  (if ends then [(.semi, "EOF", [])] else []) ++ [(.eof, "", [])]

namespace Lexer

open Spelling

/-- How a token is written before `tail`, and the literal that comes with it. -/
inductive Spells (tail : List Char) : List Char → Token × String → Prop
  | word {text : List Char} (first : text.head?.any isLetter = true)
      (all : ∀ x ∈ text, isWordChar x = true) (apart : tail.head?.any isWordChar = false) :
      Spells tail text (.ofWord (String.ofList text), String.ofList text)
  | number {kind : LitKind} {text : List Char} (grammar : IsNumber kind text)
      (apart : tail.head?.any extendsNumber = false) :
      Spells tail text (.literal kind, String.ofList text)
  | sign {t : Token} (signs : isSign t = true) (apart : tail.head?.any (joins t) = false) :
      Spells tail t.text.toList (t, t.text)
  | string {text value : List Char} (content : IsContent text value) :
      Spells tail ('"' :: (text ++ ['"'])) (.literal .string, String.ofList value)

theorem word_range {x : Char} (h : isWordChar x = true) : 48 ≤ x.toNat ∧ x.toNat < 123 := by
  simp only [isWordChar, isLetter, isDigit, Char.le_def, UInt32.le_iff_toNat_le, Bool.or_eq_true,
    Bool.and_eq_true, decide_eq_true_eq] at h
  rcases h with ((h | h) | rfl) | h
  · exact ⟨Nat.le_trans (by decide) h.1, Nat.lt_of_le_of_lt h.2 (by decide)⟩
  · exact ⟨Nat.le_trans (by decide) h.1, Nat.lt_of_le_of_lt h.2 (by decide)⟩
  · decide
  · exact ⟨Nat.le_trans (by decide) h.1, Nat.lt_of_le_of_lt h.2 (by decide)⟩

theorem not_letter {x : Char} (h : isDigit x = true) : isLetter x = false := by
  by_contra hl
  simp only [isLetter, isDigit, Char.le_def, UInt32.le_iff_toNat_le, Bool.or_eq_true,
    Bool.and_eq_true, decide_eq_true_eq, Bool.not_eq_false] at h hl
  rcases hl with (hl | hl) | rfl
  · exact absurd (Nat.le_trans hl.1 h.2) (by decide)
  · exact absurd (Nat.le_trans hl.1 h.2) (by decide)
  · exact absurd h (by decide)

/-- Where a spelling starts, the reader finds neither a blank nor a comment. -/
structure Starts (x : Char) (rest : List Char) : Prop where
  blank : isBlank x = false
  newline : x ≠ '\n'
  comment : x = '/' → ∀ y ∈ rest.head?, y ≠ '/' ∧ y ≠ '*'
  ascii : x.toNat < 128

theorem starts_of_isWordChar {x : Char} (h : isWordChar x = true) (rest : List Char) :
    Starts x rest := by
  have hrange := word_range h
  have hne {y : Char} (hy : y.toNat < 48) : x ≠ y := by
    rintro rfl
    omega
  refine ⟨?_, hne (by decide), fun e => absurd e (hne (by decide)), by omega⟩
  simp [isBlank, hne]

/-- An operator or a delimiter starts with a character that starts nothing else. -/
theorem exists_mark {t : Token} (h : isSign t = true) :
    ∃ x more, t.text.toList = x :: more ∧ (isLetter x = false ∧ isDigit x = false ∧ x ≠ '"') ∧
      (isBlank x = false ∧ x ≠ '\n' ∧ x.toNat < 128) ∧ (x = '/' → more = []) := by
  cases t with
  | op o => cases o <;> exact ⟨_, _, rfl, by decide, by decide, by decide⟩
  | _ =>
    first
      | exact ⟨_, _, rfl, by decide, by decide, by decide⟩
      | cases h

namespace Spells

variable {c : Cursor} {tail text : List Char} {w : Token × String}

theorem exists_starts (h : Spells tail text w) :
    ∃ x more, text = x :: more ∧ Starts x (more ++ tail) := by
  cases h with
  | word first all _ =>
    obtain ⟨x, hx, -⟩ := (Option.any_eq_true _ _).1 first
    obtain ⟨more, rfl⟩ := List.head?_eq_some_iff.1 hx
    exact ⟨x, more, rfl, starts_of_isWordChar (all x List.mem_cons_self) _⟩
  | number grammar _ =>
    obtain ⟨x, more, rfl, hx⟩ := grammar.exists_digit
    exact ⟨x, more, rfl, starts_of_isWordChar (by simp [isWordChar, hx]) _⟩
  | @sign t signs apart =>
    obtain ⟨x, more, htext, -, ⟨hblank, hnewline, hascii⟩, hslash⟩ := exists_mark signs
    refine ⟨x, more, htext, hblank, hnewline, fun hx y hy => ?_, hascii⟩
    rw [hslash hx, hx] at htext
    rw [hslash hx, List.nil_append] at hy
    rw [Option.mem_def.1 hy] at apart
    have hjoins : pair? '/' y = none ∧ y ≠ '/' ∧ y ≠ '*' := by simpa [joins, htext] using apart
    exact hjoins.2
  | string _ => exact ⟨_, _, rfl, by decide, by decide, fun e => absurd e (by decide), by decide⟩

theorem token?_before (h : Spells tail text w) (hc : c.Before (text ++ tail)) :
    ∃ stop, token? c = some (w.1, w.2, stop) ∧ stop.Before tail := by
  cases h with
  | word first all apart =>
    have hskip := hc.skipAll all apart
    obtain ⟨x, hx, hletter⟩ := (Option.any_eq_true _ _).1 first
    obtain ⟨more, rfl⟩ := List.head?_eq_some_iff.1 hx
    refine ⟨_, ?_, hskip⟩
    rw [token?, hc.peek, List.cons_append, List.head?_cons]
    dsimp only
    rw [if_pos hletter, hc.textTo hskip]
  | number grammar apart =>
    obtain ⟨stop, hn, hbefore⟩ := number_before apart hc grammar
    obtain ⟨x, more, rfl, hx⟩ := grammar.exists_digit
    refine ⟨stop, ?_, hbefore⟩
    rw [token?, hc.peek, List.cons_append, List.head?_cons]
    simp [not_letter hx, hx, hn, hc.textTo hbefore]
  | sign signs apart =>
    obtain ⟨stop, hop, hbefore⟩ := operator?_before hc signs apart
    obtain ⟨x, more, htext, ⟨hletter, hdigit, hquote⟩, -⟩ := exists_mark signs
    refine ⟨stop, ?_, hbefore⟩
    rw [token?, hc.peek, htext, List.cons_append, List.head?_cons]
    simp [hletter, hdigit, hquote, hop]
  | string content =>
    rw [List.cons_append, List.append_assoc] at hc
    obtain ⟨stop, hstop, hbefore⟩ := stringContent_before hc.advance content
    refine ⟨stop, ?_, hbefore⟩
    rw [token?, hc.peek]
    simp [isLetter, isDigit, hstop]

theorem next_before (ends : Bool) (h : Spells tail text w) (hc : c.Before (text ++ tail)) :
    ∃ stop, next ends c = (w.1, w.2, c.pos, stop) ∧ stop.Before tail := by
  obtain ⟨stop, htoken, hbefore⟩ := h.token?_before hc
  obtain ⟨x, more, rfl, hx⟩ := h.exists_starts
  refine ⟨stop, ?_, hbefore⟩
  have hcomment (y : Char) (hy : y = '/' ∨ y = '*') :
      ¬(decide (x = '/') && decide (c.peekNext = some y)) = true := by
    intro hopen
    obtain ⟨hslash, hnext⟩ := Bool.and_eq_true_iff.1 hopen
    have hnext := of_decide_eq_true hnext
    rw [hc.peekNext] at hnext
    have hne := hx.comment (of_decide_eq_true hslash) y
      (by simpa [List.head?_eq_getElem?] using hnext)
    exact hy.elim hne.1 hne.2
  have hrest := hc.rest
  rw [next]
  split
  · simp_all
  · rename_i symbol _ hsymbol
    obtain rfl : Symbol.scalar x = symbol := by simp_all
    have hchar : (Symbol.scalar x).char = x := rfl
    rw [hchar, if_neg (Bool.eq_false_iff.1 hx.blank), if_neg hx.newline,
      if_neg (hcomment '/' (.inl rfl)), if_neg (hcomment '*' (.inr rfl)), htoken]

/-- No spelling holds a character that is reported by itself. -/
theorem nul_notMem (h : Spells tail text w) : '\x00' ∉ text := by
  cases h with
  | word _ all _ => exact fun hm => absurd (all _ hm) (by decide)
  | number grammar _ => exact grammar.nul_notMem
  | @sign t signs _ =>
    cases t with
    | op o => cases o <;> decide
    | _ => first | decide | cases signs
  | string content => simp [content.nul_notMem]

theorem ne_eof (h : Spells tail text w) : w.1 ≠ .eof := by
  cases h with
  | word _ _ _ =>
    rw [Token.ofWord]
    split <;> simp
  | number _ _ => simp
  | sign signs _ =>
    rintro rfl
    cases signs
  | string _ => simp

end Spells

/-- A text made of spellings and blanks, and what they spell. -/
inductive Laid : List Char → List (Token × String) → Prop
  | nil : Laid [] []
  | blank {text : List Char} {ws : List (Token × String)} : Laid text ws → Laid (' ' :: text) ws
  | cons {text tail : List Char} {w : Token × String} {ws : List (Token × String)} :
      Spells tail text w → Laid tail ws → Laid (text ++ tail) (w :: ws)

variable {c : Cursor} {text : List Char} {ws : List (Token × String)}

theorem Laid.nul_notMem (h : Laid text ws) : '\x00' ∉ text := by
  induction h with
  | nil => exact List.not_mem_nil
  | blank _ ih => simp [ih]
  | cons hs _ ih => simp [hs.nul_notMem, ih]

theorem Laid.ascii (h : Laid text ws) : ∀ x ∈ text.head?, x.toNat < 128 := by
  cases h with
  | nil => simp
  | blank _ => simp
  | cons hs _ =>
    obtain ⟨x, more, rfl, hx⟩ := hs.exists_starts
    simpa using hx.ascii

theorem Laid.length_le (h : Laid text ws) : ws.length ≤ text.length := by
  induction h with
  | nil => exact Nat.le_refl _
  | blank _ ih => exact Nat.le_succ_of_le ih
  | cons hs _ ih =>
    obtain ⟨x, more, rfl, -⟩ := hs.exists_starts
    simp only [List.length_append, List.length_cons]
    omega

theorem next_blank (ends : Bool) (h : c.Before (' ' :: text)) :
    next ends c = next ends c.advance := by
  have hrest := h.rest
  rw [next]
  split
  · simp_all
  · rename_i symbol _ hsymbol
    obtain rfl : Symbol.scalar ' ' = symbol := by simp_all
    rfl

theorem next_end (ends : Bool) (h : c.Before []) :
    next ends c = if ends then (.semi, "EOF", c.pos, c) else (.eof, "", c.pos, c) := by
  have hrest := h.rest
  rw [next]
  split
  · rfl
  · simp_all

theorem lexemes_end {fuel : Nat} (ends : Bool) (h : c.Before []) :
    (lexemes (fuel + 2) ends c).map content = ending ends := by
  have hlast (fuel : Nat) {d : Cursor} (hd : d.Before []) :
      (lexemes (fuel + 1) false d).map content = ending false := by
    simp [lexemes, next_end false hd, content, ending, hd.reports]
  cases ends with
  | true =>
    have hrest : ({ c with reports := [] } : Cursor).Before [] := ⟨h.rest, rfl, h.nul⟩
    rw [lexemes, next_end true h]
    simpa [content, ending, h.reports, Token.endsStatement] using hlast fuel hrest
  | false => exact hlast _ h

/-- A text that is laid out from spellings scans to what they spell. -/
theorem lexemes_laid {fuel : Nat} (ends : Bool) (h : Laid text ws) (hc : c.Before text)
    (hfuel : ws.length + 2 ≤ fuel) :
    (lexemes fuel ends c).map content =
      ws.map (fun w => (w.1, w.2, [])) ++ ending (ws.getLast?.elim ends (·.1.endsStatement)) := by
  induction h generalizing c fuel ends with
  | nil =>
    obtain ⟨fuel, rfl⟩ := Nat.exists_eq_add_of_le' hfuel
    exact lexemes_end ends hc
  | blank _ ih =>
    obtain ⟨fuel, rfl⟩ : ∃ n, fuel = n + 1 := ⟨fuel - 1, by omega⟩
    have hblank : lexemes (fuel + 1) ends c = lexemes (fuel + 1) ends c.advance := by
      rw [lexemes, lexemes, next_blank ends hc]
    rw [hblank, ih ends hc.advance hfuel]
  | @cons text tail w ws hs _ ih =>
    obtain ⟨fuel, rfl⟩ : ∃ n, fuel = n + 1 := ⟨fuel - 1, by omega⟩
    obtain ⟨stop, hstop, hbefore⟩ := hs.next_before ends hc
    have hrest : ({ stop with reports := [] } : Cursor).Before tail :=
      ⟨hbefore.rest, rfl, hbefore.nul⟩
    rw [List.length_cons] at hfuel
    have htail := ih w.1.endsStatement hrest (Nat.le_of_succ_le_succ hfuel)
    rw [lexemes, hstop, List.getLast?_cons]
    simp only [if_neg hs.ne_eof, List.map_cons, htail, content, hbefore.reports, List.reverse_nil,
      List.cons_append]
    cases ws.getLast? <;> rfl

theorem start_ofText (file : String) (hnul : '\x00' ∉ text)
    (hascii : ∀ x ∈ text.head?, x.toNat < 128) :
    (Cursor.start (.ofText file text)).Before text := by
  cases text with
  | nil => exact ⟨rfl, rfl, List.not_mem_nil⟩
  | cons x more =>
    have hbytes : Symbol.decode (Symbol.dropMark (Symbol.encode (x :: more))) =
        (x :: more).map .scalar := by
      rw [Symbol.dropMark_encode (hascii x rfl), Symbol.decode_encode]
    rw [Cursor.start, Source.ofText]
    dsimp only
    rw [hbytes]
    exact .arrive hnul _

/-- A whole text that is laid out from spellings. -/
theorem scan_laid (file : String) (h : Laid text ws) :
    (scan (.ofText file text)).map content =
      ws.map (fun w => (w.1, w.2, [])) ++ ending (ws.getLast?.any (·.1.endsStatement)) := by
  have hstart := start_ofText file h.nul_notMem h.ascii
  have hlength := h.length_le
  rw [scan, hstart.rest, List.length_map, lexemes_laid false h hstart (by omega)]
  cases ws.getLast? <;> rfl

/-! ### What a scan delivers -/

/-- The literal of a token is one that can be spelled. -/
def Legible : Token × String → Prop
  | (.name, text) => text.toList.head?.any isLetter = true ∧
      (∀ x ∈ text.toList, isWordChar x = true) ∧ Token.ofWord text = .name
  | (.literal kind, text) => kind = .string ∨ IsNumber kind text.toList
  | _ => True

theorem legible_ofWord {word : String} (hfirst : word.toList.head?.any isLetter = true)
    (hall : ∀ x ∈ word.toList, isWordChar x = true) : Legible (Token.ofWord word, word) := by
  cases hw : Token.ofWord word with
  | name => exact ⟨hfirst, hall, hw⟩
  | literal kind =>
    rw [Token.ofWord] at hw
    split at hw <;> cases hw
  | _ => trivial

theorem legible_of_isSign {t : Token} (h : isSign t = true) (text : String) :
    Legible (t, text) := by
  cases t <;> trivial

theorem legible_of_token? {c stop : Cursor} {t : Token} {text : String}
    (h : token? c = some (t, text, stop)) (hclean : stop.reports = []) : Legible (t, text) := by
  unfold token? at h
  split at h
  · cases h
  · rename_i x hpeek
    have hat (p : Char → Bool) (hp : p x = true) : c.isAt p = true := by
      rw [Cursor.isAt, hpeek, Option.any_some, hp]
    split at h
    · rename_i hletter
      cases h
      obtain ⟨run, hrun, hall, hne⟩ := c.exists_run isWordChar
      have hne := hne (hat _ (by simp [isWordChar, hletter]))
      obtain ⟨y, more, rfl⟩ := List.exists_cons_of_ne_nil hne
      have hfirst : x = y := by
        rw [Cursor.chars_of_peek hpeek, List.cons_append, List.cons.injEq] at hrun
        exact hrun.1
      rw [Cursor.textTo_of_chars hrun]
      exact legible_ofWord (by simp [← hfirst, hletter]) (by simpa using hall)
    · split at h
      · rename_i hdigit
        obtain ⟨kind, d, hn⟩ : ∃ kind d, number c = (kind, d) := ⟨_, _, rfl⟩
        rw [hn] at h
        cases h
        obtain ⟨digits, hdigits, hgrammar⟩ := isNumber_of_number (hat _ hdigit) hn hclean
        rw [Cursor.textTo_of_chars hdigits]
        exact .inr (by simpa using hgrammar)
      · split at h
        · cases h
          exact .inl rfl
        · obtain ⟨⟨t', stop'⟩, hop, he⟩ := Option.map_eq_some_iff.1 h
          cases he
          exact legible_of_isSign (isSign_of_operator? hop) _

/-- Names and numbers come as they were written. -/
theorem legible_of_mem_lexemes {fuel : Nat} {ends : Bool} {c : Cursor} {l : Lexeme}
    (hl : l ∈ lexemes fuel ends c) (hclean : l.reports = []) : Legible (l.token, l.text) := by
  induction fuel generalizing ends c with
  | zero => cases hl
  | succ fuel ih =>
    have hr := reaches_next ends c
    rw [lexemes] at hl
    generalize next ends c = delivered at hr hl
    obtain ⟨t, text, pos, stop⟩ := delivered
    dsimp only at hl
    have hfirst (hclean : stop.reports = []) : Legible (t, text) := by
      cases hr with
      | newline | closed | eof => trivial
      | token gap reports _ _ _ ht => exact legible_of_token? ht hclean
    split at hl
    · cases List.mem_singleton.1 hl
      exact hfirst (List.reverse_eq_nil_iff.1 hclean)
    · rcases List.mem_cons.1 hl with rfl | hl
      · exact hfirst (List.reverse_eq_nil_iff.1 hclean)
      · exact ih hl

end Lexer

end FlowCheck
