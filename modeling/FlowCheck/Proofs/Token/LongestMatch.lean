import Mathlib.Data.List.TakeWhile
import FlowCheck.Token.Lexer

/-!
# What the lexer takes for one token

The lexer takes the whole of a number, of an escaped string and of an operator, and reports nothing,
before everything that does not go on with them. The numbers that it takes without a report are
those of the grammar `IsNumber`, and no others.
-/
namespace FlowCheck

namespace Cursor

/-- Reports stay until a token is delivered. -/
theorem reports_of_skip {c : Cursor} {n : Nat} (h : (c.skip n).reports = []) : c.reports = [] := by
  induction n generalizing c with
  | zero => exact h
  | succ n ih =>
    have hnext := ih h
    rw [advance, arrive] at hnext
    split at hnext
    · cases hnext
    · exact hnext

/-- The characters that are still to be read. -/
def chars (c : Cursor) : List Char := c.rest.map Symbol.char

theorem chars_of_peek {c : Cursor} {x : Char} (h : c.peek = some x) :
    c.chars = x :: c.advance.chars := by
  obtain ⟨s, hs, rfl⟩ := Option.map_eq_some_iff.1 h
  obtain ⟨rest, hrest⟩ := List.head?_eq_some_iff.1 hs
  simp [chars, hrest]

theorem peek_advance (c : Cursor) : c.advance.peek = c.peekNext := by
  rw [peek, peekNext, advance_rest, List.head?_tail]

/-- What `skipWhile` skips. -/
theorem exists_run (c : Cursor) (p : Char → Bool) :
    ∃ run, c.chars = run ++ (c.skipWhile p).chars ∧ (∀ x ∈ run, p x = true) ∧
      (c.isAt p = true → run ≠ []) := by
  have hlength : c.runLength p = (c.chars.takeWhile p).length := by
    rw [runLength, chars, List.takeWhile_map, List.length_map]
    rfl
  have hrest : (c.skipWhile p).chars = c.chars.dropWhile p := by
    rw [chars, skipWhile_rest, List.map_drop, ← chars, hlength]
    conv => lhs; arg 2; rw [← List.takeWhile_append_dropWhile (p := p) (l := c.chars)]
    exact List.drop_left
  refine ⟨c.chars.takeWhile p, ?_, fun x hx => List.all_eq_true.1 List.all_takeWhile x hx, ?_⟩
  · rw [hrest, List.takeWhile_append_dropWhile]
  · intro hat
    obtain ⟨x, hx, hp⟩ := (Option.any_eq_true _ _).1 hat
    simp [chars_of_peek hx, hp]

/-- The text between two cursors, whatever comes after it. -/
theorem textTo_of_chars {c d : Cursor} {text : List Char} (h : c.chars = text ++ d.chars) :
    c.textTo d = String.ofList text := by
  have hlength := congrArg List.length h
  simp only [chars, List.length_map, List.length_append] at hlength
  rw [textTo, List.map_take, ← chars, h, List.take_left' (by omega)]

/-- The cursor stands before a text of which nothing is reported. -/
structure Before (c : Cursor) (text : List Char) : Prop where
  rest : c.rest = text.map .scalar
  reports : c.reports = []
  nul : '\x00' ∉ text

namespace Before

variable {c d : Cursor} {x : Char} {text more : List Char}

theorem peek (h : c.Before text) : c.peek = text.head? := by
  rw [Cursor.peek, h.rest]
  cases text <;> rfl

theorem peekNext (h : c.Before text) : c.peekNext = text[1]? := by
  rw [Cursor.peekNext, h.rest, List.getElem?_map, Option.map_map]
  exact Option.map_id'

theorem isAt (h : c.Before text) (p : Char → Bool) : c.isAt p = text.head?.any p := by
  rw [Cursor.isAt, h.peek]

theorem arrive (hn : '\x00' ∉ text) (pos : Pos) :
    (Cursor.arrive (text.map .scalar) pos []).Before text := by
  have hclean : (text.map Symbol.scalar).head?.bind symbolFault? = none := by
    cases text with
    | nil => rfl
    | cons x text =>
      have hx : x ≠ '\x00' := fun e => hn (e ▸ List.mem_cons_self)
      simp [symbolFault?, hx]
  rw [Cursor.arrive, hclean]
  exact ⟨rfl, rfl, hn⟩

theorem advance (h : c.Before (x :: text)) : c.advance.Before text := by
  rw [Cursor.advance, h.rest, h.reports]
  exact arrive (fun hn => h.nul (List.mem_cons_of_mem x hn)) _

theorem skip (h : c.Before (text ++ more)) : (c.skip text.length).Before more := by
  induction text generalizing c with
  | nil => exact h
  | cons x text ih => exact ih (Before.advance h)

theorem runLength (h : c.Before text) (p : Char → Bool) :
    c.runLength p = (text.takeWhile p).length := by
  rw [Cursor.runLength, h.rest, List.takeWhile_map, List.length_map]
  rfl

theorem skipWhile (h : c.Before text) (p : Char → Bool) :
    (c.skipWhile p).Before (text.dropWhile p) := by
  rw [Cursor.skipWhile, h.runLength]
  exact skip ((List.takeWhile_append_dropWhile (p := p) (l := text)).symm ▸ h)

/-- Everything that belongs to a class is skipped, up to a blank or the end. -/
theorem skipAll (h : c.Before (text ++ more)) {p : Char → Bool} (ht : ∀ x ∈ text, p x = true)
    (hm : more.head?.any p = false) : (c.skipWhile p).Before more := by
  have hskip := h.skipWhile p
  rw [List.dropWhile_append_of_pos ht] at hskip
  cases more with
  | nil => exact hskip
  | cons x more => rwa [List.dropWhile_cons_of_neg (by simpa using hm)] at hskip

theorem textTo (h : c.Before (text ++ more)) (h' : d.Before more) :
    c.textTo d = String.ofList text := by
  have hchars : Symbol.char ∘ Symbol.scalar = id := rfl
  simp [Cursor.textTo, h.rest, h'.rest, hchars]

end Before

end Cursor

namespace Lexer

variable {c : Cursor} {text tail : List Char}

/-! ### Numbers -/

/-- A point and digits, which make a number a fraction, or nothing. -/
inductive IsFraction : LitKind → List Char → Prop
  | absent : IsFraction .int []
  | point {digits : List Char} (all : ∀ x ∈ digits, isDigit x = true) :
      IsFraction .float ('.' :: digits)

/-- An exponent after a number of some kind, or nothing. -/
inductive IsExponent (kind : LitKind) : LitKind → List Char → Prop
  | absent : IsExponent kind kind []
  | scale {mark : Char} {sign digits : List Char} (mark_eq : mark = 'e' ∨ mark = 'E')
      (sign_eq : sign = [] ∨ sign = ['+'] ∨ sign = ['-']) (ne : digits ≠ [])
      (all : ∀ x ∈ digits, isDigit x = true) : IsExponent kind .float (mark :: (sign ++ digits))

/-- How numbers are written. -/
inductive IsNumber : LitKind → List Char → Prop
  | announced {radix : Radix} {letter : Char} {digits : List Char}
      (letter_eq : radixOf? letter = some radix) (ne : digits ≠ [])
      (all : ∀ x ∈ digits, isDigitOf radix x = true) : IsNumber .int ('0' :: letter :: digits)
  | decimal {kind result : LitKind} {whole fraction exponent : List Char} (ne : whole ≠ [])
      (all : ∀ x ∈ whole, isDigit x = true) (point : IsFraction kind fraction)
      (scale : IsExponent kind result exponent) : IsNumber result (whole ++ (fraction ++ exponent))

/-- What can go on with some number. -/
def extendsNumber (x : Char) : Bool := isWordChar x || x = '.'

theorem isWordChar_of_isDigitOf {radix : Radix} {x : Char} (h : isDigitOf radix x = true) :
    isWordChar x = true := by
  rw [isDigitOf, digitValue?] at h
  by_cases hd : isDigit x = true
  · simp [isWordChar, hd]
  · rw [if_neg hd] at h
    split at h
    · rename_i hl
      rw [Bool.and_eq_true, decide_eq_true_eq, decide_eq_true_eq] at hl
      have hz : x ≤ 'z' := Char.le_trans hl.2 (by decide)
      simp [isWordChar, isLetter, hl.1, hz]
    · split at h
      · rename_i hl
        rw [Bool.and_eq_true, decide_eq_true_eq, decide_eq_true_eq] at hl
        have hz : x ≤ 'Z' := Char.le_trans hl.2 (by decide)
        simp [isWordChar, isLetter, hl.1, hz]
      · cases h

theorem isWordChar_of_radixOf? {x : Char} (h : (radixOf? x).isSome = true) :
    isWordChar x = true := by
  unfold radixOf? at h
  split at h <;> first | decide | cases h

theorem any_eq_false {p q : Char → Bool} (h : tail.head?.any q = false)
    (hp : ∀ x, p x = true → q x = true) : tail.head?.any p = false := by
  cases tail with
  | nil => rfl
  | cons x tail => exact Bool.eq_false_iff.2 fun hx => Bool.eq_false_iff.1 h (hp x hx)

theorem IsExponent.any_eq_false {kind result : LitKind} {e : List Char}
    (h : IsExponent kind result e) {p : Char → Bool} (ht : tail.head?.any p = false)
    (he : p 'e' = false) (hE : p 'E' = false) : (e ++ tail).head?.any p = false := by
  cases h with
  | absent => exact ht
  | scale mark_eq _ _ _ => rcases mark_eq with rfl | rfl <;> simpa

theorem head_digits {digits more : List Char} (ne : digits ≠ []) {p : Char → Bool}
    (all : ∀ x ∈ digits, p x = true) : (digits ++ more).head?.any p = true := by
  cases digits with
  | nil => exact absurd rfl ne
  | cons x digits => simpa using all x List.mem_cons_self

theorem radixOf?_digit {x : Char} (h : isDigit x = true) : radixOf? x = none := by
  unfold radixOf?
  split <;> first | rfl | exact absurd h (by decide)

theorem fraction_before {kind : LitKind} (h : c.Before (text ++ tail)) (hf : IsFraction kind text)
    (ht : tail.head?.any (fun x => isDigit x || x = '.') = false) :
    ∃ stop, fraction c = (kind, stop) ∧ stop.Before tail := by
  have hpeek := h.peek
  cases hf with
  | absent =>
    refine ⟨c, ?_, h⟩
    rw [fraction, if_neg]
    rw [hpeek]
    intro e
    rw [List.nil_append] at e
    simp [e] at ht
  | point all =>
    refine ⟨c.advance.skipWhile isDigit, by simp [fraction, hpeek], h.advance.skipAll all ?_⟩
    exact any_eq_false ht fun x hx => by simp [hx]

/-! In the lemmas that follow, `tail` does not go on with the number. -/

section

variable {kind result : LitKind} (ht : tail.head?.any extendsNumber = false)
include ht

theorem not_digitOf_head (radix : Radix) : tail.head?.any (isDigitOf radix) = false :=
  any_eq_false ht fun x hx => by simp [extendsNumber, isWordChar_of_isDigitOf hx]

theorem not_digit_head : tail.head?.any isDigit = false :=
  any_eq_false ht fun x hx => by simp [extendsNumber, isWordChar, hx]

theorem not_point_head : tail.head?.any (fun x => isDigit x || x = '.') = false :=
  any_eq_false ht fun x hx => by
    rw [Bool.or_eq_true] at hx
    rcases hx with hx | hx <;> simp [extendsNumber, isWordChar, hx]

theorem not_mark_head : tail.head?.any (fun x => x = 'e' || x = 'E') = false :=
  any_eq_false ht fun x hx => by
    rw [Bool.or_eq_true, decide_eq_true_eq, decide_eq_true_eq] at hx
    rcases hx with rfl | rfl <;> rfl

theorem not_radix_head : tail.head?.any (fun x => (radixOf? x).isSome) = false :=
  any_eq_false ht fun x hx => by simp [extendsNumber, isWordChar_of_radixOf? hx]

theorem radixDigits_before {radix : Radix} (h : c.Before (text ++ tail)) (ne : text ≠ [])
    (all : ∀ x ∈ text, isDigitOf radix x = true) : (radixDigits radix c).Before tail := by
  have hskip := h.skipAll all (not_digitOf_head ht radix)
  have hfirst : c.isAt (isDigitOf radix) = true := by rw [h.isAt, head_digits ne all]
  have hlast : (c.skipWhile (isDigitOf radix)).isAt isDigit = false := by
    rw [hskip.isAt, not_digit_head ht]
  simpa [radixDigits, hfirst, hlast] using hskip

theorem exponent_before (h : c.Before (text ++ tail)) (he : IsExponent kind result text) :
    ∃ stop, exponent kind c = (result, stop) ∧ stop.Before tail := by
  cases he with
  | absent =>
    refine ⟨c, ?_, h⟩
    rw [exponent, h.isAt, List.nil_append, not_mark_head ht]
    rfl
  | @scale mark sign digits mark_eq sign_eq ne all =>
    have hat : c.isAt (fun ch => ch = 'e' || ch = 'E') = true := by
      rw [h.isAt]
      rcases mark_eq with rfl | rfl <;> rfl
    have hmark : c.advance.Before (sign ++ (digits ++ tail)) := by
      simpa using h.advance
    -- the sign is skipped if there is one, and a digit never is one
    have hsign : (if c.advance.isAt (fun ch => ch = '+' || ch = '-') then c.advance.advance
        else c.advance).Before (digits ++ tail) := by
      rw [hmark.isAt]
      rcases sign_eq with rfl | rfl | rfl
      · cases digits with
        | nil => exact absurd rfl ne
        | cons x digits =>
          have hx := all x List.mem_cons_self
          have hnot : ¬(x = '+' ∨ x = '-') := by
            rintro (rfl | rfl) <;> exact absurd hx (by decide)
          simpa [hnot] using hmark
      · exact hmark.advance
      · exact hmark.advance
    have hdigit := hsign.isAt isDigit
    rw [head_digits ne all] at hdigit
    have hstop : exponent kind c = (.float, (if c.advance.isAt (fun ch => ch = '+' || ch = '-') then
        c.advance.advance else c.advance).skipWhile isDigit) := by
      rw [exponent, if_pos hat]
      dsimp only
      rw [if_pos hdigit]
    exact ⟨_, hstop, hsign.skipAll all (not_digit_head ht)⟩

/-- A decimal number announces no other base. -/
theorem announcedRadix?_eq_none {whole fraction exponent : List Char}
    (h : c.Before (whole ++ (fraction ++ (exponent ++ tail)))) (ne : whole ≠ [])
    (all : ∀ x ∈ whole, isDigit x = true) (point : IsFraction kind fraction)
    (scale : IsExponent kind result exponent) : announcedRadix? c = none := by
  obtain ⟨x, more, rfl⟩ := List.exists_cons_of_ne_nil ne
  have hnext : (more ++ (fraction ++ (exponent ++ tail))).head?.any
      (fun y => (radixOf? y).isSome) = false := by
    cases more with
    | nil =>
      cases point with
      | absent => exact scale.any_eq_false (not_radix_head ht) (by decide) (by decide)
      | point _ => rfl
    | cons y more => simp [radixOf?_digit (all y (by simp))]
  rw [announcedRadix?, h.peekNext]
  split
  · rw [List.cons_append, List.getElem?_cons_succ, ← List.head?_eq_getElem?]
    cases hy : (more ++ (fraction ++ (exponent ++ tail))).head? with
    | none => rfl
    | some y => simpa [hy] using hnext
  · rfl

theorem number_before (h : c.Before (text ++ tail)) (hn : IsNumber kind text) :
    ∃ stop, number c = (kind, stop) ∧ stop.Before tail := by
  cases hn with
  | @announced radix letter digits letter_eq ne all =>
    have hradix : announcedRadix? c = some radix := by
      rw [announcedRadix?, h.peek, h.peekNext]
      exact letter_eq
    exact ⟨radixDigits radix c.advance.advance, by rw [number, hradix],
      radixDigits_before ht h.advance.advance ne all⟩
  | @decimal kind _ whole fraction exponent ne all point scale =>
    rw [List.append_assoc, List.append_assoc] at h
    have hpoint : ((fraction ++ (exponent ++ tail)).head?.any isDigit) = false := by
      cases point with
      | absent => exact scale.any_eq_false (not_digit_head ht) (by decide) (by decide)
      | point _ => rfl
    obtain ⟨d, hd, hbefore⟩ := fraction_before (h.skipAll all hpoint) point
      (scale.any_eq_false (not_point_head ht) (by decide) (by decide))
    obtain ⟨stop, hstop, hafter⟩ := exponent_before ht hbefore scale
    refine ⟨stop, ?_, hafter⟩
    rw [number, announcedRadix?_eq_none ht h ne all point scale]
    dsimp only
    rw [hd]
    exact hstop

end

/-! A number that scans without a report is written in this way, whatever comes after it. -/

theorem digits_of_radixDigits {radix : Radix} (hclean : (radixDigits radix c).reports = []) :
    ∃ digits, c.chars = digits ++ (radixDigits radix c).chars ∧ digits ≠ [] ∧
      ∀ x ∈ digits, isDigitOf radix x = true := by
  by_cases hat : c.isAt (isDigitOf radix) = true
  · obtain ⟨digits, hdigits, hall, hne⟩ := c.exists_run (isDigitOf radix)
    refine ⟨digits, hdigits.trans ?_, hne hat, hall⟩
    rw [radixDigits, if_pos hat]
    split <;> rfl
  · rw [radixDigits, if_neg hat] at hclean
    split at hclean
    · cases hclean
    · cases Cursor.reports_of_skip hclean

theorem isFraction_of_fraction {kind : LitKind} {stop : Cursor} (hf : fraction c = (kind, stop)) :
    ∃ point, c.chars = point ++ stop.chars ∧ IsFraction kind point := by
  rw [fraction] at hf
  split at hf
  · rename_i hat
    obtain ⟨rfl, rfl⟩ := Prod.mk.inj hf
    obtain ⟨digits, hdigits, hall, -⟩ := c.advance.exists_run isDigit
    exact ⟨'.' :: digits, by rw [Cursor.chars_of_peek hat, hdigits, List.cons_append], .point hall⟩
  · obtain ⟨rfl, rfl⟩ := Prod.mk.inj hf
    exact ⟨[], rfl, .absent⟩

theorem isExponent_of_exponent {kind result : LitKind} {stop : Cursor}
    (he : exponent kind c = (result, stop)) (hclean : stop.reports = []) :
    ∃ text, c.chars = text ++ stop.chars ∧ IsExponent kind result text := by
  rw [exponent] at he
  split at he
  · rename_i hat
    obtain ⟨mark, hmark, hat⟩ := (Option.any_eq_true _ _).1 hat
    obtain ⟨sign, hsign, hchars⟩ : ∃ sign, (sign = [] ∨ sign = ['+'] ∨ sign = ['-']) ∧
        c.advance.chars = sign ++ (if c.advance.isAt (fun ch => ch = '+' || ch = '-') then
          c.advance.advance else c.advance).chars := by
      split
      · rename_i hplus
        obtain ⟨x, hx, hplus⟩ := (Option.any_eq_true _ _).1 hplus
        exact ⟨[x], .inr (by simpa using hplus), Cursor.chars_of_peek hx⟩
      · exact ⟨[], .inl rfl, rfl⟩
    dsimp only at he
    generalize (if c.advance.isAt (fun ch => ch = '+' || ch = '-') then c.advance.advance
      else c.advance) = d at he hchars
    obtain ⟨rfl, rfl⟩ := Prod.mk.inj he
    split at hclean
    · rename_i hdigit
      obtain ⟨digits, hdigits, hall, hne⟩ := d.exists_run isDigit
      refine ⟨mark :: (sign ++ digits), ?_, .scale (by simpa using hat) hsign (hne hdigit) hall⟩
      rw [if_pos hdigit, Cursor.chars_of_peek hmark, hchars, hdigits, List.cons_append,
        List.append_assoc]
    · cases Cursor.reports_of_skip hclean
  · obtain ⟨rfl, rfl⟩ := Prod.mk.inj he
    exact ⟨[], rfl, .absent⟩

theorem isNumber_of_number {kind : LitKind} {stop : Cursor} (hfirst : c.isAt isDigit = true)
    (hn : number c = (kind, stop)) (hclean : stop.reports = []) :
    ∃ text, c.chars = text ++ stop.chars ∧ IsNumber kind text := by
  rw [number] at hn
  split at hn
  · rename_i radix hradix
    obtain ⟨rfl, rfl⟩ := Prod.mk.inj hn
    rw [announcedRadix?] at hradix
    split at hradix
    · rename_i hzero
      obtain ⟨letter, hletter, hradix⟩ := Option.bind_eq_some_iff.1 hradix
      obtain ⟨digits, hdigits, hne, hall⟩ := digits_of_radixDigits hclean
      refine ⟨'0' :: letter :: digits, ?_, .announced hradix hne hall⟩
      rw [Cursor.chars_of_peek hzero, Cursor.chars_of_peek (c.peek_advance.trans hletter), hdigits,
        List.cons_append, List.cons_append]
    · cases hradix
  · obtain ⟨k, d, hf⟩ : ∃ k d, fraction (c.skipWhile isDigit) = (k, d) := ⟨_, _, rfl⟩
    rw [hf] at hn
    obtain ⟨whole, hwhole, hall, hne⟩ := c.exists_run isDigit
    obtain ⟨point, hpoint, hfraction⟩ := isFraction_of_fraction hf
    obtain ⟨scale, hscale, hexponent⟩ := isExponent_of_exponent hn hclean
    refine ⟨whole ++ (point ++ scale), ?_, .decimal (hne hfirst) hall hfraction hexponent⟩
    rw [hwhole, hpoint, hscale, List.append_assoc, List.append_assoc]

theorem IsNumber.exists_digit {kind : LitKind} {text : List Char} (h : IsNumber kind text) :
    ∃ x more, text = x :: more ∧ isDigit x = true := by
  cases h with
  | announced _ _ _ => exact ⟨_, _, rfl, by decide⟩
  | @decimal _ _ whole _ _ ne all _ _ =>
    obtain ⟨x, more, rfl⟩ := List.exists_cons_of_ne_nil ne
    exact ⟨x, _, rfl, all x List.mem_cons_self⟩

theorem IsExponent.nul_notMem {kind result : LitKind} {text : List Char}
    (h : IsExponent kind result text) : '\x00' ∉ text := by
  cases h with
  | absent => exact List.not_mem_nil
  | @scale mark sign digits mark_eq sign_eq _ all =>
    have hdigits : '\x00' ∉ digits := fun hm => absurd (all _ hm) (by decide)
    rcases mark_eq with rfl | rfl <;> rcases sign_eq with rfl | rfl | rfl <;> simp [hdigits]

theorem IsNumber.nul_notMem {kind : LitKind} {text : List Char} (h : IsNumber kind text) :
    '\x00' ∉ text := by
  cases h with
  | @announced radix letter digits letter_eq _ all =>
    have hletter : '\x00' ≠ letter := by
      rintro rfl
      cases letter_eq
    have hdigits : '\x00' ∉ digits := fun hm => absurd (all _ hm) (by cases radix <;> decide)
    simp [hletter, hdigits]
  | @decimal _ _ whole fraction exponent _ all point scale =>
    have hwhole : '\x00' ∉ whole := fun hm => absurd (all _ hm) (by decide)
    have hfraction : '\x00' ∉ fraction := by
      cases point with
      | absent => exact List.not_mem_nil
      | @point digits all =>
        have hdigits : '\x00' ∉ digits := fun hm => absurd (all _ hm) (by decide)
        simp [hdigits]
    simp [hwhole, hfraction, scale.nul_notMem]

/-! ### Strings -/

/-- How the value of a string is written between the quotation marks: character by character, as it
is or by an escape. -/
inductive IsContent : List Char → List Char → Prop
  | nil : IsContent [] []
  | plain {x : Char} {text value : List Char} (quote : x ≠ '"') (line : x ≠ '\n')
      (slash : x ≠ '\\') (nul : x ≠ '\x00') :
      IsContent text value → IsContent (x :: text) (x :: value)
  | simple {letter x : Char} {text value : List Char} (letter_eq : simpleEscape? letter = some x) :
      IsContent text value → IsContent ('\\' :: letter :: text) (x :: value)
  | hex {a b : Char} {high low : Nat} {text value : List Char}
      (high_eq : digitValue? a = some high) (low_eq : digitValue? b = some low) :
      IsContent text value →
        IsContent ('\\' :: 'x' :: a :: b :: text) (Char.ofNat (high * 16 + low) :: value)

theorem IsContent.append {text more value rest : List Char} (h : IsContent text value)
    (h' : IsContent more rest) : IsContent (text ++ more) (value ++ rest) := by
  induction h with
  | nil => exact h'
  | plain quote line slash nul _ ih => exact .plain quote line slash nul ih
  | simple letter_eq _ ih => exact .simple letter_eq ih
  | hex high_eq low_eq _ ih => exact .hex high_eq low_eq ih

theorem IsContent.flatMap {f : Char → List Char} {value : List Char}
    (h : ∀ x ∈ value, IsContent (f x) [x]) : IsContent (value.flatMap f) value := by
  induction value with
  | nil => exact .nil
  | cons x value ih =>
    have hrest := ih fun y hy => h y (List.mem_cons_of_mem x hy)
    exact (h x List.mem_cons_self).append hrest

theorem IsContent.nul_notMem {value : List Char} (h : IsContent text value) : '\x00' ∉ text := by
  have hdigit {a : Char} {n : Nat} (ha : digitValue? a = some n) : '\x00' ≠ a := by
    rintro rfl
    cases ha
  induction h with
  | nil => exact List.not_mem_nil
  | plain _ _ _ nul _ ih => simp [ih, nul.symm]
  | @simple letter _ _ _ letter_eq _ ih =>
    have hletter : '\x00' ≠ letter := by
      rintro rfl
      cases letter_eq
    simp [ih, hletter]
  | hex high_eq low_eq _ ih => simp [ih, hdigit high_eq, hdigit low_eq]

theorem stringContent_cons {x : Char} (h : c.Before (x :: text)) :
    stringContent c =
      if x = '"' then ([], c.advance)
      else if x = '\n' then ([], c.report .openString)
      else if x = '\\' then
        ((escape c).1.toList ++ (stringContent (escape c).2).1, (stringContent (escape c).2).2)
      else (x :: (stringContent c.advance).1, (stringContent c.advance).2) := by
  have hrest := h.rest
  rw [stringContent]
  split
  · simp_all
  · rename_i s _ hs
    obtain rfl : Symbol.scalar x = s := by simp_all
    rfl

theorem escape_simple {letter x : Char} (h : c.Before ('\\' :: letter :: tail))
    (hletter : simpleEscape? letter = some x) : escape c = (some x, c.advance.advance) := by
  rw [escape, h.advance.peek, List.head?_cons, Option.bind_some, hletter]

theorem escape_hex {a b : Char} {high low : Nat} (h : c.Before ('\\' :: 'x' :: a :: b :: tail))
    (ha : digitValue? a = some high) (hb : digitValue? b = some low) :
    escape c =
      (some (Char.ofNat (high * 16 + low)), c.advance.advance.advance.advance) := by
  have hx : simpleEscape? 'x' = none := rfl
  simp [escape, h.advance.peek, hx, hexEscape, h.advance.advance.peek,
    h.advance.advance.advance.peek, ha, hb]

theorem stringContent_before {value : List Char} (h : c.Before (text ++ '"' :: tail))
    (ht : IsContent text value) : ∃ stop, stringContent c = (value, stop) ∧ stop.Before tail := by
  induction ht generalizing c with
  | nil =>
    refine ⟨c.advance, ?_, h.advance⟩
    rw [stringContent_cons h, if_pos rfl]
  | plain quote line slash _ _ ih =>
    obtain ⟨stop, hstop, hbefore⟩ := ih h.advance
    refine ⟨stop, ?_, hbefore⟩
    simp [stringContent_cons h, quote, line, slash, hstop]
  | simple letter_eq _ ih =>
    obtain ⟨stop, hstop, hbefore⟩ := ih h.advance.advance
    refine ⟨stop, ?_, hbefore⟩
    simp [stringContent_cons h, escape_simple h letter_eq, hstop]
  | hex high_eq low_eq _ ih =>
    obtain ⟨stop, hstop, hbefore⟩ := ih h.advance.advance.advance.advance
    refine ⟨stop, ?_, hbefore⟩
    simp [stringContent_cons h, escape_hex h high_eq low_eq, hstop]

/-! ### Operators and delimiters -/

/-- The tokens that `operator?` delivers. -/
def isSign : Token → Bool
  | .assign | .define | .op _ | .not | .lparen | .rparen | .lbrack | .rbrack | .lbrace | .rbrace
  | .comma | .semi | .colon | .dot => true
  | _ => false

theorem isSign_of_operator? {stop : Cursor} {t : Token} (h : operator? c = some (t, stop)) :
    isSign t = true := by
  unfold operator? at h
  split at h
  · cases h
  · split at h
    · rename_i hpair
      obtain ⟨second, -, hpair⟩ := Option.bind_eq_some_iff.1 hpair
      cases h
      unfold pair? at hpair
      split at hpair <;> cases hpair <;> rfl
    · obtain ⟨t', hsingle, he⟩ := Option.map_eq_some_iff.1 h
      cases he
      unfold single? at hsingle
      split at hsingle <;> cases hsingle <;> rfl

/-- Where `y` follows the sign something else is read: a sign of two characters or a comment. -/
def joins (t : Token) (y : Char) : Bool :=
  match t.text.toList with
  | [x] => (pair? x y).isSome || (x = '/' && (y = '/' || y = '*'))
  | _ => false

theorem pair?_blank (x : Char) : pair? x ' ' = none := by
  unfold pair?
  split <;> simp_all

theorem joins_blank (t : Token) : joins t ' ' = false := by
  unfold joins
  split
  · simp [pair?_blank]
  · rfl

theorem single_or_pair {token : Token} (h : isSign token = true) :
    (∃ x, token.text.toList = [x] ∧ single? x = some token) ∨
    ∃ x y, token.text.toList = [x, y] ∧ pair? x y = some token := by
  cases token with
  | op o =>
    cases o <;> first | exact .inl ⟨_, rfl, rfl⟩ | exact .inr ⟨_, _, rfl, rfl⟩
  | _ => first | exact .inl ⟨_, rfl, rfl⟩ | exact .inr ⟨_, _, rfl, rfl⟩ | cases h

theorem operator?_before {token : Token} (h : c.Before (token.text.toList ++ tail))
    (hsign : isSign token = true) (ht : tail.head?.any (joins token) = false) :
    ∃ stop, operator? c = some (token, stop) ∧ stop.Before tail := by
  rcases single_or_pair hsign with ⟨x, htext, hx⟩ | ⟨x, y, htext, hx⟩
  · rw [htext] at h
    have hnone : c.peekNext.bind (pair? x) = none := by
      rw [h.peekNext, List.singleton_append, List.getElem?_cons_succ, ← List.head?_eq_getElem?]
      cases hy : tail.head? with
      | none => rfl
      | some y => simp_all [joins]
    refine ⟨c.advance, ?_, h.advance⟩
    rw [operator?, h.peek, List.singleton_append, List.head?_cons]
    simp [hnone, hx]
  · rw [htext] at h
    refine ⟨c.advance.advance, ?_, h.advance.advance⟩
    rw [operator?, h.peek, h.peekNext]
    simp [hx]

end Lexer

end FlowCheck
