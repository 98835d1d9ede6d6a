import FlowCheck.Token.Lexer

/-!
# The order of lexemes

Whatever is scanned, a cursor only moves from one symbol to the next, and every token takes up at
least one symbol. So the lexemes of a text come in the order of their positions, a scan always ends
with the end of the file, and only a semicolon that stands for a newline can share its position with
the lexeme after it.
-/
namespace FlowCheck

namespace Pos

/-- Not later, in the same file. -/
def Upto (p q : Pos) : Prop := p.file = q.file ∧ (p.line < q.line ∨ p.line = q.line ∧ p.col ≤ q.col)

/-- Strictly earlier, in the same file. -/
def Precedes (p q : Pos) : Prop :=
  p.file = q.file ∧ (p.line < q.line ∨ p.line = q.line ∧ p.col < q.col)

variable {p q r : Pos}

theorem Upto.refl (p : Pos) : Upto p p := ⟨rfl, .inr ⟨rfl, Nat.le_refl _⟩⟩

theorem Upto.trans (h : Upto p q) (h' : Upto q r) : Upto p r :=
  ⟨h.1.trans h'.1, by rcases h with ⟨_, h⟩; rcases h' with ⟨_, h'⟩; omega⟩

theorem Precedes.upto (h : Precedes p q) : Upto p q := ⟨h.1, by rcases h with ⟨_, h⟩; omega⟩

theorem Precedes.trans_upto (h : Precedes p q) (h' : Upto q r) : Precedes p r :=
  ⟨h.1.trans h'.1, by rcases h with ⟨_, h⟩; rcases h' with ⟨_, h'⟩; omega⟩

theorem Upto.trans_precedes (h : Upto p q) (h' : Precedes q r) : Precedes p r :=
  ⟨h.1.trans h'.1, by rcases h with ⟨_, h⟩; rcases h' with ⟨_, h'⟩; omega⟩

theorem Precedes.ne (h : Precedes p q) : p ≠ q := by
  rintro rfl
  rcases h with ⟨_, h⟩
  omega

theorem precedes_nextCol (p : Pos) : Precedes p p.nextCol := ⟨rfl, .inr ⟨rfl, Nat.lt_succ_self _⟩⟩

theorem precedes_nextLine (p : Pos) : Precedes p p.nextLine := ⟨rfl, .inl (Nat.lt_succ_self _)⟩

end Pos

/-- The fault of a single symbol, which is reported when the symbol is reached. -/
def LexFault.isOfSymbol : LexFault → Bool
  | .illFormed | .nul => true
  | _ => false

namespace Cursor

/-- Nothing is read twice on the way from `c` to `d`. -/
structure Forward (c d : Cursor) : Prop where
  length_le : d.rest.length ≤ c.rest.length
  upto : Pos.Upto c.pos d.pos

/-- Some symbol is read on the way from `c` to `d`. -/
structure Beyond (c d : Cursor) : Prop where
  length_lt : d.rest.length < c.rest.length
  precedes : Pos.Precedes c.pos d.pos

variable {c d e : Cursor}

theorem Forward.refl (c : Cursor) : Forward c c := ⟨Nat.le_refl _, .refl _⟩

theorem Forward.trans (h : Forward c d) (h' : Forward d e) : Forward c e :=
  ⟨Nat.le_trans h'.length_le h.length_le, h.upto.trans h'.upto⟩

theorem Beyond.trans (h : Beyond c d) (h' : Forward d e) : Beyond c e :=
  ⟨Nat.lt_of_le_of_lt h'.length_le h.length_lt, h.precedes.trans_upto h'.upto⟩

theorem precedes_advance (c : Cursor) : Pos.Precedes c.pos c.advance.pos := by
  unfold advance
  rw [arrive_pos]
  split
  · exact Pos.precedes_nextLine _
  · exact Pos.precedes_nextCol _

theorem forward_advance (c : Cursor) : Forward c c.advance :=
  ⟨by rw [advance_length]; exact Nat.sub_le _ _, c.precedes_advance.upto⟩

theorem beyond_advance (h : c.rest ≠ []) : Beyond c c.advance := by
  refine ⟨?_, c.precedes_advance⟩
  have hpos := List.length_pos_iff.2 h
  rw [advance_length]
  omega

/-! ### Moves of a scanner -/

/-- Scanning gets from `c` to `d`: it reads one symbol after the other, and in between it reports
faults of what the symbols make up. -/
inductive Moves : Cursor → Cursor → Prop
  | stay (c : Cursor) : Moves c c
  | read {c d : Cursor} (later : Moves c.advance d) : Moves c d
  | note {c d : Cursor} (fault : LexFault) (kind : fault.isOfSymbol = false)
      (later : Moves (c.report fault) d) : Moves c d

theorem Moves.trans (h : Moves c d) (h' : Moves d e) : Moves c e := by
  induction h with
  | stay => exact h'
  | read _ ih => exact .read (ih h')
  | note fault kind _ ih => exact .note fault kind (ih h')

theorem Moves.ite {p : Prop} [Decidable p] (h : Moves c d) (h' : Moves c e) :
    Moves c (if p then d else e) := by
  split
  · exact h
  · exact h'

theorem moves_advance (c : Cursor) : Moves c c.advance := .read (.stay _)

theorem moves_report {fault : LexFault} (h : fault.isOfSymbol = false) (c : Cursor) :
    Moves c (c.report fault) := .note fault h (.stay _)

theorem moves_skip (n : Nat) (c : Cursor) : Moves c (c.skip n) := by
  induction n generalizing c with
  | zero => exact .stay c
  | succ n ih => exact .read (ih c.advance)

theorem moves_skipWhile (p : Char → Bool) (c : Cursor) : Moves c (c.skipWhile p) := moves_skip _ c

theorem Moves.forward (h : Moves c d) : Forward c d := by
  induction h with
  | stay => exact .refl _
  | read _ ih => exact (forward_advance _).trans ih
  | note fault _ _ ih => exact ⟨ih.length_le, ih.upto⟩

theorem rest_ne_nil_of_peek {ch : Char} (h : c.peek = some ch) : c.rest ≠ [] := by
  rintro e
  simp [peek, e] at h

/-- A run of symbols that the current one belongs to. -/
theorem beyond_skipWhile {p : Char → Bool} {ch : Char} (h : c.peek = some ch) (hp : p ch = true) :
    Beyond c (c.skipWhile p) := by
  obtain ⟨s, rest, hr⟩ := List.exists_cons_of_ne_nil (rest_ne_nil_of_peek h)
  have hs : s.char = ch := by simpa [peek, hr] using h
  have hlen : c.runLength p = (rest.takeWhile fun s => p s.char).length + 1 := by
    simp [runLength, hr, hs, hp]
  rw [skipWhile, hlen, skip]
  exact (beyond_advance (by simp [hr])).trans (moves_skip _ _).forward

end Cursor

namespace Lexer

open Cursor

theorem moves_radixDigits (radix : Radix) (c : Cursor) : Moves c (radixDigits radix c) := by
  unfold radixDigits
  have hfirst : Moves c (if c.isAt (isDigitOf radix) then c else c.report (.badDigit radix)) :=
    .ite (.stay c) (moves_report rfl c)
  have hdigits := hfirst.trans (moves_skipWhile (isDigitOf radix) _)
  exact .ite (hdigits.trans (moves_report rfl _)) hdigits

theorem moves_fraction (c : Cursor) : Moves c (fraction c).2 := by
  unfold fraction
  split
  · exact .read (moves_skipWhile _ _)
  · exact .stay c

theorem moves_exponent (kind : LitKind) (c : Cursor) : Moves c (exponent kind c).2 := by
  unfold exponent
  split
  · apply Moves.trans _ (moves_skipWhile _ _)
    apply Moves.trans _ (.ite (.stay _) (moves_report rfl _))
    exact .read (.ite (moves_advance _) (.stay _))
  · exact .stay c

theorem moves_number (c : Cursor) : Moves c (number c).2 := by
  unfold number
  split
  · exact .read (.read (moves_radixDigits _ _))
  · exact ((moves_skipWhile _ c).trans (moves_fraction _)).trans (moves_exponent _ _)

theorem moves_hexEscape (c : Cursor) : Moves c (hexEscape c).2 := by
  unfold hexEscape
  split
  · exact moves_report rfl c
  · dsimp only
    split
    · exact .read (moves_report rfl _)
    · exact .read (moves_advance _)

theorem moves_escape (c : Cursor) : Moves c (escape c).2 := by
  unfold escape
  dsimp only
  split
  · exact .read (moves_advance _)
  · split
    · exact .read (.read (moves_hexEscape _))
    · exact .read (.note _ rfl (moves_advance _))

theorem moves_stringContent (c : Cursor) : Moves c (stringContent c).2 := by
  fun_induction stringContent c with
  | case1 c h => exact moves_report rfl c
  | case2 c s rest h hq => exact moves_advance c
  | case3 c s rest h hq hn => exact moves_report rfl c
  | case4 c s rest h hq hn hb escaped content ih => exact (moves_escape c).trans ih
  | case5 c s rest h hq hn hb content ih => exact .read ih

theorem moves_operator? {c stop : Cursor} {t : Token} (h : operator? c = some (t, stop)) :
    Moves c stop := by
  unfold operator? at h
  split at h
  · cases h
  · split at h
    · cases h
      exact .read (moves_advance _)
    · obtain ⟨t', -, ht⟩ := Option.map_eq_some_iff.1 h
      cases ht
      exact moves_advance c

theorem moves_token? {c stop : Cursor} {t : Token} {text : String}
    (h : token? c = some (t, text, stop)) : Moves c stop := by
  unfold token? at h
  split at h
  · cases h
  · split at h
    · cases h
      exact moves_skipWhile _ c
    · split at h
      · cases h
        exact moves_number c
      · split at h
        · cases h
          exact .read (moves_stringContent _)
        · obtain ⟨⟨t', stop'⟩, ho, he⟩ := Option.map_eq_some_iff.1 h
          cases he
          exact moves_operator? ho

theorem moves_blockComment (c : Cursor) : Moves c (blockComment c).2 := by
  unfold blockComment
  exact .ite (moves_skip _ c) ((moves_skip _ c).trans (moves_report rfl _))

theorem moves_next (ends : Bool) (c : Cursor) : Moves c (next ends c).2.2.2 := by
  fun_induction next ends c with
  | case1 c => exact .stay c
  | case2 c => exact .stay c
  | case3 c s rest h hb ih => exact .read ih
  | case4 c => exact moves_advance c
  | case5 c s rest h hb hn he ih => exact .read ih
  | case6 c s rest h hb hn hc ih => exact .read ((moves_skipWhile _ _).trans ih)
  | case7 c => exact .read (.read (moves_blockComment _))
  | case8 c s rest h hb hn hl hc comment he ih =>
    exact .read (.read ((moves_blockComment _).trans ih))
  | case9 c s rest h hb hn hl hc t text stop ht => exact moves_token? ht
  | case10 c s rest h hb hn hl hc ht ih => exact .note _ rfl (.read ih)

/-! ### Tokens take up symbols -/

theorem beyond_number {c : Cursor} {ch : Char} (h : c.peek = some ch) (hd : isDigit ch = true) :
    Beyond c (number c).2 := by
  unfold number
  split
  · exact (beyond_advance (rest_ne_nil_of_peek h)).trans (Moves.read (moves_radixDigits _ _)).forward
  · exact (beyond_skipWhile h hd).trans ((moves_fraction _).trans (moves_exponent _ _)).forward

theorem beyond_operator? {c stop : Cursor} {t : Token} (h : operator? c = some (t, stop)) :
    Beyond c stop := by
  unfold operator? at h
  split at h
  · cases h
  · rename_i ch hp
    have hc := beyond_advance (rest_ne_nil_of_peek hp)
    split at h
    · cases h
      exact hc.trans c.advance.forward_advance
    · obtain ⟨t', -, ht⟩ := Option.map_eq_some_iff.1 h
      cases ht
      exact hc

/-- No token is empty. -/
theorem beyond_token? {c stop : Cursor} {t : Token} {text : String}
    (h : token? c = some (t, text, stop)) : Beyond c stop := by
  unfold token? at h
  split at h
  · cases h
  · rename_i ch hp
    split at h
    · rename_i hl
      cases h
      exact beyond_skipWhile hp (by simp [isWordChar, hl])
    · split at h
      · rename_i hd
        cases h
        exact beyond_number hp hd
      · split at h
        · cases h
          exact (beyond_advance (rest_ne_nil_of_peek hp)).trans (moves_stringContent _).forward
        · obtain ⟨⟨t', stop'⟩, ho, he⟩ := Option.map_eq_some_iff.1 h
          cases he
          exact beyond_operator? ho

/-- What is delivered from `c`: a token of at least one symbol, a semicolon in the place of a
newline, or, where the text has ended, a last semicolon or the end of the file. -/
structure Delivered (c : Cursor) (t : Token) (pos : Pos) (stop : Cursor) : Prop where
  start : Pos.Upto c.pos pos
  upto : Pos.Upto pos stop.pos
  precedes : t ≠ .semi → t ≠ .eof → Pos.Precedes pos stop.pos
  shorter : t ≠ .eof → stop.rest.length < c.rest.length ∨ t = .semi ∧ stop.rest = []

theorem Delivered.of_forward {c d stop : Cursor} {t : Token} {pos : Pos} (h : Forward c d)
    (h' : Delivered d t pos stop) : Delivered c t pos stop :=
  ⟨h.upto.trans h'.start, h'.upto, h'.precedes,
    fun ht => (h'.shorter ht).imp_left fun hl => Nat.lt_of_lt_of_le hl h.length_le⟩

theorem delivered_next (ends : Bool) (c : Cursor) :
    Delivered c (next ends c).1 (next ends c).2.2.1 (next ends c).2.2.2 := by
  fun_induction next ends c with
  | case1 c h => exact ⟨.refl _, .refl _, by simp, by simp [h]⟩
  | case2 c h => exact ⟨.refl _, .refl _, by simp, by simp⟩
  | case3 c s rest h hb ih => exact .of_forward c.forward_advance ih
  | case4 c s rest h hb hn =>
    have hc : Beyond c c.advance := beyond_advance (by simp [h])
    exact ⟨.refl _, hc.precedes.upto, by simp, fun _ => .inl hc.length_lt⟩
  | case5 c s rest h hb hn he ih => exact .of_forward c.forward_advance ih
  | case6 c s rest h hb hn hc ih =>
    exact .of_forward (Moves.read (moves_skipWhile _ _)).forward ih
  | case7 c s rest h hb hn hl hc comment he =>
    have hfirst : Beyond c c.advance := beyond_advance (by simp [h])
    have hall := hfirst.trans (Moves.read (moves_blockComment _)).forward
    exact ⟨hall.precedes.upto, .refl _, by simp, fun _ => .inl hall.length_lt⟩
  | case8 c s rest h hb hn hl hc comment he ih =>
    exact .of_forward (Moves.read (.read (moves_blockComment _))).forward ih
  | case9 c s rest h hb hn hl hc t text stop ht =>
    have hall := beyond_token? ht
    exact ⟨.refl _, hall.precedes.upto, fun _ _ => hall.precedes, fun _ => .inl hall.length_lt⟩
  | case10 c s rest h hb hn hl hc ht ih =>
    exact .of_forward (Moves.note (.unexpected s.char) rfl (moves_advance _)).forward ih

/-- The order of two lexemes of a text. -/
def Ordered (l m : Lexeme) : Prop :=
  Pos.Upto l.pos m.pos ∧ (l.token ≠ .semi → Pos.Precedes l.pos m.pos)

/-- There is fuel for the lexemes left: one for every symbol, a semicolon and the end of the file,
or only the latter. -/
def Fueled (fuel : Nat) (ends : Bool) (c : Cursor) : Prop :=
  c.rest.length + 2 ≤ fuel ∨ c.rest = [] ∧ ends = false ∧ 1 ≤ fuel

/-- A lexeme other than the end of the file leaves enough fuel for those after it. -/
theorem Fueled.next {fuel : Nat} {ends : Bool} {c stop : Cursor} {t : Token} {text : String}
    {pos : Pos} (h : Fueled (fuel + 1) ends c) (hnext : next ends c = (t, text, pos, stop))
    (he : t ≠ .eof) : Fueled fuel t.endsStatement { stop with reports := [] } := by
  have hn := delivered_next ends c
  rw [hnext] at hn
  rcases h with h | ⟨hr, rfl, -⟩
  · rcases hn.shorter he with hs | ⟨rfl, hs⟩
    · dsimp only at hs
      exact .inl (by dsimp only; omega)
    · exact .inr ⟨hs, rfl, by omega⟩
  · rw [Lexer.next, hr] at hnext
    cases hnext
    exact absurd rfl he

theorem lexemes_ordered {fuel : Nat} {ends : Bool} {c : Cursor} (h : Fueled fuel ends c) :
    (∃ l, (lexemes fuel ends c).getLast? = some l ∧ l.token = .eof) ∧
      (∀ l ∈ lexemes fuel ends c, Pos.Upto c.pos l.pos) ∧
      (lexemes fuel ends c).Pairwise Ordered := by
  induction fuel generalizing ends c with
  | zero =>
    rcases h with h | ⟨-, -, h⟩ <;> omega
  | succ fuel ih =>
    have hn := delivered_next ends c
    rw [lexemes]
    rcases hnext : next ends c with ⟨t, text, pos, stop⟩
    rw [hnext] at hn
    dsimp only at hn ⊢
    split
    · rename_i he
      simpa [he] using hn.start
    · rename_i he
      obtain ⟨⟨l, hl, hlt⟩, hall, hpair⟩ := ih (h.next hnext he)
      refine ⟨⟨l, ?_, hlt⟩, ?_, ?_⟩
      · rw [List.getLast?_cons, hl]
        rfl
      · simp only [List.forall_mem_cons]
        exact ⟨hn.start, fun m hm => (hn.start.trans hn.upto).trans (hall m hm)⟩
      · apply List.Pairwise.cons _ hpair
        intro m hm
        exact ⟨hn.upto.trans (hall m hm), fun hs => (hn.precedes hs he).trans_upto (hall m hm)⟩

theorem lexemes_dropLast {fuel : Nat} {ends : Bool} {c : Cursor} :
    ∀ l ∈ (lexemes fuel ends c).dropLast, l.token ≠ .eof := by
  induction fuel generalizing ends c with
  | zero => simp [lexemes]
  | succ fuel ih =>
    rw [lexemes]
    rcases next ends c with ⟨t, text, pos, stop⟩
    dsimp only
    split
    · simp
    · rename_i he
      intro l hl
      by_cases hnil : lexemes fuel t.endsStatement { stop with reports := [] } = []
      · simp [hnil] at hl
      · rw [List.dropLast_cons_of_ne_nil hnil] at hl
        rcases List.mem_cons.1 hl with rfl | hl
        · exact he
        · exact ih l hl

/-- Nothing comes after the end of the file. -/
theorem scan_dropLast (source : Source) : ∀ l ∈ (scan source).dropLast, l.token ≠ .eof :=
  lexemes_dropLast

/-- A text scans to lexemes in order, the last of which is the end of the file. -/
theorem scan_ordered (source : Source) :
    (∃ l, (scan source).getLast? = some l ∧ l.token = .eof) ∧ (scan source).Pairwise Ordered :=
  have hfuel : Fueled ((Cursor.start source).rest.length + 2) false (Cursor.start source) :=
    .inl (Nat.le_refl _)
  ⟨(lexemes_ordered hfuel).1, (lexemes_ordered hfuel).2.2⟩

end Lexer

end FlowCheck
