import FlowCheck.Proofs.Source.Decoding
import FlowCheck.Proofs.Token.Semicolon

/-!
# Where tokens stand in the source

The place of a token is counted along the symbols of a text, and so along its bytes: every token that
is taken from the text takes up a stretch of bytes of its own, and its position is the line and the
column that the bytes before it come to. Words and numbers are the very bytes of their stretch.
-/
namespace FlowCheck

/-- Where the character after a text stands: newlines are counted for its line, the characters after
the last of them for its column. -/
def Pos.after (file : String) (text : List Symbol) : Pos where
  file := file
  line := 1 + text.countP (·.char = '\n')
  col := 1 + (text.reverse.takeWhile (·.char ≠ '\n')).length

theorem Pos.after_concat (file : String) (text : List Symbol) (s : Symbol) :
    Pos.after file (text ++ [s]) =
      if s.char = '\n' then (Pos.after file text).nextLine else (Pos.after file text).nextCol := by
  by_cases hs : s.char = '\n'
  · simp [Pos.after, Pos.nextLine, hs, Nat.add_assoc]
  · simp [Pos.after, Pos.nextCol, hs, Nat.add_assoc]

/-- The text of a token of this kind is what the source says, letter by letter. -/
def Token.isVerbatim : Token → Bool
  | name | keyword _ | literal .int | literal .float => true
  | _ => false

namespace Cursor

variable {c d e : Cursor} {p q : Char → Bool}

theorem skip_succ (n : Nat) (c : Cursor) : c.skip (n + 1) = (c.skip n).advance := by
  rw [skip_add]
  rfl

/-- A text that can be read is read from its first line and column on. -/
theorem start_of_rest {source : Source} (h : (start source).rest ≠ []) :
    (start source).rest = Symbol.decode (Symbol.dropMark source.bytes) ∧
      (start source).pos = ⟨source.file, 1, 1⟩ := by
  unfold start at h ⊢
  split
  · rename_i why hf
    simp [hf] at h
  · exact ⟨arrive_rest .., arrive_pos ..⟩

theorem pos_skip_start {source : Source} {n : Nat} (h : n < (start source).rest.length) :
    ((start source).skip n).pos =
      Pos.after source.file ((Symbol.decode (Symbol.dropMark source.bytes)).take n) := by
  obtain ⟨hrest, hpos⟩ := start_of_rest (List.ne_nil_of_length_pos (Nat.zero_lt_of_lt h))
  induction n with
  | zero => exact hpos
  | succ n ih =>
    have hn : n < (start source).rest.length := Nat.lt_of_succ_lt h
    have hpeek : ((start source).skip n).peek = some ((start source).rest[n].char) := by
      rw [peek, skip_rest, List.head?_drop, List.getElem?_eq_getElem hn, Option.map_some]
    rw [skip_succ, Cursor.advance, arrive_pos, hpeek, ih hn, ← hrest,
      List.take_succ_eq_append_getElem hn, Pos.after_concat]
    simp

/-! ### Symbols that are read -/

/-- All symbols that are read on the way from `c` to `d` belong to a class. -/
def Through (p : Char → Bool) (c d : Cursor) : Prop :=
  ∃ n, After n c d ∧ ∀ s ∈ c.rest.take n, p s.char = true

theorem Through.refl (p : Char → Bool) (c : Cursor) : Through p c c :=
  ⟨0, after_skip 0 c, by simp⟩

theorem Through.trans (h : Through p c d) (h' : Through p d e) : Through p c e := by
  obtain ⟨n, hn, hall⟩ := h
  obtain ⟨m, hm, hall'⟩ := h'
  refine ⟨n + m, hn.trans hm, fun s hs => ?_⟩
  rw [List.take_add, List.mem_append, ← hn.rest] at hs
  exact hs.elim (hall s) (hall' s)

theorem Through.ite {r : Prop} [Decidable r] (h : r → Through p c d) (h' : ¬r → Through p c e) :
    Through p c (if r then d else e) := by
  split
  · exact h ‹_›
  · exact h' ‹_›

theorem through_report (p : Char → Bool) (c : Cursor) (fault : LexFault) :
    Through p c (c.report fault) :=
  ⟨0, after_report c fault, by simp⟩

theorem through_advance (h : ∀ x ∈ c.peek, p x = true) : Through p c c.advance := by
  refine ⟨1, after_skip 1 c, fun s hs => ?_⟩
  rw [List.take_one, Option.mem_toList] at hs
  exact h _ (Option.mem_map_of_mem Symbol.char hs)

theorem through_skipWhile (h : ∀ x, q x = true → p x = true) (c : Cursor) :
    Through p c (c.skipWhile q) := by
  refine ⟨c.runLength q, after_skip _ c, fun s hs => h _ ?_⟩
  have hrun : c.rest.takeWhile (fun s => q s.char) <+: c.rest := List.takeWhile_prefix _
  rw [runLength, ← List.prefix_iff_eq_take.1 hrun] at hs
  exact List.all_eq_true.1 List.all_takeWhile s hs

/-- However the scanner gets on, it is where some number of symbols have been read. -/
theorem Moves.after (h : Moves c d) : ∃ n, After n c d := by
  induction h with
  | stay c => exact ⟨0, after_skip 0 c⟩
  | @read c d _ ih =>
    obtain ⟨n, hn⟩ := ih
    exact ⟨1 + n, (after_skip 1 c).trans hn⟩
  | @note c d fault _ _ ih =>
    obtain ⟨n, hn⟩ := ih
    exact ⟨0 + n, (after_report c fault).trans hn⟩

/-- The text between two places is made of the characters that are read. -/
theorem textTo_of_after {n : Nat} (h : After n c d) :
    c.textTo d = String.ofList ((c.rest.take n).map Symbol.char) := by
  rw [textTo, h.rest, List.length_drop]
  congr 2
  rcases Nat.le_total n c.rest.length with hn | hn
  · rw [Nat.sub_sub_self hn]
  · rw [Nat.sub_eq_zero_of_le hn, Nat.sub_zero, List.take_length, List.take_of_length_le hn]

end Cursor

namespace Lexer

open Cursor

/-- The characters that numbers are made of. -/
def isNumeral (x : Char) : Bool := isWordChar x || x = '.' || x = '+' || x = '-'

theorem isNumeral_of_isWordChar {x : Char} (h : isWordChar x = true) : isNumeral x = true := by
  simp [isNumeral, h]

theorem isNumeral_of_isDigit {x : Char} (h : isDigit x = true) : isNumeral x = true :=
  isNumeral_of_isWordChar (by simp [isWordChar, h])

theorem through_radixDigits (radix : Radix) (c : Cursor) :
    Through isNumeral c (radixDigits radix c) := by
  unfold radixDigits
  have hfirst : Through isNumeral c
      (if c.isAt (isDigitOf radix) then c else c.report (.badDigit radix)) :=
    .ite (fun _ => .refl _ c) fun _ => through_report _ c _
  have hdigits := hfirst.trans (through_skipWhile (q := isDigitOf radix)
    (fun x hx => isNumeral_of_isWordChar (isWordChar_of_isDigitOf hx)) _)
  exact .ite (fun _ => hdigits.trans (through_report _ _ _)) fun _ => hdigits

theorem through_fraction (c : Cursor) : Through isNumeral c (fraction c).2 := by
  unfold fraction
  split
  · rename_i hpoint
    refine (through_advance ?_).trans (through_skipWhile (fun _ => isNumeral_of_isDigit) _)
    simp [hpoint, isNumeral]
  · exact .refl _ c

theorem through_exponent (kind : LitKind) (c : Cursor) :
    Through isNumeral c (exponent kind c).2 := by
  unfold exponent
  split
  · rename_i hmark
    have hletter : Through isNumeral c c.advance := by
      refine through_advance fun x hx => ?_
      rw [isAt, Option.mem_def.1 hx, Option.any_some, Bool.or_eq_true] at hmark
      rcases hmark with h | h <;> rw [of_decide_eq_true h] <;> decide
    have hsign : Through isNumeral c.advance
        (if c.advance.isAt (fun ch => ch = '+' || ch = '-') then c.advance.advance
          else c.advance) := by
      refine .ite (fun hsign => through_advance fun x hx => ?_) fun _ => .refl _ _
      rw [isAt, Option.mem_def.1 hx, Option.any_some, Bool.or_eq_true] at hsign
      rcases hsign with h | h <;> rw [of_decide_eq_true h] <;> decide
    refine ((hletter.trans hsign).trans ?_).trans
      (through_skipWhile (fun _ => isNumeral_of_isDigit) _)
    exact .ite (fun _ => .refl _ _) fun _ => through_report _ _ _
  · exact .refl _ c

theorem through_number (c : Cursor) : Through isNumeral c (number c).2 := by
  unfold number
  split
  · rename_i radix hradix
    rw [announcedRadix?, Option.ite_none_right_eq_some] at hradix
    obtain ⟨hzero, hnext⟩ := hradix
    obtain ⟨x, hx, hr⟩ := Option.bind_eq_some_iff.1 hnext
    have hfirst : Through isNumeral c c.advance :=
      through_advance (by simp [hzero, isNumeral]; decide)
    have hsecond : Through isNumeral c.advance c.advance.advance := by
      refine through_advance fun y hy => isNumeral_of_isWordChar ?_
      rw [peek_advance, hx] at hy
      rw [← Option.mem_some_iff.1 hy]
      exact isWordChar_of_radixOf? (Option.isSome_of_mem hr)
    exact (hfirst.trans hsecond).trans (through_radixDigits radix _)
  · exact ((through_skipWhile (fun _ => isNumeral_of_isDigit) c).trans (through_fraction _)).trans
      (through_exponent _ _)

/-! ### Tokens -/

/-- A token reaches over some symbols, and is made of them if it is a word or a number. -/
theorem reach_of_token? {c stop : Cursor} {t : Token} {text : String}
    (h : token? c = some (t, text, stop)) : ∃ n, 0 < n ∧ After n c stop ∧
      (t.isVerbatim = true → text = String.ofList ((c.rest.take n).map Symbol.char) ∧
        ∀ s ∈ c.rest.take n, isNumeral s.char = true) := by
  have hbeyond := (beyond_token? h).length_lt
  have key : ∀ {d : Cursor}, Through isNumeral c d → ∃ n, After n c d ∧
      c.textTo d = String.ofList ((c.rest.take n).map Symbol.char) ∧
        ∀ s ∈ c.rest.take n, isNumeral s.char = true := by
    rintro d ⟨n, hn, hall⟩
    exact ⟨n, hn, textTo_of_after hn, hall⟩
  have hreach : ∃ n, After n c stop ∧
      (t.isVerbatim = true → text = String.ofList ((c.rest.take n).map Symbol.char) ∧
        ∀ s ∈ c.rest.take n, isNumeral s.char = true) := by
    unfold token? at h
    split at h
    · cases h
    · rename_i x hx
      split at h
      · cases h
        obtain ⟨n, hn, htext⟩ := key (through_skipWhile (fun _ => isNumeral_of_isWordChar) c)
        exact ⟨n, hn, fun _ => htext⟩
      · split at h
        · cases h
          obtain ⟨n, hn, htext⟩ := key (through_number c)
          exact ⟨n, hn, fun _ => htext⟩
        · split at h
          · cases h
            obtain ⟨n, hn⟩ := (Moves.read (moves_stringContent c.advance)).after
            exact ⟨n, hn, fun hv => by cases hv⟩
          · obtain ⟨⟨t', stop'⟩, ho, he⟩ := Option.map_eq_some_iff.1 h
            cases he
            obtain ⟨n, hn⟩ := (moves_operator? ho).after
            have hsign := isSign_of_operator? ho
            have hv : t.isVerbatim = false := by cases t <;> first | rfl | cases hsign
            exact ⟨n, hn, fun hverbatim => absurd (hverbatim.symm.trans hv) Bool.noConfusion⟩
  obtain ⟨n, hn, hv⟩ := hreach
  refine ⟨n, Nat.pos_of_ne_zero ?_, hn, hv⟩
  rintro rfl
  rw [hn.rest, List.drop_zero] at hbeyond
  exact Nat.lt_irrefl _ hbeyond

/-! ### Whole texts -/

/-- Where the lexemes of a text stand among its bytes, from the byte `before` on, where the token
before them ends. A token that is taken from the text reaches from the byte `start` up to the byte
`stop`: the scan finds it at the one and goes on at the other. -/
inductive Located (file : String) (bytes : List UInt8) : Nat → List Lexeme → Prop
  | done (before : Nat) : Located file bytes before []
  | inserted {before : Nat} {l : Lexeme} {ls : List Lexeme}
      (kind : l.token = .eof ∨ l.token = .semi ∧ l.text ≠ ";") (rest : Located file bytes before ls) :
      Located file bytes before (l :: ls)
  | token {before start stop : Nat} {l : Lexeme} {ls : List Lexeme} {c d : Cursor}
      (kind : l.token ≠ .eof ∧ (l.token = .semi → l.text = ";"))
      (apart : before ≤ start) (nonempty : start < stop) (within : stop ≤ bytes.length)
      (found : token? c = some (l.token, l.text, d))
      (here : c.rest = Symbol.decode (bytes.drop start))
      (there : d.rest = Symbol.decode (bytes.drop stop))
      (pos : l.pos = Pos.after file (Symbol.decode (bytes.take start)))
      (verbatim : l.token.isVerbatim = true →
        Symbol.encode l.text.toList = bytes.extract start stop)
      (rest : Located file bytes stop ls) : Located file bytes before (l :: ls)

theorem Located.append_inserted {file : String} {bytes : List UInt8} {before : Nat}
    {u ls : List Lexeme} (h : Located file bytes before ls)
    (hu : ∀ l ∈ u, l.token = .eof ∨ l.token = .semi ∧ l.text ≠ ";") :
    Located file bytes before (u ++ ls) := by
  induction u with
  | nil => exact h
  | cons l u ih =>
    exact .inserted (hu l List.mem_cons_self) (ih fun m hm => hu m (List.mem_cons_of_mem l hm))

/-- Semicolons that are due are not written. -/
theorem inserted_of_due {last : Option Token} {gap : List Symbol} {isEnd : Bool} {u : List Lexeme}
    (h : u.map (fun l => (l.token, l.text)) = due last gap isEnd) :
    ∀ l ∈ u, l.token = .eof ∨ l.token = .semi ∧ l.text ≠ ";" := by
  intro l hl
  have hmem : (l.token, l.text) ∈ due last gap isEnd := h ▸ List.mem_map_of_mem hl
  refine .inr ?_
  unfold due at hmem
  split at hmem
  · split at hmem
    · obtain ⟨ht, hx⟩ := Prod.mk.inj (List.mem_singleton.1 hmem)
      exact ⟨ht, by rw [hx]; decide⟩
    · split at hmem
      · obtain ⟨ht, hx⟩ := Prod.mk.inj (List.mem_singleton.1 hmem)
        exact ⟨ht, by rw [hx]; decide⟩
      · cases hmem
  · cases hmem

theorem isNumeral_substitute : isNumeral '\uFFFD' = false := by decide

/-- Words and numbers are made of the characters that words and numbers are made of. -/
theorem Punctuated.numerals {last : Option Token} {c : Cursor} {ls : List Lexeme}
    (h : Punctuated last c ls) :
    ∀ l ∈ ls, l.token.isVerbatim = true →
      l.text.toList ≠ [] ∧ ∀ x ∈ l.text.toList, isNumeral x = true := by
  have hinserted {l : Lexeme} (hl : l.token = .eof ∨ l.token = .semi ∧ l.text ≠ ";") :
      l.token.isVerbatim = false := by
    rcases hl with hl | ⟨hl, -⟩ <;> rw [hl] <;> rfl
  induction h with
  | @done last c u l hgap hu he htext =>
    intro m hm hv
    rcases List.mem_append.1 hm with hm | hm
    · rw [hinserted (inserted_of_due hu m hm)] at hv
      cases hv
    · rw [List.mem_singleton.1 hm, hinserted (.inl he)] at hv
      cases hv
  | @token last c stop u ls l gap reports hgap hat hu ht hpos hw hrest ih =>
    intro m hm hv
    rcases List.mem_append.1 hm with hm | hm
    · rw [hinserted (inserted_of_due hu m hm)] at hv
      cases hv
    · rcases List.mem_cons.1 hm with rfl | hm
      · obtain ⟨n, hn, hafter, hverbatim⟩ := reach_of_token? ht
        obtain ⟨htext, hall⟩ := hverbatim hv
        have hlength := (beyond_token? ht).length_lt
        rw [htext, String.toList_ofList]
        refine ⟨fun e => ?_, List.forall_mem_map.2 hall⟩
        rw [List.map_eq_nil_iff, List.take_eq_nil_iff] at e
        rcases e with rfl | e
        · exact Nat.lt_irrefl 0 hn
        · rw [e] at hlength
          exact Nat.not_lt_zero _ hlength
      · exact ih m hm hv

/-- From every place on the way through a text its lexemes can be located. -/
theorem Punctuated.located {source : Source} {bytes : List UInt8}
    (hbytes : bytes = Symbol.dropMark source.bytes) {last : Option Token} {c : Cursor}
    {ls : List Lexeme} {k : Nat} (h : Punctuated last c ls) (hk : After k (Cursor.start source) c) :
    Located source.file bytes (Symbol.offset bytes k) ls := by
  induction h generalizing k with
  | @done last c u l hgap hu he htext =>
    exact (Located.inserted (.inl he) (.done _)).append_inserted (inserted_of_due hu)
  | @token last c stop u ls l gap reports hgap hat hu ht hpos hw hrest ih =>
    obtain ⟨n, hn, hafter, hverbatim⟩ := reach_of_token? ht
    have hplace : After (k + gap) (Cursor.start source) { c.skip gap with reports } :=
      hk.trans ⟨skip_rest gap c, rfl⟩
    have hlt : k + gap < (Cursor.start source).rest.length := by
      have hshort := (beyond_token? ht).length_lt
      rw [hplace.rest, List.length_drop] at hshort
      omega
    obtain ⟨hstart, -⟩ := start_of_rest (List.ne_nil_of_length_pos (Nat.zero_lt_of_lt hlt))
    rw [← hbytes] at hstart
    have hend := hplace.trans hafter
    have hapart := Symbol.offset_add bytes k gap
    have hnonempty := Symbol.offset_lt_offset (hstart ▸ hlt) hn
    have hhere := Symbol.decode_drop_offset bytes (k + gap)
    have hthere := Symbol.decode_drop_offset bytes (k + gap + n)
    rw [← hstart] at hhere hthere
    have hposition : l.pos =
        Pos.after source.file (Symbol.decode (bytes.take (Symbol.offset bytes (k + gap)))) := by
      rw [hpos, Symbol.decode_take_offset, hbytes, ← pos_skip_start hlt]
      exact hplace.pos
    have hslice (hv : l.token.isVerbatim = true) : Symbol.encode l.text.toList =
        bytes.extract (Symbol.offset bytes (k + gap)) (Symbol.offset bytes (k + gap + n)) := by
      obtain ⟨htext, hall⟩ := hverbatim hv
      rw [htext, Symbol.extract_offset, ← hstart, ← hplace.rest, String.toList_ofList]
      -- An ill-formed byte stands for a character that no word and no number has.
      refine Symbol.encode_map_char fun s hs hsub => ?_
      have hnumeral := hall s hs
      rw [hsub, isNumeral_substitute] at hnumeral
      cases hnumeral
    exact (Located.token (token?_spec ht) (hapart ▸ Nat.le_add_right ..) hnonempty
      (Symbol.offset_le_length ..) ht (hplace.rest.trans hhere.symm) (hend.rest.trans hthere.symm)
      hposition hslice (ih ⟨hend.rest, hend.pos⟩)).append_inserted (inserted_of_due hu)

/-- Every token that is taken from a text has a stretch of its bytes, beyond those of the tokens
before it. Its position is the line and column that the text before it comes to, and a word or a
number is the stretch itself. -/
theorem scan_located (source : Source) :
    Located source.file (Symbol.dropMark source.bytes) 0 (scan source) :=
  have hall : Punctuated none (Cursor.start source) (scan source) :=
    lexemes_punctuated (.inl (Nat.le_refl _)) rfl
  hall.located rfl (after_skip 0 (Cursor.start source))

end Lexer

end FlowCheck
