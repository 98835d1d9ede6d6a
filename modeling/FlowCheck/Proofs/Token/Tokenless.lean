import FlowCheck.Token.Lexer

/-!
# Text that holds no token

Between two tokens lie blanks, newlines, comments and characters that no token begins with.
`Tokenless` says so of a stretch of text by its symbols alone. Where the text after it begins with a
token, or has ended, there is one such stretch only.
-/
namespace FlowCheck

namespace Lexer

/-- A token begins with this character, or is this character. -/
def beginsToken (x : Char) : Bool := isLetter x || isDigit x || x = '"' || (single? x).isSome

/-- A comment stands at the front of the text. -/
def opensComment : List Symbol → Bool
  | s :: t :: _ => s.char = '/' && (t.char = '/' || t.char = '*')
  | _ => false

/-- The text of a block comment after its opening: the first `*/` in it is its end. -/
def ClosesComment (body : List Symbol) : Prop :=
  ∃ inner, body.map Symbol.char = inner ++ ['*', '/'] ∧ ¬['*', '/'] <:+: inner ++ ['*']

/-- Text that holds no token, where `rest` comes after it. A line comment goes up to a newline or
the end of the text, a block comment up to the first `*/` in it, and one that is not closed up to
the end of the text. -/
inductive Tokenless (rest : List Symbol) : List Symbol → Prop
  | nil : Tokenless rest []
  | char {s : Symbol} {gap : List Symbol} : beginsToken s.char = false → Tokenless rest gap →
      Tokenless rest (s :: gap)
  | line {s t : Symbol} {body gap : List Symbol} : s.char = '/' → t.char = '/' →
      (∀ x ∈ body, x.char ≠ '\n') → (∀ x ∈ (gap ++ rest).head?, x.char = '\n') →
      Tokenless rest gap → Tokenless rest (s :: t :: (body ++ gap))
  | block {s t : Symbol} {body gap : List Symbol} : s.char = '/' → t.char = '*' →
      ClosesComment body → Tokenless rest gap → Tokenless rest (s :: t :: (body ++ gap))
  | unclosed {s t : Symbol} {body : List Symbol} : s.char = '/' → t.char = '*' →
      ¬['*', '/'] <:+: body.map Symbol.char → rest = [] → Tokenless rest (s :: t :: body)

/-- A token stands at the front of the text, or the text has ended. -/
structure AtToken (rest : List Symbol) : Prop where
  begins : ∀ s ∈ rest.head?, beginsToken s.char = true
  comment : opensComment rest = false

variable {rest gap : List Symbol}

/-- One stretch without tokens after the other. -/
theorem Tokenless.append {more : List Symbol} (h : Tokenless (more ++ rest) gap)
    (h' : Tokenless rest more) : Tokenless rest (gap ++ more) := by
  induction h with
  | nil => exact h'
  | char hs _ ih => exact .char hs ih
  | line hs ht hbody hhead _ ih =>
    rw [List.cons_append, List.cons_append, List.append_assoc]
    refine .line hs ht hbody ?_ ih
    rwa [List.append_assoc]
  | block hs ht hbody _ ih =>
    rw [List.cons_append, List.cons_append, List.append_assoc]
    exact .block hs ht hbody ih
  | unclosed hs ht hbody hrest =>
    obtain ⟨rfl, rfl⟩ := List.append_eq_nil_iff.1 hrest
    rw [List.append_nil]
    exact .unclosed hs ht hbody rfl

/-! ### The end of a block comment -/

theorem not_infix_cons {x : Char} {text : List Char} (h : ¬['*', '/'] <:+: text)
    (hx : ∀ more, x = '*' → text = '/' :: more → False) : ¬['*', '/'] <:+: x :: text := by
  rw [List.infix_cons_iff]
  rintro (hfront | hlater)
  · obtain ⟨rfl, more, rfl⟩ := List.cons_prefix_cons.1 hfront
    exact hx more rfl rfl
  · exact h hlater

/-- The length that is found is the one up to the first `*/`. -/
theorem exists_of_commentLength? {chars : List Char} {n : Nat} (h : commentLength? chars = some n) :
    ∃ inner, chars.take n = inner ++ ['*', '/'] ∧ ¬['*', '/'] <:+: inner ++ ['*'] := by
  induction chars using commentLength?.induct generalizing n with
  | case1 => cases h
  | case2 rest =>
    cases h
    exact ⟨[], rfl, fun h => absurd h.length_le (by decide)⟩
  | case3 x rest hx ih =>
    rw [commentLength?.eq_3 _ _ hx] at h
    obtain ⟨m, hm, rfl⟩ := Option.map_eq_some_iff.1 h
    obtain ⟨inner, hinner, hfirst⟩ := ih hm
    refine ⟨x :: inner, by rw [List.take_succ_cons, hinner, List.cons_append], ?_⟩
    refine not_infix_cons hfirst fun more hstar hslash => ?_
    -- What comes after the asterisk is also what the text goes on with.
    cases inner with
    | nil => cases hslash
    | cons y inner =>
      obtain ⟨rfl, -⟩ := List.cons.inj hslash
      have hrest : rest = '/' :: (inner ++ '*' :: '/' :: rest.drop m) := by
        simpa [hinner] using (List.take_append_drop m rest).symm
      exact hx _ hstar hrest

theorem not_infix_of_commentLength? {chars : List Char} (h : commentLength? chars = none) :
    ¬['*', '/'] <:+: chars := by
  induction chars using commentLength?.induct with
  | case1 => simp
  | case2 rest => cases h
  | case3 x rest hx ih =>
    rw [commentLength?.eq_3 _ _ hx, Option.map_eq_none_iff] at h
    exact not_infix_cons (ih h) hx

theorem ClosesComment.holds_end {body : List Symbol} (h : ClosesComment body) :
    ['*', '/'] <:+: body.map Symbol.char := by
  obtain ⟨inner, hinner, -⟩ := h
  exact ⟨inner, [], by rw [hinner, List.append_nil]⟩

/-- Of two comments with the same opening none goes on after the end of the other. -/
theorem ClosesComment.le_length {body body' text : List Symbol} (h : ClosesComment body)
    (h' : ClosesComment body') (hb : body <+: text) (hb' : body' <+: text) :
    body.length ≤ body'.length := by
  obtain ⟨inner, hinner, hfirst⟩ := h
  refine Nat.le_of_not_lt fun hlt => ?_
  have hlength : body.length = inner.length + 2 := by
    simpa using congrArg List.length hinner
  refine hfirst (h'.holds_end.trans (List.IsPrefix.isInfix ?_))
  have hshort : body'.map Symbol.char <+: inner ++ ['*', '/'] :=
    hinner ▸ (List.prefix_of_prefix_length_le hb' hb (by omega)).map Symbol.char
  have hinit : inner ++ ['*'] <+: inner ++ ['*', '/'] := ⟨['/'], by simp⟩
  refine List.prefix_of_prefix_length_le hshort hinit ?_
  simp
  omega

/-! ### The end of a line comment -/

/-- A text goes on up to its first newline, or as a whole. -/
theorem exists_line (text : List Symbol) : ∃ body tail, text = body ++ tail ∧
    (∀ x ∈ body, x.char ≠ '\n') ∧ ∀ x ∈ tail.head?, x.char = '\n' := by
  induction text with
  | nil => exact ⟨[], [], rfl, by simp, by simp⟩
  | cons s text ih =>
    by_cases hs : s.char = '\n'
    · exact ⟨[], s :: text, rfl, by simp, by simpa using hs⟩
    · obtain ⟨body, tail, rfl, hbody, htail⟩ := ih
      exact ⟨s :: body, tail, rfl, List.forall_mem_cons.2 ⟨hs, hbody⟩, htail⟩

theorem takeWhile_of_line {body tail : List Symbol} (hbody : ∀ x ∈ body, x.char ≠ '\n')
    (htail : ∀ x ∈ tail.head?, x.char = '\n') :
    (body ++ tail).takeWhile (fun s => s.char ≠ '\n') = body := by
  have hstop : tail.takeWhile (fun s => s.char ≠ '\n') = [] := by
    cases tail with
    | nil => rfl
    | cons t tail => simp [htail t rfl]
  rw [List.takeWhile_append_of_pos (by simpa using hbody), hstop, List.append_nil]

/-! ### There is only one such stretch -/

/-- Text without tokens in front of a token or of the end does not begin with one. -/
theorem Tokenless.eq_nil (h : Tokenless rest gap) (hat : AtToken (gap ++ rest)) : gap = [] := by
  cases h with
  | nil => rfl
  | char hs _ => exact absurd (hat.begins _ rfl) (by simp [hs])
  | line hs ht _ _ _ => exact absurd hat.comment (by simp [opensComment, hs, ht])
  | block hs ht _ _ => exact absurd hat.comment (by simp [opensComment, hs, ht])
  | unclosed hs ht _ _ => exact absurd hat.comment (by simp [opensComment, hs, ht])

theorem beginsToken_slash : beginsToken '/' = true := by decide

/-- A text has one stretch without tokens in front of its first token, or of its end. -/
theorem Tokenless.unique {rest' gap' : List Symbol} (h : Tokenless rest gap)
    (h' : Tokenless rest' gap') (hat : AtToken rest) (hat' : AtToken rest')
    (he : gap ++ rest = gap' ++ rest') : gap = gap' := by
  have hslash {s : Symbol} (hs : beginsToken s.char = false) : s.char ≠ '/' := fun e => by
    rw [e, beginsToken_slash] at hs
    cases hs
  induction h generalizing gap' with
  | nil => exact (h'.eq_nil (he ▸ hat)).symm
  | @char s gap hs hgap ih =>
    cases h' with
    | nil => exact (Tokenless.char hs hgap).eq_nil (he ▸ hat')
    | char _ hgap' =>
      obtain ⟨rfl, hrest⟩ := List.cons.inj he
      rw [ih hgap' hrest]
    | line hs' | block hs' | unclosed hs' =>
      obtain ⟨rfl, -⟩ := List.cons.inj he
      exact absurd hs' (hslash hs)
  | @line s t body gap hs ht hbody hhead hgap ih =>
    cases h' with
    | nil => exact (Tokenless.line hs ht hbody hhead hgap).eq_nil (he ▸ hat')
    | char hs' =>
      obtain ⟨rfl, -⟩ := List.cons.inj he
      exact absurd hs (hslash hs')
    | @line _ _ body' gap' _ _ hbody' hhead' hgap' =>
      simp only [List.cons_append, List.append_assoc, List.cons.injEq] at he
      obtain ⟨rfl, rfl, he⟩ := he
      obtain rfl : body = body' := by
        rw [← takeWhile_of_line hbody hhead, he, takeWhile_of_line hbody' hhead']
      rw [ih hgap' (List.append_cancel_left he)]
    | block _ ht' | unclosed _ ht' =>
      simp only [List.cons_append, List.append_assoc, List.cons.injEq] at he
      rw [he.2.1, ht'] at ht
      cases ht
  | @block s t body gap hs ht hbody hgap ih =>
    cases h' with
    | nil => exact (Tokenless.block hs ht hbody hgap).eq_nil (he ▸ hat')
    | char hs' =>
      obtain ⟨rfl, -⟩ := List.cons.inj he
      exact absurd hs (hslash hs')
    | line _ ht' =>
      simp only [List.cons_append, List.append_assoc, List.cons.injEq] at he
      rw [he.2.1, ht'] at ht
      cases ht
    | @block _ _ body' gap' _ _ hbody' hgap' =>
      simp only [List.cons_append, List.append_assoc, List.cons.injEq] at he
      obtain ⟨rfl, rfl, he⟩ := he
      have hpre : body <+: body ++ (gap ++ rest) := List.prefix_append ..
      have hpre' : body' <+: body ++ (gap ++ rest) := he ▸ List.prefix_append ..
      have hlength := Nat.le_antisymm (hbody.le_length hbody' hpre hpre')
        (hbody'.le_length hbody hpre' hpre)
      obtain ⟨rfl, htail⟩ := List.append_inj he hlength
      rw [ih hgap' htail]
    | unclosed _ _ hopen hrest =>
      simp only [List.cons_append, List.append_assoc, List.cons.injEq, hrest, List.append_nil] at he
      refine absurd (hbody.holds_end.trans ?_) hopen
      exact ((he.2.2 ▸ List.prefix_append ..).isInfix).map Symbol.char
  | @unclosed s t body hs ht hopen hrest =>
    cases h' with
    | nil => exact (Tokenless.unclosed hs ht hopen hrest).eq_nil (he ▸ hat')
    | char hs' =>
      obtain ⟨rfl, -⟩ := List.cons.inj he
      exact absurd hs (hslash hs')
    | line _ ht' =>
      simp only [List.cons_append, List.append_assoc, List.cons.injEq] at he
      rw [he.2.1, ht'] at ht
      cases ht
    | block _ _ hbody' =>
      simp only [List.cons_append, List.append_assoc, List.cons.injEq, hrest, List.append_nil] at he
      refine absurd (hbody'.holds_end.trans ?_) hopen
      exact ((he.2.2 ▸ List.prefix_append ..).isInfix).map Symbol.char
    | unclosed _ _ _ hrest' =>
      simpa [hrest, hrest'] using he

end Lexer

end FlowCheck
