import FlowCheck.Command.Run
import FlowCheck.Proofs.Token.Layout

/-!
# Writing tokens and scanning them back

A token is written by its spelling: a word, a number, an operator or delimiter, or a string in
quotation marks. Spellings separated by single blanks scan to the tokens that were written, with
their literals and without a report, and to the semicolon that the end of the text stands for.
-/
namespace FlowCheck

open Lexer

/-- A token as it is written. -/
inductive Spelling where
  | word (text : String)
  | number (kind : LitKind) (text : String)
  | sign (token : Token)
  | string (value : String)

namespace Spelling

/-- The token that is written; a word is a keyword or a name. -/
def token : Spelling → Token
  | word text => .ofWord text
  | number kind _ => .literal kind
  | sign token => token
  | string _ => .literal .string

/-- The text that comes with the token. -/
def literal : Spelling → String
  | word text => text
  | number _ text => text
  | sign token => token.text
  | string value => value

def text : Spelling → String
  | word text => text
  | number _ text => text
  | sign token => token.text
  | string value => Session.tokenText value

/-- A number is well formed if it scans to its end, as a number of its kind and without a report. -/
def WellFormed : Spelling → Bool
  | word text => text.toList.head?.any isLetter && text.toList.all isWordChar
  | number kind text =>
    let (found, stop) := Lexer.number (Cursor.arrive (text.toList.map .scalar) Pos.none [])
    text.toList.head?.any isDigit && found = kind && stop.rest.isEmpty && stop.reports.isEmpty
  | sign token => isSign token
  | string _ => true

theorem isNumber {kind : LitKind} {text : String} (h : (number kind text).WellFormed = true) :
    IsNumber kind text.toList := by
  rw [WellFormed] at h
  generalize hc : Cursor.arrive (text.toList.map .scalar) Pos.none [] = c at h
  generalize hn : Lexer.number c = found at h
  obtain ⟨kind', stop⟩ := found
  simp only [Bool.and_eq_true, decide_eq_true_eq, List.isEmpty_iff] at h
  obtain ⟨⟨⟨hfirst, rfl⟩, hend⟩, hclean⟩ := h
  have hchars : c.chars = text.toList := by
    have hid : Symbol.char ∘ Symbol.scalar = id := rfl
    simp [← hc, Cursor.chars, hid]
  have hat : c.isAt isDigit = true := by
    rwa [Cursor.isAt, Cursor.peek, ← List.head?_map, ← Cursor.chars, hchars]
  obtain ⟨digits, hdigits, hgrammar⟩ := isNumber_of_number hat hn hclean
  rw [hchars, Cursor.chars, hend, List.map_nil, List.append_nil] at hdigits
  exact hdigits ▸ hgrammar

/-- A character in a string stands for itself or is written by a backslash and a letter. -/
theorem isContent_escapeChar (x : Char) : IsContent (Session.escapeChar x).toList [x] := by
  unfold Session.escapeChar
  split
  case h_7 => simpa using IsContent.plain ‹_› ‹_› ‹_› ‹_› .nil
  all_goals exact .simple rfl .nil

theorem tokenText_toList (value : String) :
    (Session.tokenText value).toList =
      '"' :: (value.toList.flatMap (fun x => (Session.escapeChar x).toList) ++ ['"']) := by
  simp [Session.tokenText, List.flatMap_map]

variable {s : Spelling} {tail : List Char}

/-- A spelling is read as a whole before a blank and at the end of the text. -/
theorem spells (hs : s.WellFormed = true) (ht : ∀ x ∈ tail.head?, x = ' ') :
    Spells tail s.text.toList (s.token, s.literal) := by
  have hblank {p : Char → Bool} (hp : p ' ' = false) : tail.head?.any p = false := by
    cases hx : tail.head? with
    | none => rfl
    | some x => simpa [ht x hx] using hp
  cases s with
  | word w =>
    obtain ⟨hfirst, hall⟩ := Bool.and_eq_true_iff.1 hs
    simpa [text, token, literal] using
      Spells.word hfirst (List.all_eq_true.1 hall) (hblank (by decide))
  | number kind w =>
    simpa [text, token, literal] using Spells.number (isNumber hs) (hblank (by decide))
  | sign t => exact .sign hs (hblank (joins_blank t))
  | string value =>
    have hcontent : IsContent (value.toList.flatMap fun x => (Session.escapeChar x).toList)
        value.toList := .flatMap fun x _ => isContent_escapeChar x
    rw [text, tokenText_toList]
    simpa [token, literal] using Spells.string hcontent

/-- Each spelling with the blank before it. -/
def spaced (ss : List Spelling) : List Char := ss.flatMap fun s => ' ' :: s.text.toList

theorem blank_of_spaced (ss : List Spelling) : ∀ x ∈ (spaced ss).head?, x = ' ' := by
  intro x hx
  cases ss with
  | nil => cases hx
  | cons s ss => simpa [spaced] using hx.symm

theorem laid_spaced {ss : List Spelling} (hss : ∀ s ∈ ss, s.WellFormed = true) :
    Laid (spaced ss) (ss.map fun s => (s.token, s.literal)) := by
  induction ss with
  | nil => exact .nil
  | cons s ss ih =>
    have hrest := ih fun s' hs' => hss s' (List.mem_cons_of_mem s hs')
    exact .blank (.cons (spells (hss s List.mem_cons_self) (blank_of_spaced ss)) hrest)

/-- The spellings separated by single blanks. -/
def written (ss : List Spelling) : String := " ".intercalate (ss.map text)

theorem written_cons (s : Spelling) (ss : List Spelling) :
    (written (s :: ss)).toList = s.text.toList ++ spaced ss := by
  rw [written, String.toList_intercalate]
  induction ss generalizing s with
  | nil => simp [spaced]
  | cons s' ss ih =>
    have htail := ih s'
    simp only [List.map_cons] at htail ⊢
    rw [List.intercalate_cons_cons, htail]
    simp [spaced]

theorem laid_written {ss : List Spelling} (hss : ∀ s ∈ ss, s.WellFormed = true) :
    Laid (written ss).toList (ss.map fun s => (s.token, s.literal)) := by
  cases ss with
  | nil => exact .nil
  | cons s ss =>
    rw [written_cons]
    have hrest := laid_spaced fun s' hs' => hss s' (List.mem_cons_of_mem s hs')
    exact .cons (spells (hss s List.mem_cons_self) (blank_of_spaced ss)) hrest

/-- Spellings separated by blanks scan to the tokens that they spell. -/
theorem scan_written (file : String) (ss : List Spelling) (hss : ∀ s ∈ ss, s.WellFormed = true) :
    (scan (.ofText file (written ss).toList)).map content =
      ss.map (fun s => (s.token, s.literal, [])) ++
        ((if ss.getLast?.any (·.token.endsStatement) then [(.semi, "EOF", [])] else []) ++
          [(.eof, "", [])]) := by
  rw [scan_laid file (laid_written hss), List.map_map, List.getLast?_map, Option.any_map]
  rfl

/-- A spelling of every kind; the string needs every escape. -/
def sample : List Spelling :=
  [.word "if", .word "x_1", .sign (.op .div), .sign (.op .mul), .sign (.op .shl),
    .number .float "1.5e+3", .number .int "0xfF", .sign .semi, .string "\x00\n\t\r\\\"é😀",
    .word "return"]

theorem scan_written_sample :
    (∀ s ∈ sample, s.WellFormed = true) ∧
      (scan (.ofText "a" (written sample).toList)).map content =
        sample.map (fun s => (s.token, s.literal, [])) ++ [(.semi, "EOF", []), (.eof, "", [])] := by
  have hsample : ∀ s ∈ sample, s.WellFormed = true := by decide +kernel
  exact ⟨hsample, scan_written "a" sample hsample⟩

end Spelling

end FlowCheck
