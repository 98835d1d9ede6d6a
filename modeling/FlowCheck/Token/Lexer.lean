import FlowCheck.Source.Cursor
import FlowCheck.Token.Basic

/-!
# Scanning

`scan` turns a source text into lexemes, the last of which is the end of file. Each lexeme carries
the faults that were reported while it was looked for. A semicolon is delivered at a newline, or at
the end of the text, that follows a token which may end a statement; a comment that spans lines
counts as a newline, and characters that start no token are reported and skipped.
-/
namespace FlowCheck

/-- A token with its text and place; the text of a string literal is its decoded content. -/
structure Lexeme where
  token : Token
  text : String
  pos : Pos
  reports : List LexReport := []
  deriving Repr, Inhabited

namespace Lexer

/-- Identifiers are made of ASCII letters, digits and underscores. -/
def isLetter (c : Char) : Bool :=
  ('a' ≤ c && c ≤ 'z') || ('A' ≤ c && c ≤ 'Z') || c = '_'

def isDigit (c : Char) : Bool := '0' ≤ c && c ≤ '9'

def isWordChar (c : Char) : Bool := isLetter c || isDigit c

/-- A newline is not blank: it may end a statement. -/
def isBlank (c : Char) : Bool := c = ' ' || c = '\t' || c = '\r'

/-- The value of a hexadecimal digit. -/
def digitValue? (c : Char) : Option Nat :=
  if isDigit c then some (c.toNat - '0'.toNat)
  else if 'a' ≤ c && c ≤ 'f' then some (c.toNat - 'a'.toNat + 10)
  else if 'A' ≤ c && c ≤ 'F' then some (c.toNat - 'A'.toNat + 10)
  else none

def isDigitOf (radix : Radix) (c : Char) : Bool :=
  (digitValue? c).any (· < radix.base)

/-- The base that a letter after a leading zero announces. -/
def radixOf? : Char → Option Radix
  | 'x' | 'X' => some .hex
  | 'o' | 'O' => some .octal
  | 'b' | 'B' => some .binary
  | _ => none

/-! ### Numbers -/

/-- The base announced at the cursor by a zero and a letter. -/
def announcedRadix? (c : Cursor) : Option Radix :=
  if c.peek = some '0' then c.peekNext.bind radixOf? else none

/-- Digits of an announced base; a missing first digit and a decimal digit after them are faults. -/
def radixDigits (radix : Radix) (c : Cursor) : Cursor :=
  let c := if c.isAt (isDigitOf radix) then c else c.report (.badDigit radix)
  let c := c.skipWhile (isDigitOf radix)
  if c.isAt isDigit then c.report (.badDigit radix) else c

/-- An optional fraction: a point and any number of digits. -/
def fraction (c : Cursor) : LitKind × Cursor :=
  if c.peek = some '.' then (.float, c.advance.skipWhile isDigit) else (.int, c)

/-- An optional exponent, which needs a digit. -/
def exponent (kind : LitKind) (c : Cursor) : LitKind × Cursor :=
  if c.isAt (fun ch => ch = 'e' || ch = 'E') then
    let c := c.advance
    let c := if c.isAt (fun ch => ch = '+' || ch = '-') then c.advance else c
    let c := if c.isAt isDigit then c else c.report .emptyExponent
    (.float, c.skipWhile isDigit)
  else (kind, c)

/-- A number at the cursor, which stands on a digit. -/
def number (c : Cursor) : LitKind × Cursor :=
  match announcedRadix? c with
  | some radix => (.int, radixDigits radix c.advance.advance)
  | none =>
    let (kind, c) := fraction (c.skipWhile isDigit)
    exponent kind c

/-! ### Strings -/

/-- The character that a letter after a backslash stands for. -/
def simpleEscape? : Char → Option Char
  | 'n' => some '\n'
  | 't' => some '\t'
  | 'r' => some '\r'
  | '\\' => some '\\'
  | '"' => some '"'
  | '0' => some '\x00'
  | _ => none

/-- Up to two hexadecimal digits; fewer are a fault at the first character that is none. -/
def hexEscape (c : Cursor) : Option Char × Cursor :=
  match c.peek.bind digitValue? with
  | none => (none, c.report .badHexEscape)
  | some high =>
    let c := c.advance
    match c.peek.bind digitValue? with
    | none => (none, c.report .badHexEscape)
    | some low => (some (Char.ofNat (high * 16 + low)), c.advance)

/-- An escape at the cursor, which stands on the backslash. -/
def escape (c : Cursor) : Option Char × Cursor :=
  let c := c.advance
  match c.peek.bind simpleEscape? with
  | some ch => (some ch, c.advance)
  | none =>
    if c.peek = some 'x' then hexEscape c.advance
    else (none, (c.report (.unknownEscape c.peek)).advance)

theorem hexEscape_length_le (c : Cursor) : (hexEscape c).2.rest.length ≤ c.rest.length := by
  unfold hexEscape
  split
  · simp
  · dsimp only
    split <;> simp [Nat.sub_sub]

theorem escape_length_le (c : Cursor) : (escape c).2.rest.length ≤ c.rest.length - 1 := by
  unfold escape
  dsimp only
  split
  · simp
  · split
    · have := hexEscape_length_le c.advance.advance
      simp at this
      omega
    · simp

/-- The decoded content up to the closing quotation mark. A string that a newline or the end of the
text cuts off is a fault; the newline stays for the next token. -/
def stringContent (c : Cursor) : List Char × Cursor :=
  match _h : c.rest with
  | [] => ([], c.report .openString)
  | s :: _ =>
    if s.char = '"' then ([], c.advance)
    else if s.char = '\n' then ([], c.report .openString)
    else if s.char = '\\' then
      let escaped := escape c
      let content := stringContent escaped.2
      (escaped.1.toList ++ content.1, content.2)
    else
      let content := stringContent c.advance
      (s.char :: content.1, content.2)
termination_by c.rest.length
decreasing_by
  · have := escape_length_le c
    simp [_h] at this ⊢
    omega
  · simp [_h]

/-! ### Operators -/

/-- The token that a character is by itself. -/
def single? : Char → Option Token
  | '+' => some (.op .add)
  | '-' => some (.op .sub)
  | '*' => some (.op .mul)
  | '/' => some (.op .div)
  | '%' => some (.op .rem)
  | '^' => some (.op .bitXor)
  | '&' => some (.op .bitAnd)
  | '|' => some (.op .bitOr)
  | '<' => some (.op .lt)
  | '>' => some (.op .gt)
  | '=' => some .assign
  | '!' => some .not
  | ':' => some .colon
  | '(' => some .lparen
  | ')' => some .rparen
  | '[' => some .lbrack
  | ']' => some .rbrack
  | '\x7b' => some .lbrace
  | '\x7d' => some .rbrace
  | ',' => some .comma
  | ';' => some .semi
  | '.' => some .dot
  | _ => none

/-- The token that two characters form together. -/
def pair? : Char → Char → Option Token
  | '&', '&' => some (.op .andThen)
  | '|', '|' => some (.op .orElse)
  | '<', '=' => some (.op .le)
  | '<', '<' => some (.op .shl)
  | '>', '=' => some (.op .ge)
  | '>', '>' => some (.op .shr)
  | '=', '=' => some (.op .eq)
  | '!', '=' => some (.op .ne)
  | ':', '=' => some .define
  | _, _ => none

/-- The longest operator at the cursor and what follows it. -/
def operator? (c : Cursor) : Option (Token × Cursor) :=
  match c.peek with
  | none => none
  | some first =>
    match c.peekNext.bind (pair? first) with
    | some token => some (token, c.advance.advance)
    | none => (single? first).map fun token => (token, c.advance)

/-! ### Tokens and what stands between them -/

/-- The token at the cursor, if one starts there. -/
def token? (c : Cursor) : Option (Token × String × Cursor) :=
  match c.peek with
  | none => none
  | some ch =>
    if isLetter ch then
      let stop := c.skipWhile isWordChar
      let word := c.textTo stop
      some (.ofWord word, word, stop)
    else if isDigit ch then
      let (kind, stop) := number c
      some (.literal kind, c.textTo stop, stop)
    else if ch = '"' then
      let (chars, stop) := stringContent c.advance
      some (.literal .string, String.ofList chars, stop)
    else (operator? c).map fun (token, stop) => (token, token.text, stop)

/-- The number of characters up to the end of a block comment, given what follows its opening. -/
def commentLength? : List Char → Option Nat
  | [] => none
  | '*' :: '/' :: _ => some 2
  | _ :: rest => (commentLength? rest).map (· + 1)

/-- Skips the body of a block comment, and says whether it held a newline. An unclosed comment
reaches to the end of the text. -/
def blockComment (c : Cursor) : Bool × Cursor :=
  let chars := c.rest.map Symbol.char
  let length := (commentLength? chars).getD chars.length
  let stop := c.skip length
  ((chars.take length).contains '\n',
    if (commentLength? chars).isSome then stop else stop.report .openComment)

theorem blockComment_length_le (c : Cursor) : (blockComment c).2.rest.length ≤ c.rest.length := by
  unfold blockComment
  dsimp only
  split
  · exact Cursor.skip_length_le _ _
  · rw [Cursor.report_rest]
    exact Cursor.skip_length_le _ _

/-- What is delivered next: a semicolon standing for a newline or for the end of the text, a token,
or the end of the text. -/
def next (ends : Bool) (c : Cursor) : Token × String × Pos × Cursor :=
  match _h : c.rest with
  | [] => if ends then (.semi, "EOF", c.pos, c) else (.eof, "", c.pos, c)
  | s :: _ =>
    if isBlank s.char then next ends c.advance
    else if s.char = '\n' then
      if ends then (.semi, "newline", c.pos, c.advance) else next ends c.advance
    else if s.char = '/' && c.peekNext = some '/' then
      next ends (c.advance.skipWhile (· ≠ '\n'))
    else if s.char = '/' && c.peekNext = some '*' then
      let comment := blockComment c.advance.advance
      if comment.1 && ends then (.semi, "newline", comment.2.pos, comment.2)
      else next ends comment.2
    else match token? c with
      | some (token, text, stop) => (token, text, c.pos, stop)
      | none => next ends (c.report (.unexpected s.char)).advance
termination_by c.rest.length
decreasing_by
  all_goals
    have nonempty : 0 < c.rest.length := by
      rw [_h]
      exact Nat.succ_pos _
    have shorter := c.advance_length
  · omega
  · omega
  · have := Cursor.skip_length_le (c.advance.runLength (· ≠ '\n')) c.advance
    rw [Cursor.skipWhile]
    omega
  · have := blockComment_length_le c.advance.advance
    have := c.advance.advance_length
    omega
  · have := (c.report (.unexpected s.char)).advance_length
    rw [Cursor.report_rest] at this
    omega

/-- The lexemes from a cursor on, `fuel` bounding their number. -/
def lexemes : (fuel : Nat) → (ends : Bool) → Cursor → List Lexeme
  | 0, _, _ => []
  | fuel + 1, ends, c =>
    let (token, text, pos, stop) := next ends c
    let lexeme : Lexeme := ⟨token, text, pos, stop.reports.reverse⟩
    if token = .eof then [lexeme]
    else lexeme :: lexemes fuel token.endsStatement { stop with reports := [] }

/-- Every token consumes a symbol, but for the end of file and one semicolon before it. -/
def scan (source : Source) : List Lexeme :=
  let c := Cursor.start source
  lexemes (c.rest.length + 2) false c

end Lexer

end FlowCheck
