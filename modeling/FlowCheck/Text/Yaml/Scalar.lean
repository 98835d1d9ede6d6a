import FlowCheck.Text.Quoted
import FlowCheck.Text.Yaml.Character
import FlowCheck.Text.Yaml.Implicit

/-!
# Writing texts in YAML

A text is written bare if that reads back as the same text, in single quotation marks if only its
punctuation stands in the way, in double ones if it holds characters that need escapes or would be
read as another type, and line by line if it has several lines. Texts between single spaces are
folded once a line has grown beyond its width.
-/
namespace FlowCheck.Yaml

/-- A line is folded at the first space after this many characters. -/
def lineWidth : Nat := 80

/-- Characters that may stand outside double quotation marks. -/
def isShown (c : Char) : Bool :=
  let n := c.toNat
  n = 0x0A || (0x20 ≤ n && n ≤ 0x7E) || (0xA0 ≤ n && n ≤ 0xFFFD && n ≠ 0xFEFF)

/-- Characters that start something else than a bare text. -/
def isIndicator (c : Char) : Bool :=
  "#,[]\x7b\x7d&*!|>'\"%@`".toList.contains c

/-- The text ends or a blank follows. -/
def blankFollows (rest : List Char) : Bool := rest.head?.all isBlank

/-- A colon before a blank or the end, or a number sign after a blank, in the rest of a text. -/
def hasSeparator : (prev : Char) → List Char → Bool
  | _, [] => false
  | prev, c :: rest =>
    (c = ':' && blankFollows rest)
      || (c = '#' && (isBlank prev || isBreak prev || prev = '\x00'))
      || hasSeparator c rest

/-- Punctuation that keeps a text from standing bare. -/
def hasIndicators (cs : List Char) : Bool :=
  match cs with
  | [] => false
  | c :: rest =>
    cs.take 3 = ['-', '-', '-'] || cs.take 3 = ['.', '.', '.'] || isIndicator c
      || ((c = '?' || c = ':' || c = '-') && blankFollows rest) || hasSeparator c rest

/-- `p` holds of some character and `q` of the next. -/
def hasPair (p q : Char → Bool) (cs : List Char) : Bool :=
  (cs.zip cs.tail).any fun (a, b) => p a && q b

inductive Style where
  | bare
  | single
  | double
  | literal
  deriving DecidableEq, Repr

/-- A space at either end, or a line break at either end. -/
def hasOuterBlank (cs : List Char) : Bool :=
  let edge (c : Option Char) := c.any fun c => c = ' ' || isBreak c
  edge cs.head? || edge cs.getLast?

def style (s : String) : Style :=
  let cs := s.toList
  let special := !cs.all isShown || hasPair (· = ' ') isBreak cs
  if cs.contains '\n' then
    if special || cs.getLast? = some ' ' then .double else .literal
  else if isImplicit s || special || hasPair isBreak (· = ' ') cs then .double
  else if hasOuterBlank cs || cs.any isBreak || hasIndicators cs then .single
  else .bare

/-- A new line with its indentation. -/
def newLine (indent : Nat) : List Char := '\n' :: List.replicate indent ' '

/-- Spaces at which a line may be folded: those between two other characters. -/
def folds (col : Nat) (afterSpace : Bool) (rest : List Char) : Bool :=
  !afterSpace && lineWidth < col && rest.head?.all (· ≠ ' ')

def writeBare (indent : Nat) : (col : Nat) → (afterSpace : Bool) → List Char → List Char
  | _, _, [] => []
  | col, afterSpace, c :: rest =>
    if c = ' ' then
      if folds col afterSpace rest then newLine indent ++ writeBare indent indent true rest
      else ' ' :: writeBare indent (col + 1) true rest
    else c :: writeBare indent (col + 1) false rest

/-- The body of a text in single quotation marks, which are doubled inside; `fresh` holds after a
line break that stands for itself. -/
def writeSingle (indent : Nat) : (col : Nat) → (isFirst afterSpace fresh : Bool) → List Char → List Char
  | _, _, _, _, [] => []
  | col, isFirst, afterSpace, fresh, c :: rest =>
    if c = ' ' then
      if folds col afterSpace rest && !isFirst && !rest.isEmpty then
        newLine indent ++ writeSingle indent indent false true false rest
      else ' ' :: writeSingle indent (col + 1) false true fresh rest
    else if isBreak c then c :: writeSingle indent 0 false afterSpace true rest
    else
      let margin := if fresh then List.replicate indent ' ' else []
      let body := if c = '\'' then ['\'', '\''] else [c]
      margin ++ body ++ writeSingle indent (col + margin.length + body.length) false false false rest

/-- The letter that stands for a character after a backslash. -/
def escapeLetter? (c : Char) : Option Char :=
  match c with
  | '\x00' => some '0'
  | '\x07' => some 'a'
  | '\x08' => some 'b'
  | '\t' => some 't'
  | '\n' => some 'n'
  | '\x0b' => some 'v'
  | '\x0c' => some 'f'
  | '\r' => some 'r'
  | '\x1b' => some 'e'
  | '"' => some '"'
  | '\\' => some '\\'
  | '\u0085' => some 'N'
  | '\u00A0' => some '_'
  | '\u2028' => some 'L'
  | '\u2029' => some 'P'
  | _ => none

def escape (c : Char) : List Char :=
  let hex (width : Nat) := (Quoted.hex width c.toNat).map Char.toUpper
  match escapeLetter? c with
  | some l => ['\\', l]
  | none =>
    if c.toNat ≤ 0xFF then '\\' :: 'x' :: hex 2
    else if c.toNat ≤ 0xFFFF then '\\' :: 'u' :: hex 4
    else '\\' :: 'U' :: hex 8

/-- The body of a text in double quotation marks. -/
def writeDouble (indent : Nat) : (col : Nat) → (isFirst afterSpace : Bool) → List Char → List Char
  | _, _, _, [] => []
  | col, isFirst, afterSpace, c :: rest =>
    if !isShown c || isBreak c || c = '"' || c = '\\' then
      escape c ++ writeDouble indent (col + (escape c).length) false false rest
    else if c = ' ' then
      if !afterSpace && lineWidth < col && !isFirst && !rest.isEmpty then
        let guard := if rest.head? = some ' ' then ['\\'] else []
        newLine indent ++ guard ++ writeDouble indent (indent + guard.length) false true rest
      else ' ' :: writeDouble indent (col + 1) false true rest
    else c :: writeDouble indent (col + 1) false false rest

/-- The lines of a text written as they are, each that is not empty indented. -/
def writeLiteral (indent : Nat) : (fresh : Bool) → List Char → List Char
  | _, [] => []
  | fresh, c :: rest =>
    if isBreak c then c :: writeLiteral indent true rest
    else (if fresh then List.replicate indent ' ' else []) ++ c :: writeLiteral indent false rest

/-- What stands after the bar of a literal: the indentation, if the text starts with a blank, and
how it ends. -/
def literalHints (cs : List Char) : List Char :=
  let ending := match cs.reverse with
    | [] => ['-']
    | c :: before =>
      if !isBreak c then ['-']
      else if before.head?.all isBreak then ['+']
      else []
  (if cs.head?.any fun c => c = ' ' || isBreak c then ['2'] else []) ++ ending

/-- A text that starts at a column, with the newline that ends it. -/
def scalar (indent col : Nat) (s : String) : String :=
  let cs := s.toList
  String.ofList <|
    match style s with
    | .bare => writeBare indent col false cs ++ ['\n']
    | .single => '\'' :: writeSingle indent (col + 1) true false false cs ++ ['\'', '\n']
    | .double => '"' :: writeDouble indent (col + 1) true false cs ++ ['"', '\n']
    | .literal =>
      '|' :: literalHints cs ++ '\n' :: writeLiteral indent true cs
        ++ if cs.getLast?.any isBreak then [] else ['\n']

end FlowCheck.Yaml
