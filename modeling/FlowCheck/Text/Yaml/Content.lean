import FlowCheck.Text.CodePoint
import FlowCheck.Text.Yaml.Reader

/-!
# Texts in YAML

A text stands bare, in quotation marks, or as a block of indented lines. Line breaks inside bare and
quoted texts are folded into blanks.
-/
namespace FlowCheck.Yaml

/-! ### Bare texts -/

/-- Characters that end a bare text inside brackets. -/
def endsInside (c : Char) : Bool := ",?[]\x7b\x7d".toList.contains c

/-- A bare text up to a blank, or up to a sign that ends it. -/
def bareRun (inFlow : Bool) : List Char → List Char
  | [] => []
  | c :: rest =>
    if isSpace c || (c = ':' && spaceFollows rest) || (inFlow && endsInside c) then []
    else c :: bareRun inFlow rest

/-- A bare text, the place after it, and whether a line ends in between. -/
structure Bare where
  text : List Char
  after : Reader
  isBroken : Bool

/-- A bare text goes on over gaps, up to a comment, a sign or a line that is indented less than
`indent`. Inside brackets the indentation does not matter. -/
def bareFrom (inFlow : Bool) (indent : Nat) :
    (fuel : Nat) → (text : List Char) → Gap → Reader → Option Bare
  | 0, text, gap, r => some ⟨text, r, gap.isBroken⟩
  | fuel + 1, text, gap, r =>
    if r.atMarker || r.rest.head? = some '#' then some ⟨text, r, gap.isBroken⟩
    else
      let run := bareRun inFlow r.rest
      let (text, gap) := if run.isEmpty then (text, gap) else (text ++ gap.text ++ run, {})
      let (next, after) := (r.skip run.length).gap
      if after.rest.length = (r.skip run.length).rest.length then some ⟨text, after, gap.isBroken⟩
      else if next.hasTabBefore indent then none
      else if !inFlow && after.col < indent then some ⟨text, after, next.isBroken⟩
      else bareFrom inFlow indent fuel text next after

def bare? (inFlow : Bool) (indent : Nat) (r : Reader) : Option Bare :=
  bareFrom inFlow indent (r.rest.length + 1) [] {} r

/-! ### Quoted texts -/

/-- The character that a letter after a backslash stands for. -/
def escaped? : Char → Option Char
  | '0' => some '\x00'
  | 'a' => some '\x07'
  | 'b' => some '\x08'
  | 't' | '\t' => some '\t'
  | 'n' => some '\n'
  | 'v' => some '\x0b'
  | 'f' => some '\x0c'
  | 'r' => some '\r'
  | 'e' => some '\x1b'
  | ' ' => some ' '
  | '"' => some '"'
  | '\'' => some '\''
  | '/' => some '/'
  | '\\' => some '\\'
  | 'N' => some '\u0085'
  | '_' => some '\u00a0'
  | 'L' => some '\u2028'
  | 'P' => some '\u2029'
  | _ => none

/-- How many hexadecimal digits follow a letter after a backslash. -/
def hexWidth (c : Char) : Nat :=
  if c = 'x' then 2 else if c = 'u' then 4 else if c = 'U' then 8 else 0

/-- What a run of quoted characters stands for, and how many characters it takes up. -/
structure Run where
  text : List Char := []
  size : Nat := 0

def Run.cons (c : Char) (size : Nat) (r : Run) : Run := ⟨c :: r.text, size + r.size⟩

/-- Characters up to a gap or the closing mark; a mark that stands twice is a character. -/
def singleRun : List Char → Run
  | '\'' :: '\'' :: rest => (singleRun rest).cons '\'' 2
  | c :: rest => if c = '\'' || isSpace c then {} else (singleRun rest).cons c 1
  | [] => {}

/-- Characters up to a gap, the closing mark or a backslash at the end of a line. -/
def doubleRun : (fuel : Nat) → List Char → Option Run
  | fuel + 1, '\\' :: c :: rest =>
    if isBreak c then some {}
    else do
      let width := hexWidth c
      if width = 0 then
        let d ← escaped? c
        return (← doubleRun fuel rest).cons d 2
      else
        let (d, rest) ← CodePoint.ofHex? width rest
        return (← doubleRun fuel rest).cons d (2 + width)
  | fuel + 1, c :: rest =>
    if c = '"' || isSpace c then some {}
    else if c = '\\' then none
    else (doubleRun fuel rest).map (Run.cons c 1)
  | _, _ => some {}

/-- The rest of a text in quotation marks, and the place after the closing mark. A backslash at the
end of a line takes the line break away. -/
def quotedFrom (mark : Char) :
    (fuel : Nat) → (text : List Char) → Reader → Option (List Char × Reader)
  | 0, _, _ => none
  | fuel + 1, text, r => do
    if r.atMarker || r.rest.isEmpty then none
    else
      let run ← if mark = '"' then doubleRun r.rest.length r.rest else some (singleRun r.rest)
      let text := text ++ run.text
      let r := r.skip run.size
      if r.rest.head? = some mark then some (text, r.next)
      else if r.rest.head? = some '\\' then
        let (gap, r) := (r.skip 2).gap
        quotedFrom mark fuel (text ++ gap.breaks) r
      else
        let (gap, r) := r.gap
        quotedFrom mark fuel (text ++ gap.text) r

/-- The text after an opening mark, and the place after the closing one. -/
def quoted? (mark : Char) (r : Reader) : Option (List Char × Reader) :=
  quotedFrom mark (r.rest.length + 1) [] r

/-! ### Blocks of lines -/

/-- What becomes of the line breaks at the end of a block. -/
inductive Chomping where
  | strip
  | clip
  | keep
  deriving DecidableEq, Repr

def chomping? (c : Char) : Option Chomping :=
  if c = '-' then some .strip else if c = '+' then some .keep else none

def increment? (c : Char) : Option Nat :=
  if '1' ≤ c && c ≤ '9' then some (c.toNat - 48) else none

/-- What may follow the sign that opens a block, in either order: what becomes of the line breaks,
and by how much the lines are indented. -/
def blockHeader (r : Reader) : Chomping × Option Nat × Reader :=
  match r.rest with
  | [] => (.clip, none, r)
  | c :: rest =>
    match chomping? c, increment? c, rest.head? with
    | some chomping, _, some d =>
      match increment? d with
      | some n => (chomping, some n, r.skip 2)
      | none => (chomping, none, r.next)
    | some chomping, _, none => (chomping, none, r.next)
    | none, some n, some d =>
      match chomping? d with
      | some chomping => (chomping, some n, r.skip 2)
      | none => (.clip, some n, r.next)
    | none, some n, none => (.clip, some n, r.next)
    | none, none, _ => (.clip, none, r)

/-- Empty lines, and the indentation of the next line. With no indentation given, lines of blanks
count as well, and the widest line tells how far the block is indented. -/
def emptyLines (indent : Option Nat) :
    (fuel : Nat) → (breaks : List Char) → (widest : Nat) → Reader →
      Option (List Char × Nat × Reader)
  | 0, breaks, widest, r => some (breaks, widest, r)
  | fuel + 1, breaks, widest, r =>
    let spaces := (r.rest.takeWhile (· = ' ')).length
    let r := r.skip (indent.elim spaces fun n => min spaces (n - r.col))
    let widest := max widest r.col
    match r.rest with
    | [] => some (breaks, widest, r)
    | c :: _ =>
      if c = '\t' && indent.all (r.col < ·) then none
      else if isBreak c then emptyLines indent fuel (breaks ++ [c]) widest r.next
      else some (breaks, widest, r)

/-- A block under construction: its text, the break of its last line and the empty lines after it. -/
structure Block where
  text : List Char := []
  lastBreak : List Char := []
  empty : List Char := []
  /-- The last line starts with a blank, so it is not folded. -/
  isIndented : Bool := false

def Block.addLine (isLiteral : Bool) (b : Block) (line : List Char) : Block :=
  let isIndented := line.head?.any isBlank
  let join :=
    if !isLiteral && !b.isIndented && !isIndented && b.lastBreak = ['\n'] then
      if b.empty.isEmpty then [' '] else []
    else b.lastBreak
  { text := b.text ++ join ++ b.empty ++ line, isIndented }

def Block.chomped (b : Block) : Chomping → List Char
  | .strip => b.text
  | .clip => b.text ++ b.lastBreak
  | .keep => b.text ++ b.lastBreak ++ b.empty

/-- The lines of a block that are indented by `indent`. -/
def blockFrom (isLiteral : Bool) (indent : Nat) :
    (fuel : Nat) → Block → Reader → Option (Block × Reader)
  | 0, b, r => some (b, r)
  | fuel + 1, b, r =>
    if r.col ≠ indent || r.rest.isEmpty then some (b, r)
    else do
      let line := r.rest.takeWhile fun c => !isBreak c
      let r := r.lineEnd
      let lastBreak := r.rest.take 1
      let (empty, _, r) ← emptyLines (some indent) (r.rest.length + 1) [] 0 r.next
      blockFrom isLiteral indent fuel { b.addLine isLiteral line with lastBreak, empty } r

/-- The text of a block after the sign that opens it, and the place after the block. `outer` is the
indentation of the map or list that the block stands in. -/
def block? (isLiteral : Bool) (outer : Option Nat) (r : Reader) :
    Option (List Char × Reader) := do
  let (chomping, increment, r) := blockHeader r
  let r ← r.afterComment?
  let given := increment.map fun n => outer.getD 0 + n
  let (empty, widest, r) ← emptyLines given (r.rest.length + 1) [] 0 r.next
  let least := outer.elim 1 fun n => n + 1
  let (b, r) ← blockFrom isLiteral (given.getD (max widest least)) (r.rest.length + 1) { empty } r
  return (b.chomped chomping, r)

end FlowCheck.Yaml
