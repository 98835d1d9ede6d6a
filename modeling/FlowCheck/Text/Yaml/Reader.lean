import FlowCheck.Text.Yaml.Character

/-!
# Places in a YAML text

A reader is a place in a text: what is left of it, and the line and the column. Texts are made of
lines whatever character ends them, so line ends are made alike before anything is read.
-/
namespace FlowCheck.Yaml

/-- Characters that a YAML text may hold. -/
def isAllowed (c : Char) : Bool :=
  let n := c.toNat
  n = 0x09 || n = 0x0A || n = 0x0D || n = 0x85 || (0x20 ≤ n && n ≤ 0x7E)
    || (0xA0 ≤ n && n ≤ 0xFFFD) || 0x10000 ≤ n

/-- A text with one character at the end of each line. The two separators of Unicode stay what they
are, since they show in texts that go over several lines. -/
def alignBreaks : List Char → List Char
  | '\r' :: '\n' :: rest => '\n' :: alignBreaks rest
  | c :: rest => (if c = '\r' || c = '\u0085' then '\n' else c) :: alignBreaks rest
  | [] => []

/-- A blank, a line break or the end comes next. -/
def spaceFollows : List Char → Bool
  | [] => true
  | c :: _ => isSpace c

/-- Letters, digits and two signs that names of anchors and tags are made of. -/
def isNameChar (c : Char) : Bool := c.isAlphanum || c = '_' || c = '-'

/-- A place in a text; lines and columns are counted from zero. -/
structure Reader where
  rest : List Char
  line : Nat := 0
  col : Nat := 0

namespace Reader

/-- The place after the next character. -/
def next (r : Reader) : Reader :=
  match r.rest with
  | [] => r
  | c :: rest => if isBreak c then ⟨rest, r.line + 1, 0⟩ else ⟨rest, r.line, r.col + 1⟩

def skip (r : Reader) : Nat → Reader
  | 0 => r
  | n + 1 => r.next.skip n

def skipWhile (p : Char → Bool) (r : Reader) : Reader := r.skip (r.rest.takeWhile p).length

/-- The place where the line ends. -/
def lineEnd (r : Reader) : Reader := r.skipWhile fun c => !isBreak c

/-- A document starts or ends here. -/
def atMarker (r : Reader) : Bool :=
  r.col = 0 && (r.rest.take 3 = ['-', '-', '-'] || r.rest.take 3 = ['.', '.', '.'])
    && spaceFollows (r.rest.drop 3)

/-- Nothing but blanks and a comment is left of the line. -/
def afterComment? (r : Reader) : Option Reader :=
  let r := r.skipWhile isBlank
  match r.rest with
  | [] => some r
  | c :: _ =>
    if c = '#' then some r.lineEnd
    else if isBreak c then some r
    else none

theorem next_length (r : Reader) : r.next.rest.length = r.rest.length - 1 := by
  unfold next
  split
  · simp_all
  · split <;> simp_all

end Reader

/-- Blanks and line breaks between two words. -/
structure Gap where
  /-- The blanks before the first line break. -/
  blanks : List Char := []
  breaks : List Char := []
  /-- The blanks at the start of each line. -/
  margins : List (List Char) := []

namespace Gap

def ofChars (cs : List Char) : Gap :=
  { blanks := cs.takeWhile isBlank
    breaks := cs.filter isBreak
    margins := (cs.splitOnP isBreak).tail }

/-- What a gap stands for in a text: one line break for a blank, several for all but the first of
them. Separators of Unicode are kept. -/
def text (g : Gap) : List Char :=
  match g.breaks with
  | [] => g.blanks
  | ['\n'] => [' ']
  | '\n' :: more => more
  | breaks => breaks

def isBroken (g : Gap) : Bool := !g.breaks.isEmpty

/-- A tab stands where a line has to be indented by spaces. -/
def hasTabBefore (g : Gap) (indent : Nat) : Bool :=
  g.margins.any fun m => (m.take indent).contains '\t'

end Gap

/-- The gap at a place, and the place after it. -/
def Reader.gap (r : Reader) : Gap × Reader :=
  let cs := r.rest.takeWhile isSpace
  (.ofChars cs, r.skip cs.length)

end FlowCheck.Yaml
