import FlowCheck.Source.Symbol
import FlowCheck.Token.Fault

/-!
# Reading a text character by character

A cursor holds the symbols not yet consumed and the position of the first of them. An ill-formed
byte or a NUL is reported as soon as it becomes the current symbol, so before any fault of the
token that it may belong to. A newline belongs to the line that it ends.
-/
namespace FlowCheck

structure Cursor where
  rest : List Symbol
  pos : Pos
  /-- Faults found since the last token, newest first. -/
  reports : List LexReport
  deriving Repr

namespace Cursor

/-- The fault that a symbol is by itself. -/
def symbolFault? : Symbol → Option LexFault
  | .illFormed _ => some .illFormed
  | .scalar c => if c = '\x00' then some .nul else none

def report (c : Cursor) (fault : LexFault) : Cursor :=
  { c with reports := ⟨c.pos, fault⟩ :: c.reports }

/-- Stands on the first symbol of `rest`, reporting what is wrong with it. -/
def arrive (rest : List Symbol) (pos : Pos) (reports : List LexReport) : Cursor :=
  match rest.head?.bind symbolFault? with
  | some fault => ⟨rest, pos, ⟨pos, fault⟩ :: reports⟩
  | none => ⟨rest, pos, reports⟩

/-- A text that could not be read has no symbols and stands before its first column. -/
def start (source : Source) : Cursor :=
  match source.failure with
  | some why =>
    let pos : Pos := ⟨source.file, 1, 0⟩
    ⟨[], pos, [⟨pos, .unreadable why⟩]⟩
  | none => arrive (Symbol.decode (Symbol.dropMark source.bytes)) ⟨source.file, 1, 1⟩ []

/-- The current character, if the text has not ended. -/
def peek (c : Cursor) : Option Char := c.rest.head?.map Symbol.char

/-- The character after the current one. -/
def peekNext (c : Cursor) : Option Char := c.rest[1]?.map Symbol.char

/-- Moves to the next symbol; at the end of the text only the column grows. -/
def advance (c : Cursor) : Cursor :=
  arrive c.rest.tail (if c.peek = some '\n' then c.pos.nextLine else c.pos.nextCol) c.reports

/-- Moves over `n` symbols. -/
def skip : Nat → Cursor → Cursor
  | 0, c => c
  | n + 1, c => skip n c.advance

/-- How many of the next symbols satisfy `p` in a row. -/
def runLength (p : Char → Bool) (c : Cursor) : Nat :=
  (c.rest.takeWhile fun s => p s.char).length

def skipWhile (p : Char → Bool) (c : Cursor) : Cursor := c.skip (c.runLength p)

/-- The text from `c` up to the cursor `stop` reached from it. -/
def textTo (c stop : Cursor) : String :=
  String.ofList ((c.rest.take (c.rest.length - stop.rest.length)).map Symbol.char)

def isAt (c : Cursor) (p : Char → Bool) : Bool := c.peek.any p

@[simp] theorem arrive_rest (rest : List Symbol) (pos : Pos) (reports : List LexReport) :
    (arrive rest pos reports).rest = rest := by
  unfold arrive; split <;> rfl

@[simp] theorem arrive_pos (rest : List Symbol) (pos : Pos) (reports : List LexReport) :
    (arrive rest pos reports).pos = pos := by
  unfold arrive; split <;> rfl

@[simp] theorem report_rest (c : Cursor) (fault : LexFault) : (c.report fault).rest = c.rest := rfl

@[simp] theorem report_pos (c : Cursor) (fault : LexFault) : (c.report fault).pos = c.pos := rfl

@[simp] theorem advance_rest (c : Cursor) : c.advance.rest = c.rest.tail := by
  simp [advance]

theorem advance_length (c : Cursor) : c.advance.rest.length = c.rest.length - 1 := by
  rw [advance_rest, List.length_tail]

@[simp] theorem skip_rest (n : Nat) (c : Cursor) : (c.skip n).rest = c.rest.drop n := by
  induction n generalizing c with
  | zero => rfl
  | succ n ih => simp [skip, ih]

@[simp] theorem skipWhile_rest (p : Char → Bool) (c : Cursor) :
    (c.skipWhile p).rest = c.rest.drop (c.runLength p) := by
  simp [skipWhile]

theorem skip_length_le (n : Nat) (c : Cursor) : (c.skip n).rest.length ≤ c.rest.length := by
  rw [skip_rest, List.length_drop]
  exact Nat.sub_le _ _

end Cursor

end FlowCheck
