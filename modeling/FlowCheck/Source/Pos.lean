/-!
# Positions

A position names a file, a line and a column, both counted from one; columns count characters.
Line zero stands for no position at all. Positions are ordered by file name, then line, then column.
-/
namespace FlowCheck

structure Pos where
  file : String := ""
  line : Nat := 0
  col : Nat := 0
  deriving DecidableEq, Repr, Inhabited

namespace Pos

/-- The position of something that stands nowhere. -/
def none : Pos := {}

def isValid (p : Pos) : Bool := 0 < p.line

/-- The file name is left out when it is empty. -/
def render (p : Pos) : String :=
  let place := toString p.line ++ ":" ++ toString p.col
  if p.file = "" then place else p.file ++ ":" ++ place

/-- Strictly earlier: by file name (scalar by scalar), then line, then column. -/
def before (p q : Pos) : Bool :=
  if p.file ≠ q.file then decide (p.file < q.file)
  else if p.line ≠ q.line then decide (p.line < q.line)
  else decide (p.col < q.col)

/-- Where the next character stands after one that is no newline. -/
def nextCol (p : Pos) : Pos := { p with col := p.col + 1 }

/-- Where the next character stands after a newline. -/
def nextLine (p : Pos) : Pos := { p with line := p.line + 1, col := 1 }

theorem before_irrefl (p : Pos) : p.before p = false := by
  simp [before]

end Pos

end FlowCheck
