import FlowCheck.Scope.Typ
import FlowCheck.Tree.Node

/-!
# What flow analysis asks about a program

Flow analysis does not look into expressions. For every node it asks which variables the node
assigns and reads and which errors it may raise, what a handler accepts, and whether a condition is
a constant. Name resolution gives one answer to these questions; the analysis takes any.
-/
namespace FlowCheck

structure Var where
  id : Nat
  name : String
  kind : VarKind
  pos : Pos
  deriving DecidableEq, Repr, Inhabited

/-- A variable by its name and the place of its declaration. -/
def Var.label (v : Var) : String := v.name ++ "@" ++ v.pos.render

/-- A read of a variable at a position. -/
structure Use where
  var : Var
  pos : Pos
  deriving DecidableEq, Repr

structure Facts where
  /-- The variables that a node assigns, in order. -/
  defs : Node → List Var
  /-- The reads that a node performs, in the order of evaluation. -/
  uses : Node → List Use
  /-- The errors that a node may raise instead of completing. -/
  raises : Node → List ErrorType
  /-- The errors that a handler accepts. -/
  catches : CatchClause → ErrorType
  /-- The value of a condition that is the constant true or false. -/
  constant : Expr → Option Bool

end FlowCheck
