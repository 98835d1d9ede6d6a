import FlowCheck.Flow.Facts

/-!
# Blocks and phis

A block is a straight-line sequence of nodes with edges to other blocks. The order of `preds` is
load-bearing: operand `i` of every phi of a block belongs to the edge from its predecessor `i`.
-/
namespace FlowCheck

abbrev BlockId := Nat

/-- Block numbers are 64-bit words written as signed numbers, so that a number which is none of
this graph's keeps its spelling. -/
def BlockId.number (b : BlockId) : Int :=
  if b < Nat.pow 2 63 then b else (b : Int) - Nat.pow 2 64

def BlockId.text (b : BlockId) : String := "b" ++ toString (BlockId.number b)

/-- What a block was made for; it only shows in print. -/
inductive BlockKind where
  | plain
  | entry
  | ret
  | exit
  | branch
  | join
  | loop
  | post
  | afterLoop
  | handler
  | cleanup
  | other
  deriving DecidableEq, Repr

namespace BlockKind

def text : BlockKind → String
  | plain => "plain"
  | entry => "entry"
  | ret => "return"
  | exit => "exit"
  | branch => "branch"
  | join => "join"
  | loop => "loop"
  | post => "post"
  | afterLoop => "after-loop"
  | handler => "catch"
  | cleanup => "finally"
  | other => "unknown"

def ofNumber (n : Nat) : BlockKind :=
  [plain, entry, ret, exit, branch, join, loop, post, afterLoop, handler, cleanup][n]?.getD other

end BlockKind

/-- A phi by the block that holds it and its place there. -/
structure PhiRef where
  block : BlockId
  index : Nat
  deriving DecidableEq, Repr

/-- One definition of a variable, numbered from one; `phi` is the phi that made it, if one did. -/
structure Version where
  var : Var
  number : Nat
  phi : Option PhiRef
  deriving DecidableEq, Repr

def Version.text (v : Version) : String := v.var.name ++ "#" ++ toString v.number

/-- Merges the versions of a variable that arrive along the edges into a block. An operand without a
version stands for an edge on which the variable was never assigned. -/
structure Phi where
  var : Var
  block : BlockId
  operands : List (Option Version)
  result : Option Version := none
  deriving Repr

def Phi.text (p : Phi) : String :=
  p.result.elim p.var.name Version.text ++ " = phi("
    ++ ", ".intercalate (p.operands.map fun o => o.elim "_" Version.text) ++ ")"

/-- `idom`, `dominees` and `frontier` are filled in by dominance analysis: the block that
immediately dominates this one, those this one immediately dominates, and its frontier in
increasing order. -/
structure BasicBlock where
  id : BlockId
  kind : BlockKind
  nodes : List Node := []
  preds : List BlockId := []
  succs : List BlockId := []
  idom : Option BlockId := none
  dominees : List BlockId := []
  frontier : List BlockId := []
  phis : List Phi := []

namespace BasicBlock

/-- The place of a predecessor among the edges into the block. -/
def predIndex? (b : BasicBlock) (p : BlockId) : Option Nat := b.preds.idxOf? p

end BasicBlock

end FlowCheck
