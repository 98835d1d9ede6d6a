import FlowCheck.Source.Pos
import FlowCheck.Token.Basic

/-!
# Programs as trees

The tree of a source file. Every node has a mark: where it stands, and a number that tells it
from all other nodes once `File.numbered` has counted them. The forms that the grammar rules out
(an `else` that is neither a block nor an `if`, a try statement with nothing after its body) are
ruled out by the parser, not by these types.
-/
namespace FlowCheck

/-- Where a node stands and which one it is. -/
structure Mark where
  pos : Pos
  id : Nat := 0
  deriving DecidableEq, Repr, Inhabited

structure Ident where
  mark : Mark
  text : String
  deriving DecidableEq, Repr, Inhabited

/-- Expressions, and the types and error types that are written like them. -/
inductive Expr where
  | ident (name : Ident)
  | literal (mark : Mark) (kind : LitKind) (text : String)
  | unary (mark : Mark) (op : UnaryOp) (x : Expr)
  | binary (mark : Mark) (op : BinaryOp) (x y : Expr)
  | call (mark : Mark) (callee : Expr) (args : List Expr)
  | index (mark : Mark) (x i : Expr)
  | select (mark : Mark) (x : Expr) (sel : Ident)
  | paren (mark : Mark) (x : Expr)
  | sliceType (mark : Mark) (elem : Expr)

namespace Expr

instance : Inhabited Expr := ⟨ident default⟩

def mark : Expr → Mark
  | ident name => name.mark
  | literal m .. | unary m .. | binary m .. | call m .. | index m .. | select m .. | paren m ..
  | sliceType m .. => m

def pos (x : Expr) : Pos := x.mark.pos

end Expr

/-- `set` changes a variable, `define` introduces one. -/
inductive AssignOp where
  | set
  | define
  deriving DecidableEq, Repr

def AssignOp.text : AssignOp → String
  | set => "="
  | define => ":="

/-- Statements that may stand in the header of a loop. -/
inductive Simple where
  | expr (mark : Mark) (x : Expr)
  | assign (mark : Mark) (op : AssignOp) (target value : Expr)

def Simple.mark : Simple → Mark
  | expr m _ => m
  | assign m .. => m

/-- A variable with its type, its first value, or both. -/
structure VarDecl where
  mark : Mark
  name : Ident
  type : Option Expr
  value : Option Expr

inductive Jump where
  | toEnd
  | toNext
  deriving DecidableEq, Repr

/-- `break` leaves a loop or switch, `continue` goes to the next round of a loop. -/
def Jump.text : Jump → String
  | toEnd => "break"
  | toNext => "continue"

mutual

inductive Stmt where
  | empty (mark : Mark)
  | simple (s : Simple)
  | var (mark : Mark) (decl : VarDecl)
  | block (b : Block)
  | cond (mark : Mark) (test : Expr) (yes : Block) (no : Option Stmt)
  | loop (mark : Mark) (init : Option Simple) (test : Option Expr) (post : Option Simple)
      (body : Block)
  | foreach (mark : Mark) (var : Ident) (operand : Expr) (body : Block)
  | switch (mark : Mark) (tag : Expr) (sections : List CaseClause) (close : Pos)
  | jump (mark : Mark) (kind : Jump)
  | ret (mark : Mark) (result : Option Expr)
  | raise (mark : Mark) (x : Expr)
  | attempt (mark : Mark) (body : Block) (handlers : List CatchClause) (cleanup : Option Block)

/-- Statements between braces; `close` is the position of the closing one. -/
inductive Block where
  | mk (mark : Mark) (stmts : List Stmt) (close : Pos)

/-- A section of a switch: labels, one of which may be `default`, and statements. -/
inductive CaseClause where
  | mk (mark : Mark) (values : List Expr) (isDefault : Bool) (body : List Stmt)

/-- A handler; without a variable and a type it accepts every error. -/
inductive CatchClause where
  | mk (mark : Mark) (param : Option (Ident × Expr)) (body : Block)

end

namespace Block

def mark : Block → Mark
  | mk m _ _ => m

def stmts : Block → List Stmt
  | mk _ s _ => s

def close : Block → Pos
  | mk _ _ p => p

instance : Inhabited Block := ⟨mk default [] default⟩

end Block

namespace CaseClause

def mark : CaseClause → Mark
  | mk m .. => m

def values : CaseClause → List Expr
  | mk _ v .. => v

def isDefault : CaseClause → Bool
  | mk _ _ d _ => d

def body : CaseClause → List Stmt
  | mk _ _ _ b => b

end CaseClause

namespace CatchClause

def mark : CatchClause → Mark
  | mk m .. => m

def param : CatchClause → Option (Ident × Expr)
  | mk _ p _ => p

def body : CatchClause → Block
  | mk _ _ b => b

end CatchClause

def Stmt.mark : Stmt → Mark
  | .empty m => m
  | .simple s => s.mark
  | .block b => b.mark
  | .var m .. | .cond m .. | .loop m .. | .foreach m .. | .switch m .. | .jump m .. | .ret m ..
  | .raise m .. | .attempt m .. => m

instance : Inhabited Stmt := ⟨.empty default⟩

/-- A kind of error and its codes. -/
structure ErrorDomainDecl where
  mark : Mark
  name : Ident
  codes : List Ident

/-- A parameter; the caller passes nothing in an `out` parameter, the function assigns it. -/
structure Param where
  mark : Mark
  out : Bool
  name : Ident
  type : Expr

structure FuncDecl where
  mark : Mark
  name : Ident
  params : List Param
  result : Option Expr
  throws : List Expr
  body : Block

inductive Decl where
  | errorDomain (d : ErrorDomainDecl)
  | var (d : VarDecl)
  | func (d : FuncDecl)

structure File where
  mark : Mark
  package : Ident
  decls : List Decl

/-- The functions of a file, in source order. -/
def File.funcs (f : File) : List FuncDecl :=
  f.decls.filterMap fun
    | .func d => some d
    | _ => none

end FlowCheck
