import FlowCheck.Tree.Summary

/-!
# Nodes and walks

A node is any part of a tree that has a mark of its own. A walk lists nodes from the root down and
from left to right, each before its parts, leaving out the parts of nodes it does not enter.
-/
namespace FlowCheck

inductive Node where
  | file (f : File)
  | errorDomain (d : ErrorDomainDecl)
  | varDecl (d : VarDecl)
  | func (d : FuncDecl)
  | param (p : Param)
  | expr (x : Expr)
  | stmt (s : Stmt)
  | caseClause (c : CaseClause)
  | catchClause (c : CatchClause)

namespace Node

instance : Inhabited Node := ⟨expr default⟩

def mark : Node → Mark
  | file f => f.mark
  | errorDomain d => d.mark
  | varDecl d => d.mark
  | func d => d.mark
  | param p => p.mark
  | expr x => x.mark
  | stmt s => s.mark
  | caseClause c => c.mark
  | catchClause c => c.mark

def id (n : Node) : Nat := n.mark.id

def pos (n : Node) : Pos := n.mark.pos

end Node

def Expr.kind : Expr → String
  | .ident _ => "Name"
  | .literal .. => "BasicLit"
  | .unary .. | .binary .. => "Operation"
  | .call .. => "CallExpr"
  | .index .. => "IndexExpr"
  | .select .. => "SelectorExpr"
  | .paren .. => "ParenExpr"
  | .sliceType .. => "SliceType"

def Simple.kind : Simple → String
  | .expr .. => "ExprStmt"
  | .assign .. => "AssignStmt"

def Stmt.kind : Stmt → String
  | .empty _ => "EmptyStmt"
  | .simple s => s.kind
  | .var .. => "DeclStmt"
  | .block _ => "BlockStmt"
  | .cond .. => "IfStmt"
  | .loop .. => "ForStmt"
  | .foreach .. => "ForeachStmt"
  | .switch .. => "SwitchStmt"
  | .jump .. => "BranchStmt"
  | .ret .. => "ReturnStmt"
  | .raise .. => "ThrowStmt"
  | .attempt .. => "TryStmt"

namespace Node

/-- The name of a node's kind. -/
def kind : Node → String
  | file _ => "File"
  | errorDomain _ => "ErrorDomainDecl"
  | varDecl _ => "VarDecl"
  | func _ => "FuncDecl"
  | param _ => "Field"
  | expr x => x.kind
  | stmt s => s.kind
  | caseClause _ => "CaseClause"
  | catchClause _ => "CatchClause"

/-- A node on one line; kinds without a line of their own are written by name. -/
def summary : Node → String
  | expr x => x.render
  | stmt s => s.summary
  | caseClause c => c.summary
  | catchClause c => c.summary
  | func d => "func " ++ d.name.text
  | n => "<*syntax." ++ n.kind ++ ">"

/-- Kind and position. -/
def label (n : Node) : String := n.kind ++ " " ++ n.pos.render

end Node

/-! ### Walks -/

def Ident.walk (name : Ident) : List Node := [.expr (.ident name)]

/-- The walk over a node: itself, then its parts if the walk enters it. -/
def Node.above (enter : Node → Bool) (n : Node) (parts : List Node) : List Node :=
  n :: if enter n then parts else []

mutual

def Expr.walk (enter : Node → Bool) : Expr → List Node
  | x@(.ident _) => [.expr x]
  | x@(.literal ..) => [.expr x]
  | .unary m op x => Node.above enter (.expr (.unary m op x)) (x.walk enter)
  | .binary m op x y => Node.above enter (.expr (.binary m op x y)) (x.walk enter ++ y.walk enter)
  | .call m callee args =>
    Node.above enter (.expr (.call m callee args)) (callee.walk enter ++ Expr.walkList enter args)
  | .index m x i => Node.above enter (.expr (.index m x i)) (x.walk enter ++ i.walk enter)
  | .select m x sel => Node.above enter (.expr (.select m x sel)) (x.walk enter ++ sel.walk)
  | .paren m x => Node.above enter (.expr (.paren m x)) (x.walk enter)
  | .sliceType m elem => Node.above enter (.expr (.sliceType m elem)) (elem.walk enter)

def Expr.walkList (enter : Node → Bool) : List Expr → List Node
  | [] => []
  | x :: rest => x.walk enter ++ Expr.walkList enter rest

end

def Expr.walkOption (enter : Node → Bool) (x : Option Expr) : List Node := x.elim [] (·.walk enter)

def Simple.walk (enter : Node → Bool) (s : Simple) : List Node :=
  Node.above enter (.stmt (.simple s)) <|
    match s with
    | .expr _ x => x.walk enter
    | .assign _ _ target value => target.walk enter ++ value.walk enter

def VarDecl.walk (enter : Node → Bool) (d : VarDecl) : List Node :=
  Node.above enter (.varDecl d) <|
    d.name.walk ++ Expr.walkOption enter d.type ++ Expr.walkOption enter d.value

mutual

def Stmt.walk (enter : Node → Bool) : Stmt → List Node
  | .empty m => [.stmt (.empty m)]
  | .simple s => s.walk enter
  | .var m decl => Node.above enter (.stmt (.var m decl)) (decl.walk enter)
  | .block b => b.walk enter
  | .cond m test yes no =>
    Node.above enter (.stmt (.cond m test yes no))
      (test.walk enter ++ yes.walk enter ++ Stmt.walkOption enter no)
  | .loop m init test post body =>
    Node.above enter (.stmt (.loop m init test post body))
      (init.elim [] (·.walk enter) ++ Expr.walkOption enter test ++ post.elim [] (·.walk enter)
        ++ body.walk enter)
  | .foreach m var operand body =>
    Node.above enter (.stmt (.foreach m var operand body))
      (var.walk ++ operand.walk enter ++ body.walk enter)
  | .switch m tag sections close =>
    Node.above enter (.stmt (.switch m tag sections close))
      (tag.walk enter ++ CaseClause.walkList enter sections)
  | .jump m kind => [.stmt (.jump m kind)]
  | .ret m result => Node.above enter (.stmt (.ret m result)) (Expr.walkOption enter result)
  | .raise m x => Node.above enter (.stmt (.raise m x)) (x.walk enter)
  | .attempt m body handlers cleanup =>
    Node.above enter (.stmt (.attempt m body handlers cleanup))
      (body.walk enter ++ CatchClause.walkList enter handlers ++ Block.walkOption enter cleanup)

def Stmt.walkOption (enter : Node → Bool) : Option Stmt → List Node
  | none => []
  | some s => s.walk enter

def Stmt.walkList (enter : Node → Bool) : List Stmt → List Node
  | [] => []
  | s :: rest => s.walk enter ++ Stmt.walkList enter rest

def Block.walk (enter : Node → Bool) : Block → List Node
  | .mk m stmts close =>
    Node.above enter (.stmt (.block (.mk m stmts close))) (Stmt.walkList enter stmts)

def Block.walkOption (enter : Node → Bool) : Option Block → List Node
  | none => []
  | some b => b.walk enter

def CaseClause.walk (enter : Node → Bool) : CaseClause → List Node
  | .mk m values isDefault body =>
    Node.above enter (.caseClause (.mk m values isDefault body))
      (Expr.walkList enter values ++ Stmt.walkList enter body)

def CaseClause.walkList (enter : Node → Bool) : List CaseClause → List Node
  | [] => []
  | c :: rest => c.walk enter ++ CaseClause.walkList enter rest

def CatchClause.walk (enter : Node → Bool) : CatchClause → List Node
  | .mk m param body =>
    Node.above enter (.catchClause (.mk m param body))
      (param.elim [] (fun p => p.1.walk ++ p.2.walk enter) ++ body.walk enter)

def CatchClause.walkList (enter : Node → Bool) : List CatchClause → List Node
  | [] => []
  | c :: rest => c.walk enter ++ CatchClause.walkList enter rest

end

def Param.walk (enter : Node → Bool) (p : Param) : List Node :=
  Node.above enter (.param p) (p.name.walk ++ p.type.walk enter)

def FuncDecl.walk (enter : Node → Bool) (d : FuncDecl) : List Node :=
  Node.above enter (.func d) <|
    d.name.walk ++ d.params.flatMap (·.walk enter) ++ Expr.walkOption enter d.result
      ++ Expr.walkList enter d.throws ++ d.body.walk enter

def ErrorDomainDecl.walk (enter : Node → Bool) (d : ErrorDomainDecl) : List Node :=
  Node.above enter (.errorDomain d) (d.name.walk ++ d.codes.flatMap (·.walk))

def Decl.walk (enter : Node → Bool) : Decl → List Node
  | .errorDomain d => d.walk enter
  | .var d => d.walk enter
  | .func d => d.walk enter

def File.walk (enter : Node → Bool) (f : File) : List Node :=
  Node.above enter (.file f) (f.package.walk ++ f.decls.flatMap (·.walk enter))

namespace Node

def walk (enter : Node → Bool) : Node → List Node
  | file f => f.walk enter
  | errorDomain d => d.walk enter
  | varDecl d => d.walk enter
  | func d => d.walk enter
  | param p => p.walk enter
  | expr x => x.walk enter
  | stmt s => s.walk enter
  | caseClause c => c.walk enter
  | catchClause c => c.walk enter

/-- A node with everything below it. -/
def subtree (n : Node) : List Node := n.walk fun _ => true

end Node

/-- All nodes of a file. -/
def File.nodes (f : File) : List Node := f.walk fun _ => true

end FlowCheck
