import FlowCheck.Text.Quoted
import FlowCheck.Tree.Basic

/-!
# One-line renderings

`Expr.render` writes an expression the way it is written in a program. It adds no parentheses:
those of the program are nodes of the tree.
-/
namespace FlowCheck

mutual

def Expr.render : Expr → String
  | .ident name => name.text
  | .literal _ kind text => if kind = .string then Quoted.text text else text
  | .unary _ op x => op.text ++ x.render
  | .binary _ op x y => x.render ++ " " ++ op.text ++ " " ++ y.render
  | .call _ callee args => callee.render ++ "(" ++ Expr.renderList args ++ ")"
  | .index _ x i => x.render ++ "[" ++ i.render ++ "]"
  | .select _ x sel => x.render ++ "." ++ sel.text
  | .paren _ x => "(" ++ x.render ++ ")"
  | .sliceType _ elem => "[]" ++ elem.render

/-- Expressions separated by commas. -/
def Expr.renderList : List Expr → String
  | [] => ""
  | [x] => x.render
  | x :: y :: rest => x.render ++ ", " ++ Expr.renderList (y :: rest)

end

def Simple.summary : Simple → String
  | .expr _ x => x.render
  | .assign _ op target value => target.render ++ " " ++ op.text ++ " " ++ value.render

def VarDecl.summary (d : VarDecl) : String :=
  "var " ++ d.name.text ++ d.type.elim "" (" " ++ ·.render) ++ d.value.elim "" (" = " ++ ·.render)

/-- A statement by its header; kinds without one are written by name. -/
def Stmt.summary : Stmt → String
  | .empty _ => ";"
  | .simple s => s.summary
  | .var _ decl => decl.summary
  | .block _ => "\x7d"
  | .cond .. => "<*syntax.IfStmt>"
  | .loop .. => "<*syntax.ForStmt>"
  | .foreach _ v .. => "for " ++ v.text ++ " in ..."
  | .switch .. => "<*syntax.SwitchStmt>"
  | .jump _ kind => kind.text
  | .ret _ result => result.elim "return" ("return " ++ ·.render)
  | .raise _ x => "throw " ++ x.render
  | .attempt .. => "<*syntax.TryStmt>"

def CaseClause.summary (c : CaseClause) : String :=
  if c.values.isEmpty then "default:" else "case " ++ Expr.renderList c.values ++ ":"

def CatchClause.summary (c : CatchClause) : String :=
  match c.param with
  | none => "catch"
  | some (name, type) => "catch (" ++ name.text ++ " " ++ type.render ++ ")"

end FlowCheck
