import FlowCheck.Text.JsonDoc
import FlowCheck.Tree.Node

/-!
# Trees as JSON documents

Every node is an object with its kind, its position and its parts; absent parts are left out, and
nodes that `dead` marks carry a flag. Names that a node owns (its own name, a selector, a loop
variable) are written as plain texts.
-/
namespace FlowCheck.Document

abbrev Members := List (String × JsonDoc)

/-- The object of a node. -/
def object (dead : Nat → Bool) (kind : String) (m : Mark) (members : Members) : JsonDoc :=
  .ofMembers (("type", .text kind) :: ("pos", .text m.pos.render)
    :: (if dead m.id then [("unreachable", .flag true)] else []) ++ members)

/-- A member that is left out when it has no value. -/
def optional (key : String) (value : Option JsonDoc) : Members :=
  value.elim [] fun v => [(key, v)]

/-- A flag that is left out when it is not set. -/
def onlyIf (key : String) (b : Bool) : Members := if b then [(key, .flag true)] else []

mutual

def expr (dead : Nat → Bool) : Expr → JsonDoc
  | .ident name => object dead "Name" name.mark [("value", .text name.text)]
  | .literal m kind text =>
    object dead "BasicLit" m [("kind", .text kind.text), ("value", .text text)]
  | .unary m op x => object dead "Operation" m [("op", .text op.text), ("x", expr dead x)]
  | .binary m op x y =>
    object dead "Operation" m [("op", .text op.text), ("x", expr dead x), ("y", expr dead y)]
  | .call m callee args =>
    object dead "CallExpr" m [("fun", expr dead callee), ("args", .list (exprs dead args))]
  | .index m x i => object dead "IndexExpr" m [("x", expr dead x), ("index", expr dead i)]
  | .select m x sel => object dead "SelectorExpr" m [("x", expr dead x), ("sel", .text sel.text)]
  | .paren m x => object dead "ParenExpr" m [("x", expr dead x)]
  | .sliceType m elem => object dead "SliceType" m [("elem", expr dead elem)]

def exprs (dead : Nat → Bool) : List Expr → List JsonDoc
  | [] => []
  | x :: rest => expr dead x :: exprs dead rest

end

def simple (dead : Nat → Bool) : Simple → JsonDoc
  | .expr m x => object dead "ExprStmt" m [("x", expr dead x)]
  | .assign m op target value =>
    object dead "AssignStmt" m
      [("op", .text op.text), ("lhs", expr dead target), ("rhs", expr dead value)]

def varDecl (dead : Nat → Bool) (d : VarDecl) : JsonDoc :=
  object dead "VarDecl" d.mark <|
    ("name", .text d.name.text) :: optional "vartype" (d.type.map (expr dead))
      ++ optional "value" (d.value.map (expr dead))

mutual

def stmt (dead : Nat → Bool) : Stmt → JsonDoc
  | .empty m => object dead "EmptyStmt" m []
  | .simple s => simple dead s
  | .var m decl => object dead "DeclStmt" m [("decl", varDecl dead decl)]
  | .block b => block dead b
  | .cond m test yes no =>
    object dead "IfStmt" m
      ([("cond", expr dead test), ("then", block dead yes)] ++ elsePart dead no)
  | .loop m init test post body =>
    object dead "ForStmt" m
      (optional "init" (init.map (simple dead)) ++ optional "cond" (test.map (expr dead))
        ++ optional "post" (post.map (simple dead)) ++ [("body", block dead body)])
  | .foreach m v operand body =>
    object dead "ForeachStmt" m
      [("var", .text v.text), ("x", expr dead operand), ("body", block dead body)]
  | .switch m tag sections _ =>
    object dead "SwitchStmt" m
      [("tag", expr dead tag), ("cases", .list (caseClauses dead sections))]
  | .jump m kind => object dead "BranchStmt" m [("token", .text kind.text)]
  | .ret m result => object dead "ReturnStmt" m (optional "result" (result.map (expr dead)))
  | .raise m x => object dead "ThrowStmt" m [("x", expr dead x)]
  | .attempt m body handlers cleanup =>
    object dead "TryStmt" m
      ([("body", block dead body), ("catches", .list (catchClauses dead handlers))]
        ++ finallyPart dead cleanup)

def elsePart (dead : Nat → Bool) : Option Stmt → Members
  | none => []
  | some s => [("else", stmt dead s)]

def finallyPart (dead : Nat → Bool) : Option Block → Members
  | none => []
  | some b => [("finally", block dead b)]

def stmts (dead : Nat → Bool) : List Stmt → List JsonDoc
  | [] => []
  | s :: rest => stmt dead s :: stmts dead rest

def block (dead : Nat → Bool) : Block → JsonDoc
  | .mk m body _ => object dead "BlockStmt" m [("stmts", .list (stmts dead body))]

def caseClause (dead : Nat → Bool) : CaseClause → JsonDoc
  | .mk m values isDefault body =>
    object dead "CaseClause" m
      ([("values", .list (exprs dead values)), ("body", .list (stmts dead body))]
        ++ onlyIf "default" isDefault)

def caseClauses (dead : Nat → Bool) : List CaseClause → List JsonDoc
  | [] => []
  | c :: rest => caseClause dead c :: caseClauses dead rest

def catchClause (dead : Nat → Bool) : CatchClause → JsonDoc
  | .mk m param body =>
    object dead "CatchClause" m
      (param.elim [] (fun p => [("name", .text p.1.text), ("errtype", expr dead p.2)])
        ++ [("body", block dead body)])

def catchClauses (dead : Nat → Bool) : List CatchClause → List JsonDoc
  | [] => []
  | c :: rest => catchClause dead c :: catchClauses dead rest

end

def param (dead : Nat → Bool) (p : Param) : JsonDoc :=
  object dead "Field" p.mark
    ([("name", .text p.name.text), ("fieldtype", expr dead p.type)] ++ onlyIf "out" p.out)

def func (dead : Nat → Bool) (d : FuncDecl) : JsonDoc :=
  object dead "FuncDecl" d.mark
    ([("name", .text d.name.text), ("params", .list (d.params.map (param dead)))]
      ++ (if d.throws.isEmpty then [] else [("throws", .list (exprs dead d.throws))])
      ++ optional "result" (d.result.map (expr dead)) ++ [("body", block dead d.body)])

def errorDomain (dead : Nat → Bool) (d : ErrorDomainDecl) : JsonDoc :=
  object dead "ErrorDomainDecl" d.mark
    [("name", .text d.name.text), ("codes", .list (d.codes.map fun c => .text c.text))]

def decl (dead : Nat → Bool) : Decl → JsonDoc
  | .errorDomain d => errorDomain dead d
  | .var d => varDecl dead d
  | .func d => func dead d

def file (dead : Nat → Bool) (f : File) : JsonDoc :=
  object dead "File" f.mark
    [("package", .text f.package.text), ("decls", .list (f.decls.map (decl dead)))]

def node (dead : Nat → Bool) : Node → JsonDoc
  | .file f => file dead f
  | .errorDomain d => errorDomain dead d
  | .varDecl d => varDecl dead d
  | .func d => func dead d
  | .param p => param dead p
  | .expr x => expr dead x
  | .stmt s => stmt dead s
  | .caseClause c => caseClause dead c
  | .catchClause c => catchClause dead c

end FlowCheck.Document

namespace FlowCheck

/-- The JSON text of a tree. -/
def Node.json (dead : Nat → Bool) (n : Node) : String := (Document.node dead n).toText

end FlowCheck
